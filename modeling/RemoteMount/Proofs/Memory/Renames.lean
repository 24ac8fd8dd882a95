import RemoteMount.Proofs.Memory.Grants
import RemoteMount.Proofs.Memory.Walk

namespace RemoteMount.Memory

open RemotePath

namespace Tree

variable {t t' : Tree} {old new dir p : RemotePath} {source : Node}

/-- What may take the place of what is at `new`: anything if nothing is there, a file that of a
file, a directory that of a directory in which nothing is. -/
inductive Replaceable (t : Tree) (source : Node) (new : RemotePath) : Prop
  | free (h : t.get? new = none)
  | file {content content' : Content} (hs : source = .file content)
    (h : t.get? new = some (.file content'))
  | directory (hs : source = .directory) (h : t.get? new = some .directory)
    (he : ∀ p, p.parent = new → t.get? p = none)

structure Renamable (t : Tree) (old new : RemotePath) : Prop where
  old_ne_root : old ≠ root
  new_ne_root : new ≠ root
  target : ∃ source, t.get? old = some source ∧ (old = new ∨
    new.within old = false ∧ t.get? new.parent = some .directory ∧ t.Replaceable source new)

theorem hasDescendants_eq_false_iff_children (ht : t.WellFormed) (hr : dir ≠ root) :
    t.hasDescendants dir = false ↔ ∀ p, p.parent = dir → t.get? p = none := by
  rw [hasDescendants_eq_false_iff]
  constructor
  · intro h p hp
    rw [Option.eq_none_iff_forall_ne_some]
    intro node hnode
    have heq : p = dir := h p (by rw [hnode]; rfl) (hp ▸ p.within_parent)
    exact parent_ne_self hr (heq ▸ hp)
  · intro h p hp hw
    -- Around a path further below stands one that is in the directory itself.
    by_contra hne
    obtain ⟨q, -, hq, hwq⟩ := exists_child_around hw hne
    have hnone := h q hq
    obtain ⟨node, hnode⟩ := Option.isSome_iff_exists.1 hp
    by_cases heq : p = q
    · rw [← heq, hnode] at hnone
      cases hnone
    · rw [ht.directory_of_within hnode hwq heq] at hnone
      cases hnone

theorem requireReplaceable_eq_ok_iff (ht : t.WellFormed) (hr : new ≠ root) :
    t.requireReplaceable new source = .ok () ↔ t.Replaceable source new := by
  have hempty := hasDescendants_eq_false_iff_children ht hr
  constructor
  · intro h
    cases hn : t.get? new with
    | none => exact .free hn
    | some target =>
      cases source with
      | file content =>
        cases target with
        | directory => simp [requireReplaceable, hn] at h
        | file content' => exact .file rfl hn
      | directory =>
        cases target with
        | file content' => simp [requireReplaceable, hn] at h
        | directory =>
          refine .directory rfl hn (hempty.1 ?_)
          by_contra hd
          simp [requireReplaceable, hn, hd] at h
  · intro h
    cases h with
    | free hn => cases source <;> simp [requireReplaceable, hn]
    | file hs hn => simp [requireReplaceable, hs, hn]
    | directory hs hn he => simp [requireReplaceable, hs, hn, hempty.2 he]

theorem rename_eq_ok_iff (ht : t.WellFormed) :
    (∃ t', t.rename old new = .ok t') ↔ t.Renamable old new := by
  constructor
  · intro h
    obtain ⟨t', h⟩ := h
    unfold rename at h
    split at h
    · cases h
    rename_i hroot
    rw [Bool.or_eq_true, not_or, isRoot_iff, isRoot_iff] at hroot
    split at h
    · cases h
    rename_i source hs
    refine ⟨hroot.1, hroot.2, source, hs, ?_⟩
    split at h
    · exact .inl ‹_›
    split at h
    · cases h
    · rename_i hw
      obtain ⟨_, hd, h⟩ := exists_of_bind_eq_ok h
      obtain ⟨_, hq, -⟩ := exists_of_bind_eq_ok h
      exact .inr ⟨Bool.eq_false_iff.2 hw, requireDirectory_eq_ok_iff.1 hd,
        (requireReplaceable_eq_ok_iff ht hroot.2).1 hq⟩
  · intro h
    obtain ⟨source, hs, htarget⟩ := h.target
    have hroot : ¬(old.isRoot || new.isRoot) = true := by
      rw [Bool.or_eq_true, isRoot_iff, isRoot_iff]
      exact not_or.2 ⟨h.old_ne_root, h.new_ne_root⟩
    unfold rename
    rw [if_neg hroot, hs]
    dsimp only
    by_cases he : old = new
    · exact ⟨t, if_pos he⟩
    obtain ⟨hw, hd, hq⟩ := htarget.resolve_left he
    have hreplaceable := (requireReplaceable_eq_ok_iff ht h.new_ne_root).2 hq
    rw [if_neg he, if_neg (Bool.eq_false_iff.1 hw), requireDirectory_eq_ok_iff (u := ()).2 hd,
      hreplaceable]
    exact ⟨_, rfl⟩

end Tree

namespace Device

variable {d : Device} {old new : RemotePath}

theorem answer_rename (old new : RemotePath) (hf : d.faults.get? .rename = none) :
    ((d.answer (.rename old new)).1 = .ok () ↔ ∃ t, d.tree.rename old new = .ok t) ∧
      (d.answer (.rename old new)).2.tree = (d.tree.rename old new).toOption.getD d.tree := by
  rw [answer_of_no_fault hf]
  simp only [perform, release, enter]
  cases d.tree.rename old new with
  | error e =>
    refine ⟨⟨?_, ?_⟩, rfl⟩
    · rintro ⟨⟩
    · rintro ⟨t, ⟨⟩⟩
  | ok t => exact ⟨⟨fun _ ↦ ⟨t, rfl⟩, fun _ ↦ rfl⟩, rfl⟩

/-- Without a fault, renaming is granted if the paths allow it. Then all that was at the old
place or below is at the new one, nothing is left behind, and nothing else has changed. What is
refused, or renamed to itself, leaves all as it was. -/
theorem rename_moves_subtree (old new : RemotePath) (ht : d.tree.WellFormed)
    (hf : d.faults.get? .rename = none) :
    ((d.answer (.rename old new)).1 = .ok () ↔ d.tree.Renamable old new) ∧
    ((d.answer (.rename old new)).1 = .ok () → old ≠ new →
      ∀ q, (d.answer (.rename old new)).2.tree.get? q =
      if q.within new then (q.rebase new old).bind d.tree.get? else if q.within old then none
        else d.tree.get? q) ∧
    ((∃ e, (d.answer (.rename old new)).1 = .error e) ∨ old = new →
      ∀ q, (d.answer (.rename old new)).2.tree.get? q = d.tree.get? q) := by
  obtain ⟨hgranted, htree⟩ := answer_rename old new hf
  refine ⟨hgranted.trans (Tree.rename_eq_ok_iff ht), ?_, ?_⟩
  · intro hx hne q
    obtain ⟨t, hrename⟩ := hgranted.1 hx
    rw [htree, hrename]
    rcases Tree.get?_rename ht hrename with ⟨he, -⟩ | ⟨-, -, hget⟩
    · exact absurd he hne
    · exact hget q
  · intro hx q
    cases hrename : d.tree.rename old new with
    | error e =>
      rw [htree, hrename]
      rfl
    | ok t =>
      rw [htree, hrename]
      rcases Tree.get?_rename ht hrename with ⟨-, rfl⟩ | ⟨hne, -, -⟩
      · rfl
      · obtain ⟨e, he⟩ := hx.resolve_right hne
        rw [hgranted.2 ⟨t, hrename⟩] at he
        cases he

section Examples

def cardCopy : RemotePath := storageCard.parent.child ⟨"microsdx", by decide⟩

theorem isSegment_log : IsSegment "log" := by decide

def movedLogDirectory : RemotePath := cardCopy.child ⟨"log", isSegment_log⟩

theorem rename_moves_subtree_cardCopy : px4.tree.WellFormed ∧ px4.faults.get? .rename = none ∧
    (px4.answer (.rename storageCard cardCopy)).1 = .ok () ∧
    (px4.answer (.rename storageCard cardCopy)).2.tree.get? movedLogDirectory = some .directory ∧
    (px4.answer (.rename storageCard cardCopy)).2.tree.get? logDirectory = none := by
  have h := rename_moves_subtree (d := px4) storageCard cardCopy wellFormed_px4 rfl
  have hgranted : (px4.answer (.rename storageCard cardCopy)).1 = .ok () := by
    refine h.1.2 ⟨by decide, by decide, .directory, by decide +kernel,
      .inr ⟨by decide, by decide +kernel, .free ?_⟩⟩
    decide +kernel
  have hmoved := h.2.1 hgranted (by decide)
  refine ⟨wellFormed_px4, rfl, hgranted, ?_, ?_⟩
  · rw [hmoved]
    decide +kernel
  · rw [hmoved]
    decide +kernel

end Examples

end Device

end RemoteMount.Memory
