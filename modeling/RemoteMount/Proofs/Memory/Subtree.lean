import RemoteMount.Memory.Tree
import RemoteMount.Proofs.MovedKeys

namespace RemoteMount.Memory.Tree

open RemotePath

variable {t : Tree} {p q old new dir : RemotePath} {node : Node}

instance (t : Tree) : Decidable t.WellFormed := inferInstanceAs (Decidable (_ ∧ _))

theorem requireDirectory_eq_ok_iff {u : Unit} :
    t.requireDirectory p = .ok u ↔ t.get? p = some .directory := by
  unfold requireDirectory
  split <;> simp_all

theorem WellFormed.parent_directory (h : t.WellFormed) (hp : t.get? p = some node) :
    t.get? p.parent = some .directory :=
  h.2 p (KeyMap.mem_keys_iff.2 (by rw [hp]; rfl))

theorem wellFormed_iff : t.WellFormed ↔ t.get? root = some .directory ∧
    ∀ p, (t.get? p).isSome → t.get? p.parent = some .directory := by
  simp only [WellFormed, KeyMap.mem_keys_iff]

theorem WellFormed.directory_of_within (h : t.WellFormed) (hp : t.get? p = some node)
    (hw : p.within dir = true) (hne : p ≠ dir) : t.get? dir = some .directory := by
  obtain ⟨n, hn⟩ : ∃ n, p.depth = n := ⟨_, rfl⟩
  induction n generalizing p node with
  | zero =>
    have hr : p = root := segments_injective (List.length_eq_zero_iff.1 hn)
    subst hr
    exact absurd (within_root_iff.1 hw).symm hne
  | succ n ih =>
    have hparent := h.parent_directory hp
    by_cases he : p.parent = dir
    · rwa [← he]
    · refine ih hparent (parent_within hw hne) he ?_
      simp only [depth, parent, List.length_dropLast] at hn ⊢
      omega

theorem hasDescendants_eq_false_iff : t.hasDescendants dir = false ↔
    ∀ p, (t.get? p).isSome → p.within dir = true → p = dir := by
  simp only [hasDescendants, List.any_eq_false, KeyMap.mem_keys_iff, Bool.and_eq_true,
    Bool.not_eq_true', bne_iff_ne, ne_eq, not_and]
  constructor
  · intro h p hp hw
    by_cases hr : p = root
    · subst hr
      exact (within_root_iff.1 hw).symm
    · by_contra hne
      exact h p hp ⟨Bool.eq_false_iff.2 (mt isRoot_iff.1 hr), hne⟩ hw
  · intro h p hp hne hw
    exact hne.2 (h p hp hw)

theorem WellFormed.eq_of_within_file {content : Content} (h : t.WellFormed)
    (hf : t.get? dir = some (.file content)) (hp : (t.get? p).isSome) (hw : p.within dir = true) :
    p = dir := by
  obtain ⟨node, hnode⟩ := Option.isSome_iff_exists.1 hp
  by_contra hne
  have hd := h.directory_of_within hnode hw hne
  rw [hf] at hd
  cases hd

theorem WellFormed.insert (h : t.WellFormed) (hparent : t.get? p.parent = some .directory)
    (hk : ∀ q, (t.get? q).isSome → q.parent = p → node = .directory)
    (hr : p = root → node = .directory) :
    WellFormed (t.insert p node) := by
  rw [wellFormed_iff]
  constructor
  · rw [KeyMap.get?_insert]
    split
    · rename_i he
      rw [hr he.symm]
    · exact h.1
  · intro q hq
    rw [KeyMap.get?_insert] at hq ⊢
    by_cases hqp : q = p
    · subst hqp
      split
      · rename_i he
        have hroot : q = root := by
          by_contra hne
          exact parent_ne_self hne he
        rw [hr hroot]
      · exact hparent
    · rw [if_neg hqp] at hq
      split
      · rename_i he
        rw [hk q hq he]
      · exact (wellFormed_iff.1 h).2 q hq

theorem WellFormed.erase (h : t.WellFormed) (hr : p ≠ root)
    (hc : ∀ q, (t.get? q).isSome → q.within p = true → q = p) : WellFormed (t.erase p) := by
  rw [wellFormed_iff]
  constructor
  · rw [KeyMap.get?_erase, if_neg (Ne.symm hr)]
    exact h.1
  · intro q hq
    rw [KeyMap.get?_erase] at hq ⊢
    by_cases hqp : q = p
    · rw [if_pos hqp] at hq
      cases hq
    · rw [if_neg hqp] at hq
      have hne : q.parent ≠ p := by
        intro he
        exact hqp (hc q hq (he ▸ q.within_parent))
      rw [if_neg hne]
      exact (wellFormed_iff.1 h).2 q hq

theorem moveNode_eq (old new : RemotePath) : moveNode old new = KeyMap.moveKey old new := by
  funext t p
  unfold moveNode KeyMap.moveKey
  cases t.get? p <;> cases p.rebase old new <;> rfl

theorem get?_moveNode_of_outside (p : RemotePath) (ho : q.within old = false)
    (hn : q.within new = false) :
    (moveNode old new t p).get? q = t.get? q := by
  unfold moveNode
  split
  · rename_i node target hp ht
    have hqt : q ≠ target := by
      intro hx
      subst hx
      rw [rebase_within ht] at hn
      cases hn
    have hqp : q ≠ p := by
      intro hx
      subst hx
      rw [within_of_rebase ht] at ho
      cases ho
    rw [KeyMap.get?_insert, if_neg hqt, KeyMap.get?_erase, if_neg hqp]
  · rfl

/-- No path lies within both of two places. -/
def Apart (old new : RemotePath) : Prop :=
  ∀ p : RemotePath, p.within old = true → p.within new = false

theorem apart_of_not_within (h : old.within new = false) (h' : new.within old = false) :
    Apart old new := by
  intro p hp
  by_contra hn
  rw [Bool.not_eq_false] at hn
  rcases within_or_within hp hn with hw | hw
  · rw [h] at hw
    cases hw
  · rw [h'] at hw
    cases hw

theorem get?_moveSubtree_of_outside (ho : q.within old = false) (hn : q.within new = false) :
    (t.moveSubtree old new).get? q = t.get? q := by
  have hne : q ≠ new := by
    intro hx
    subst hx
    rw [within_self] at hn
    cases hn
  have herased : KeyMap.get? (t.erase new) q = t.get? q := by rw [KeyMap.get?_erase, if_neg hne]
  exact List.foldlRecOn (motive := fun t' ↦ KeyMap.get? t' q = t.get? q) _
    (moveNode old new) herased
    fun _ h p _ ↦ (get?_moveNode_of_outside p ho hn).trans h

/-- After a move onto a place with nothing below it, the new place holds what the old one
held. -/
theorem get?_moveSubtree (ha : Apart old new)
    (hc : ∀ p, (t.get? p).isSome → p.within new = true → p = new) :
    (t.moveSubtree old new).get? q =
      if q.within new then (q.rebase new old).bind t.get?
      else if q.within old then none else t.get? q := by
  have hmem : ∀ p, p ∈ ((t.keys.filter (·.within old)).mergeSort fun p q ↦ (p.order q).isLE) ↔
      (t.get? p).isSome ∧ p.within old = true := by
    intro p
    rw [List.mem_mergeSort, List.mem_filter, KeyMap.mem_keys_iff]
  have hnodup : ((t.keys.filter (·.within old)).mergeSort fun p q ↦ (p.order q).isLE).Nodup :=
    (List.mergeSort_perm _ _).nodup_iff.2 (t.nodup.filter _)
  have hkeep : ∀ p, p.within old = true → (t.erase new).get? p = t.get? p := by
    intro p hp
    have hne : p ≠ new := by
      intro hx
      subst hx
      have hn := ha p hp
      rw [within_self] at hn
      cases hn
    rw [KeyMap.get?_erase, if_neg hne]
  obtain ⟨hold, hnew⟩ := KeyMap.get?_foldl_moveKey (m := t.erase new) hnodup (by
    intro p hp
    obtain ⟨hs, hw⟩ := (hmem p).1 hp
    exact ⟨hw, by rwa [hkeep p hw]⟩) fun p hp ↦ ha p ((hmem p).1 hp).2
  by_cases hqn : q.within new = true
  · obtain ⟨p, hp⟩ := exists_rebase old hqn
    have hpw := rebase_within hp
    rw [moveSubtree, moveNode_eq, hnew p q (rebase_symm hp), hkeep p hpw, if_pos hqn, hp,
      Option.bind_some]
    split
    · rfl
    · rename_i hpl
      have hpn : t.get? p = none := by
        by_contra hne
        exact hpl ((hmem p).2 ⟨Option.isSome_iff_ne_none.2 hne, hpw⟩)
      have hqn' : (t.erase new).get? q = none := by
        rw [KeyMap.get?_erase]
        split
        · rfl
        · rename_i hne
          by_contra hs
          exact hne (hc q (Option.isSome_iff_ne_none.2 hs) hqn)
      rw [hpn, hqn']
  · rw [Bool.not_eq_true] at hqn
    by_cases hqo : q.within old = true
    · rw [if_neg (Bool.eq_false_iff.1 hqn), if_pos hqo, moveSubtree, moveNode_eq, hold q (ha q hqo),
        hkeep q hqo]
      split
      · rfl
      · rename_i hql
        by_contra hne
        exact hql ((hmem q).2 ⟨Option.isSome_iff_ne_none.2 hne, hqo⟩)
    · rw [Bool.not_eq_true] at hqo
      rw [get?_moveSubtree_of_outside hqo hqn]
      simp [hqn, hqo]

end RemoteMount.Memory.Tree
