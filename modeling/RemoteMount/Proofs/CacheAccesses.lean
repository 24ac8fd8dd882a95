import RemoteMount.AttributeCache
import RemoteMount.Proofs.Paths

namespace RemoteMount

open RemotePath

variable {c : AttributeCache} {path dir p : RemotePath} {g n : Nat}

namespace AttributeCache

theorem lookup_eq (c : AttributeCache) (p : RemotePath) :
    c.lookup p = p.name?.bind fun name ↦ (c.listings.get? p.parent).bind (·.get? name) := rfl

@[simp] theorem lookup_empty (p : RemotePath) : empty.lookup p = none := by
  rw [lookup_eq]
  cases p.name? <;> rfl

theorem lookup_populate (records : List (String × Attributes)) : (c.populate dir records).lookup p =
    if p.parent = dir then p.name?.bind (KeyMap.ofList records).get? else c.lookup p := by
  simp only [lookup_eq, populate, KeyMap.get?_insert]
  split <;> cases p.name? <;> rfl

theorem lookup_populate_cases {records : List (String × Attributes)} {a : Attributes}
    (h : (c.populate dir records).lookup p = some a) :
    (∃ name, p.parent = dir ∧ p.name? = some name ∧ (name, a) ∈ records) ∨ p.parent ≠ dir ∧
    c.lookup p = some a := by
  rw [lookup_populate] at h
  split at h
  · rename_i hp
    obtain ⟨name, hn, ha⟩ := Option.bind_eq_some_iff.1 h
    exact .inl ⟨name, hp, hn, KeyMap.mem_of_get?_ofList ha⟩
  · rename_i hp
    exact .inr ⟨hp, h⟩

theorem lookup_invalidate :
    (c.invalidate dir).2.lookup p = if p.parent = dir then none else c.lookup p := by
  simp only [lookup_eq, invalidate, KeyMap.get?_erase]
  split <;> cases p.name? <;> rfl

theorem lookup_invalidateTree : (c.invalidateTree path).lookup p =
    if p.parent.within path then none else c.lookup p := by
  simp only [lookup_eq, invalidateTree, KeyMap.get?_filter]
  cases p.name? with
  | none => simp
  | some name =>
    cases hw : p.parent.within path <;> cases c.listings.get? p.parent <;> simp [Option.filter]

@[simp] theorem lookup_clear : c.clear.lookup p = none := by
  rw [lookup_eq]
  cases p.name? <;> rfl

theorem lookup_updateSize (size : UInt64) : (c.updateSize path size).2.lookup p =
    if p = path then (c.lookup p).map fun a ↦ { a with size := size } else c.lookup p := by
  unfold updateSize
  split
  · rename_i name a hn ha
    simp only [lookup_eq, KeyMap.get?_modify]
    by_cases hp : p = path
    · subst hp
      cases hl : c.listings.get? p.parent with
      | none => simp [hn]
      | some l => simp [hn, KeyMap.get?_modify]
    · by_cases hparent : p.parent = path.parent
      · cases hpn : p.name? with
        | none => simp
        | some name' =>
          have hne : name' ≠ name := by
            intro hx
            subst hx
            exact hp (eq_of_parent_of_name hparent (hpn.trans hn.symm))
          cases hl : c.listings.get? path.parent with
          | none => simp [hparent, hl]
          | some l => simp [hp, hparent, hl, KeyMap.get?_modify, hne]
      · simp [hp, hparent]
  · rename_i hno
    split
    · rename_i hp
      subst hp
      cases hn : p.name? with
      | none => simp [lookup_eq, hn]
      | some name =>
        cases ha : c.lookup p with
        | none => rfl
        | some a => exact absurd ha (hno name a hn)
    · rfl

/-- The walk up from a directory finds the subtrees that it is in. -/
theorem droppedAbove_iff {stamps : KeyMap RemotePath Nat} {levels : Nat} (h : dir.depth = levels) :
    droppedAbove stamps g levels dir = true ↔
      ∃ path n, stamps.get? path = some n ∧ dir.within path = true ∧ g < n := by
  induction levels generalizing dir with
  | zero =>
    have hroot : dir = .root := RemotePath.segments_injective (List.length_eq_zero_iff.1 h)
    subst hroot
    simp only [droppedAbove, Option.any_eq_true, decide_eq_true_eq, RemotePath.within_root_iff]
    constructor
    · rintro ⟨n, hn, hlt⟩
      exact ⟨_, n, hn, rfl, hlt⟩
    · rintro ⟨path, n, hn, rfl, hlt⟩
      exact ⟨n, hn, hlt⟩
  | succ levels ih =>
    have hne : dir ≠ .root := by
      rintro rfl
      cases h
    have hparent : dir.parent.depth = levels := by
      rw [RemotePath.depth_parent hne] at h
      omega
    simp only [droppedAbove, Bool.or_eq_true, Option.any_eq_true, decide_eq_true_eq, ih hparent]
    -- A subtree that holds the directory is its own or holds its parent.
    constructor
    · rintro (⟨n, hn, hlt⟩ | ⟨path, n, hn, hw, hlt⟩)
      · exact ⟨dir, n, hn, dir.within_self, hlt⟩
      · exact ⟨path, n, hn, RemotePath.within_of_parent_within hw, hlt⟩
    · rintro ⟨path, n, hn, hw, hlt⟩
      by_cases hp : dir = path
      · exact .inl ⟨n, hp ▸ hn, hlt⟩
      · exact .inr ⟨path, n, hn, RemotePath.parent_within hw hp, hlt⟩

theorem staleSince_iff : c.staleSince dir g = true ↔ g < c.clearedAt ∨
    (∃ n, c.directoryStamps.get? dir = some n ∧ g < n) ∨
    ∃ path n, c.subtreeStamps.get? path = some n ∧ dir.within path = true ∧ g < n := by
  simp only [staleSince, Bool.or_eq_true, decide_eq_true_eq, Option.any_eq_true,
    droppedAbove_iff rfl]
  rw [or_assoc]

end AttributeCache

namespace CacheAccess

/-- Whether the access drops the listing of a directory, as mutations do around their
requests. -/
def Drops : CacheAccess → RemotePath → Prop
  | invalidate dir, d => d = dir
  | invalidateTree path, d => d.within path = true
  | clear, _ => True
  | _, _ => False

theorem lookup_of_drops {a : CacheAccess} (h : a.Drops p.parent) : (a.run c).2.lookup p = none := by
  cases a with
  | invalidate dir => exact AttributeCache.lookup_invalidate.trans (if_pos h)
  | invalidateTree path => exact AttributeCache.lookup_invalidateTree.trans (if_pos h)
  | clear => exact AttributeCache.lookup_clear
  | _ => exact h.elim

theorem generation_le (c : AttributeCache) (a : CacheAccess) :
    c.generation ≤ (a.run c).2.generation := by
  cases a with
  | populateIfCurrent dir g records =>
    simp only [run, AttributeCache.populateIfCurrent]
    split <;> exact le_refl _
  | updateSize path size =>
    simp only [run, AttributeCache.updateSize]
    split <;> exact le_refl _
  | invalidate dir => exact Nat.le_succ _
  | invalidateTree path => exact Nat.le_succ _
  | clear => exact Nat.le_succ _
  | _ => exact le_refl _

theorem staleSince_of_drops {a : CacheAccess} (h : a.Drops dir) (hg : g ≤ c.generation) :
    (a.run c).2.staleSince dir g = true := by
  have hlt : g < c.generation + 1 := by omega
  rw [AttributeCache.staleSince_iff]
  cases a with
  | invalidate dir' =>
    obtain rfl : dir = dir' := h
    refine .inr (.inl ⟨c.generation + 1, ?_, hlt⟩)
    simp only [run, AttributeCache.invalidate, KeyMap.get?_insert, if_true]
  | invalidateTree path =>
    refine .inr (.inr ⟨path, c.generation + 1, ?_, h, hlt⟩)
    simp only [run, AttributeCache.invalidateTree, KeyMap.get?_insert, if_true]
  | clear => exact .inl hlt
  | _ => exact h.elim

theorem staleSince_run {a : CacheAccess} (h : c.staleSince dir g = true) (hg : g ≤ c.generation) :
    (a.run c).2.staleSince dir g = true := by
  have hlt : g < c.generation + 1 := by omega
  cases a with
  | lookup | generation | populate | hasListing | isEmpty => exact h
  | populateIfCurrent dir' g' records =>
    simp only [run, AttributeCache.populateIfCurrent]
    split <;> exact h
  | updateSize path size =>
    simp only [run, AttributeCache.updateSize]
    split <;> exact h
  | clear => exact staleSince_of_drops (a := .clear) trivial hg
  | invalidate dir' =>
    rw [AttributeCache.staleSince_iff] at h ⊢
    refine h.imp_right (Or.imp_left ?_)
    intro hx
    obtain ⟨n, hn, hgn⟩ := hx
    simp only [run, AttributeCache.invalidate, KeyMap.get?_insert]
    split
    · exact ⟨c.generation + 1, rfl, hlt⟩
    · exact ⟨n, hn, hgn⟩
  | invalidateTree path =>
    rw [AttributeCache.staleSince_iff] at h ⊢
    refine h.imp_right (Or.imp_right ?_)
    intro hx
    obtain ⟨path', n, hn, hw, hgn⟩ := hx
    simp only [run, AttributeCache.invalidateTree, KeyMap.get?_insert]
    by_cases hp : path' = path
    · exact ⟨path', c.generation + 1, by rw [if_pos hp], hw, hlt⟩
    · exact ⟨path', n, by rw [if_neg hp, hn], hw, hgn⟩

def stores (c : AttributeCache) (p : RemotePath) : CacheAccess → Bool
  | populate dir _ => p.parent = dir
  | populateIfCurrent dir g _ => p.parent = dir && !c.staleSince dir g
  | updateSize path _ => p = path
  | _ => false

theorem lookup_run_of_not_stores {a : CacheAccess} (hd : ¬a.Drops p.parent)
    (hs : a.stores c p = false) :
    (a.run c).2.lookup p = c.lookup p := by
  cases a with
  | lookup | generation | hasListing | isEmpty => rfl
  | populate dir records =>
    have hne : p.parent ≠ dir := of_decide_eq_false hs
    rw [run, AttributeCache.lookup_populate, if_neg hne]
  | populateIfCurrent dir g records =>
    simp only [run, AttributeCache.populateIfCurrent]
    split
    · rfl
    · rename_i hc
      have hne : p.parent ≠ dir := by simpa [stores, hc] using hs
      rw [AttributeCache.lookup_populate, if_neg hne]
  | invalidate dir =>
    have hne : p.parent ≠ dir := hd
    rw [run, AttributeCache.lookup_invalidate, if_neg hne]
  | invalidateTree path =>
    have hw : ¬p.parent.within path = true := hd
    rw [run, AttributeCache.lookup_invalidateTree, if_neg hw]
  | updateSize path size =>
    have hne : p ≠ path := of_decide_eq_false hs
    rw [run, AttributeCache.lookup_updateSize, if_neg hne]
  | clear => exact absurd trivial hd

/-- A record that is found after an access was found before, up to its size, or is of the
listing that the access stored. -/
theorem lookup_run_cases {a : CacheAccess} {r : Attributes} (h : (a.run c).2.lookup p = some r) :
    (¬a.Drops p.parent ∧ ∃ r', c.lookup p = some r' ∧ r'.kind = r.kind) ∨
    (∃ name dir records, p.parent = dir ∧ p.name? = some name ∧ (name, r) ∈ records ∧
      (a = .populate dir records ∨ ∃ g, a = .populateIfCurrent dir g records ∧
        c.staleSince dir g = false)) := by
  by_cases hd : a.Drops p.parent
  · rw [lookup_of_drops hd] at h
    cases h
  cases a with
  | lookup | generation | hasListing | isEmpty => exact .inl ⟨hd, r, h, rfl⟩
  | populate dir records =>
    rcases AttributeCache.lookup_populate_cases h with ⟨name, hp, hn, hm⟩ | ⟨-, h⟩
    · exact .inr ⟨name, dir, records, hp, hn, hm, .inl rfl⟩
    · exact .inl ⟨hd, r, h, rfl⟩
  | populateIfCurrent dir g records =>
    simp only [run, AttributeCache.populateIfCurrent] at h
    split at h
    · exact .inl ⟨hd, r, h, rfl⟩
    · rename_i hs
      rcases AttributeCache.lookup_populate_cases h with ⟨name, hp, hn, hm⟩ | ⟨-, h⟩
      · exact .inr ⟨name, dir, records, hp, hn, hm, .inr ⟨g, rfl, Bool.eq_false_iff.2 hs⟩⟩
      · exact .inl ⟨hd, r, h, rfl⟩
  | invalidate dir =>
    have hne : p.parent ≠ dir := hd
    rw [run, AttributeCache.lookup_invalidate, if_neg hne] at h
    exact .inl ⟨hd, r, h, rfl⟩
  | invalidateTree path =>
    have hw : ¬p.parent.within path = true := hd
    rw [run, AttributeCache.lookup_invalidateTree, if_neg hw] at h
    exact .inl ⟨hd, r, h, rfl⟩
  | updateSize path size =>
    rw [run, AttributeCache.lookup_updateSize] at h
    split at h
    · obtain ⟨r', hr', rfl⟩ := Option.map_eq_some_iff.1 h
      exact .inl ⟨hd, r', hr', rfl⟩
    · exact .inl ⟨hd, r, h, rfl⟩
  | clear => exact absurd trivial hd

theorem listings_run_cases {a : CacheAccess} {listing : KeyMap String Attributes}
    (h : (a.run c).2.listings.get? dir = some listing) :
    ¬a.Drops dir ∧ c.listings.get? dir = some listing ∨
    (∃ records, (a = .populate dir records ∨ ∃ g, a = .populateIfCurrent dir g records ∧
      c.staleSince dir g = false) ∧
      listing = .ofList records) ∨
    ∃ path size, a = .updateSize path size := by
  cases a with
  | lookup | generation | hasListing | isEmpty => exact .inl ⟨id, h⟩
  | updateSize path size => exact .inr (.inr ⟨path, size, rfl⟩)
  | populate dir' records =>
    simp only [run, AttributeCache.populate, KeyMap.get?_insert] at h
    split at h
    · rename_i hd
      subst hd
      exact .inr (.inl ⟨records, .inl rfl, (Option.some_inj.1 h).symm⟩)
    · exact .inl ⟨id, h⟩
  | populateIfCurrent dir' g records =>
    simp only [run, AttributeCache.populateIfCurrent] at h
    split at h
    · exact .inl ⟨id, h⟩
    · rename_i hstale
      simp only [AttributeCache.populate, KeyMap.get?_insert] at h
      split at h
      · rename_i hd
        subst hd
        refine .inr (.inl ⟨records, .inr ⟨g, rfl, Bool.eq_false_iff.2 hstale⟩,
          (Option.some_inj.1 h).symm⟩)
      · exact .inl ⟨id, h⟩
  | invalidate dir' =>
    simp only [run, AttributeCache.invalidate, KeyMap.get?_erase] at h
    split at h
    · cases h
    · rename_i hd
      exact .inl ⟨hd, h⟩
  | invalidateTree path =>
    simp only [run, AttributeCache.invalidateTree, KeyMap.get?_filter,
      Option.filter_eq_some_iff] at h
    exact .inl ⟨by simpa [Drops] using h.2, h.1⟩
  | clear => cases h

end CacheAccess

end RemoteMount
