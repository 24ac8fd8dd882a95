import RemoteMount.InodeTable
import Mathlib.Tactic.ByContra

namespace RemoteMount.InodeTable

open RemotePath

variable {t : InodeTable} {p q : RemotePath} {i j n : Nat}

/-- A mapped path is the path of its number, and numbers are below the next one. -/
structure Sound (t : InodeTable) : Prop where
  path_of_inode : ∀ p i, t.inode? p = some i → t.path? i = some p
  lt_next : ∀ i p, t.path? i = some p → i < t.next

theorem Sound.inode_injective (h : t.Sound) (hp : t.inode? p = some i)
    (hq : t.inode? q = some i) : p = q :=
  Option.some_inj.1 ((h.path_of_inode p i hp).symm.trans (h.path_of_inode q i hq))

theorem lookups?_eq_none_iff : t.lookups? i = none ↔ t.path? i = none := by
  rw [lookups?, path?, Option.map_eq_none_iff, Option.map_eq_none_iff]

theorem Sound.path?_next (h : t.Sound) : t.path? t.next = none := by
  by_contra hne
  obtain ⟨p, hp⟩ := Option.ne_none_iff_exists'.1 hne
  exact Nat.lt_irrefl _ (h.lt_next _ p hp)

theorem sound_initial : initial.Sound := by
  have hpath : ∀ i, initial.path? i = if i = rootInode then some root else none := by
    intro i
    rw [path?, initial, KeyMap.get?_insert, KeyMap.get?_empty]
    split <;> rfl
  have hinode : ∀ p, initial.inode? p = if p = root then some rootInode else none := by
    intro p
    rw [inode?, initial, KeyMap.get?_insert, KeyMap.get?_empty]
  constructor
  · intro p i hp
    rw [hinode] at hp
    split at hp
    · rename_i hr
      cases hp
      rw [hpath, if_pos rfl, hr]
    · cases hp
  · intro i p hp
    rw [hpath] at hp
    split at hp
    · rename_i hi
      rw [hi]
      exact Nat.lt_succ_self _
    · cases hp

section Numbering

/-- The answer of an operation that gives a path its number: the one that it has, or else the
next one. The count of the number goes up by `extra`. -/
structure Numbers (t : InodeTable) (p : RemotePath) (extra : Nat)
    (x : Nat × InodeTable) : Prop where
  number : x.1 = (t.inode? p).getD t.next
  inode : ∀ q, x.2.inode? q = if q = p then some x.1 else t.inode? q
  path : ∀ j, x.2.path? j = if j = x.1 then some p else t.path? j
  lookups : ∀ j, x.2.lookups? j = if j = x.1 then some ((t.lookups? j).getD 0 + extra)
    else t.lookups? j
  next_le : t.next ≤ x.2.next
  lt_next : x.1 < x.2.next

theorem Numbers.sound {extra : Nat} {x : Nat × InodeTable} (h : t.Numbers p extra x)
    (ht : t.Sound) : x.2.Sound := by
  constructor
  · intro q i hq
    rw [h.inode] at hq
    rw [h.path]
    split at hq
    · rename_i he
      cases hq
      rw [if_pos rfl, he]
    · rename_i hne
      have hpath := ht.path_of_inode q i hq
      -- A fresh number has no path yet, and one that is known has only `p`.
      have hi : i ≠ x.1 := by
        intro he
        rw [h.number] at he
        cases hp : t.inode? p with
        | none =>
          rw [hp, Option.getD_none] at he
          rw [he, ht.path?_next] at hpath
          cases hpath
        | some i' =>
          rw [hp, Option.getD_some] at he
          subst he
          exact hne (ht.inode_injective hq hp)
      rw [if_neg hi, hpath]
  · intro i q hi
    rw [h.path] at hi
    split at hi
    · rename_i he
      rw [he]
      exact h.lt_next
    · exact Nat.lt_of_lt_of_le (ht.lt_next i q hi) h.next_le

theorem Numbers.ne_of_path? {extra : Nat} {x : Nat × InodeTable} (h : t.Numbers q extra x)
    (ht : t.Sound) (hi : i < t.next) (hq : t.path? i ≠ some q) : i ≠ x.1 := by
  intro he
  rw [h.number] at he
  cases hn : t.inode? q with
  | none =>
    rw [hn, Option.getD_none] at he
    omega
  | some i' =>
    rw [hn, Option.getD_some] at he
    subst he
    exact hq (ht.path_of_inode q i hn)

theorem Numbers.inode?_of_known {extra : Nat} {x : Nat × InodeTable} (h : t.Numbers q extra x)
    (hp : t.inode? p = some i) : x.2.inode? p = some i := by
  rw [h.inode]
  split
  · rename_i he
    rw [h.number, ← he, hp]
    rfl
  · exact hp

theorem Numbers.path?_of_known {extra : Nat} {x : Nat × InodeTable} (h : t.Numbers q extra x)
    (ht : t.Sound) (hi : t.path? i = some p) : x.2.path? i = some p := by
  rw [h.path]
  by_cases he : p = q
  · rw [← he, hi, ite_self]
  · have hne : i ≠ x.1 := h.ne_of_path? ht (ht.lt_next i p hi) (by simpa [hi] using he)
    rw [if_neg hne, hi]

theorem Numbers.lookups?_of_known {x : Nat × InodeTable} (h : t.Numbers q 0 x)
    (hi : t.lookups? i = some n) :
    x.2.lookups? i = some n := by
  rw [h.lookups, hi]
  exact ite_self _

theorem allocate_numbers (h : t.Sound) (hp : t.inode? p = none) (n : Nat) :
    t.Numbers p n (t.allocate p n) := by
  have hnone : t.lookups? t.next = none := lookups?_eq_none_iff.2 h.path?_next
  constructor
  · rw [hp]
    rfl
  · exact fun q ↦ KeyMap.get?_insert _ _ _ _
  · intro j
    rw [path?, allocate, KeyMap.get?_insert]
    split <;> rfl
  · intro j
    rw [lookups?, allocate, KeyMap.get?_insert]
    split
    · rename_i he
      rw [he, hnone, Option.getD_none, Nat.zero_add]
      rfl
    · rfl
  · exact Nat.le_succ _
  · exact Nat.lt_succ_self _

theorem path?_increment : (t.increment i).path? j = t.path? j := by
  simp only [path?, increment, KeyMap.get?_modify]
  split
  · simp [Function.comp_def]
  · rfl

theorem lookups?_increment :
    (t.increment i).lookups? j = if j = i then (t.lookups? j).map (· + 1) else t.lookups? j := by
  simp only [lookups?, increment, KeyMap.get?_modify]
  split
  · simp [Function.comp_def]
  · rfl

theorem known_numbers (h : t.Sound) (hp : t.inode? p = some i) : t.Numbers p 0 (i, t) := by
  have hpath := h.path_of_inode p i hp
  constructor
  · rw [hp]
    rfl
  · intro q
    split
    · rename_i he
      rw [he, hp]
    · rfl
  · intro j
    split
    · rename_i he
      rw [he, hpath]
    · rfl
  · intro j
    split
    · rename_i he
      have hsome : t.lookups? i ≠ none := by
        rw [Ne, lookups?_eq_none_iff, hpath]
        exact nofun
      obtain ⟨held, hheld⟩ := Option.ne_none_iff_exists'.1 hsome
      rw [he, hheld]
      rfl
    · rfl
  · exact Nat.le_refl _
  · exact h.lt_next i p hpath

theorem peek_numbers (h : t.Sound) (p : RemotePath) : t.Numbers p 0 (t.peek p) := by
  unfold peek
  split
  · rename_i i hi
    exact known_numbers h hi
  · rename_i hn
    exact allocate_numbers h hn 0

theorem lookup_numbers (h : t.Sound) (p : RemotePath) : t.Numbers p 1 (t.lookup p) := by
  unfold lookup
  split
  · rename_i i hi
    have hknown := known_numbers h hi
    refine ⟨hknown.number, hknown.inode, ?_, ?_, Nat.le_refl _, hknown.lt_next⟩
    · intro j
      rw [path?_increment]
      exact hknown.path j
    · intro j
      rw [lookups?_increment, hknown.lookups]
      split <;> rfl
  · rename_i hn
    exact allocate_numbers h hn 1

end Numbering

section Forget

variable {t' : InodeTable}

theorem path?_of_decrement (h : t.decrement i n = some t') (j : Nat) : t'.path? j = t.path? j := by
  unfold decrement at h
  split at h
  · split at h
    · cases h
      simp only [path?, KeyMap.get?_modify]
      split
      · simp [Function.comp_def]
      · rfl
    · cases h
  · cases h

theorem index_of_decrement (h : t.decrement i n = some t') :
    t'.index = t.index ∧ t'.next = t.next := by
  unfold decrement at h
  split at h
  · split at h
    · cases h
      exact ⟨rfl, rfl⟩
    · cases h
  · cases h

theorem lookups?_of_decrement (h : t.decrement i n = some t') :
    (∃ held, t.lookups? i = some held ∧ n ≤ held ∧
    t'.lookups? i = some (held - n)) ∧ ∀ j, j ≠ i → t'.lookups? j = t.lookups? j := by
  unfold decrement at h
  split at h
  · rename_i held hheld
    split at h
    · rename_i hn
      cases h
      refine ⟨⟨held, hheld, hn, ?_⟩, fun j hj ↦ ?_⟩
      · obtain ⟨e, he, rfl⟩ := Option.map_eq_some_iff.1 hheld
        simp only [lookups?, KeyMap.get?_modify, he, if_true, Option.map_some]
      · simp only [lookups?, KeyMap.get?_modify, if_neg hj]
    · cases h
  · cases h

/-- Forgetting changes nothing, or takes from a count, or takes all of it and evicts the
number. -/
theorem forget_cases (t : InodeTable) (i n : Nat) :
    t.forget i n = (false, t) ∨ ∃ t', t.decrement i n = some t' ∧
    (t.forget i n = (false, t') ∨ t'.lookups? i = some 0 ∧ t.forget i n = (true, t'.evict i)) := by
  unfold forget
  split
  · exact .inl rfl
  · split
    · exact .inl rfl
    · rename_i t' ht'
      refine .inr ⟨t', ht', ?_⟩
      split
      · rename_i hz
        exact .inr ⟨hz, rfl⟩
      · exact .inl rfl

theorem path?_forget :
    (t.forget i n).2.path? j = if (t.forget i n).1 = true ∧ j = i then none else t.path? j := by
  rcases forget_cases t i n with h | ⟨t', ht', h | ⟨-, h⟩⟩
  · simp [h]
  · simp [h, path?_of_decrement ht']
  · have hpath := path?_of_decrement ht' j
    simp only [h, true_and, path?, evict, KeyMap.get?_erase] at hpath ⊢
    split
    · rfl
    · exact hpath

theorem inode?_forget (hs : t.Sound) : (t.forget i n).2.inode? q =
    if (t.forget i n).1 = true ∧ t.inode? q = some i then none else t.inode? q := by
  rcases forget_cases t i n with h | ⟨t', ht', h | ⟨-, h⟩⟩
  · simp [h]
  · simp [h, inode?, (index_of_decrement ht').1]
  · have hindex := (index_of_decrement ht').1
    have hpath := path?_of_decrement ht' i
    simp only [h, true_and, evict, inode?, hindex, hpath]
    cases hp : t.path? i with
    | none =>
      have hq : t.index.get? q ≠ some i := by
        intro hq
        rw [hs.path_of_inode q i hq] at hp
        cases hp
      rw [if_neg hq]
    | some p =>
      dsimp only
      by_cases hq : t.index.get? q = some i
      · have he : q = p := Option.some_inj.1 ((hs.path_of_inode q i hq).symm.trans hp)
        subst he
        rw [if_pos hq, if_pos hq, KeyMap.get?_erase, if_pos rfl]
      · rw [if_neg hq]
        split
        · rename_i hpi
          have hne : q ≠ p := fun he ↦ hq (he ▸ hpi)
          rw [KeyMap.get?_erase, if_neg hne]
        · rfl

theorem lookups?_forget_of_ne (hj : j ≠ i) : (t.forget i n).2.lookups? j = t.lookups? j := by
  rcases forget_cases t i n with h | ⟨t', ht', h | ⟨-, h⟩⟩
  · rw [h]
  · rw [h]
    exact (lookups?_of_decrement ht').2 j hj
  · rw [h, ← (lookups?_of_decrement ht').2 j hj]
    simp only [lookups?, evict, KeyMap.get?_erase, if_neg hj]

theorem le_lookups?_forget : (t.lookups? i).getD 0 ≤ ((t.forget i n).2.lookups? i).getD 0 + n := by
  rcases forget_cases t i n with h | ⟨t', ht', h | ⟨hz, h⟩⟩
  · rw [h]
    exact Nat.le_add_right _ _
  · obtain ⟨⟨held, hheld, hn, hheld'⟩, -⟩ := lookups?_of_decrement ht'
    simp only [h, hheld, hheld', Option.getD_some]
    omega
  · obtain ⟨⟨held, hheld, hn, hheld'⟩, -⟩ := lookups?_of_decrement ht'
    rw [hheld', Option.some_inj] at hz
    rw [hheld, Option.getD_some]
    omega

theorem next_forget : (t.forget i n).2.next = t.next := by
  rcases forget_cases t i n with h | ⟨t', ht', h | ⟨-, h⟩⟩
  · rw [h]
  · rw [h]
    exact (index_of_decrement ht').2
  · rw [h]
    exact (index_of_decrement ht').2

theorem Sound.forget (h : t.Sound) : (t.forget i n).2.Sound := by
  constructor
  · intro p j hp
    rw [inode?_forget h] at hp
    split at hp
    · cases hp
    · rename_i hkept
      have hj : ¬((t.forget i n).1 = true ∧ j = i) := fun hx ↦ hkept ⟨hx.1, hx.2 ▸ hp⟩
      rw [path?_forget, if_neg hj, h.path_of_inode p j hp]
  · intro j p hp
    rw [path?_forget] at hp
    rw [next_forget]
    split at hp
    · cases hp
    · exact h.lt_next j p hp

end Forget

section Invalidate

theorem inode?_invalidate : (t.invalidate p).inode? q = if q = p then none else t.inode? q :=
  KeyMap.get?_erase _ _ _

theorem Sound.invalidate (h : t.Sound) : (t.invalidate p).Sound := by
  refine ⟨fun q i hq ↦ ?_, h.lt_next⟩
  rw [inode?_invalidate] at hq
  split at hq
  · cases hq
  · exact h.path_of_inode q i hq

end Invalidate

end RemoteMount.InodeTable
