import RemoteMount.Path
import Mathlib.Data.List.Infix

namespace RemoteMount

theorem Segment.name_injective : Function.Injective Segment.name := by
  intro s t h
  cases s
  cases t
  cases h
  rfl

namespace RemotePath

variable {p q r dir old new target : RemotePath} {n : String}

theorem segments_injective : Function.Injective segments := by
  rintro ⟨l⟩ ⟨m⟩ rfl
  rfl

@[simp] theorem isRoot_iff : p.isRoot = true ↔ p = root := by
  rw [isRoot, List.isEmpty_iff]
  exact segments_injective.eq_iff (b := root)

@[simp] theorem parent_root : root.parent = root := rfl

@[simp] theorem name?_root : root.name? = none := rfl

@[simp] theorem parent_child (s : Segment) : (dir.child s).parent = dir := by
  apply segments_injective
  simp only [parent, child, List.dropLast_concat]

@[simp] theorem name?_child (s : Segment) : (dir.child s).name? = some s.name := by
  simp only [name?, child, List.getLast?_concat, Option.map_some]

@[simp] theorem child_ne_root (s : Segment) : dir.child s ≠ root := by
  intro h
  have hsegments := congrArg segments h
  simp [child, root] at hsegments

theorem eq_root_or_child (p : RemotePath) : p = root ∨ ∃ s, p = p.parent.child s := by
  obtain ⟨l⟩ := p
  rcases List.eq_nil_or_concat l with rfl | ⟨m, s, rfl⟩
  · exact .inl rfl
  · refine .inr ⟨s, segments_injective ?_⟩
    simp only [parent, child, List.dropLast_concat, List.concat_eq_append]

theorem name?_eq_none_iff : p.name? = none ↔ p = root := by
  rcases p.eq_root_or_child with h | ⟨s, h⟩
  · simp [h]
  · constructor
    · intro hn
      rw [h, name?_child] at hn
      cases hn
    · intro hx
      subst hx
      rfl

theorem eq_of_parent_of_name (hp : p.parent = q.parent) (hn : p.name? = q.name?) : p = q := by
  rcases p.eq_root_or_child with h | ⟨s, h⟩ <;> rcases q.eq_root_or_child with h' | ⟨t, h'⟩
  · rw [h, h']
  · rw [h, h', name?_root, name?_child] at hn
    cases hn
  · rw [h, h', name?_root, name?_child] at hn
    cases hn
  · rw [h, h', name?_child, name?_child, Option.some_inj] at hn
    obtain ⟨n, hs⟩ := s
    obtain ⟨m, ht⟩ := t
    obtain rfl : n = m := hn
    rw [h, h', hp]

theorem join_eq_ok_iff : dir.join n = .ok p ↔ p.parent = dir ∧ p.name? = some n := by
  constructor
  · intro h
    unfold join at h
    split at h
    · cases h
    · split at h
      · rename_i s hs
        cases h
        exact ⟨parent_child s, by rw [name?_child, Segment.name_of_ofString hs]⟩
      · cases h
  · intro hx
    obtain ⟨rfl, hn⟩ := hx
    rcases p.eq_root_or_child with h | ⟨s, h⟩
    · rw [h, name?_root] at hn
      cases hn
    · rw [h, name?_child, Option.some_inj] at hn
      subst hn
      have hv : ¬(s.name = "" ∨ '/' ∈ s.name.toList) := not_or.2 ⟨s.valid.1, s.valid.2.2.2.1⟩
      rw [join, if_neg hv, Segment.ofString_name]
      exact congrArg Except.ok h.symm

theorem join_of_isSegment (dir : RemotePath) (h : IsSegment n) :
    dir.join n = .ok (dir.child ⟨n, h⟩) :=
  join_eq_ok_iff.2 ⟨parent_child _, name?_child _⟩

theorem within_iff : p.within dir = true ↔ dir.segments <+: p.segments := List.isPrefixOf_iff_prefix

@[simp] theorem within_self (p : RemotePath) : p.within p = true :=
  within_iff.2 (List.prefix_refl _)

@[simp] theorem within_root (p : RemotePath) : p.within root = true := within_iff.2 List.nil_prefix

theorem within_trans (h : p.within q = true) (h' : q.within r = true) : p.within r = true :=
  within_iff.2 ((within_iff.1 h').trans (within_iff.1 h))

theorem within_antisymm (h : p.within q = true) (h' : q.within p = true) : p = q :=
  segments_injective ((within_iff.1 h').eq_of_length_le (within_iff.1 h).length_le)

theorem within_parent (p : RemotePath) : p.within p.parent = true :=
  within_iff.2 (List.dropLast_prefix _)

theorem within_of_parent_within (h : p.parent.within dir = true) : p.within dir = true :=
  within_trans p.within_parent h

theorem parent_within (h : p.within dir = true) (hne : p ≠ dir) : p.parent.within dir = true := by
  obtain ⟨t, ht⟩ := within_iff.1 h
  have htn : t ≠ [] := by
    intro hx
    subst hx
    exact hne (segments_injective (by simpa using ht.symm))
  refine within_iff.2 ⟨t.dropLast, ?_⟩
  rw [parent, ← ht, List.dropLast_append_of_ne_nil htn]

theorem within_root_iff : root.within dir = true ↔ dir = root := by
  rw [within_iff, ← segments_injective.eq_iff]
  exact List.prefix_nil

theorem within_or_within (h : p.within q = true) (h' : p.within r = true) :
    q.within r = true ∨ r.within q = true := by
  rw [within_iff, within_iff]
  exact (List.prefix_or_prefix_of_prefix (within_iff.1 h) (within_iff.1 h')).symm

theorem parent_ne_self (h : p ≠ root) : p.parent ≠ p := by
  intro he
  have hl := congrArg (List.length ∘ segments) he
  simp only [Function.comp_apply, parent, List.length_dropLast] at hl
  have hz : p.segments.length = 0 := by omega
  exact h (segments_injective (List.length_eq_zero_iff.1 hz))

theorem depth_lt_of_within (h : p.within dir = true) (hne : p ≠ dir) : dir.depth < p.depth := by
  have hwithin := within_iff.1 h
  have hle := hwithin.length_le
  have hneq : dir.segments.length ≠ p.segments.length := fun he ↦
    hne (segments_injective (hwithin.eq_of_length he)).symm
  simp only [depth]
  omega

theorem depth_parent (h : p ≠ root) : p.depth = p.parent.depth + 1 := by
  have hlt := depth_lt_of_within p.within_parent (parent_ne_self h).symm
  simp only [depth, parent, List.length_dropLast] at hlt ⊢
  omega

theorem rebase_eq_some_iff : p.rebase old new = some target ↔
    ∃ l, p.segments = old.segments ++ l ∧ target.segments = new.segments ++ l := by
  unfold rebase
  split
  · rename_i h
    obtain ⟨l, hl⟩ := within_iff.1 h
    have hd : p.segments.drop old.depth = l := by rw [← hl, depth, List.drop_left]
    rw [hd, Option.some_inj]
    constructor
    · intro hx
      subst hx
      exact ⟨l, hl.symm, rfl⟩
    · intro hx
      obtain ⟨m, hm, ht⟩ := hx
      rw [← hl, List.append_cancel_left_eq] at hm
      exact segments_injective (by rw [ht, hm])
  · rename_i h
    constructor
    · intro hn
      cases hn
    · intro hx
      obtain ⟨l, hl, -⟩ := hx
      exact absurd (within_iff.2 ⟨l, hl.symm⟩) h

theorem rebase_symm (h : p.rebase old new = some target) : target.rebase new old = some p := by
  obtain ⟨l, hp, ht⟩ := rebase_eq_some_iff.1 h
  exact rebase_eq_some_iff.2 ⟨l, ht, hp⟩

theorem within_of_rebase (h : p.rebase old new = some target) : p.within old = true := by
  obtain ⟨l, hp, -⟩ := rebase_eq_some_iff.1 h
  exact within_iff.2 ⟨l, hp.symm⟩

theorem rebase_within (h : p.rebase old new = some target) : target.within new = true :=
  within_of_rebase (rebase_symm h)

theorem exists_rebase (new : RemotePath) (h : p.within old = true) :
    ∃ target, p.rebase old new = some target := by
  obtain ⟨l, hl⟩ := within_iff.1 h
  exact ⟨⟨new.segments ++ l⟩, rebase_eq_some_iff.2 ⟨l, hl.symm, rfl⟩⟩

theorem rebase_self (h : p.within old = true) : p.rebase old old = some p := by
  obtain ⟨l, hl⟩ := within_iff.1 h
  exact rebase_eq_some_iff.2 ⟨l, hl.symm, hl.symm⟩

theorem rebase_eq_none_iff : p.rebase old new = none ↔ p.within old = false := by
  unfold rebase
  cases p.within old <;> simp

theorem getD_rebase_self (p old : RemotePath) : (p.rebase old old).getD p = p := by
  cases hp : p.within old with
  | false => rw [rebase_eq_none_iff.2 hp, Option.getD_none]
  | true => rw [rebase_self hp, Option.getD_some]

theorem rebase_parent (h : p.rebase old new = some target) (hne : p ≠ old) :
    p.parent.rebase old new = some target.parent := by
  obtain ⟨l, hp, ht⟩ := rebase_eq_some_iff.1 h
  have hl : l ≠ [] := by
    intro hx
    subst hx
    exact hne (segments_injective (by simpa using hp))
  refine rebase_eq_some_iff.2 ⟨l.dropLast, ?_, ?_⟩
  · rw [parent, hp, List.dropLast_append_of_ne_nil hl]
  · rw [parent, ht, List.dropLast_append_of_ne_nil hl]

section Names

open Segment

variable {m : RemotePath} {t : List String}

theorem components_injective : Function.Injective components :=
  (List.map_injective_iff.2 name_injective).comp segments_injective

theorem components_prefix_iff : q.components <+: p.components ↔ p.within q = true := by
  rw [within_iff]
  exact List.prefix_map_iff_of_injective name_injective

theorem components_parent (p : RemotePath) : p.parent.components = p.components.dropLast :=
  List.map_dropLast

theorem components_child (p : RemotePath) (s : Segment) :
    (p.child s).components = p.components ++ [s.name] := by
  simp [components, child]

theorem name?_eq_getLast? (p : RemotePath) : p.name? = p.components.getLast? :=
  List.getLast?_map.symm

theorem components_eq_append_iff : p.components = q.components ++ t ↔
    ∃ l, p.segments = q.segments ++ l ∧ l.map Segment.name = t := by
  constructor
  · intro h
    obtain ⟨l, k, hp, hl, hk⟩ := List.map_eq_append_iff.1 h
    refine ⟨k, ?_, hk⟩
    rw [hp, List.map_injective_iff.2 name_injective hl]
  · intro h
    obtain ⟨l, hp, rfl⟩ := h
    simp [components, hp]

/-- A path is moved by taking the names of one directory off its front and putting those of
another there. -/
theorem rebase_eq_some_iff_components : p.rebase q r = some m ↔
    ∃ t, p.components = q.components ++ t ∧ m.components = r.components ++ t := by
  rw [rebase_eq_some_iff]
  constructor
  · intro h
    obtain ⟨l, hp, hm⟩ := h
    exact ⟨l.map Segment.name, components_eq_append_iff.2 ⟨l, hp, rfl⟩,
      components_eq_append_iff.2 ⟨l, hm, rfl⟩⟩
  · intro h
    obtain ⟨t, hp, hm⟩ := h
    obtain ⟨l, hl, rfl⟩ := components_eq_append_iff.1 hp
    obtain ⟨k, hk, hnames⟩ := components_eq_append_iff.1 hm
    obtain rfl := List.map_injective_iff.2 name_injective hnames
    exact ⟨k, hl, hk⟩

theorem join_eq_ok_iff_components :
    p.join n = .ok m ↔ IsSegment n ∧ m.components = p.components ++ [n] := by
  rw [join_eq_ok_iff]
  constructor
  · intro h
    obtain ⟨rfl, hn⟩ := h
    rcases m.eq_root_or_child with hm | ⟨s, hm⟩
    · rw [hm, name?_root] at hn
      cases hn
    · rw [hm, name?_child, Option.some_inj] at hn
      refine ⟨hn ▸ s.valid, ?_⟩
      rw [hm, components_child, parent_child, hn]
  · intro h
    obtain ⟨-, hm⟩ := h
    refine ⟨components_injective ?_, ?_⟩
    · rw [components_parent, hm, List.dropLast_concat]
    · rw [name?_eq_getLast?, hm, List.getLast?_concat]

theorem exists_join_iff : (∃ m, p.join n = .ok m) ↔ IsSegment n := by
  constructor
  · intro h
    obtain ⟨m, hm⟩ := h
    exact (join_eq_ok_iff_components.1 hm).1
  · intro h
    exact ⟨p.child ⟨n, h⟩, join_eq_ok_iff_components.2 ⟨h, p.components_child ⟨n, h⟩⟩⟩

end Names

end RemotePath

end RemoteMount
