import Mathlib.Data.List.Infix
import RemoteMount.PathText

namespace RemoteMount.PathText

variable {α : Type} [DecidableEq α] {slash : α}

def write (slash : α) (names : List (List α)) : List α :=
  if names = [] then [slash] else names.flatMap (slash :: ·)

def Names (slash : α) (names : List (List α)) : Prop := ∀ name ∈ names, name ≠ [] ∧ slash ∉ name

variable {names p q r : List (List α)} {name path rest : List α}

omit [DecidableEq α] in
theorem write_of_ne_nil (slash : α) (h : names ≠ []) :
    write slash names = names.flatMap (slash :: ·) := if_neg h

omit [DecidableEq α] in
theorem write_append (slash : α) (h : p ≠ []) (q : List (List α)) :
    write slash (p ++ q) = write slash p ++ q.flatMap (slash :: ·) := by
  simp [write, h]

omit [DecidableEq α] in
theorem flatMap_write {β : Type} {f : α → List β} {slash' : β} (h : f slash = [slash'])
    (names : List (List α)) :
    (write slash names).flatMap f = write slash' (names.map (List.flatMap f)) := by
  by_cases hne : names = []
  · simp [hne, write, h]
  · simp [write, hne, h, List.flatMap_assoc, List.flatMap_map]

section Pieces

theorem pieces_ne_nil (slash : α) (path : List α) : pieces slash path ≠ [] := by
  induction path with
  | nil => simp [pieces]
  | cons c path ih =>
    unfold pieces
    split
    · simp
    · simpa [List.modifyHead_eq_nil_iff] using ih

theorem pieces_append_slash (slash : α) (path rest : List α) :
    pieces slash (path ++ slash :: rest) = pieces slash path ++ pieces slash rest := by
  induction path with
  | nil => simp [pieces]
  | cons c path ih =>
    obtain ⟨piece, more, hpieces⟩ := List.exists_cons_of_ne_nil (pieces_ne_nil slash path)
    simp only [List.cons_append, pieces, ih, hpieces]
    split <;> rfl

theorem pieces_eq_singleton (h : slash ∉ name) : pieces slash name = [name] := by
  induction name with
  | nil => rfl
  | cons c name ih =>
    simp only [List.mem_cons, not_or] at h
    simp [pieces, Ne.symm h.1, ih h.2]

theorem pieces_append_flatMap (hn : slash ∉ name) (h : Names slash names) :
    pieces slash (name ++ names.flatMap (slash :: ·)) = name :: names := by
  induction names generalizing name with
  | nil => simp [pieces_eq_singleton hn]
  | cons next names ih =>
    have hrest := ih (h next List.mem_cons_self).2 fun name' hm ↦
      h name' (List.mem_cons_of_mem _ hm)
    rw [List.flatMap_cons, List.cons_append, pieces_append_slash, pieces_eq_singleton hn, hrest]
    rfl

theorem pieces_write (h : Names slash names) (hne : names ≠ []) :
    pieces slash (write slash names) = [] :: names := by
  rw [write_of_ne_nil slash hne]
  exact pieces_append_flatMap List.not_mem_nil h

theorem components_append_slash (slash : α) (path rest : List α) :
    components slash (path ++ slash :: rest) = components slash path ++ components slash rest := by
  rw [components, pieces_append_slash, List.filter_append]
  rfl

theorem components_write (h : Names slash names) :
    components slash (write slash names) = names := by
  by_cases hne : names = []
  · simp [hne, write, components, pieces]
  · rw [components, pieces_write h hne, List.filter_cons_of_neg (by simp), List.filter_eq_self]
    intro name hm
    simpa using (h name hm).1

theorem write_injective (hp : Names slash p) (hq : Names slash q)
    (h : write slash p = write slash q) : p = q := by
  rw [← components_write hp, h, components_write hq]

theorem write_eq_root_iff (h : Names slash names) : write slash names = [slash] ↔ names = [] := by
  constructor
  · intro hw
    exact write_injective h (by simp [Names]) hw
  · intro hn
    simp [write, hn]

end Pieces

section Parents

theorem lastSlash?_eq_none (h : slash ∉ name) : lastSlash? slash name = none := by
  induction name with
  | nil => rfl
  | cons c name ih =>
    simp only [List.mem_cons, not_or] at h
    simp [lastSlash?, ih h.2, Ne.symm h.1]

theorem lastSlash?_append (path : List α) (h : slash ∉ name) :
    lastSlash? slash (path ++ slash :: name) = some path.length := by
  induction path with
  | nil => simp [lastSlash?, lastSlash?_eq_none h]
  | cons c path ih => simp [lastSlash?, ih]

theorem parent_of_lastSlash? {n : Nat} (h : lastSlash? slash path = some n) (hn : n ≠ 0) :
    parent slash path = path.take n := by
  cases n with
  | zero => exact absurd rfl hn
  | succ n => simp only [parent, h]

theorem parent_write (h : Names slash names) :
    parent slash (write slash names) = write slash names.dropLast := by
  cases names using List.reverseRecOn with
  | nil => simp [parent, write, lastSlash?]
  | append_singleton names name =>
    have hname := (h name (by simp)).2
    have hwrite : write slash (names ++ [name]) = names.flatMap (slash :: ·) ++ slash :: name := by
      simp [write]
    rw [List.dropLast_concat, hwrite]
    by_cases hne : names = []
    · simp [hne, parent, lastSlash?, lastSlash?_eq_none hname, write]
    · have hbefore : (names.flatMap (slash :: ·)).length ≠ 0 := by
        cases names with
        | nil => exact absurd rfl hne
        | cons first names => simp
      rw [parent_of_lastSlash? (lastSlash?_append _ hname) hbefore, List.take_left,
        write_of_ne_nil slash hne]

theorem name?_write (h : Names slash names) : name? slash (write slash names) = names.getLast? := by
  by_cases hne : names = []
  · simp [hne, write, name?]
  · rw [name?, if_neg (mt (write_eq_root_iff h).1 hne), pieces_write h hne,
      List.getLast?_cons_of_ne_nil hne]

theorem child_write (h : Names slash names) (name : List α) :
    child slash (write slash names) name = write slash (names ++ [name]) := by
  unfold child
  by_cases hne : names = []
  · simp [hne, write]
  · rw [if_neg (mt (write_eq_root_iff h).1 hne), write_append slash hne]
    simp

end Parents

section Within

theorem within_write (hp : Names slash p) (hq : Names slash q) :
    within slash (write slash p) (write slash q) = q.isPrefixOf p := by
  by_cases hne : q = []
  · simp [hne, write, within]
  rw [Bool.eq_iff_iff, List.isPrefixOf_iff_prefix]
  simp only [within, write_eq_root_iff hq, hne, decide_false, Bool.false_or, Bool.and_eq_true,
    List.isPrefixOf_iff_prefix, Bool.or_eq_true, List.isEmpty_iff, decide_eq_true_eq]
  constructor
  · intro h
    obtain ⟨⟨rest, hrest⟩, hend⟩ := h
    rw [← hrest, List.drop_left] at hend
    rcases hend with hend | hend
    · rw [hend, List.append_nil] at hrest
      exact write_injective hq hp hrest ▸ List.prefix_refl _
    · obtain ⟨tail, htail⟩ := List.head?_eq_some_iff.1 hend
      refine ⟨components slash tail, ?_⟩
      rw [← components_write hp, ← hrest, htail, components_append_slash, components_write hq]
  · intro h
    obtain ⟨t, rfl⟩ := h
    rw [write_append slash hne, List.drop_left]
    refine ⟨List.prefix_append _ _, ?_⟩
    cases t <;> simp

/-- What begins with the letters of a directory need not be in it. -/
example : within '/' "/fs/microsdx".toList "/fs/microsd".toList = false := by decide

theorem rebase_write (hp : Names slash p) (hq : Names slash q) (r : List (List α))
    (hr : Names slash r) :
    rebase slash (write slash p) (write slash q) (write slash r) =
      if q.isPrefixOf p then some (write slash (r ++ p.drop q.length)) else none := by
  rw [rebase, within_write hp hq]
  by_cases h : q <+: p
  · obtain ⟨t, rfl⟩ := h
    have hbelow : q.isPrefixOf (q ++ t) = true :=
      List.isPrefixOf_iff_prefix.2 (List.prefix_append q t)
    have hsame : write slash (q ++ t) = write slash q ↔ t = [] := by
      constructor
      · intro hw
        simpa using write_injective hp hq hw
      · intro ht
        rw [ht, List.append_nil]
    rw [hbelow, List.drop_left]
    by_cases ht : t = []
    · simp [ht]
    obtain ⟨rest, hrest⟩ : ∃ rest, t.flatMap (slash :: ·) = slash :: rest := by
      cases t with
      | nil => exact absurd rfl ht
      | cons name t => exact ⟨_, List.flatMap_cons⟩
    have hcut : (if write slash q = [slash] then (write slash (q ++ t)).drop 1
        else (write slash (q ++ t)).drop ((write slash q).length + 1)) = rest := by
      by_cases hne : q = []
      · simp [hne, write, ht, hrest]
      · rw [if_neg (mt (write_eq_root_iff hq).1 hne), write_append slash hne, hrest,
          ← List.drop_drop, List.drop_left]
        rfl
    have hjoined : (if write slash r = [slash] then slash :: rest
        else write slash r ++ slash :: rest) =
        write slash (r ++ t) := by
      by_cases hne : r = []
      · simp [hne, write, ht, hrest]
      · rw [if_neg (mt (write_eq_root_iff hr).1 hne), write_append slash hne, hrest]
    simp only [hsame, if_neg ht, hcut, hjoined]
    simp
  · rw [← List.isPrefixOf_iff_prefix, Bool.not_eq_true] at h
    simp [h]

end Within

end RemoteMount.PathText
