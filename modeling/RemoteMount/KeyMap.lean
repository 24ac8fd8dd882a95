namespace RemoteMount

/-- A finite map as a list of pairs without a repeated key, in the order in which the keys first
came. It is read through `get?`; each operation comes with the equation that it satisfies
there. -/
structure KeyMap (κ α : Type) where
  toList : List (κ × α)
  nodup : (toList.map Prod.fst).Nodup

namespace KeyMap

variable {κ α β : Type} [DecidableEq κ]

instance [DecidableEq α] : DecidableEq (KeyMap κ α) := fun m m' ↦
  if h : m.toList = m'.toList then
    .isTrue (by cases m; cases m'; simp_all)
  else
    .isFalse (fun e ↦ h (e ▸ rfl))

def empty : KeyMap κ α := ⟨[], by simp⟩

instance : Inhabited (KeyMap κ α) := ⟨empty⟩

def get? (m : KeyMap κ α) (k : κ) : Option α :=
  (m.toList.find? (·.1 = k)).map Prod.snd

def contains (m : KeyMap κ α) (k : κ) : Bool := (m.get? k).isSome

def keys (m : KeyMap κ α) : List κ := m.toList.map Prod.fst

def values (m : KeyMap κ α) : List α := m.toList.map Prod.snd

def size (m : KeyMap κ α) : Nat := m.toList.length

def filter (m : KeyMap κ α) (p : κ → α → Bool) : KeyMap κ α where
  toList := m.toList.filter fun e ↦ p e.1 e.2
  nodup := m.nodup.sublist (List.filter_sublist.map _)

def erase (m : KeyMap κ α) (k : κ) : KeyMap κ α := m.filter fun k' _ ↦ k' ≠ k

def map (m : KeyMap κ α) (f : κ → α → β) : KeyMap κ β where
  toList := m.toList.map fun e ↦ (e.1, f e.1 e.2)
  nodup := by simpa [Function.comp_def] using m.nodup

def modify (m : KeyMap κ α) (k : κ) (f : α → α) : KeyMap κ α :=
  m.map fun k' a ↦ if k' = k then f a else a

theorem get?_eq_none_iff {m : KeyMap κ α} {k : κ} : m.get? k = none ↔ k ∉ m.keys := by
  simp only [get?, keys, Option.map_eq_none_iff, List.find?_eq_none, decide_eq_true_eq,
    List.mem_map, Prod.exists, exists_and_right, exists_eq_right, not_exists, Prod.forall]
  exact ⟨fun h a hm ↦ h k a hm rfl, fun h _ a hm e ↦ h a (e ▸ hm)⟩

/-- A new key goes to the end; a known key keeps its place and takes the new value. -/
def insert (m : KeyMap κ α) (k : κ) (a : α) : KeyMap κ α :=
  if h : k ∈ m.keys then m.modify k fun _ ↦ a
  else ⟨m.toList ++ [(k, a)], by
    rw [List.map_append, List.nodup_append]
    refine ⟨m.nodup, by simp, ?_⟩
    simpa [keys] using fun k' a' hm (e : k' = k) ↦ h (by subst e; exact List.mem_map_of_mem hm)⟩

def ofList (entries : List (κ × α)) : KeyMap κ α :=
  entries.foldl (fun m e ↦ m.insert e.1 e.2) empty

@[simp] theorem get?_empty (k : κ) : (empty : KeyMap κ α).get? k = none := rfl

theorem find?_eq_some_iff_of_nodup {l : List (κ × α)} (h : (l.map Prod.fst).Nodup) {k : κ}
    {e : κ × α} :
    l.find? (fun e ↦ e.1 = k) = some e ↔ e ∈ l ∧ e.1 = k := by
  induction l with
  | nil => simp
  | cons x l ih =>
    rw [List.map_cons, List.nodup_cons] at h
    rw [List.find?_cons]
    by_cases hx : x.1 = k
    · have hl : ∀ y ∈ l, y.1 ≠ k := fun y hy hk ↦ h.1 (List.mem_map.2 ⟨y, hy, hk.trans hx.symm⟩)
      simp only [hx, decide_true, Option.some.injEq, List.mem_cons]
      exact ⟨fun e ↦ ⟨.inl e.symm, e ▸ hx⟩,
        fun ⟨hm, hk⟩ ↦ (hm.resolve_right fun hy ↦ hl _ hy hk).symm⟩
    · simp only [hx, decide_false, ih h.2, List.mem_cons]
      exact ⟨fun ⟨hm, hk⟩ ↦ ⟨.inr hm, hk⟩, fun ⟨hm, hk⟩ ↦ ⟨hm.resolve_left fun e ↦ hx (e ▸ hk), hk⟩⟩

theorem get?_eq_some_iff {m : KeyMap κ α} {k : κ} {a : α} :
    m.get? k = some a ↔ (k, a) ∈ m.toList := by
  simp only [get?, Option.map_eq_some_iff, find?_eq_some_iff_of_nodup m.nodup, Prod.exists]
  exact ⟨fun ⟨_, _, ⟨hm, hk⟩, ha⟩ ↦ hk ▸ ha ▸ hm, fun hm ↦ ⟨k, a, ⟨hm, rfl⟩, rfl⟩⟩

theorem get?_of_size_eq_zero {m : KeyMap κ α} (h : m.size = 0) (k : κ) : m.get? k = none := by
  rw [get?, List.eq_nil_of_length_eq_zero h]
  rfl

theorem get?_filter (m : KeyMap κ α) (p : κ → α → Bool) (k : κ) :
    (m.filter p).get? k = (m.get? k).filter (p k) := by
  apply Option.ext
  intro a
  rw [get?_eq_some_iff, Option.filter_eq_some_iff, get?_eq_some_iff]
  simp [filter]

theorem get?_erase (m : KeyMap κ α) (k k' : κ) :
    (m.erase k).get? k' = if k' = k then none else m.get? k' := by
  rw [erase, get?_filter]
  by_cases h : k' = k <;> cases m.get? k' <;> simp [h]

theorem get?_map (m : KeyMap κ α) (f : κ → α → β) (k : κ) :
    (m.map f).get? k = (m.get? k).map (f k) := by
  apply Option.ext
  intro b
  rw [get?_eq_some_iff, Option.map_eq_some_iff]
  simp only [map, List.mem_map, Prod.mk.injEq, get?_eq_some_iff, Prod.exists]
  exact ⟨fun ⟨_, a, hm, hk, hb⟩ ↦ ⟨a, hk ▸ hm, hk ▸ hb⟩, fun ⟨a, hm, hb⟩ ↦ ⟨k, a, hm, rfl, hb⟩⟩

theorem get?_modify (m : KeyMap κ α) (k k' : κ) (f : α → α) :
    (m.modify k f).get? k' = if k' = k then (m.get? k').map f else m.get? k' := by
  rw [modify, get?_map]
  by_cases h : k' = k <;> simp [h]

theorem get?_insert (m : KeyMap κ α) (k k' : κ) (a : α) :
    (m.insert k a).get? k' = if k' = k then some a else m.get? k' := by
  unfold insert
  split
  · rename_i h
    rw [get?_modify]
    by_cases hk : k' = k
    · subst hk
      have hs := mt get?_eq_none_iff.1 (not_not_intro h)
      obtain ⟨b, hb⟩ := Option.ne_none_iff_exists'.1 hs
      simp [hb]
    · simp [hk]
  · rename_i h
    by_cases hk : k' = k
    · subst hk
      simp only [if_true]
      exact get?_eq_some_iff.2 (by simp)
    · simp only [hk, if_false]
      apply Option.ext
      intro b
      simp [get?_eq_some_iff, hk]

theorem get?_insert_self (m : KeyMap κ α) (k : κ) (a : α) : (m.insert k a).get? k = some a := by
  rw [get?_insert, if_pos rfl]

theorem mem_keys_iff {m : KeyMap κ α} {k : κ} : k ∈ m.keys ↔ (m.get? k).isSome := by
  rw [Option.isSome_iff_ne_none, ne_eq, get?_eq_none_iff, Decidable.not_not]

theorem mem_keys_insert {m : KeyMap κ α} {k k' : κ} {a : α} :
    k' ∈ (m.insert k a).keys ↔ k' = k ∨ k' ∈ m.keys := by
  rw [mem_keys_iff, mem_keys_iff, get?_insert]
  split <;> simp_all

theorem mem_keys_erase {m : KeyMap κ α} {k k' : κ} :
    k' ∈ (m.erase k).keys ↔ k' ≠ k ∧ k' ∈ m.keys := by
  rw [mem_keys_iff, mem_keys_iff, get?_erase]
  split <;> simp_all

omit [DecidableEq κ] in
theorem eq_of_toList {m m' : KeyMap κ α} (h : m.toList = m'.toList) : m = m' := by
  cases m
  cases m'
  cases h
  rfl

theorem toList_insert_of_new {m : KeyMap κ α} {k : κ} (h : k ∉ m.keys) (a : α) :
    (m.insert k a).toList = m.toList ++ [(k, a)] := by
  rw [insert, dif_neg h]

theorem insert_insert (m : KeyMap κ α) (k : κ) (a b : α) :
    (m.insert k a).insert k b = m.insert k b := by
  apply eq_of_toList
  have hknown : k ∈ (m.insert k a).keys := mem_keys_insert.2 (.inl rfl)
  rw [insert, dif_pos hknown]
  by_cases hk : k ∈ m.keys
  · simp only [insert, dif_pos hk, modify, map, List.map_map]
    apply List.map_congr_left
    intro e _
    by_cases he : e.1 = k <;> simp [he]
  · have hkept : ∀ e ∈ m.toList, (e.1, if e.1 = k then b else e.2) = e := by
      intro e he
      rw [if_neg fun hek : e.1 = k ↦ hk (hek ▸ List.mem_map_of_mem he)]
    simp only [modify, map, toList_insert_of_new hk, List.map_append, List.map_congr_left hkept,
      List.map_id']
    simp

@[simp] theorem keys_modify (m : KeyMap κ α) (k : κ) (f : α → α) :
    (m.modify k f).keys = m.keys := by
  simp [keys, modify, map, Function.comp_def]

theorem erase_of_new {m : KeyMap κ α} {k : κ} (h : k ∉ m.keys) : m.erase k = m := by
  apply eq_of_toList
  simp only [erase, filter, List.filter_eq_self, decide_eq_true_eq]
  intro e he hek
  exact h (hek ▸ List.mem_map_of_mem he)

theorem erase_modify (m : KeyMap κ α) (k : κ) (f : α → α) : (m.modify k f).erase k = m.erase k := by
  apply eq_of_toList
  simp only [erase, filter, modify, map, List.filter_map, Function.comp_def]
  have hother : ∀ e ∈ m.toList.filter (fun e ↦ e.1 ≠ k),
      (e.1, if e.1 = k then f e.2 else e.2) = e := by
    intro e he
    have hne : e.1 ≠ k := by simpa using (List.mem_filter.1 he).2
    simp [hne]
  exact (List.map_congr_left hother).trans (List.map_id' _)

theorem erase_insert (m : KeyMap κ α) (k : κ) (a : α) : (m.insert k a).erase k = m.erase k := by
  by_cases hk : k ∈ m.keys
  · rw [insert, dif_pos hk, erase_modify]
  · apply eq_of_toList
    simp [erase, filter, toList_insert_of_new hk, List.filter_append]

theorem erase_insert_of_new {m : KeyMap κ α} {k : κ} (h : k ∉ m.keys) (a : α) :
    (m.insert k a).erase k = m := by
  rw [erase_insert, erase_of_new h]

theorem get?_foldl_insert (entries : List (κ × α)) (m : KeyMap κ α) (k : κ) :
    (entries.foldl (fun m e ↦ m.insert e.1 e.2) m).get? k =
      ((entries.reverse.find? (·.1 = k)).map Prod.snd).or (m.get? k) := by
  induction entries generalizing m with
  | nil => simp
  | cons e entries ih =>
    rw [List.foldl_cons, ih, get?_insert, List.reverse_cons, List.find?_append]
    by_cases h : k = e.1
    · cases entries.reverse.find? (·.1 = k) <;> simp [h]
    · cases entries.reverse.find? (·.1 = k) <;> simp [h, Ne.symm h]

theorem get?_ofList (entries : List (κ × α)) (k : κ) :
    (ofList entries).get? k = (entries.reverse.find? (·.1 = k)).map Prod.snd := by
  rw [ofList, get?_foldl_insert, get?_empty, Option.or_none]

theorem mem_of_get?_ofList {entries : List (κ × α)} {k : κ} {a : α}
    (h : (ofList entries).get? k = some a) : (k, a) ∈ entries := by
  rw [get?_ofList, Option.map_eq_some_iff] at h
  obtain ⟨⟨k', a'⟩, hf, rfl⟩ := h
  have hk : k' = k := by simpa using List.find?_some hf
  exact hk ▸ List.mem_reverse.1 (List.mem_of_find?_eq_some hf)

end KeyMap

end RemoteMount
