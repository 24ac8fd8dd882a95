import Mathlib.Data.List.Nodup
import RemoteMount.Proofs.Staleness

namespace RemoteMount

open RemotePath

namespace RemotePath

variable {p q dir : RemotePath} {n : String}

theorem parent_within_iff (hr : q ≠ root) :
    q.parent.within p = true ↔ q.within p = true ∧ q ≠ p := by
  constructor
  · intro h
    refine ⟨within_of_parent_within h, fun he ↦ ?_⟩
    subst he
    exact parent_ne_self hr (within_antisymm h q.within_parent)
  · intro h
    exact parent_within h.1 h.2

def childrenNamed (dir : RemotePath) (names : List String) : List RemotePath :=
  names.filterMap fun n ↦ (dir.join n).toOption

theorem mem_childrenNamed {names : List String} :
    q ∈ dir.childrenNamed names ↔ q.parent = dir ∧ ∃ n ∈ names, q.name? = some n := by
  have hjoin : ∀ n, (dir.join n).toOption = some q ↔ q.parent = dir ∧ q.name? = some n := by
    intro n
    rw [← join_eq_ok_iff]
    cases dir.join n <;> simp [Except.toOption]
  simp only [childrenNamed, List.mem_filterMap, hjoin]
  tauto

theorem nodup_childrenNamed (dir : RemotePath) {names : List String} (h : names.Nodup) :
    (dir.childrenNamed names).Nodup := by
  apply h.filterMap
  intro n m q hn hm
  have hname : ∀ k, q ∈ (dir.join k).toOption → q.name? = some k := by
    intro k hk
    cases hj : dir.join k with
    | error e => simp [hj, Except.toOption] at hk
    | ok p =>
      obtain rfl : p = q := by simpa [hj, Except.toOption] using hk
      exact (join_eq_ok_iff.1 hj).2
  exact Option.some_inj.1 ((hname n hn).symm.trans (hname m hm))

theorem length_childrenNamed (dir : RemotePath) {names : List String}
    (h : ∀ n ∈ names, IsSegment n) :
    (dir.childrenNamed names).length = names.length := by
  apply List.filterMap_length_eq_length.2
  intro n hn
  simp [join_of_isSegment dir (h n hn), Except.toOption]

end RemotePath

/-- What the access stores is named as children of a directory can be. -/
def CacheAccess.NamesChildren : CacheAccess → Prop
  | populate _ records | populateIfCurrent _ _ records => ∀ r ∈ records, IsSegment r.1
  | _ => True

instance : DecidablePred CacheAccess.NamesChildren
  | .populate _ records | .populateIfCurrent _ _ records =>
    inferInstanceAs (Decidable (∀ r ∈ records, IsSegment r.1))
  | .lookup _ | .generation | .invalidate _ | .invalidateTree _ | .updateSize .. | .clear
  | .hasListing _ | .isEmpty =>
    .isTrue trivial

namespace AttributeCache

variable {c : AttributeCache} {a : CacheAccess} {accesses : List CacheAccess} {p q dir : RemotePath}

def Named (c : AttributeCache) : Prop :=
  ∀ dir listing, c.listings.get? dir = some listing → ∀ n ∈ listing.keys, IsSegment n

theorem named_empty : empty.Named := nofun

theorem isSegment_of_mem_keys {records : List (String × Attributes)}
    (h : ∀ r ∈ records, IsSegment r.1) {n : String}
    (hn : n ∈ (KeyMap.ofList records).keys) : IsSegment n := by
  obtain ⟨r, hr⟩ := Option.isSome_iff_exists.1 (KeyMap.mem_keys_iff.1 hn)
  exact h _ (KeyMap.mem_of_get?_ofList hr)

theorem Named.updateSize (h : c.Named) (p : RemotePath) (size : UInt64) :
    (c.updateSize p size).2.Named := by
  intro dir listing hl n hn
  unfold AttributeCache.updateSize at hl
  split at hl
  · simp only [KeyMap.get?_modify] at hl
    split at hl
    · obtain ⟨before, hbefore, rfl⟩ := Option.map_eq_some_iff.1 hl
      rw [KeyMap.keys_modify] at hn
      exact h dir before hbefore n hn
    · exact h dir listing hl n hn
  · exact h dir listing hl n hn

theorem Named.run (h : c.Named) (ha : a.NamesChildren) : (a.run c).2.Named := by
  intro dir listing hl
  rcases CacheAccess.listings_run_cases hl with
    ⟨-, hl⟩ | ⟨records, rfl | ⟨g, rfl, -⟩, rfl⟩ | ⟨p, size, rfl⟩
  · exact h dir listing hl
  · exact fun n hn ↦ isSegment_of_mem_keys ha hn
  · exact fun n hn ↦ isSegment_of_mem_keys ha hn
  · exact h.updateSize p size dir listing hl

theorem Named.after (h : c.Named) (ha : ∀ a ∈ accesses, a.NamesChildren) :
    (c.after accesses).Named := by
  induction accesses generalizing c with
  | nil => exact h
  | cons a accesses ih =>
    exact ih (h.run (ha a List.mem_cons_self)) fun a' ha' ↦ ha a' (List.mem_cons_of_mem a ha')

section Paths

def paths (c : AttributeCache) : List RemotePath :=
  c.listings.toList.flatMap fun e ↦ e.1.childrenNamed e.2.keys

theorem isSome_lookup_iff : (c.lookup q).isSome ↔
    ∃ n listing, q.name? = some n ∧ c.listings.get? q.parent = some listing ∧ n ∈ listing.keys := by
  rw [lookup_eq]
  cases q.name? with
  | none => simp
  | some n =>
    cases c.listings.get? q.parent with
    | none => simp
    | some listing => simp [KeyMap.mem_keys_iff]

theorem mem_paths : q ∈ c.paths ↔ (c.lookup q).isSome := by
  simp only [isSome_lookup_iff, paths, List.mem_flatMap, mem_childrenNamed, Prod.exists,
    KeyMap.get?_eq_some_iff]
  constructor
  · intro h
    obtain ⟨dir, listing, hl, rfl, n, hn, hname⟩ := h
    exact ⟨n, listing, hname, hl, hn⟩
  · intro h
    obtain ⟨n, listing, hname, hl, hn⟩ := h
    exact ⟨q.parent, listing, hl, rfl, n, hn, hname⟩

theorem nodup_paths (c : AttributeCache) : c.paths.Nodup := by
  rw [paths, List.nodup_flatMap]
  refine ⟨fun e _ ↦ nodup_childrenNamed e.1 e.2.nodup,
    (List.pairwise_map.1 c.listings.nodup).imp ?_⟩
  intro e e' hne q hq hq'
  exact hne ((mem_childrenNamed.1 hq).1.symm.trans (mem_childrenNamed.1 hq').1)

theorem length_paths (h : c.Named) : c.paths.length = c.size := by
  have hsum : ∀ l : List (RemotePath × KeyMap String Attributes),
      (∀ e ∈ l, ∀ n ∈ e.2.keys, IsSegment n) →
      (l.flatMap fun e ↦ e.1.childrenNamed e.2.keys).length =
        (l.map Prod.snd).foldr (fun listing n ↦ listing.size + n) 0 := by
    intro l
    induction l with
    | nil => simp
    | cons e l ih =>
      intro hl
      have hhead : (e.1.childrenNamed e.2.keys).length = e.2.size := by
        rw [length_childrenNamed e.1 (hl e List.mem_cons_self), KeyMap.keys, List.length_map,
          KeyMap.size]
      simp [hhead, ih fun e' he' ↦ hl e' (List.mem_cons_of_mem e he')]
  apply hsum
  intro e he
  exact h e.1 e.2 (KeyMap.get?_eq_some_iff.2 he)

end Paths

theorem lookup_root (c : AttributeCache) : c.lookup root = none := rfl

theorem updateSize_fst (c : AttributeCache) (p : RemotePath) (size : UInt64) :
    (c.updateSize p size).1 = (c.lookup p).isSome := by
  cases hn : p.name? with
  | none => simp [updateSize, lookup_eq, hn]
  | some n => cases hl : c.lookup p <;> simp [updateSize, hn, hl]

theorem lookup_populate_last (records : List (String × Attributes)) :
    (c.populate dir records).lookup q =
    if q.parent = dir ∧ q ≠ root then
      (records.reverse.find? fun r ↦ q.name? = some r.1).map Prod.snd
    else c.lookup q := by
  rw [lookup_populate]
  cases hn : q.name? with
  | none =>
    obtain rfl := name?_eq_none_iff.1 hn
    simp only [Option.bind_none, ne_eq, not_true_eq_false, and_false, if_false, lookup_root]
    split <;> rfl
  | some n =>
    have hr : q ≠ root := fun he ↦ by simp [he] at hn
    simp only [hr, ne_eq, not_false_eq_true, and_true, Option.bind_some, KeyMap.get?_ofList,
      Option.some_inj]
    simp only [eq_comm]

theorem lookup_invalidateTree_below : (c.invalidateTree p).lookup q =
    if q.within p = true ∧ q ≠ p then none else c.lookup q := by
  rw [lookup_invalidateTree]
  by_cases hr : q = root
  · subst hr
    rw [lookup_root]
    split <;> split <;> rfl
  · simp only [parent_within_iff hr]

/-- Whatever was done to a cache that was empty at first, storing and dropping a listing,
dropping a subtree and changing a size do to each path what is said of it and leave all others
alone; and the cache is as large as the number of paths it has attributes of. -/
theorem accesses_touch_named_paths (accesses : List CacheAccess)
    (h : ∀ a ∈ accesses, a.NamesChildren) :
    let c := empty.after accesses
    (∀ dir records q, (c.populate dir records).lookup q =
      if q.parent = dir ∧ q ≠ root then
        (records.reverse.find? fun r ↦ q.name? = some r.1).map Prod.snd
      else c.lookup q) ∧
    (∀ dir q, (c.invalidate dir).2.lookup q = if q.parent = dir then none else c.lookup q) ∧
    (∀ p q, (c.invalidateTree p).lookup q = if q.within p = true ∧ q ≠ p then none
      else c.lookup q) ∧
    (∀ p size, (c.updateSize p size).1 = (c.lookup p).isSome ∧ ∀ q,
      (c.updateSize p size).2.lookup q =
      if q = p then (c.lookup q).map fun r ↦ { r with size := size } else c.lookup q) ∧
    c.lookup root = none ∧
    ∃ paths : List RemotePath, paths.Nodup ∧ (∀ q, q ∈ paths ↔ (c.lookup q).isSome) ∧
      c.size = paths.length := by
  intro c
  have hnamed : c.Named := named_empty.after h
  refine ⟨fun dir records q ↦ lookup_populate_last records, fun dir q ↦ lookup_invalidate,
    fun p q ↦ lookup_invalidateTree_below,
      fun p size ↦ ⟨updateSize_fst c p size, fun q ↦ lookup_updateSize size⟩,
    lookup_root c, c.paths, nodup_paths c, fun q ↦ mem_paths, (length_paths hnamed).symm⟩

section Examples

def otherCard : RemotePath := storageCard.parent.child ⟨"microsd2", by decide⟩

def listed : Attributes := ⟨.directory, 0o555, 0, 0, 0⟩

def cardsListed : List CacheAccess :=
  [.populate storageCard.parent [("microsd", listed), ("microsd2", listed)],
    .populate storageCard [("log", listed)], .populate otherCard [("log", listed)]]

theorem accesses_touch_named_paths_cardsListed : (∀ a ∈ cardsListed, a.NamesChildren) ∧
    ((empty.after cardsListed).invalidateTree storageCard).lookup
      (storageCard.child ⟨"log", by decide⟩) = none ∧
    ((empty.after cardsListed).invalidateTree storageCard).lookup storageCard = some listed ∧
    ((empty.after cardsListed).invalidateTree storageCard).lookup
      (otherCard.child ⟨"log", by decide⟩) = some listed ∧
    ∃ paths : List RemotePath, paths.Nodup ∧
    (∀ q, q ∈ paths ↔ ((empty.after cardsListed).lookup q).isSome) ∧
      paths.length = 4 := by
  have hnames : ∀ a ∈ cardsListed, a.NamesChildren := by decide +kernel
  obtain ⟨-, -, htree, -, -, paths, hnodup, hmem, hsize⟩ :=
    accesses_touch_named_paths cardsListed hnames
  have hfour : (empty.after cardsListed).size = 4 := by decide +kernel
  refine ⟨hnames, ?_, ?_, ?_, paths, hnodup, hmem, hsize.symm.trans hfour⟩
  · rw [htree]
    decide +kernel
  · rw [htree]
    decide +kernel
  · rw [htree]
    decide +kernel

end Examples

end AttributeCache

end RemoteMount
