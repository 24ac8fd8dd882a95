import RemoteMount.Proofs.CacheAccesses

namespace RemoteMount

variable {c c' : AttributeCache} {a : CacheAccess} {accesses : List CacheAccess}
    {dir path : RemotePath} {g g' : Nat}

namespace AttributeCache

def after (c : AttributeCache) (accesses : List CacheAccess) : AttributeCache :=
  accesses.foldl (fun c a ↦ (a.run c).2) c

theorem after_append (c : AttributeCache) (accesses more : List CacheAccess) :
    c.after (accesses ++ more) = (c.after accesses).after more := List.foldl_append

theorem staleSince_anti (h : c.staleSince dir g' = true) (hg : g ≤ g') :
    c.staleSince dir g = true := by
  rw [staleSince_iff] at h ⊢
  rcases h with h | ⟨n, hn, hlt⟩ | ⟨path, n, hn, hw, hlt⟩
  · exact .inl (by omega)
  · exact .inr (.inl ⟨n, hn, by omega⟩)
  · exact .inr (.inr ⟨path, n, hn, hw, by omega⟩)

/-- No stamp is of a generation that is yet to come. -/
structure Timed (c : AttributeCache) : Prop where
  cleared : c.clearedAt ≤ c.generation
  directories : ∀ dir n, c.directoryStamps.get? dir = some n → n ≤ c.generation
  subtrees : ∀ path n, c.subtreeStamps.get? path = some n → n ≤ c.generation

theorem timed_empty : empty.Timed := ⟨Nat.le_refl _, nofun, nofun⟩

theorem Timed.not_staleSince (h : c.Timed) (dir : RemotePath) :
    ¬c.staleSince dir c.generation = true := by
  rw [staleSince_iff]
  rintro (hlt | ⟨n, hn, hlt⟩ | ⟨path, n, hn, -, hlt⟩)
  · have hle := h.cleared
    omega
  · have hle := h.directories dir n hn
    omega
  · have hle := h.subtrees path n hn
    omega

theorem Timed.run (h : c.Timed) (a : CacheAccess) : (a.run c).2.Timed := by
  cases a with
  | lookup | generation | populate | hasListing | isEmpty =>
    exact ⟨h.cleared, h.directories, h.subtrees⟩
  | populateIfCurrent dir g records =>
    simp only [CacheAccess.run, populateIfCurrent]
    split <;> exact ⟨h.cleared, h.directories, h.subtrees⟩
  | updateSize path size =>
    simp only [CacheAccess.run, updateSize]
    split <;> exact ⟨h.cleared, h.directories, h.subtrees⟩
  | clear => exact ⟨Nat.le_refl _, by rintro _ _ ⟨⟩, by rintro _ _ ⟨⟩⟩
  | invalidate dir =>
    refine ⟨Nat.le_succ_of_le h.cleared, fun dir' n hn ↦ ?_,
      fun path n hn ↦ Nat.le_succ_of_le (h.subtrees path n hn)⟩
    simp only [CacheAccess.run, invalidate, KeyMap.get?_insert] at hn ⊢
    split at hn
    · exact (Option.some_inj.1 hn).ge
    · exact Nat.le_succ_of_le (h.directories dir' n hn)
  | invalidateTree path =>
    refine ⟨Nat.le_succ_of_le h.cleared, fun dir n hn ↦ Nat.le_succ_of_le (h.directories dir n hn),
      fun path' n hn ↦ ?_⟩
    simp only [CacheAccess.run, invalidateTree, KeyMap.get?_insert] at hn ⊢
    split at hn
    · exact (Option.some_inj.1 hn).ge
    · exact Nat.le_succ_of_le (h.subtrees path' n hn)

theorem Timed.after (h : c.Timed) (accesses : List CacheAccess) : (c.after accesses).Timed := by
  induction accesses generalizing c with
  | nil => exact h
  | cons a accesses ih => exact ih (h.run a)

end AttributeCache

namespace CacheAccess

/-- What makes a listing stale that was not is that its directory is dropped. -/
theorem drops_of_staleSince (h : (a.run c).2.staleSince dir g = true) :
    c.staleSince dir g = true ∨ a.Drops dir := by
  cases a with
  | lookup | generation | populate | hasListing | isEmpty => exact .inl h
  | populateIfCurrent dir' g' records =>
    simp only [run, AttributeCache.populateIfCurrent] at h
    split at h <;> exact .inl h
  | updateSize path size =>
    simp only [run, AttributeCache.updateSize] at h
    split at h <;> exact .inl h
  | clear => exact .inr trivial
  | invalidate dir' =>
    by_cases hd : dir = dir'
    · exact .inr hd
    · rw [AttributeCache.staleSince_iff] at h ⊢
      refine .inl (h.imp_right (Or.imp_left ?_))
      rintro ⟨n, hn, hlt⟩
      simp only [run, AttributeCache.invalidate, KeyMap.get?_insert, if_neg hd] at hn
      exact ⟨n, hn, hlt⟩
  | invalidateTree path =>
    by_cases hd : dir.within path = true
    · exact .inr hd
    · rw [AttributeCache.staleSince_iff] at h ⊢
      refine .inl (h.imp_right (Or.imp_right ?_))
      rintro ⟨path', n, hn, hw, hlt⟩
      -- The stamp that was set is of a subtree without `dir`.
      have hne : path' ≠ path := fun he ↦ hd (he ▸ hw)
      simp only [run, AttributeCache.invalidateTree, KeyMap.get?_insert, if_neg hne] at hn
      exact ⟨path', n, hn, hw, hlt⟩

theorem staleSince_run_iff (hg : g ≤ c.generation) :
    (a.run c).2.staleSince dir g = true ↔ c.staleSince dir g = true ∨ a.Drops dir :=
  ⟨drops_of_staleSince, fun h ↦ h.elim (staleSince_run · hg) (staleSince_of_drops · hg)⟩

end CacheAccess

namespace AttributeCache

theorem staleSince_after_iff (hg : g ≤ c.generation) :
    (c.after accesses).staleSince dir g = true ↔ c.staleSince dir g = true ∨ ∃ a ∈ accesses,
      a.Drops dir := by
  induction accesses generalizing c with
  | nil => simp [after]
  | cons a accesses ih =>
    have hstep := ih (hg.trans (CacheAccess.generation_le c a))
    rw [CacheAccess.staleSince_run_iff hg, or_assoc] at hstep
    rw [List.exists_mem_cons_iff]
    exact hstep

theorem exists_drops_iff : (∃ a ∈ accesses, a.Drops dir) ↔
    .clear ∈ accesses ∨ .invalidate dir ∈ accesses ∨ ∃ path, .invalidateTree path ∈ accesses ∧
    dir.within path = true := by
  constructor
  · rintro ⟨a, ha, hd⟩
    cases a with
    | clear => exact .inl ha
    | invalidate dir' =>
      obtain rfl : dir = dir' := hd
      exact .inr (.inl ha)
    | invalidateTree path => exact .inr (.inr ⟨path, ha, hd⟩)
    | _ => exact hd.elim
  · rintro (ha | ha | ⟨path, ha, hw⟩)
    · exact ⟨_, ha, trivial⟩
    · exact ⟨_, ha, rfl⟩
    · exact ⟨_, ha, hw⟩

/-- The records have taken the place of the listing of `dir`, and nothing else is different. -/
structure Stored (c : AttributeCache) (dir : RemotePath) (records : List (String × Attributes))
    (c' : AttributeCache) :
    Prop where
  listing : ∃ listing, c'.listings.get? dir = some listing ∧
    ∀ name, listing.get? name = (records.reverse.find? (·.1 = name)).map Prod.snd
  others : ∀ dir', dir' ≠ dir → c'.listings.get? dir' = c.listings.get? dir'
  rest : c' = { c with listings := c'.listings }

theorem stored_populate (c : AttributeCache) (dir : RemotePath)
    (records : List (String × Attributes)) :
    c.Stored dir records (c.populate dir records) := by
  refine ⟨⟨.ofList records, ?_, KeyMap.get?_ofList records⟩, fun dir' hne ↦ ?_, rfl⟩
  · rw [populate, KeyMap.get?_insert_self]
  · rw [populate, KeyMap.get?_insert, if_neg hne]

/-- Of a cache that was empty at first, the generation is asked for after some accesses, and a
listing of `dir` is offered after some more. The cache takes the listing exactly if nothing
dropped `dir` in between, and otherwise stays as it is. -/
theorem listing_taken_iff (before between : List CacheAccess) (dir : RemotePath)
    (records : List (String × Attributes)) :
    let begun := (CacheAccess.generation.run (empty.after before)).1
    let found := empty.after (before ++ .generation :: between)
    let offered := (CacheAccess.populateIfCurrent dir begun records).run found
    (offered.1 = true ↔ .clear ∉ between ∧ .invalidate dir ∉ between ∧
      ∀ path, .invalidateTree path ∈ between → dir.within path = false) ∧
    (offered.1 = true → found.Stored dir records offered.2) ∧
      (offered.1 = false → offered.2 = found) := by
  intro begun found offered
  have hfound : found = (empty.after before).after between := after_append _ _ _
  have hfresh : ¬(empty.after before).staleSince dir begun = true :=
    (timed_empty.after before).not_staleSince dir
  have hstale : found.staleSince dir begun = true ↔ .clear ∈ between ∨ .invalidate dir ∈ between ∨
      ∃ path, .invalidateTree path ∈ between ∧ dir.within path = true := by
    have hbegun : begun ≤ (empty.after before).generation := Nat.le_refl _
    rw [hfound, staleSince_after_iff hbegun, or_iff_right hfresh, exists_drops_iff]
  have hoffered : offered = if found.staleSince dir begun then (false, found)
      else (true, found.populate dir records) := rfl
  by_cases hs : found.staleSince dir begun = true
  · rw [if_pos hs] at hoffered
    rw [hoffered]
    refine ⟨⟨nofun, fun hkept ↦ ?_⟩, nofun, fun _ ↦ rfl⟩
    rcases hstale.1 hs with h | h | ⟨path, h, hw⟩
    · exact absurd h hkept.1
    · exact absurd h hkept.2.1
    · rw [hkept.2.2 path h] at hw
      cases hw
  · rw [if_neg hs] at hoffered
    rw [hoffered]
    refine ⟨⟨fun _ ↦ ?_, fun _ ↦ rfl⟩, fun _ ↦ stored_populate found dir records, nofun⟩
    have hkept := mt hstale.2 hs
    refine ⟨fun h ↦ hkept (.inl h), fun h ↦ hkept (.inr (.inl h)), fun path h ↦ ?_⟩
    exact Bool.eq_false_iff.2 fun hw ↦ hkept (.inr (.inr ⟨path, h, hw⟩))

theorem listing_taken_iff_cardDropped :
    ((CacheAccess.populateIfCurrent .root 1 []).run
      (empty.after ([.clear] ++ .generation :: [.invalidateTree .storageCard]))).1 = true := by
  refine (listing_taken_iff [.clear] [.invalidateTree .storageCard] .root []).1.2
    ⟨by decide, by decide, ?_⟩
  rintro path (_ | ⟨_, ⟨⟩⟩)
  rfl

end AttributeCache

end RemoteMount
