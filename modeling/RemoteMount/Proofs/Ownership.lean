import RemoteMount.Proofs.NamespaceCoherence

namespace RemoteMount

open Program

def Attributes.OwnedBy (a : Attributes) (caller : Caller) : Prop :=
  a.uid = caller.uid ∧ a.gid = caller.gid

instance (a : Attributes) (caller : Caller) : Decidable (a.OwnedBy caller) :=
  inferInstanceAs (Decidable (_ ∧ _))

namespace Ownership

/-- A device and a cache, and for whom the listings were made that the cache took, the latest
first. -/
structure State (σ : Type) where
  shared : CachedDevice σ
  fills : List (RemotePath × Caller)

def fillsOf (caller : Caller) : (a : Step) → a.Answer → List (RemotePath × Caller)
  | .cache (.populateIfCurrent dir _ _), true => [(dir, caller)]
  | _, _ => []

variable {σ : Type}

/-- For whom the latest listing of `dir` was made that the cache took. -/
def State.filler? (s : State σ) (dir : RemotePath) : Option Caller :=
  (s.fills.find? (·.1 = dir)).map Prod.snd

/-- What the cache holds belongs to whom it was listed for. -/
def State.Attributed (s : State σ) : Prop :=
  ∀ p a, s.shared.cache.lookup p = some a → ∃ filler, s.filler? p.parent = some filler ∧
    a.OwnedBy filler

variable {policy : Policy} {caller : Caller} {naming : Bool} {owed : Duty → Prop}
    {known : Fact → Prop}
variable {s : State σ} {dir path : RemotePath} {a : Attributes}

theorem ownedBy_of_mem {rows : List ListingEntry} {name : String}
    (h : (name, a) ∈ Filesystem.recordsOf policy caller dir rows) : a.OwnedBy caller := by
  obtain ⟨row, -, p, -, -, ha⟩ := Filesystem.mem_recordsOf.1 h
  rw [ha]
  exact ⟨rfl, rfl⟩

theorem attributed_populate (policy : Policy) (caller : Caller) (dir : RemotePath)
    (rows : List ListingEntry) (h : s.Attributed) :
    State.Attributed
      (⟨{ s.shared with
        cache := s.shared.cache.populate dir (Filesystem.recordsOf policy caller dir rows) },
        (dir, caller) :: s.fills⟩ : State σ) := by
  intro p a ha
  rcases AttributeCache.lookup_populate_cases ha with ⟨name, hp, -, hm⟩ | ⟨hp, ha⟩
  · refine ⟨caller, ?_, ownedBy_of_mem hm⟩
    rw [State.filler?, List.find?_cons_of_pos (by simpa using hp.symm)]
    rfl
  · obtain ⟨filler, hfiller, howned⟩ := h p a ha
    refine ⟨filler, ?_, howned⟩
    rw [State.filler?, List.find?_cons_of_neg (by simpa using Ne.symm hp)]
    exact hfiller

theorem attributed_access {a : CacheAccess} (h : s.Attributed)
    (hl : ∀ p r, (a.run s.shared.cache).2.lookup p = some r →
      ∃ r', s.shared.cache.lookup p = some r' ∧ r'.uid = r.uid ∧ r'.gid = r.gid) :
    State.Attributed (⟨{ s.shared with cache := (a.run s.shared.cache).2 }, s.fills⟩ :
      State σ) := by
  intro p r hr
  obtain ⟨r', hr', hu, hg⟩ := hl p r hr
  obtain ⟨filler, hfiller, howned⟩ := h p r' hr'
  exact ⟨filler, hfiller, hu.symm.trans howned.1, hg.symm.trans howned.2⟩

variable [RemoteDevice σ]

def State.take (caller : Caller) (a : Step) (s : State σ) : a.Answer × State σ :=
  let x := a.run s.shared
  (x.1, ⟨x.2, fillsOf caller a x.1 ++ s.fills⟩)

def State.serve (policy : Policy) (s : State σ) (request : Caller × Call String) : State σ :=
  ((request.2.programOfText policy request.1).interpret (State.take request.1) s).2

def run (policy : Policy) (device : σ) (requests : List (Caller × Call String)) : State σ :=
  requests.foldl (State.serve policy) ⟨⟨device, .empty⟩, []⟩

theorem attributed_take {α : Type} {step : Step} {next : step.Answer → Program α} (h : s.Attributed)
    (hs : Allows policy caller naming owed known step next) :
    (s.take caller step).2.Attributed := by
  cases step with
  | remote r => exact h
  | size id => exact h
  | cache access =>
    -- An access that stores nothing leaves a record as it is or drops it.
    have hkept : (∀ c p, access.stores c p = false) →
        State.Attributed (⟨{ s.shared with cache := (access.run s.shared.cache).2 }, s.fills⟩ :
          State σ) := by
      intro hstores
      refine attributed_access h fun p a ha ↦ ?_
      by_cases hd : access.Drops p.parent
      · rw [CacheAccess.lookup_of_drops hd] at ha
        cases ha
      · rw [CacheAccess.lookup_run_of_not_stores hd (hstores _ p)] at ha
        exact ⟨a, ha, rfl, rfl⟩
    cases access with
    | populate dir records => exact hs.elim
    | populateIfCurrent dir g records =>
      obtain ⟨rows, -, hrecords⟩ := hs
      subst hrecords
      cases hstale : s.shared.cache.staleSince dir g with
      | true =>
        simpa [State.take, Step.run, CacheAccess.run, AttributeCache.populateIfCurrent, hstale,
          fillsOf] using h
      | false =>
        have hfilled := attributed_populate policy caller dir rows h
        simpa [State.take, Step.run, CacheAccess.run, AttributeCache.populateIfCurrent, hstale,
          fillsOf] using hfilled
    | updateSize path size =>
      refine attributed_access (a := .updateSize path size) h fun p a ha ↦ ?_
      rw [CacheAccess.run, AttributeCache.lookup_updateSize] at ha
      split at ha
      · obtain ⟨a', ha', he⟩ := Option.map_eq_some_iff.1 ha
        exact ⟨a', ha', by rw [← he], by rw [← he]⟩
      · exact ⟨a, ha, rfl, rfl⟩
    | lookup | generation | invalidate | invalidateTree | clear | hasListing | isEmpty =>
      exact hkept fun _ _ ↦ rfl

theorem attributed_interpret {α : Type} {p : Program α}
    (hp : p.Keeps policy caller naming owed known)
    (h : s.Attributed) : (p.interpret (State.take caller) s).2.Attributed := by
  induction p generalizing s known with
  | done a => exact h
  | step step next ih =>
    obtain ⟨ha, hnext⟩ := hp
    exact ih _ (hnext _) (attributed_take h ha)

theorem attributed_serve {request : Caller × Call String} (h : s.Attributed) :
    (s.serve policy request).Attributed := by
  unfold State.serve Call.programOfText
  split
  · rename_i call _
    exact attributed_interpret (call.keeps_program policy request.1 (fun _ ↦ False) fun _ ↦ False) h
  · exact h

theorem attributed_run (policy : Policy) (device : σ) (requests : List (Caller × Call String)) :
    (run policy device requests).Attributed := by
  suffices hgen : ∀ s : State σ, s.Attributed →
      (requests.foldl (State.serve policy) s).Attributed by
    apply hgen
    intro p a ha
    rw [AttributeCache.lookup_empty] at ha
    cases ha
  induction requests with
  | nil => exact fun _ h ↦ h
  | cons request requests ih => exact fun s h ↦ ih _ (attributed_serve h)

theorem ownedBy_of_getattr {m : CachedDevice σ}
    (h : ((Filesystem.getattr policy caller path).run m).1 = .ok a) :
    m.cache.lookup path = some a ∨ m.cache.lookup path = none ∧ a.OwnedBy caller := by
  unfold Filesystem.getattr at h
  split at h
  · rename_i hn
    cases h
    exact .inr ⟨by rw [AttributeCache.lookup_eq, hn]; rfl, rfl, rfl⟩
  · rename_i name hn
    simp only [Program.run, interpret_bind, access, interpret, Step.run, CacheAccess.run] at h
    cases ha : m.cache.lookup path with
    | some a' =>
      rw [ha] at h
      cases h
      exact .inl rfl
    | none =>
      refine .inr ⟨rfl, ?_⟩
      rw [ha] at h
      simp only [interpret_bind] at h
      split at h
      · cases h
      · rename_i records hrefresh
        obtain ⟨rows, hrecords⟩ := Filesystem.exists_rows_of_refresh hrefresh
        split at h
        · rename_i name' a' hfind
          cases h
          rw [hrecords] at hfind
          exact ownedBy_of_mem (List.mem_of_find?_eq_some hfind)
        · cases h

/-- After any calls of any callers to any device: what `getattr` answers with belongs to the
caller exactly if the path is not cached, or the latest listing of its directory that the cache
took was made for the same user and group. -/
theorem getattr_owner_iff (policy : Policy) (device : σ) (requests : List (Caller × Call String))
    (caller : Caller) (path : RemotePath) {a : Attributes}
    (h : ((Filesystem.getattr policy caller path).run (run policy device requests).shared).1 =
      .ok a) :
    a.OwnedBy caller ↔ (run policy device requests).shared.cache.lookup path = none ∨
      ∃ filler, (run policy device requests).filler? path.parent = some filler ∧
      filler.uid = caller.uid ∧
        filler.gid = caller.gid := by
  rcases ownedBy_of_getattr h with hcached | ⟨hnone, howned⟩
  · obtain ⟨filler, hfiller, hu, hg⟩ := attributed_run policy device requests path a hcached
    rw [hcached, hfiller, Attributes.OwnedBy, hu, hg]
    simp
  · rw [hnone]
    exact ⟨fun _ ↦ .inl rfl, fun _ ↦ howned⟩

section Examples

open Interleaving Memory

def guest : Caller := ⟨1001, 101, 7⟩

def oneFile : Device := { Device.empty 64 with tree := (Device.empty 64).tree.insertFile fileA [] }

theorem getattr_owner_iff_listed_for_user :
    (⟨.file, 0o444, 0, 1000, 100⟩ : Attributes).OwnedBy guest ↔
    (run .standard oneFile [(user, .getattr "/a")]).shared.cache.lookup fileA = none ∨
      ∃ filler, (run .standard oneFile [(user, .getattr "/a")]).filler? fileA.parent = some filler ∧
        filler.uid = guest.uid ∧ filler.gid = guest.gid :=
  getattr_owner_iff .standard oneFile [(user, .getattr "/a")] guest fileA (by decide +kernel)

/-- A file that was listed for one user is shown to another as owned by the first. -/
theorem getattr_owner_is_lister :
    ¬∀ (policy : Policy) (device : Device) (requests : List (Caller × Call String))
    (caller : Caller) (path : RemotePath) (a : Attributes),
    ((Filesystem.getattr policy caller path).run (run policy device requests).shared).1 = .ok a →
      a.OwnedBy caller := by
  intro h
  have howned := h .standard oneFile [(user, .getattr "/a")] guest fileA ⟨.file, 0o444, 0,
    1000, 100⟩
    (by decide +kernel)
  exact absurd howned (by decide)

end Examples

end Ownership

end RemoteMount
