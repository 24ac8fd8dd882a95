import RemoteMount.Proofs.ListingCalls
import RemoteMount.Proofs.Staleness
import RemoteMount.Scenario.Storage

namespace RemoteMount

namespace ListingEntry

def shown (row : ListingEntry) : EntryKind × UInt64 :=
  (row.kind, if row.kind = .file then row.size else 0)

/-- The first row of the name and the last one show the same. Names that are listed at most once
have this property. -/
def EndsAgree (rows : List ListingEntry) (name : String) : Prop :=
  (rows.find? (·.name = name)).map shown = (rows.reverse.find? (·.name = name)).map shown

instance (rows : List ListingEntry) (name : String) : Decidable (EndsAgree rows name) :=
  inferInstanceAs (Decidable (_ = _))

theorem endsAgree_of_not_listed {rows : List ListingEntry} {name : String}
    (h : ∀ row ∈ rows, row.name ≠ name) :
    EndsAgree rows name := by
  have hfirst : rows.find? (·.name = name) = none := by simpa using h
  have hlast : rows.reverse.find? (·.name = name) = none := by simpa using h
  rw [EndsAgree, hfirst, hlast]

end ListingEntry

variable {policy : Policy} {caller : Caller} {path : RemotePath} {row row' : ListingEntry}

theorem Attributes.ofEntry_eq_ofEntry_iff :
    ofEntry path row policy caller = ofEntry path row' policy caller ↔ row.shown = row'.shown := by
  simp only [ofEntry, ListingEntry.shown, mk.injEq, Prod.mk.injEq, and_true]
  exact ⟨fun h ↦ ⟨h.1, h.2.2⟩, fun h ↦ ⟨h.1, by rw [h.1], h.2⟩⟩

namespace Filesystem

variable {σ : Type} [RemoteDevice σ] {m : CachedDevice σ} {name : String} {rows : List ListingEntry}

theorem lookup_populate_recordsOf {c : AttributeCache} (hn : path.name? = some name) :
    (c.populate path.parent (recordsOf policy caller path.parent rows)).lookup path =
      (rows.reverse.find? (·.name = name)).map fun row ↦ .ofEntry path row policy caller := by
  rw [AttributeCache.lookup_populate, if_pos rfl, hn, Option.bind_some, KeyMap.get?_ofList,
    reverse_recordsOf, find?_recordsOf hn, Option.map_map]
  rfl

/-- A listing that nothing overtook answers with the first row of the name, and leaves the last
one in the cache. -/
theorem run_getattr_stores (policy : Policy) (caller : Caller) (hn : path.name? = some name)
    (hl : m.cache.lookup path = none) (hm : m.cache.Timed)
    (h : (RemoteDevice.answer (.listdir path.parent) m.device).1 = .ok rows) :
    ((getattr policy caller path).run m).1 =
        ((rows.find? (·.name = name)).map fun row ↦ .ofEntry path row policy caller).elim
          (.error (.notFound path.text)) .ok ∧
      ((getattr policy caller path).run m).2.device =
        (RemoteDevice.answer (.listdir path.parent) m.device).2 ∧
      ((getattr policy caller path).run m).2.cache.lookup path =
        (rows.reverse.find? (·.name = name)).map fun row ↦ .ofEntry path row policy caller := by
  have hcurrent := Bool.eq_false_iff.2 (hm.not_staleSince path.parent)
  rw [run_getattr_of_ok hn hl h, find?_recordsOf hn]
  refine ⟨?_, rfl, ?_⟩
  · cases rows.find? (·.name = name) <;> rfl
  · simp only [AttributeCache.populateIfCurrent, hcurrent, Bool.false_eq_true, if_false]
    exact lookup_populate_recordsOf hn

/-- The second of two calls in a row answers as the first. -/
def Repeats (policy : Policy) (caller : Caller) (path : RemotePath) (m : CachedDevice σ) : Prop :=
  ((getattr policy caller path).run ((getattr policy caller path).run m).2).1 =
    ((getattr policy caller path).run m).1

theorem repeats_root (hn : path.name? = none) : Repeats policy caller path m := by
  have hroot : ∀ m : CachedDevice σ,
      (getattr policy caller path).run m = (.ok (.ofRoot caller), m) := by
    intro m
    rw [getattr, hn]
    rfl
  rw [Repeats, hroot, hroot]

theorem repeats_of_hit {a : Attributes} (hn : path.name? = some name)
    (hl : m.cache.lookup path = some a) :
    Repeats policy caller path m := by
  rw [Repeats, run_getattr_hit hn hl, run_getattr_hit hn hl]

theorem repeats_of_error {e : RemoteError} (hn : path.name? = some name)
    (hl : m.cache.lookup path = none)
    (h₁ : (RemoteDevice.answer (.listdir path.parent) m.device).1 = .error e)
    (h₂ : (RemoteDevice.answer (.listdir path.parent)
      (RemoteDevice.answer (.listdir path.parent) m.device).2).1 = .error e) :
      Repeats policy caller path m := by
  have hagain : (getattr policy caller path).run
      ⟨(RemoteDevice.answer (.listdir path.parent) m.device).2, m.cache⟩ = _ :=
        run_getattr_of_error hn hl h₂
  rw [Repeats, run_getattr_of_error hn hl h₁, hagain]

/-- A first call that misses tells of the first row. The second tells of the last, if there is
any in the cache. -/
theorem repeats_iff_endsAgree (hn : path.name? = some name) (hl : m.cache.lookup path = none)
    (hm : m.cache.Timed) (h₁ : (RemoteDevice.answer (.listdir path.parent) m.device).1 = .ok rows)
    (h₂ : (RemoteDevice.answer (.listdir path.parent)
      (RemoteDevice.answer (.listdir path.parent) m.device).2).1 = .ok rows) :
    Repeats policy caller path m ↔ ListingEntry.EndsAgree rows name := by
  obtain ⟨hanswer, hdevice, hcache⟩ := run_getattr_stores policy caller hn hl hm h₁
  cases hlast : rows.reverse.find? (·.name = name) with
  | none =>
    have hnone : ∀ row ∈ rows, row.name ≠ name := by simpa using hlast
    rw [hlast] at hcache
    rw [← hdevice] at h₂
    rw [Repeats, run_getattr_miss hn hcache, h₂, run_getattr_miss hn hl, h₁]
    exact iff_of_true rfl (ListingEntry.endsAgree_of_not_listed hnone)
  | some last =>
    have hlisted : last ∈ rows ∧ last.name = name :=
      ⟨List.mem_reverse.1 (List.mem_of_find?_eq_some hlast), by simpa using List.find?_some hlast⟩
    obtain ⟨first, hfirst⟩ : ∃ first, rows.find? (·.name = name) = some first := by
      rw [← Option.isSome_iff_exists, List.find?_isSome]
      exact ⟨last, hlisted.1, decide_eq_true hlisted.2⟩
    rw [hlast] at hcache
    rw [Repeats, run_getattr_hit hn hcache, hanswer, ListingEntry.EndsAgree, hfirst, hlast]
    simp only [Option.map_some, Option.elim_some, Except.ok.injEq, Option.some.injEq]
    exact Attributes.ofEntry_eq_ofEntry_iff.trans eq_comm

/-- In every state of a cache and on every device that answers two listings of the parent alike:
two calls in a row answer alike exactly if the first one hits the cache, or the listing fails,
or the first row that it has for the name shows the same as the last. -/
theorem getattr_idempotent_iff (policy : Policy) (caller : Caller) (path : RemotePath) (device : σ)
    (accesses : List CacheAccess) {listing : Except RemoteError (List ListingEntry)}
    (h₁ : (RemoteDevice.answer (.listdir path.parent) device).1 = listing)
    (h₂ : (RemoteDevice.answer (.listdir path.parent)
      (RemoteDevice.answer (.listdir path.parent) device).2).1 = listing) :
    Repeats policy caller path ⟨device, AttributeCache.empty.after accesses⟩ ↔
      (AttributeCache.empty.after accesses).lookup path ≠ none ∨
        ∀ rows name, listing = .ok rows → path.name? = some name →
        ListingEntry.EndsAgree rows name := by
  cases hn : path.name? with
  | none => exact iff_of_true (repeats_root hn) (.inr fun _ _ _ hname ↦ nomatch hname)
  | some name =>
    cases hl : (AttributeCache.empty.after accesses).lookup path with
    | some a => exact iff_of_true (repeats_of_hit hn hl) (.inl (Option.some_ne_none a))
    | none =>
      rw [or_iff_right fun hne ↦ hne rfl]
      cases listing with
      | error e => exact iff_of_true (repeats_of_error hn hl h₁ h₂) fun _ _ hrows ↦ nomatch hrows
      | ok rows =>
        rw [repeats_iff_endsAgree hn hl (AttributeCache.timed_empty.after accesses) h₁ h₂]
        refine ⟨?_, fun h ↦ h rows name rfl rfl⟩
        rintro h _ _ ⟨⟩ ⟨⟩
        exact h

section Examples

open Memory Scenario

def visitor : Caller := ⟨1000, 100, 42⟩

def bentRoot (rows : List ListingEntry) : Scripted Device :=
  { Scripted.plain (Device.empty 64) with listings := KeyMap.empty.insert .root rows }

def doubled : RemotePath := RemotePath.root.child ⟨"f", by decide⟩

def oddDirectories : List ListingEntry := [⟨"f", .directory, 1⟩, .file "g" 2, ⟨"f", .directory, 3⟩]

theorem getattr_idempotent_iff_directories : Repeats .standard visitor doubled
    ⟨bentRoot oddDirectories, AttributeCache.empty.after [.clear]⟩ := by
  have hlisted : (RemoteDevice.answer (.listdir doubled.parent) (bentRoot oddDirectories)).1 =
      .ok oddDirectories := by
    decide +kernel
  refine (getattr_idempotent_iff .standard visitor doubled _ [.clear] hlisted (by decide +kernel)).2
    (.inr ?_)
  rintro _ name ⟨⟩ hname
  obtain rfl : "f" = name := Option.some_inj.1 hname
  decide +kernel

/-- A file that is listed with two sizes has the first one when it is asked for, and the second
when it is asked for again. -/
theorem getattr_tells_other_size :
    ¬∀ (device : Scripted Device) (accesses : List CacheAccess) (path : RemotePath)
    (rows : List ListingEntry), (RemoteDevice.answer (.listdir path.parent) device).1 = .ok rows →
      (RemoteDevice.answer (.listdir path.parent)
        (RemoteDevice.answer (.listdir path.parent) device).2).1 = .ok rows →
        Repeats .standard visitor path ⟨device, AttributeCache.empty.after accesses⟩ := by
  intro h
  have hrepeats := h (bentRoot [.file "f" 1, .file "f" 2]) [] doubled [.file "f" 1, .file "f" 2]
    (by decide +kernel)
    (by decide +kernel)
  revert hrepeats
  unfold Repeats
  decide +kernel

end Examples

end Filesystem

end RemoteMount
