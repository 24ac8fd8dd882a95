import RemoteMount.Proofs.Memory.Listings

namespace RemoteMount

theorem Program.run_bind {σ α β : Type} [RemoteDevice σ] (p : Program α) (f : α → Program β)
    (m : CachedDevice σ) :
    (p >>= f).run m = (f (p.run m).1).run (p.run m).2 :=
  interpret_bind _ _ _ _

namespace Filesystem

open Program

variable {σ : Type} [RemoteDevice σ] {policy : Policy} {caller : Caller} {m : CachedDevice σ}
    {dir path : RemotePath}
variable {name : String} {rows : List ListingEntry} {e : RemoteError}

/-- A row whose name is the last one of a path can be joined to the directory above, so none of
them is left out. -/
theorem find?_recordsOf (hn : path.name? = some name) :
    (recordsOf policy caller path.parent rows).find? (·.1 = name) =
      (rows.find? (·.name = name)).map fun row ↦ (name, .ofEntry path row policy caller) := by
  have hjoin : path.parent.join name = .ok path := RemotePath.join_eq_ok_iff.2 ⟨rfl, hn⟩
  induction rows with
  | nil => rfl
  | cons row rows ih =>
    rw [recordsOf, List.filterMap_cons, List.find?_cons]
    by_cases hrow : row.name = name
    · simp only [hrow, hjoin, List.find?_cons, decide_true, Option.map_some]
    · rw [← recordsOf]
      cases path.parent.join row.name <;> simpa [hrow] using ih

theorem reverse_recordsOf :
    (recordsOf policy caller dir rows).reverse = recordsOf policy caller dir rows.reverse :=
  List.filterMap_reverse.symm

theorem run_refresh_of_error (h : (RemoteDevice.answer (.listdir dir) m.device).1 = .error e) :
    (refresh policy caller dir).run m =
      (.error e, ⟨(RemoteDevice.answer (.listdir dir) m.device).2, m.cache⟩) := by
  simp only [refresh, Program.run, interpret_bind, access, request, interpret, Step.run, h]
  rfl

theorem run_refresh_of_ok (h : (RemoteDevice.answer (.listdir dir) m.device).1 = .ok rows) :
    (refresh policy caller dir).run m = (.ok (recordsOf policy caller dir rows),
      ⟨(RemoteDevice.answer (.listdir dir) m.device).2,
        (m.cache.populateIfCurrent dir m.cache.generation
          (recordsOf policy caller dir rows)).2⟩) := by
  simp only [refresh, Program.run, interpret_bind, access, request, interpret, Step.run, h]
  rfl

theorem run_getattr_hit {a : Attributes} (hn : path.name? = some name)
    (h : m.cache.lookup path = some a) :
    (getattr policy caller path).run m = (.ok a, m) := by
  simp only [getattr, hn, Program.run, interpret_bind, access, interpret, Step.run,
    CacheAccess.run, h]
  rfl

theorem run_getattr_of_error (hn : path.name? = some name) (hl : m.cache.lookup path = none)
    (h : (RemoteDevice.answer (.listdir path.parent) m.device).1 = .error e) :
    (getattr policy caller path).run m =
      (.error (.remote e), ⟨(RemoteDevice.answer (.listdir path.parent) m.device).2, m.cache⟩) := by
  have hlookup : (access (.lookup path)).run m = (none, m) := congrArg (·, m) hl
  rw [getattr, hn]
  dsimp only
  rw [run_bind, hlookup, run_bind, run_refresh_of_error h]
  rfl

theorem run_getattr_of_ok (hn : path.name? = some name) (hl : m.cache.lookup path = none)
    (h : (RemoteDevice.answer (.listdir path.parent) m.device).1 = .ok rows) :
    (getattr policy caller path).run m =
      (match (recordsOf policy caller path.parent rows).find? (·.1 = name) with
        | some (_, a) => .ok a
        | none => .error (.notFound path.text),
      ⟨(RemoteDevice.answer (.listdir path.parent) m.device).2,
        (m.cache.populateIfCurrent path.parent m.cache.generation
          (recordsOf policy caller path.parent rows)).2⟩) := by
  have hlookup : (access (.lookup path)).run m = (none, m) := congrArg (·, m) hl
  rw [getattr, hn]
  dsimp only
  rw [run_bind, hlookup, run_bind, run_refresh_of_ok h]
  dsimp only
  cases (recordsOf policy caller path.parent rows).find? (·.1 = name) <;> rfl

theorem run_getattr_miss (hn : path.name? = some name) (hl : m.cache.lookup path = none) :
    ((getattr policy caller path).run m).1 =
      match (RemoteDevice.answer (.listdir path.parent) m.device).1 with
      | .error e => .error (.remote e)
      | .ok rows =>
        match (recordsOf policy caller path.parent rows).find? (·.1 = name) with
        | some (_, a) => .ok a
        | none => .error (.notFound path.text) := by
  cases h : (RemoteDevice.answer (.listdir path.parent) m.device).1 with
  | error e => rw [run_getattr_of_error hn hl h]
  | ok rows => rw [run_getattr_of_ok hn hl h]

/-- The rows for the children of a directory: of what the device lists, those whose names can be
names of children. -/
def childRows (listed : List ListingEntry) : List DirectoryRow :=
  (listed.filter (IsSegment ·.name)).map fun row ↦ ⟨row.name, row.kind⟩

theorem isSegment_of_mem_childRows {row : DirectoryRow} (h : row ∈ childRows rows) :
    IsSegment row.name := by
  obtain ⟨entry, hentry, rfl⟩ := List.mem_map.1 h
  simpa using (List.mem_filter.1 hentry).2

theorem map_recordsOf (policy : Policy) (caller : Caller) (dir : RemotePath)
    (rows : List ListingEntry) :
    (recordsOf policy caller dir rows).map (fun r ↦ (⟨r.1, r.2.kind⟩ : DirectoryRow)) =
      childRows rows := by
  induction rows with
  | nil => rfl
  | cons row rows ih =>
    rw [recordsOf, List.filterMap_cons, ← recordsOf, childRows, List.filter_cons]
    by_cases hname : IsSegment row.name
    · simp only [RemotePath.join_of_isSegment dir hname, hname, decide_true, if_true,
        List.map_cons, ih]
      rfl
    · cases hjoin : dir.join row.name with
      | ok q => exact absurd (RemotePath.exists_join_iff.1 ⟨q, hjoin⟩) hname
      | error e =>
        simp only [hname, decide_false, Bool.false_eq_true, if_false, ih]
        rfl

theorem run_readdir_of_ok (policy : Policy) (caller : Caller)
    (h : (RemoteDevice.answer (.listdir dir) m.device).1 = .ok rows) :
    ((readdir policy caller dir).run m).1 =
      .ok (⟨".", .directory⟩ :: ⟨"..", .directory⟩ :: childRows rows) := by
  rw [readdir, Program.run_bind, run_refresh_of_ok h, ← map_recordsOf policy caller dir]
  rfl

theorem run_readdir_of_error (policy : Policy) (caller : Caller)
    (h : (RemoteDevice.answer (.listdir dir) m.device).1 = .error e) :
    ((readdir policy caller dir).run m).1 = .error (.remote e) := by
  rw [readdir, Program.run_bind, run_refresh_of_error h]
  rfl

end Filesystem

end RemoteMount
