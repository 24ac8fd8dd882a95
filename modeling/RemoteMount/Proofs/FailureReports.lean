import RemoteMount.Proofs.Attempts

namespace RemoteMount

open Program

variable {α : Type} {making : Bool} {log : List Attempt}

section Errors

variable {β ε ε' : Type} {x : Except ε α} {e : ε}

theorem bind_eq_error_iff {f : α → Except ε β} :
    x >>= f = .error e ↔ x = .error e ∨ ∃ a, x = .ok a ∧ f a = .error e := by
  cases x <;> simp [Bind.bind, Except.bind]

theorem map_eq_error_iff {f : α → β} : f <$> x = .error e ↔ x = .error e := by
  cases x <;> simp [Functor.map, Except.map]

theorem mapError_eq_error_iff {f : ε → ε'} {e' : ε'} :
    x.mapError f = .error e' ↔ ∃ e, x = .error e ∧ f e = e' := by
  constructor
  · intro h
    cases x with
    | error e => exact ⟨e, rfl, Except.error.inj h⟩
    | ok a => cases h
  · rintro ⟨e, rfl, rfl⟩
    rfl

end Errors

/-- The result tells of the first failure. If something was to be made and nothing failed, it
was made. -/
structure Told (making : Bool) (x : Except RemoteError α) (log : List Attempt) : Prop where
  failure : failureOf x = firstFailure? log
  made : making = true → failureOf x = none → Makes log

/-- Where a request failed, the result is its error. Other errors are such as `own` allows. -/
structure Reported (own : CallError → List Attempt → Prop) (making : Bool) (x : Except CallError α)
    (log : List Attempt) : Prop where
  remote : ∀ e, firstFailure? log = some e → x = .error (.remote e)
  own : firstFailure? log = none → ∀ e, x = .error e → own e log
  made : making = true → failureOf x = none → Makes log

def noneOwn : CallError → List Attempt → Prop := fun _ _ ↦ False

theorem told_of_last {r : Request} {x : Except RemoteError r.Reply} (hf : firstFailure? log = none)
    (hm : making = true → r.makes = true) : Told making x (log ++ [⟨r, failureOf x⟩]) where
  failure := by simp [hf]
  made h _ := makes_append_singleton log (hm h)

theorem Told.reported {x : Except RemoteError α} (h : Told making x log) :
    Reported noneOwn making (x.mapError CallError.remote) log := by
  obtain ⟨hfailure, hmade⟩ := h
  cases x with
  | error e =>
    refine ⟨fun e' he ↦ ?_, fun hn ↦ ?_, fun _ hx ↦ nomatch hx⟩
    · rw [← hfailure] at he
      cases he
      rfl
    · rw [← hfailure] at hn
      cases hn
  | ok a =>
    refine ⟨fun e' he ↦ ?_, fun _ _ hx ↦ (nomatch hx), fun hm _ ↦ hmade hm rfl⟩
    rw [← hfailure] at he
    cases he

namespace Reported

variable {β : Type} {own own' : CallError → List Attempt → Prop} {x : Except CallError α}

theorem mono (h : Reported own making x log) (ho : ∀ e, own e log → own' e log) :
    Reported own' making x log :=
  ⟨h.remote, fun hn e he ↦ ho e (h.own hn e he), h.made⟩

theorem of_error {making' : Bool} {e : CallError}
    (h : Reported own making (.error e : Except CallError α) log) :
    Reported own making' (.error e : Except CallError β) log where
  remote e' he := by
    cases h.remote e' he
    rfl
  own hn e' he := by
    cases he
    exact h.own hn e rfl
  made _ hx := nomatch hx

theorem map {f : α → β} (h : Reported own making x log) : Reported own making (x.map f) log := by
  cases x with
  | error e => exact h.of_error
  | ok a =>
    exact ⟨fun e' he ↦ (nomatch h.remote e' he), fun _ _ he ↦ (nomatch he),
      fun hm _ ↦ h.made hm rfl⟩

theorem noFailure_of_ok {a : α} (h : Reported own making x log) (hx : x = .ok a) :
    firstFailure? log = none := by
  rw [Option.eq_none_iff_forall_ne_some]
  intro e he
  cases hx.symm.trans (h.remote e he)

theorem admits_listdir {a : α} {dir : RemotePath} (h : Reported own true (.ok a) log) :
    Admits log (.listdir dir) :=
  .inr (.inr ⟨rfl, h.noFailure_of_ok rfl, h.made rfl rfl⟩)

theorem of_noFailure (hf : firstFailure? log = none) (ho : ∀ e, x = .error e → own e log)
    (hm : making = true → Makes log) : Reported own making x log :=
  ⟨fun _ he ↦ (nomatch hf.symm.trans he), fun _ e he ↦ ho e he, fun h _ ↦ hm h⟩

theorem of_failure {e : RemoteError} (h : firstFailure? log = some e) :
    Reported own making (.error (.remote e) : Except CallError α) log where
  remote e' he := by
    cases h.symm.trans he
    rfl
  own hn := nomatch h.symm.trans hn
  made _ hx := nomatch hx

end Reported

namespace Filesystem

variable {policy : Policy} {caller : Caller} {dir path old new : RemotePath} {mode : OpenMode}
    {r : Request}
variable {Q : α → List Attempt → Prop} {own : CallError → List Attempt → Prop}

theorem heeds_request (ha : Admits log r) (hf : firstFailure? log = none)
    (hm : making = true → r.makes = true) :
    (request r).Heeds (Told making) log :=
  ⟨ha, fun _ ↦ told_of_last hf hm⟩

/-- A request that can change nothing leaves a program as free as it was, unless it fails. -/
theorem heeds_quiet {next : Except RemoteError r.Reply → Program α} (hu : Untouched log)
    (ht : r.touches = false)
    (he : ∀ e, firstFailure? (log ++ [⟨r, some e⟩]) = some e →
      (next (.error e)).Heeds Q (log ++ [⟨r, some e⟩]))
    (hn : ∀ a, Untouched (log ++ [⟨r, none⟩]) → (next (.ok a)).Heeds Q (log ++ [⟨r, none⟩])) :
    (Program.step (.remote r) next).Heeds Q log := by
  refine ⟨.inl hu, ?_⟩
  rintro (e | a)
  · exact he e (by simp [hu.firstFailure?])
  · exact hn a (untouched_append.2 ⟨hu, untouched_singleton.2 ⟨rfl, ht⟩⟩)

theorem heeds_invalidateAll (touched : List RemotePath) :
    (invalidateAll touched).Heeds (fun _ log' ↦ log' = log) log := by
  induction touched with
  | nil => rfl
  | cons dir touched ih => exact ⟨trivial, fun _ ↦ ih⟩

theorem heeds_mutate {touched : List RemotePath} {mutation : Program (Except RemoteError Unit)}
    {Q : Except RemoteError Unit → List Attempt → Prop} (h : mutation.Heeds Q log) :
    (mutate touched mutation).Heeds Q log := by
  refine (heeds_invalidateAll touched).bind fun _ log' hlog ↦ ?_
  subst hlog
  refine h.bind fun x log' hx ↦ (heeds_invalidateAll touched).bind fun _ log'' hlog ↦ ?_
  subst hlog
  exact hx

theorem heeds_remotely {p : Program (Except RemoteError α)} (h : p.Heeds (Told making) log) :
    (remotely p).Heeds (Reported noneOwn making) log :=
  h.bind fun _ _ hx ↦ hx.reported

/-- A failure to close is told of only if nothing has failed before it. -/
theorem heeds_withSession {body : SessionId → Program (Except RemoteError α)} (hu : Untouched log)
    (hb : ∀ id, (body id).Heeds (Told making) (log ++ [⟨.openFile path mode, none⟩])) :
    (withSession path mode body).Heeds (Told making) log := by
  refine ⟨.inl hu, ?_⟩
  rintro (e | id)
  · exact ⟨by simp [Step.noted, hu.firstFailure?, failureOf], fun _ hx ↦ nomatch hx⟩
  · refine (hb id).bind fun value log' told ↦ ⟨.inr (.inl rfl), fun closed ↦ ?_⟩
    have hlog : firstFailure? (log' ++ [⟨.close id, failureOf closed⟩]) =
        (failureOf value).or (failureOf closed) := by
      rw [firstFailure?_append, firstFailure?_singleton, told.failure]
    rcases value with e | a
    · exact ⟨hlog.symm, fun _ hx ↦ nomatch hx⟩
    · rcases closed with e | u
      · exact ⟨hlog.symm, fun _ hx ↦ nomatch hx⟩
      · exact ⟨hlog.symm, fun hm _ ↦ (told.made hm rfl).append _⟩

theorem heeds_refresh (ha : Admits log (.listdir dir)) :
    (refresh policy caller dir).Heeds
      (fun x log' ↦ log' = log ++ [⟨.listdir dir, failureOf x⟩]) log := by
  refine ⟨trivial, fun generation ↦ ⟨ha, ?_⟩⟩
  rintro (e | rows)
  · rfl
  · exact ⟨trivial, fun _ ↦ rfl⟩

theorem heeds_getattr (ha : Admits log (.listdir path.parent)) (hf : firstFailure? log = none) :
    (getattr policy caller path).Heeds (Reported (fun e log' ↦ e = .notFound path.text ∧
      log' = log ++ [⟨.listdir path.parent, none⟩]) false) log := by
  unfold getattr
  split
  · exact .of_noFailure hf (fun _ he ↦ nomatch he) nofun
  · refine ⟨trivial, ?_⟩
    rintro (_ | a)
    · refine (heeds_refresh ha).bind fun listed log' hlog ↦ ?_
      subst hlog
      rcases listed with e | records
      · exact .of_failure (by simp [hf, failureOf])
      · have hfine : firstFailure? (log ++ [⟨.listdir path.parent, none⟩]) = none := by simp [hf]
        dsimp only
        split
        · exact .of_noFailure hfine (fun _ he ↦ nomatch he) nofun
        · refine .of_noFailure hfine (fun e he ↦ ?_) nofun
          cases he
          exact ⟨rfl, rfl⟩
    · exact .of_noFailure hf (fun _ he ↦ nomatch he) nofun

theorem heeds_readdir (hu : Untouched log) :
    (readdir policy caller path).Heeds (Reported noneOwn false) log := by
  refine (heeds_refresh (.inl hu)).bind fun listed log' hlog ↦ ?_
  subst hlog
  rcases listed with e | records
  · exact .of_failure (by simp [hu.firstFailure?, failureOf])
  · exact .of_noFailure (by simp [hu.firstFailure?, failureOf]) (fun _ he ↦ nomatch he) nofun

theorem heeds_mkdir (hu : Untouched log) : (mkdir path).Heeds (Reported noneOwn true) log :=
  heeds_remotely (heeds_mutate (heeds_request (.inl hu) hu.firstFailure? fun _ ↦ rfl))

theorem heeds_unlink (hu : Untouched log) : (unlink path).Heeds (Reported noneOwn false) log :=
  heeds_remotely (heeds_mutate (heeds_request (.inl hu) hu.firstFailure? nofun))

theorem heeds_rmdir (hu : Untouched log) : (rmdir path).Heeds (Reported noneOwn false) log :=
  ⟨trivial, fun _ ↦ heeds_remotely (heeds_mutate (heeds_request (.inl hu) hu.firstFailure? nofun))⟩

theorem heeds_rename (hu : Untouched log) :
    (rename old new).Heeds (Reported noneOwn false) log := by
  have hmoved : (remotely (mutate [old.parent, new.parent] (request (.rename old new)))).Heeds
      (Reported noneOwn false) log :=
    heeds_remotely (heeds_mutate (heeds_request (.inl hu) hu.firstFailure? nofun))
  refine ⟨trivial, fun _ ↦ ⟨trivial, fun _ ↦ hmoved.bind ?_⟩⟩
  exact fun _ _ hx ↦ ⟨trivial, fun _ ↦ ⟨trivial, fun _ ↦ hx⟩⟩

theorem heeds_create (hu : Untouched log) : (create path).Heeds (Reported noneOwn true) log := by
  refine heeds_remotely (heeds_mutate
    (heeds_withSession hu fun id ↦ ⟨?_, fun _ _ ↦ makes_append_singleton log rfl⟩))
  simp [hu.firstFailure?, failureOf]

theorem heeds_createNew (hu : Untouched log) :
    (createNew policy caller path).Heeds (Reported (fun e log' ↦ e = .alreadyExists path.text ∧
      log' = log ++ [⟨.listdir path.parent, none⟩]) true) log := by
  refine (heeds_refresh (.inl hu)).bind fun listed log' hlog ↦ ?_
  subst hlog
  rcases listed with e | records
  · exact .of_failure (by simp [hu.firstFailure?, failureOf])
  · have hlisted : Untouched (log ++ [⟨.listdir path.parent, none⟩]) :=
      untouched_append.2 ⟨hu, untouched_singleton.2 ⟨rfl, rfl⟩⟩
    dsimp only
    split
    · refine ⟨fun e he ↦ ?_, fun _ e he ↦ ?_, fun _ hx ↦ nomatch hx⟩
      · cases hlisted.firstFailure?.symm.trans he
      · cases he
        exact ⟨rfl, rfl⟩
    · exact (heeds_create hlisted).mono fun _ _ hx ↦ hx.mono fun _ hown ↦ hown.elim

theorem heeds_read {max : Nat} {offset : UInt64} (hu : Untouched log) :
    (read path max offset).Heeds (Reported noneOwn false) log := by
  have hopened : Untouched (log ++ [⟨.openFile path .read, none⟩]) :=
    untouched_append.2 ⟨hu, untouched_singleton.2 ⟨rfl, rfl⟩⟩
  refine heeds_remotely (heeds_withSession hu fun id ↦
    ⟨trivial, fun length ↦ ⟨trivial, fun _ ↦ ?_⟩⟩)
  refine heeds_quiet hopened rfl (fun e he ↦ ⟨he.symm, nofun⟩) fun _ hsought ↦ ?_
  exact heeds_request (.inl hsought) hsought.firstFailure? nofun

theorem heeds_write {data : Bytes} {offset : UInt64} (hu : Untouched log) :
    (write path data offset).Heeds (Reported noneOwn false) log := by
  have hopened : Untouched (log ++ [⟨.openFile path .write, none⟩]) :=
    untouched_append.2 ⟨hu, untouched_singleton.2 ⟨rfl, rfl⟩⟩
  refine heeds_remotely (heeds_withSession hu fun id ↦ ?_)
  refine heeds_quiet hopened rfl (fun e he ↦ ⟨he.symm, nofun⟩) fun _ hsought ↦ ⟨.inl hsought, ?_⟩
  rintro (e | count)
  · exact told_of_last (r := .write id data) (x := .error e) hsought.firstFailure? nofun
  · have htold : Told false _ _ :=
      told_of_last (r := .write id data) (x := .ok count) hsought.firstFailure? nofun
    exact ⟨trivial, fun length ↦ ⟨trivial, fun _ ↦ htold⟩⟩

theorem heeds_truncate {length : UInt64} (hu : Untouched log) :
    (truncate path length).Heeds (Reported noneOwn true) log := by
  have hopened : Untouched (log ++ [⟨.openFile path .write, none⟩]) :=
    untouched_append.2 ⟨hu, untouched_singleton.2 ⟨rfl, rfl⟩⟩
  have hcut : (withSession path .write fun id ↦ request (.truncate id length)).Heeds
      (Told true) log :=
    heeds_withSession hu fun id ↦ heeds_request (.inl hopened) hopened.firstFailure? fun _ ↦ rfl
  refine hcut.bind fun cut log' told ↦ ?_
  rcases cut with e | u
  · exact told.reported
  · exact ⟨trivial, fun _ ↦ .of_noFailure told.failure.symm (fun _ he ↦ nomatch he) fun hm ↦
      told.made hm rfl⟩

end Filesystem

namespace Call

/-- The errors that a call can have of its own, and the requests it has made by then. -/
inductive Own : Call String → CallError → List Attempt → Prop
  | malformed {c : Call String} {detail : String}
        (h : c.resolve = .error (.invalidArgument detail)) :
    Own c (.invalidArgument detail) []
  | missing {c : Call String} {path : RemotePath} (h : c.resolve = .ok (.getattr path)) :
    Own c (.notFound path.text) [⟨.listdir path.parent, none⟩]
  | existing {c : Call String} {path : RemotePath} (h : c.resolve = .ok (.createNew path)) :
    Own c (.alreadyExists path.text) [⟨.listdir path.parent, none⟩]

theorem invalid_of_ofCaller {s : String} {e : CallError} (h : RemotePath.ofCaller s = .error e) :
    ∃ detail, e = .invalidArgument detail := by
  obtain ⟨invalid, -, rfl⟩ := mapError_eq_error_iff.1 h
  exact ⟨_, rfl⟩

theorem invalid_of_resolve {c : Call String} {e : CallError} (h : c.resolve = .error e) :
    ∃ detail, e = .invalidArgument detail := by
  cases c with
  | rename old new =>
    obtain ho | ⟨p, -, h⟩ := bind_eq_error_iff.1 h
    · exact invalid_of_ofCaller ho
    · obtain hn | ⟨q, -, h⟩ := bind_eq_error_iff.1 h
      · exact invalid_of_ofCaller hn
      · cases h
  | destroy => cases h
  | _ => exact invalid_of_ofCaller (map_eq_error_iff.1 h)

theorem heeds_program (policy : Policy) (caller : Caller) {c : Call String} {call : Call RemotePath}
    (hc : c.resolve = .ok call) : (call.program policy caller).Heeds (Reported c.Own false) [] := by
  have hnone {β : Type} {making : Bool} {p : Program (Except CallError β)} {f : β → CallAnswer}
      (h : p.Heeds (Reported noneOwn making) []) :
        (Except.map f <$> p).Heeds (Reported c.Own false) [] := by
    refine (h.mono fun _ _ hx ↦ ?_).map
    exact ⟨hx.map.remote, fun hn e he ↦ (hx.map.own hn e he).elim, nofun⟩
  cases call with
  | getattr path =>
    refine ((Filesystem.heeds_getattr (.inl untouched_nil) rfl).mono fun _ _ hx ↦ ?_).map
    refine hx.map.mono fun e hown ↦ ?_
    obtain ⟨rfl, rfl⟩ := hown
    exact .missing hc
  | createNew path =>
    refine ((Filesystem.heeds_createNew untouched_nil).mono fun _ _ hx ↦ ?_).map
    refine ⟨hx.map.remote, fun hn e he ↦ ?_, nofun⟩
    obtain ⟨rfl, rfl⟩ := hx.map.own hn e he
    exact .existing hc
  | readdir path => exact hnone (Filesystem.heeds_readdir untouched_nil)
  | mkdir path => exact hnone (Filesystem.heeds_mkdir untouched_nil)
  | rmdir path => exact hnone (Filesystem.heeds_rmdir untouched_nil)
  | unlink path => exact hnone (Filesystem.heeds_unlink untouched_nil)
  | create path => exact hnone (Filesystem.heeds_create untouched_nil)
  | read path max offset => exact hnone (Filesystem.heeds_read untouched_nil)
  | write path data offset => exact hnone (Filesystem.heeds_write untouched_nil)
  | rename old new => exact hnone (Filesystem.heeds_rename untouched_nil)
  | truncate path length => exact hnone (Filesystem.heeds_truncate untouched_nil)
  | destroy => exact Heeds.map ⟨trivial, fun _ ↦ .of_noFailure rfl (fun _ he ↦ nomatch he) nofun⟩

theorem heeds_programOfText (policy : Policy) (caller : Caller) (c : Call String) :
    (c.programOfText policy caller).Heeds (Reported c.Own false) [] := by
  unfold programOfText
  split
  · rename_i hc
    exact heeds_program policy caller hc
  · rename_i e hc
    obtain ⟨detail, rfl⟩ := invalid_of_resolve hc
    refine .of_noFailure rfl (fun e he ↦ ?_) nofun
    cases he
    exact .malformed hc

end Call

end RemoteMount
