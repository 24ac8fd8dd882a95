import RemoteMount.Proofs.Mount.Steps

namespace RemoteMount

open Program

/-- The errors that are found without asking the device, or in spite of its answer. -/
def CallError.isLocal : CallError → Bool
  | remote _ => false
  | _ => true

def localOwn : CallError → List Attempt → Prop := fun e _ ↦ e.isLocal = true

section Programs

variable {α β : Type} {making making' : Bool} {log : List Attempt}
    {own : CallError → List Attempt → Prop}
variable {p : Program (Except CallError α)}

theorem heeds_localOwn (h : p.Heeds (Reported own making) log)
    (ho : ∀ e log', own e log' → e.isLocal = true) :
    p.Heeds (Reported localOwn making) log :=
  h.mono fun _ log' hx ↦ hx.mono fun e ↦ ho e log'

theorem heeds_silent (h : p.Heeds (Reported own making) log) :
    (silent p).Heeds (Reported own making) log :=
  (h.mono fun _ _ hx ↦ hx.map).map

theorem heeds_andThen {q : α → Program (Except CallError β)}
    (hp : p.Heeds (Reported own making) log)
    (hq : ∀ a log', Reported own making (.ok a) log' → (q a).Heeds (Reported own making') log') :
    (p.andThen q).Heeds (Reported own making') log := by
  refine hp.bind fun x log' hx ↦ ?_
  cases x with
  | error e => exact hx.of_error
  | ok a => exact hq a log' hx

theorem heeds_done {x : Except CallError α} (hf : firstFailure? log = none)
    (hx : ∀ e, x = .error e → e.isLocal = true) :
    (Program.done x).Heeds (Reported localOwn false) log :=
  .of_noFailure hf hx nofun

theorem heeds_checked {x : Except CallError α} {q : α → Program (Except CallError β)}
    (hf : firstFailure? log = none)
    (hx : ∀ e, x = .error e → e.isLocal = true)
    (hq : ∀ a, (q a).Heeds (Reported localOwn making) log) :
    (andThen (.done x) q).Heeds (Reported localOwn making) log := by
  cases x with
  | error e => exact (heeds_done (α := α) hf hx).of_error
  | ok a => exact hq a

end Programs

namespace Mount

variable {σ : Type} {m : Mount σ} {caller : Caller} {policy : Policy} {path : RemotePath}
    {ino : Nat} {e : CallError}
variable {log : List Attempt}

theorem isLocal_of_pathOf (h : m.pathOf ino = .error e) : e.isLocal = true := by
  unfold pathOf at h
  split at h <;> cases h
  rfl

theorem isLocal_of_childOf {parent : Nat} {name : FileName} (h : m.childOf parent name = .error e) :
    e.isLocal = true := by
  cases name with
  | notText bytes =>
    cases h
    rfl
  | text s =>
    obtain hdir | ⟨dir, -, h⟩ := bind_eq_error_iff.1 h
    · exact isLocal_of_pathOf hdir
    · obtain ⟨invalid, -, rfl⟩ := mapError_eq_error_iff.1 h
      rfl

theorem isLocal_of_positionOf {offset : Int} (h : m.positionOf ino offset = .error e) :
    e.isLocal = true := by
  obtain hp | ⟨path, -, h⟩ := bind_eq_error_iff.1 h
  · exact isLocal_of_pathOf hp
  · obtain ho | ⟨position, -, h⟩ := bind_eq_error_iff.1 h
    · cases offset <;> cases ho
      rfl
    · cases h

theorem isLocal_of_flags {flags : UInt32}
    (h : (OpenMode.ofFlags flags).mapError CallError.ofUnsupportedFlags = .error e) :
    e.isLocal = true := by
  obtain ⟨unsupported, -, rfl⟩ := mapError_eq_error_iff.1 h
  rfl

theorem isLocal_of_openFile {flags : UInt32} (h : m.openFile ino flags = .error e) :
    e.isLocal = true := by
  obtain hp | ⟨path, -, h⟩ := bind_eq_error_iff.1 h
  · exact isLocal_of_pathOf hp
  · obtain hm | ⟨mode, -, h⟩ := bind_eq_error_iff.1 h
    · exact isLocal_of_flags hm
    · cases h

theorem heeds_look (ha : Admits log (.listdir path.parent)) (hf : firstFailure? log = none) :
    (silent (Filesystem.getattr policy caller path)).Heeds (Reported localOwn false) log :=
  heeds_silent (heeds_localOwn (Filesystem.heeds_getattr ha hf) fun _ _ ho ↦ ho.1 ▸ rfl)

theorem heeds_inspect (ha : ∀ dir, Admits log (.listdir dir)) (hf : firstFailure? log = none) :
    (m.inspect caller ino).Heeds (Reported localOwn false) log :=
  heeds_checked hf (fun _ he ↦ isLocal_of_pathOf he) fun _ ↦ heeds_look (ha _) hf

theorem heeds_noneOwn {α : Type} {making : Bool} {p : Program (Except CallError α)}
    (h : p.Heeds (Reported noneOwn making) log) : p.Heeds (Reported localOwn making) log :=
  heeds_localOwn h fun _ _ ho ↦ ho.elim

theorem heeds_steps (m : Mount σ) (caller : Caller) (c : Callback) :
    (m.steps caller c).Heeds (Reported localOwn false) [] := by
  have hu := untouched_nil
  cases c with
  | lookup parent name =>
    exact heeds_checked rfl (fun _ he ↦ isLocal_of_childOf he) fun _ ↦ heeds_look (.inl hu) rfl
  | getattr ino => exact heeds_inspect (fun _ ↦ .inl hu) rfl
  | setattr ino changes =>
    refine heeds_checked rfl (fun _ he ↦ isLocal_of_pathOf he) fun path ↦ ?_
    split
    · refine heeds_done rfl ?_
      rintro _ ⟨⟩
      rfl
    · split
      · exact heeds_inspect (fun _ ↦ .inl hu) rfl
      · refine heeds_andThen (heeds_noneOwn (Filesystem.heeds_truncate hu)) fun _ _ hx ↦ ?_
        exact heeds_inspect (fun _ ↦ hx.admits_listdir) (hx.noFailure_of_ok rfl)
  | mkdir parent name =>
    refine heeds_checked rfl (fun _ he ↦ isLocal_of_childOf he) fun path ↦ ?_
    refine heeds_andThen (heeds_noneOwn (Filesystem.heeds_mkdir hu)) fun _ _ hx ↦ ?_
    exact heeds_look hx.admits_listdir (hx.noFailure_of_ok rfl)
  | create parent name flags =>
    refine heeds_checked rfl (fun _ he ↦ isLocal_of_flags he) fun _ ↦ ?_
    refine heeds_checked rfl (fun _ he ↦ isLocal_of_childOf he) fun path ↦ ?_
    have hcreation : (if OpenFlags.has flags OpenFlags.excl then
        Filesystem.createNew m.config.policy caller path
        else Filesystem.create path).Heeds (Reported localOwn true) [] := by
      split
      · exact heeds_localOwn (Filesystem.heeds_createNew hu) fun _ _ ho ↦ ho.1 ▸ rfl
      · exact heeds_noneOwn (Filesystem.heeds_create hu)
    exact heeds_andThen hcreation fun _ _ hx ↦ heeds_look hx.admits_listdir (hx.noFailure_of_ok rfl)
  | unlink parent name =>
    exact heeds_checked rfl (fun _ he ↦ isLocal_of_childOf he) fun _ ↦
      heeds_noneOwn (Filesystem.heeds_unlink hu)
  | rmdir parent name =>
    exact heeds_checked rfl (fun _ he ↦ isLocal_of_childOf he) fun _ ↦
      heeds_noneOwn (Filesystem.heeds_rmdir hu)
  | rename parent name newParent newName flags =>
    rw [steps]
    split
    · refine heeds_done rfl ?_
      rintro _ ⟨⟩
      rfl
    · refine heeds_checked rfl (fun _ he ↦ isLocal_of_childOf he) fun old ↦ ?_
      refine heeds_checked rfl (fun _ he ↦ isLocal_of_childOf he) fun new ↦ ?_
      exact heeds_noneOwn (Filesystem.heeds_rename hu)
  | openFile ino flags => exact heeds_done rfl fun _ he ↦ isLocal_of_openFile he
  | opendir ino => exact heeds_silent (heeds_done rfl fun _ he ↦ isLocal_of_pathOf he)
  | read ino max offset =>
    refine heeds_checked rfl (fun _ he ↦ isLocal_of_positionOf he) fun place ↦ ?_
    exact heeds_silent (heeds_noneOwn (Filesystem.heeds_read hu))
  | write ino data offset =>
    refine heeds_checked rfl (fun _ he ↦ isLocal_of_positionOf he) fun place ↦ ?_
    refine heeds_andThen (heeds_noneOwn (Filesystem.heeds_write hu)) fun n _ hx ↦ ?_
    refine heeds_done (hx.noFailure_of_ok rfl) fun e he ↦ ?_
    split at he <;> cases he
    rfl
  | readdir ino offset room =>
    refine heeds_checked rfl (fun _ he ↦ isLocal_of_pathOf he) fun path ↦ ?_
    exact heeds_silent (heeds_noneOwn (Filesystem.heeds_readdir hu))
  | getxattr ino name | setxattr ino name | listxattr ino | removexattr ino name =>
    refine heeds_done rfl ?_
    rintro _ ⟨⟩
    rfl
  | forget ino n | forgetAll counts | release ino | releasedir ino | flush ino | fsync ino
  | statfs ino =>
    refine heeds_done rfl ?_
    rintro _ ⟨⟩
  | destroy => exact Heeds.map ⟨trivial, fun _ ↦ .of_noFailure rfl (by rintro _ ⟨⟩) (by rintro ⟨⟩)⟩

variable [RemoteDevice σ]

/-- What is known of the steps of a callback, as it shows in the answer. -/
theorem reported_answer (m : Mount σ) (caller : Caller) (c : Callback) :
    Reported localOwn false (m.answer caller c).1 (m.attempts caller c) ∧
    Lawful (m.attempts caller c) := by
  obtain ⟨hx, hl⟩ := (m.heeds_steps caller c).run m.base
  rw [← attempts_eq] at hx hl
  have hruns : failureOf (m.answer caller c).1 = failureOf ((m.steps caller c).run m.base).1 :=
    (m.answer_steps caller c).1
  refine ⟨?_, hl⟩
  generalize (m.answer caller c).1 = y at hruns
  generalize ((m.steps caller c).run m.base).1 = x at hx hruns
  cases x with
  | error e =>
    cases y with
    | error e' =>
      obtain rfl : e' = e := Option.some.inj hruns
      exact hx.of_error
    | ok r => cases hruns
  | ok u =>
    cases y with
    | error e => cases hruns
    | ok r => exact .of_noFailure (hx.noFailure_of_ok rfl) (fun _ he ↦ nomatch he) nofun

end Mount

/-- On any device and in whatever state it is: a call with a request that fails reports the
error of the first such request as the device gave it; closing a session is the last request, so
its failure counts only if nothing has failed before it. Without a request that fails a call has
no errors but its own. A callback replies with the code of that error, or with that of an I/O
error if the code is no error number, and never with a number that means success. -/
theorem first_failure_reported {σ : Type} [RemoteDevice σ] (policy : Policy) (caller : Caller) :
    (∀ (c : Call String) (b : CachedDevice σ),
      (∀ e, firstFailure? ((c.programOfText policy caller).attempts b) = some e →
        ((c.programOfText policy caller).run b).1 = .error (.remote e)) ∧
      (firstFailure? ((c.programOfText policy caller).attempts b) = none →
        ∀ e, ((c.programOfText policy caller).run b).1 = .error e →
          c.Own e ((c.programOfText policy caller).attempts b))) ∧
    ∀ (m : Mount σ) (c : Mount.Callback),
      (∀ e, firstFailure? (m.attempts caller c) = some e →
        (m.answer caller c).1 = .error (.remote e) ∧
        (CallError.remote e).errno = if 0 < e.code then e.code else Errno.io) ∧
      ∀ e, (m.answer caller c).1 = .error e → 0 < e.errno := by
  refine ⟨fun c b ↦ ?_, fun m c ↦ ?_⟩
  · have hreported := ((c.heeds_programOfText policy caller).run b).1
    exact ⟨hreported.remote, hreported.own⟩
  · exact ⟨fun e he ↦ ⟨(m.reported_answer caller c).1.remote e he, rfl⟩, fun e _ ↦ e.errno_pos⟩

section Examples

open Memory Turns

def failingTwice : Device where
  __ := Device.px4
  tree := Device.px4.tree.insertFile logFile [1, 2, 3, 4]
  faults := (KeyMap.empty.insert .write (.reported Errno.nospc "card full")).insert .close
    (.reported Errno.io "link lost")

theorem first_failure_reported_failingTwice :
    (((Call.write "/fs/microsd/log/1.ulg" [5] 0).programOfText .standard pilot).run
      ⟨failingTwice, .empty⟩).1 = .error (.remote (.reported Errno.nospc "card full")) ∧
    ((Mount.mk ⟨failingTwice, .empty⟩ .initial .standard).answer pilot
      (.create 1 (.text "2.ulg") 1)).1 = .error (.remote (.reported Errno.io "link lost")) := by
  have h := first_failure_reported (σ := Device) .standard pilot
  exact ⟨(h.1 _ ⟨failingTwice, .empty⟩).1 _ (by decide +kernel),
    ((h.2 _ _).1 _ (by decide +kernel)).1⟩

example : ((Call.write "/fs/microsd/log/1.ulg" [5] 0).programOfText .standard pilot).attempts
      ⟨failingTwice, .empty⟩ =
    [⟨.openFile logFile .write, none⟩, ⟨.seek 0 0, none⟩,
      ⟨.write 0 [5], some (.reported Errno.nospc "card full")⟩,
      ⟨.close 0, some (.reported Errno.io "link lost")⟩] := by
  decide +kernel

end Examples

end RemoteMount
