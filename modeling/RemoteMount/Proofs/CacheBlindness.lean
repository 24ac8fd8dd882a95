import RemoteMount.Memory.Device
import RemoteMount.Proofs.Attempts

namespace RemoteMount

variable {α β σ : Type}

namespace Program

/-- Two programs that ask a device for the same, whatever either is answered by its cache. -/
inductive Alike : Program α → Program α → Prop
  | done (a : α) : Alike (done a) (done a)
  | remote (r : Request) {next next' : Except RemoteError r.Reply → Program α}
    (h : ∀ x, Alike (next x) (next' x)) :
    Alike (step (.remote r) next) (step (.remote r) next')
  | size (s : SessionId) {next next' : UInt64 → Program α} (h : ∀ n, Alike (next n) (next' n)) :
    Alike (step (.size s) next) (step (.size s) next')
  | cache (a b : CacheAccess) {next : a.Answer → Program α} {next' : b.Answer → Program α}
    (h : ∀ x y, Alike (next x) (next' y)) : Alike (step (.cache a) next) (step (.cache b) next')

def Blind (p : Program α) : Prop := p.Alike p

variable {p q : Program α} {f g : α → Program β}

theorem Alike.bind (h : p.Alike q) (hf : ∀ a, (f a).Alike (g a)) : (p >>= f).Alike (q >>= g) := by
  induction h with
  | done a => exact hf a
  | remote r _ ih => exact .remote r ih
  | size s _ ih => exact .size s ih
  | cache a b _ ih => exact .cache a b ih

theorem Blind.bind (h : p.Blind) (hf : ∀ a, (f a).Blind) : (p >>= f).Blind := Alike.bind h hf

theorem Blind.map {g : α → β} (h : p.Blind) : (g <$> p).Blind := by
  rw [map_eq_pure_bind]
  exact h.bind fun a ↦ .done (g a)

theorem blind_request (r : Request) : (request r).Blind := .remote r fun x ↦ .done x

/-- The device goes through the same states in both runs, since it never sees a cache. -/
theorem Alike.run [RemoteDevice σ] (h : p.Alike q) (d : σ) (c c' : AttributeCache) :
    (p.run ⟨d, c⟩).1 = (q.run ⟨d, c'⟩).1 ∧ (p.run ⟨d, c⟩).2.device = (q.run ⟨d, c'⟩).2.device := by
  induction h generalizing d c c' with
  | done a => exact ⟨rfl, rfl⟩
  | remote r _ ih => exact ih (RemoteDevice.answer r d).1 (RemoteDevice.answer r d).2 c c'
  | size s _ ih => exact ih (RemoteDevice.size d s) d c c'
  | cache a b _ ih => exact ih (a.run c).1 (b.run c').1 d (a.run c).2 (b.run c').2

theorem Alike.attempts [RemoteDevice σ] (h : p.Alike q) (d : σ) (c c' : AttributeCache) :
    p.attempts ⟨d, c⟩ = q.attempts ⟨d, c'⟩ :=
  congrArg Watched.log (h.run (⟨d, []⟩ : Watched σ) c c').2

end Program

namespace Filesystem

open Program

variable {policy : Policy} {caller : Caller} {dir path old new : RemotePath}

theorem blind_refresh : (refresh policy caller dir).Blind := by
  refine .cache .generation .generation fun g g' ↦ .remote (.listdir dir) fun x ↦ ?_
  cases x with
  | error e => exact .done _
  | ok rows =>
    exact .cache (.populateIfCurrent dir g _) (.populateIfCurrent dir g' _) fun _ _ ↦ .done _

theorem blind_invalidateAll (touched : List RemotePath) : (invalidateAll touched).Blind := by
  induction touched with
  | nil => exact .done _
  | cons dir touched ih => exact .cache (.invalidate dir) (.invalidate dir) fun _ _ ↦ ih

theorem blind_mutate {touched : List RemotePath} {mutation : Program (Except RemoteError Unit)}
    (h : mutation.Blind) :
    (mutate touched mutation).Blind :=
  (blind_invalidateAll touched).bind fun _ ↦ h.bind fun _ ↦
    (blind_invalidateAll touched).bind fun _ ↦ .done _

theorem blind_remotely {p : Program (Except RemoteError α)} (h : p.Blind) : (remotely p).Blind :=
  h.bind fun _ ↦ .done _

theorem blind_withSession {mode : OpenMode} {body : SessionId → Program (Except RemoteError α)}
    (h : ∀ id, (body id).Blind) : (withSession path mode body).Blind := by
  refine .remote (.openFile path mode) fun x ↦ ?_
  cases x with
  | error e => exact .done _
  | ok id =>
    refine (h id).bind fun value ↦ .remote (.close id) fun closed ↦ ?_
    cases value <;> cases closed <;> exact .done _

theorem blind_readdir : (readdir policy caller path).Blind :=
  blind_refresh.bind fun x ↦ by cases x <;> exact .done _

theorem blind_mkdir : (mkdir path).Blind := blind_remotely (blind_mutate (blind_request _))

theorem blind_rmdir : (rmdir path).Blind :=
  .cache (.invalidateTree path) (.invalidateTree path) fun _ _ ↦
    blind_remotely (blind_mutate (blind_request _))

theorem blind_unlink : (unlink path).Blind := blind_remotely (blind_mutate (blind_request _))

theorem blind_create : (create path).Blind :=
  blind_remotely (blind_mutate (blind_withSession fun _ ↦ .done _))

theorem blind_createNew : (createNew policy caller path).Blind := by
  refine blind_refresh.bind fun x ↦ ?_
  cases x with
  | error e => exact .done _
  | ok records =>
    dsimp only
    split
    · exact .done _
    · exact blind_create

theorem blind_read {max : Nat} {offset : UInt64} : (read path max offset).Blind := by
  refine blind_remotely (blind_withSession fun id ↦ .size id fun length ↦ ?_)
  refine .cache (.updateSize path length) (.updateSize path length) fun _ _ ↦
    .remote (.seek id offset) fun x ↦ ?_
  cases x with
  | error e => exact .done _
  | ok u => exact blind_request (.read id max)

theorem blind_write {data : Bytes} {offset : UInt64} : (write path data offset).Blind := by
  refine blind_remotely (blind_withSession fun id ↦ .remote (.seek id offset) fun x ↦ ?_)
  cases x with
  | error e => exact .done _
  | ok u =>
    refine .remote (.write id data) fun x ↦ ?_
    cases x with
    | error e => exact .done _
    | ok written =>
      exact .size id fun length ↦ .cache (.updateSize path _) (.updateSize path _) fun _ _ ↦ .done _

theorem blind_rename : (rename old new).Blind := by
  refine .cache (.invalidateTree old) (.invalidateTree old) fun _ _ ↦ ?_
  refine .cache (.invalidateTree new) (.invalidateTree new) fun _ _ ↦ ?_
  refine (blind_remotely (blind_mutate (blind_request _))).bind fun result ↦ ?_
  exact .cache (.invalidateTree old) (.invalidateTree old) fun _ _ ↦
    .cache (.invalidateTree new) (.invalidateTree new) fun _ _ ↦ .done _

theorem blind_truncate {length : UInt64} : (truncate path length).Blind := by
  refine (blind_withSession fun id ↦ blind_request (.truncate id length)).bind fun x ↦ ?_
  cases x with
  | error e => exact .done _
  | ok u => exact .cache (.updateSize path length) (.updateSize path length) fun _ _ ↦ .done _

theorem blind_destroy : destroy.Blind := .cache .clear .clear fun _ _ ↦ .done _

end Filesystem

namespace Call

theorem eq_getattr_of_resolve {call : Call String} {path : RemotePath}
    (h : call.resolve = .ok (.getattr path)) :
    ∃ text, call = .getattr text := by
  cases call with
  | getattr text => exact ⟨text, rfl⟩
  | destroy => cases h
  | rename old new =>
    simp only [resolve] at h
    cases ho : RemotePath.ofCaller old <;> cases hn : RemotePath.ofCaller new <;>
      rw [ho, hn] at h <;> cases h
  | readdir text | mkdir text | rmdir text | unlink text | create text | createNew text | read text
  | write text
  | truncate text =>
    simp only [resolve] at h
    cases hp : RemotePath.ofCaller text <;> rw [hp] at h <;> cases h

theorem blind_program {policy : Policy} {caller : Caller} {call : Call RemotePath}
    (h : ∀ path, call ≠ .getattr path) :
    (call.program policy caller).Blind := by
  cases call with
  | getattr path => exact absurd rfl (h path)
  | readdir path => exact Filesystem.blind_readdir.map
  | mkdir path => exact Filesystem.blind_mkdir.map
  | rmdir path => exact Filesystem.blind_rmdir.map
  | unlink path => exact Filesystem.blind_unlink.map
  | create path => exact Filesystem.blind_create.map
  | createNew path => exact Filesystem.blind_createNew.map
  | read path max offset => exact Filesystem.blind_read.map
  | write path data offset => exact Filesystem.blind_write.map
  | rename old new => exact Filesystem.blind_rename.map
  | truncate path length => exact Filesystem.blind_truncate.map
  | destroy => exact Filesystem.blind_destroy.map

theorem blind_programOfText {policy : Policy} {caller : Caller} {call : Call String}
    (h : ∀ path, call ≠ .getattr path) : (call.programOfText policy caller).Blind := by
  unfold programOfText
  split
  · rename_i call' hr
    refine blind_program fun path hpath ↦ ?_
    obtain ⟨text, rfl⟩ := eq_getattr_of_resolve (hpath ▸ hr)
    exact h text rfl
  · exact .done _

/-- On any device, and from any two caches: a call that is not `getattr` has the same result,
leaves the device in the same state and makes the same requests, which fail in the same way. -/
theorem cache_blind [RemoteDevice σ] (policy : Policy) (caller : Caller) (call : Call String)
    (h : ∀ path, call ≠ .getattr path) (d : σ) (c c' : AttributeCache) :
    ((call.programOfText policy caller).run ⟨d, c⟩).1 =
      ((call.programOfText policy caller).run ⟨d, c'⟩).1 ∧
      ((call.programOfText policy caller).run ⟨d, c⟩).2.device =
        ((call.programOfText policy caller).run ⟨d, c'⟩).2.device ∧
      (call.programOfText policy caller).attempts ⟨d, c⟩ =
        (call.programOfText policy caller).attempts ⟨d, c'⟩ := by
  have hblind : (call.programOfText policy caller).Blind := blind_programOfText h
  exact ⟨(hblind.run d c c').1, (hblind.run d c c').2, hblind.attempts d c c'⟩

section Examples

open Memory

def observer : Caller := ⟨1000, 100, 42⟩

def faultyCard : Device := Device.px4.armFault .openFile (.ofCode Errno.io)

def wrongCache : AttributeCache :=
  AttributeCache.empty.populate .root [("ghost", ⟨.file, 0o644, 7, 0, 0⟩)]

theorem cache_blind_armed :
    (((Call.createNew "/ghost").programOfText .standard observer).run ⟨faultyCard, wrongCache⟩).1 =
        (((Call.createNew "/ghost").programOfText .standard observer).run ⟨faultyCard, .empty⟩).1 ∧
      (((Call.createNew "/ghost").programOfText .standard observer).run
        ⟨faultyCard, wrongCache⟩).2.device =
        (((Call.createNew "/ghost").programOfText .standard observer).run
          ⟨faultyCard, .empty⟩).2.device ∧
      ((Call.createNew "/ghost").programOfText .standard observer).attempts
        ⟨faultyCard, wrongCache⟩ =
        ((Call.createNew "/ghost").programOfText .standard observer).attempts
          ⟨faultyCard, .empty⟩ :=
  cache_blind .standard observer (.createNew "/ghost") nofun faultyCard wrongCache .empty

end Examples

end Call

end RemoteMount
