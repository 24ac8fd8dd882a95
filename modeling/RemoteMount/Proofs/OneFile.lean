import RemoteMount.Listing
import RemoteMount.Proofs.CachedKinds
import RemoteMount.Proofs.ExclusiveCreation

namespace RemoteMount

namespace Filesystem

open Program

variable {σ α : Type} [RemoteDevice σ] {m m' : CachedDevice σ} {d d' : σ} {path : RemotePath}
    {mode : OpenMode}
variable {body : SessionId → Program (Except RemoteError α)} {e : RemoteError} {id : SessionId}
    {x : Except RemoteError α}

theorem run_withSession_of_error
    (ho : RemoteDevice.answer (.openFile path mode) m.device = (.error e, d)) :
    (withSession path mode body).run m = (.error e, ⟨d, m.cache⟩) := by
  simp only [withSession, Program.run, interpret_bind, request, interpret, Step.run, ho]
  rfl

theorem run_withSession_of_ok
    (ho : RemoteDevice.answer (.openFile path mode) m.device = (.ok id, d))
    (hb : (body id).run ⟨d, m.cache⟩ = (x, m'))
    (hc : RemoteDevice.answer (.close id) m'.device = (.ok (), d')) :
    (withSession path mode body).run m = (x, ⟨d', m'.cache⟩) := by
  unfold Program.run at hb
  simp only [withSession, Program.run, interpret_bind, request, interpret, Step.run, ho, hb, hc]
  cases x <;> rfl

theorem run_askSize (id : SessionId) (m : CachedDevice σ) :
    (askSize id).run m = (RemoteDevice.size m.device id, m) := rfl

theorem run_access (a : CacheAccess) (m : CachedDevice σ) :
    (access a).run m = ((a.run m.cache).1, ⟨m.device, (a.run m.cache).2⟩) := rfl

theorem run_remotely (p : Program (Except RemoteError α)) (m : CachedDevice σ) :
    (remotely p).run m = ((p.run m).1.mapError .remote, (p.run m).2) := by
  rw [remotely, run_bind]
  rfl

theorem run_create (path : RemotePath) (m : CachedDevice σ) :
    ((create path).run m).1 =
      ((withSession path .createWrite fun _ ↦ return .ok ()).run m).1.mapError .remote ∧
      ((create path).run m).2.device =
        ((withSession path .createWrite fun _ ↦ return .ok ()).run m).2.device := by
  have hblind : (withSession path .createWrite fun _ ↦ return .ok ()).Blind :=
    blind_withSession fun _ ↦ .done _
  obtain ⟨hx, hd⟩ := run_mutate hblind [path.parent] m
  rw [create, run_remotely, hx]
  exact ⟨rfl, hd⟩

end Filesystem

def CachedDevice.after {σ : Type} [RemoteDevice σ] (policy : Policy) (caller : Caller)
    (m : CachedDevice σ) (calls : List (Call String)) : CachedDevice σ :=
  calls.foldl (fun m call ↦ ((call.programOfText policy caller).run m).2) m

theorem CachedDevice.after_concat {σ : Type} [RemoteDevice σ] (policy : Policy) (caller : Caller)
    (m : CachedDevice σ)
    (calls : List (Call String)) (call : Call String) : m.after policy caller (calls ++ [call]) =
      ((call.programOfText policy caller).run (m.after policy caller calls)).2 :=
  List.foldl_concat _ _ _ _

inductive FileCall
  | create
  | write (data : Bytes) (offset : UInt64)
  | truncate (length : UInt64)
  | read (max : Nat) (offset : UInt64)
deriving DecidableEq

namespace FileCall

def toCall {π : Type} (path : π) : FileCall → Call π
  | create => .create path
  | write data offset => .write path data offset
  | truncate length => .truncate path length
  | read max offset => .read path max offset

variable {σ : Type} [RemoteDevice σ]

theorem programOfText_toCall (policy : Policy) (caller : Caller) (p : RemotePath)
    (call : FileCall) :
    (call.toCall p.text).programOfText policy caller = (call.toCall p).program policy caller := by
  have hread : RemotePath.ofCaller p.text = .ok p := by
    rw [RemotePath.ofCaller, RemotePath.parse_text, Except.mapError]
  cases call <;> simp only [Call.programOfText, toCall, Call.resolve, hread] <;> rfl

theorem run_toCall (policy : Policy) (caller : Caller) (p : RemotePath) (call : FileCall)
    (m : CachedDevice σ) :
    ((call.toCall p).program policy caller).run m =
      match call with
      | create =>
        (((Filesystem.create p).run m).1.map fun _ ↦ .nothing, ((Filesystem.create p).run m).2)
      | write data offset =>
        (((Filesystem.write p data offset).run m).1.map .count,
          ((Filesystem.write p data offset).run m).2)
      | truncate length =>
        (((Filesystem.truncate p length).run m).1.map fun _ ↦ .nothing,
          ((Filesystem.truncate p length).run m).2)
      | read max offset =>
        (((Filesystem.read p max offset).run m).1.map .data,
          ((Filesystem.read p max offset).run m).2) := by
  cases call <;> exact Program.run_map _ _ _

end FileCall

/-- What a storage reads of the bytes of a file, and makes of them. -/
structure Storage where
  read : Bytes → Nat → UInt64 → Except Errno Bytes
  write : Bytes → Bytes → UInt64 → Except Errno Bytes
  cut : Bytes → UInt64 → Except Errno Bytes

namespace Storage

/-- What a call answers by what it finds in a directory, and what is there then. -/
def outcome (s : Storage) (found : Option Found) (call : FileCall) :
    Except Errno CallAnswer × Option Found :=
  match found with
  | none =>
    match call with
    | .create => (.ok .nothing, some (.file []))
    | _ => (.error Errno.noent, none)
  | some (.file bytes) =>
    match call with
    | .create => (.ok .nothing, some (.file []))
    | .read max offset => ((s.read bytes max offset).map .data, some (.file bytes))
    | .write data offset =>
      ((s.write bytes data offset).map fun _ ↦ .count data.length,
        some (.file ((s.write bytes data offset).toOption.getD bytes)))
    | .truncate length =>
      ((s.cut bytes length).map fun _ ↦ .nothing,
        some (.file ((s.cut bytes length).toOption.getD bytes)))
  | some other => (.error Errno.isdir, some other)

end Storage

def told (x : Except CallError CallAnswer) : Except Errno CallAnswer := x.mapError CallError.errno

/-- What a call on one path comes to: its answer, and what is at the path then. Nothing else is
changed. -/
structure Comes {σ : Type} (found : σ → RemotePath → Option Found) (p : RemotePath) (d : σ)
    (out : Except Errno CallAnswer × Option Found)
    (r : Except CallError CallAnswer × CachedDevice σ) : Prop where
  told : told r.1 = out.1
  found : found r.2.device = Function.update (found d) p out.2

theorem Comes.of_remote {σ α : Type} {found : σ → RemotePath → Option Found}
    {p : RemotePath} {d : σ}
    {x : Except RemoteError α} {r : Except CallError α × CachedDevice σ} {y : Option Found}
    (f : α → CallAnswer)
    (hx : r.1 = x.mapError .remote) (hy : found r.2.device = Function.update (found d) p y) :
    Comes found p d ((x.mapError RemoteError.errno).map f, y) (r.1.map f, r.2) := by
  refine ⟨?_, hy⟩
  rw [hx]
  cases x <;> rfl

end RemoteMount
