import Mathlib.Logic.Function.Basic
import RemoteMount.Proofs.CallOutcomes
import RemoteMount.Proofs.Memory.Walk

namespace RemoteMount

open Memory Turns Program RemotePath

abbrev Files := RemotePath → Option Bytes

namespace Files

/-- What a granted call makes of the bytes. A renamed subtree takes the place of the target. -/
def after (f : Files) : Call RemotePath → Files
  | .create path | .createNew path => Function.update f path (some [])
  | .write path data offset => Function.update f path ((f path).map (·.overwrite offset.toNat data))
  | .truncate path length => Function.update f path ((f path).map (·.resize length.toNat))
  | .unlink path => Function.update f path none
  | .rename old new => fun q ↦
    if q.within new then (q.rebase new old).bind f else if q.within old then none else f q
  | .getattr _ | .readdir _ | .mkdir _ | .rmdir _ | .read .. | .destroy => f

theorem after_rename (f : Files) (old new q : RemotePath) : f.after (.rename old new) q =
    if q.within new then (q.rebase new old).bind f else if q.within old then none else f q := rfl

end Files

namespace Call

/-- The paths at which the call may change bytes. -/
def Concerns : Call RemotePath → RemotePath → Prop
  | create path, p | createNew path, p | write path _ _, p | truncate path _, p | unlink path, p =>
    p = path
  | rename old new, p => p.within old = true ∨ p.within new = true
  | getattr _, _ | readdir _, _ | mkdir _, _ | rmdir _, _ | read .., _ | destroy, _ => False

end Call

theorem Files.after_of_not_concerns {f : Files} {call : Call RemotePath} {p : RemotePath}
    (h : ¬call.Concerns p) :
    f.after call p = f p := by
  cases call with
  | create path | createNew path | write path data offset | truncate path length | unlink path =>
    exact Function.update_of_ne h _ _
  | rename old new =>
    obtain ⟨ho, hn⟩ := not_or.1 h
    rw [after_rename, if_neg hn, if_neg ho]
  | getattr path | readdir path | mkdir path | rmdir path | read path max offset | destroy => rfl

namespace Memory

def Node.bytes? : Node → Option Bytes
  | directory => none
  | file content => some content.toBytes

namespace Tree

variable {t t' : Tree} {p path : RemotePath} {node : Node} {content : Content}

def files (t : Tree) : Files := fun p ↦ (t.get? p).bind Node.bytes?

theorem files_of_get? (h : t.get? p = some node) : t.files p = node.bytes? := by
  rw [files, h]
  rfl

theorem files_eq_some_iff {bytes : Bytes} :
    t.files p = some bytes ↔ ∃ content, t.get? p = some (.file content) ∧
    bytes = content.toBytes := by
  unfold files
  cases h : t.get? p with
  | none => simp
  | some node =>
    cases node with
    | directory => simp [Node.bytes?]
    | file content => simp [Node.bytes?, eq_comm]

theorem files_insert (t : Tree) (p : RemotePath) (node : Node) :
    files (t.insert p node) = Function.update t.files p node.bytes? := by
  funext q
  rw [files, KeyMap.get?_insert, Function.update_apply]
  split <;> rfl

theorem files_erase (t : Tree) (p : RemotePath) :
    files (t.erase p) = Function.update t.files p none := by
  funext q
  rw [files, KeyMap.get?_erase, Function.update_apply]
  split <;> rfl

theorem update_files_of_eq {x : Option Bytes} (h : t.files p = x) :
    Function.update t.files p x = t.files := by
  rw [← h, Function.update_eq_self]

theorem files_rename {old new : RemotePath} (ht : t.WellFormed) (h : t.rename old new = .ok t') :
    t'.files = t.files.after (.rename old new) := by
  funext q
  rcases get?_rename ht h with ⟨rfl, rfl⟩ | ⟨-, -, hget⟩
  · rw [Files.after_rename]
    by_cases hq : q.within old = true
    · rw [if_pos hq, rebase_self hq, Option.bind_some]
    · rw [if_neg hq, if_neg hq]
  · rw [files, hget, Files.after_rename]
    split
    · exact Option.bind_assoc _ _ _
    · split <;> rfl

end Tree

end Memory

namespace Call

variable {t t' : Tree} {call : Call RemotePath} {x : CallAnswer}

/-- A granted call does to the files of a tree what it does to the reference. -/
theorem Granted.files_eq (ht : t.WellFormed) (h : call.Granted t x t') :
    t'.files = t.files.after call := by
  cases call with
  | getattr path | readdir path | destroy =>
    obtain rfl : t' = t := h
    rfl
  | read path max offset =>
    obtain rfl : t' = t := h.1
    rfl
  | mkdir path =>
    obtain ⟨hnone, rfl⟩ := Tree.mkdir_eq_ok h
    have hfiles : t.files path = none := by rw [Tree.files, hnone, Option.bind_none]
    exact (Tree.files_insert t path .directory).trans (Tree.update_files_of_eq hfiles)
  | rmdir path =>
    obtain ⟨hd, rfl⟩ := Tree.rmdir_eq_ok h
    exact (Tree.files_erase t path).trans (Tree.update_files_of_eq (Tree.files_of_get? hd))
  | unlink path =>
    obtain ⟨-, rfl⟩ := Tree.unlink_eq_ok h
    exact Tree.files_erase t path
  | rename old new => exact Tree.files_rename ht h
  | create path | createNew path =>
    obtain ⟨position, h⟩ := h
    rcases Tree.openFile_eq_ok h with ⟨-, -, rfl⟩ | ⟨hmode, -⟩
    · exact Tree.files_insert t path _
    · exact absurd rfl hmode
  | write path data offset =>
    obtain ⟨-, content, hc, rfl⟩ := h
    rw [Tree.files_insert, Files.after, Tree.files_of_get? hc, Node.bytes?,
      Content.toBytes_overwrite]
    rfl
  | truncate path length =>
    obtain ⟨content, hc, rfl⟩ := h
    rw [Tree.files_insert, Files.after, Tree.files_of_get? hc, Node.bytes?, Content.toBytes_resize]
    rfl

end Call

namespace FileContents

/-- A device and its cache, and the bytes that the files should hold. -/
structure State where
  shared : CachedDevice Device
  files : Files

/-- What the reference makes of a call that was answered so. A malformed path fails its call. -/
def follow (f : Files) (call : Call String) : Except CallError CallAnswer → Files
  | .ok _ =>
    match call.resolve with
    | .ok call => f.after call
    | .error _ => f
  | .error _ => f

def State.serve (policy : Policy) (s : State) (request : Caller × Call String) : State :=
  let x := (request.2.programOfText policy request.1).run s.shared
  ⟨x.2, follow s.files request.2 x.1⟩

def run (policy : Policy) (d : Device) (requests : List (Caller × Call String)) : State :=
  requests.foldl (State.serve policy) ⟨⟨d, .empty⟩, d.tree.files⟩

structure Sound (s : State) : Prop where
  wellFormed : s.shared.device.tree.WellFormed
  faultless : ∀ op, s.shared.device.faults.get? op = none
  files : s.shared.device.tree.files = s.files

variable {policy : Policy} {s : State} {m : CachedDevice Device} {path : RemotePath}

/-- One call on a device without faults: what it is granted is done, what fails leaves no
trace. -/
theorem files_run (policy : Policy) (caller : Caller) (call : Call RemotePath)
    (ht : m.device.tree.WellFormed) (hf : ∀ op, m.device.faults.get? op = none) :
    ((call.program policy caller).run m).2.device.tree.files =
      match ((call.program policy caller).run m).1 with
      | .ok _ => m.device.tree.files.after call
      | .error _ => m.device.tree.files := by
  obtain ⟨hgranted, hfailed⟩ := Outcome.run (call.outcome (s := ⟨m, []⟩) policy caller)
  cases hx : ((call.program policy caller).run m).1 with
  | error e => rw [hfailed e hx (.inr hf)]
  | ok a => exact (hgranted a hx).files_eq ht

theorem sound_serve (h : Sound s) (request : Caller × Call String) :
    Sound (s.serve policy request) := by
  refine ⟨wellFormed_run _ h.wellFormed, faults_run _ h.faultless, ?_⟩
  unfold State.serve follow Call.programOfText
  cases hr : request.2.resolve with
  | error e => exact h.files
  | ok call =>
    have hfiles := files_run policy request.1 call h.wellFormed h.faultless
    rw [h.files] at hfiles
    exact hfiles

theorem sound_run (policy : Policy) {d : Device} (ht : d.tree.WellFormed)
    (hf : ∀ op, d.faults.get? op = none)
    (requests : List (Caller × Call String)) : Sound (run policy d requests) := by
  suffices hgen : ∀ s : State, Sound s →
      Sound (requests.foldl (State.serve policy) s) from hgen _ ⟨ht, hf, rfl⟩
  induction requests with
  | nil => exact fun _ h ↦ h
  | cons request requests ih => exact fun s h ↦ ih _ (sound_serve h request)

theorem run_read_of_file {max : Nat} {offset : UInt64} {content : Content}
    (hf : ∀ op, m.device.faults.get? op = none)
    (hc : m.device.tree.get? path = some (.file content)) :
    ((Filesystem.read path max offset).run m).1 = .ok (content.slice offset.toNat max) := by
  have hopen := Device.open_of_file (hf _) hc
  obtain ⟨-, session, hs, hpath, -⟩ := Device.opened_of_answer hopen
  have hf₁ := Device.faults_answer (r := .openFile path .read) hf
  have htree₁ : (m.device.answer (.openFile path .read)).2.tree = m.device.tree :=
    (Device.answer_effect _ (.openFile path .read)).eq_of_quiet (fun _ h ↦ h) rfl
  have hseek : ((m.device.answer (.openFile path .read)).2.answer
      (.seek m.device.nextSession offset)).1 = .ok () :=
    Device.seek_of_session (hf₁ _) hs
  have hs₂ := Device.sought_of_answer hs hseek
  have hf₂ := Device.faults_answer (r := .seek m.device.nextSession offset) hf₁
  have htree₂ := (Device.answer_effect (m.device.answer (.openFile path .read)).2
    (.seek m.device.nextSession offset)).eq_of_quiet (fun _ h ↦ h) rfl
  have hread := Device.read_of_session max (hf₂ _) hs₂ (by rw [htree₂, htree₁, hpath, hc])
  have hf₃ := Device.faults_answer (r := .read m.device.nextSession max) hf₂
  have hclose := Device.close_of_no_fault m.device.nextSession (hf₃ _)
  simp only [Filesystem.read, Filesystem.remotely, Filesystem.withSession, Program.run,
    interpret_bind, request, askSize,
    access, interpret, Step.run, RemoteDevice.answer, hopen, hseek, hread, hclose]
  rfl

theorem run_read_iff (h : Sound s) {max : Nat} {offset : UInt64} {data : Bytes} :
    ((Filesystem.read path max offset).run s.shared).1 = .ok data ↔
      ∃ bytes, s.files path = some bytes ∧ data = (bytes.drop offset.toNat).take max := by
  rw [← h.files]
  constructor
  · intro hread
    have hgranted := (Outcome.run (Filesystem.outcome_read (s := ⟨s.shared, []⟩))).1 data hread
    obtain ⟨-, content, hc, hdata⟩ := hgranted
    exact ⟨content.toBytes, Tree.files_of_get? hc, hdata.trans (content.slice_eq _ _)⟩
  · rintro ⟨bytes, hb, rfl⟩
    obtain ⟨content, hc, rfl⟩ := Tree.files_eq_some_iff.1 hb
    rw [run_read_of_file h.faultless hc, content.slice_eq]
    rfl

/-- After any calls on a device without faults, however large the offsets and whatever was
refused on the way: files hold what the reference says; reading a path gives the bytes asked for
of the reference, and fails only where it has none; a write takes all it is given; and a call
leaves the bytes alone that it does not concern. -/
theorem contents_refine (policy : Policy) (d : Device) (requests : List (Caller × Call String))
    (ht : d.tree.WellFormed) (hf : ∀ op, d.faults.get? op = none) :
    (run policy d requests).shared.device.tree.files = (run policy d requests).files ∧
    (∀ path max offset data,
      ((Filesystem.read path max offset).run (run policy d requests).shared).1 = .ok data ↔
      ∃ bytes, (run policy d requests).files path = some bytes ∧
      data = (bytes.drop offset.toNat).take max) ∧
    (∀ path data offset n,
      ((Filesystem.write path data offset).run (run policy d requests).shared).1 = .ok n →
      n = data.length) ∧
    ∀ caller (call : Call RemotePath) path, ¬call.Concerns path →
      ((call.program policy caller).run (run policy d requests).shared).2.device.tree.files path =
        (run policy d requests).shared.device.tree.files path := by
  have h := sound_run policy ht hf requests
  refine ⟨h.files, fun path max offset data ↦ run_read_iff h, ?_, ?_⟩
  · intro path data offset n hwrite
    exact ((Outcome.run (Filesystem.outcome_write (s := ⟨_, []⟩))).1 n hwrite).1
  · intro caller call path hc
    have hfiles := files_run policy caller call h.wellFormed h.faultless
    rw [hfiles]
    split
    · exact Files.after_of_not_concerns hc
    · rfl

section Examples

def author : Caller := ⟨1000, 100, 42⟩

def savedLog : RemotePath := Device.logDirectory.child ⟨"2.ulg", by decide⟩

def savedLogCalls : List (Caller × Call String) :=
  [(author, .create "/fs/microsd/log/1.ulg"), (author, .write "/fs/microsd/log/1.ulg" [1, 2, 3] 2),
    (author, .truncate "/fs/microsd/log/1.ulg" 4),
      (author, .rename "/fs/microsd/log/1.ulg" "/fs/microsd/log/2.ulg"),
    (author, .write "/fs/microsd/log/1.ulg" [4] 0)]

theorem contents_refine_savedLog :
    ((Filesystem.read savedLog 8 1).run (run .standard .px4 savedLogCalls).shared).1 =
      .ok [0, 1, 2] := by
  have h := contents_refine .standard .px4 savedLogCalls Device.wellFormed_px4 fun _ ↦ rfl
  exact (h.2.1 savedLog 8 1 [0, 1, 2]).2 ⟨[0, 0, 1, 2], by decide +kernel, by decide⟩

end Examples

end FileContents

end RemoteMount
