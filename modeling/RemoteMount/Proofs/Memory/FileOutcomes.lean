import RemoteMount.Proofs.Memory.Grants
import RemoteMount.Proofs.Memory.Walk
import RemoteMount.Proofs.OneFile

namespace RemoteMount.Memory

open Filesystem Program

variable {t t' : Tree} {capacity : UInt64} {p : RemotePath} {mode : OpenMode} {e : RemoteError}
    {d : Device} {r : Request}
variable {id : SessionId} {s s' : Session} {position : UInt64} {content : Content}

namespace Tree

def foundAt (t : Tree) (p : RemotePath) : Option Found := (t.get? p).map Node.found

theorem foundAt_insert (t : Tree) (p : RemotePath) (node : Node) :
    foundAt (t.insert p node) = Function.update t.foundAt p (some node.found) := by
  funext q
  rw [foundAt, KeyMap.get?_insert, Function.update_apply]
  split <;> rfl

/-- What a device with such a tree makes of the bytes of a file. It reads anywhere; its room
bounds what it holds. -/
def storage (t : Tree) (capacity : UInt64) (p : RemotePath) : Storage where
  read bytes max offset := .ok (bytes.slice offset.toNat max)
  write bytes data offset :=
    if UInt64.size ≤ offset.toNat + data.length then .error Errno.fbig
    else ((t.requireRoom capacity p (offset + data.length.toUInt64)).mapError RemoteError.errno).map
      fun _ ↦ bytes.overwrite offset.toNat data
  cut bytes length :=
    ((t.requireRoom capacity p length).mapError RemoteError.errno).map fun _ ↦
      bytes.resize length.toNat

end Tree

structure Idle (t : Tree) (capacity : UInt64) (d : Device) : Prop where
  tree : d.tree = t
  capacity : d.capacity = capacity
  faultless : ∀ op, d.faults.get? op = none

structure During (t : Tree) (capacity : UInt64) (id : SessionId) (s : Session) (d : Device) : Prop
    extends Idle t capacity d where
  session : d.session id = .ok s

namespace Idle

theorem entered (h : Idle t capacity d) (r : Request) :
    Idle t capacity ((d.release r).enter r.op).2 := by
  refine ⟨?_, ?_, fun op ↦ ?_⟩
  · rw [Device.tree_enter, Device.tree_release, h.tree]
  · exact (Device.capacity_release (d := d) (r := r)).trans h.capacity
  · have hf : (d.release r).faults = d.faults := by cases r <;> rfl
    change ((d.release r).faults.erase r.op).get? op = none
    rw [KeyMap.get?_erase, hf, h.faultless, ite_self]

theorem answer_eq (h : Idle t capacity d) (r : Request) :
    d.answer r = ((d.release r).enter r.op).2.perform r :=
  Device.answer_of_no_fault (h.faultless r.op)

theorem openFile_error (h : Idle t capacity d) (ho : t.openFile p mode = .error e) :
    ∃ d', RemoteDevice.answer (.openFile p mode) d = (.error e, d') ∧ Idle t capacity d' := by
  have hentered := h.entered (.openFile p mode)
  refine ⟨_, (h.answer_eq _).trans ?_, hentered⟩
  rw [Device.perform, hentered.tree, ho]

theorem openFile_ok (h : Idle t capacity d) (ho : t.openFile p mode = .ok (t', position)) :
    ∃ id d', RemoteDevice.answer (.openFile p mode) d = (.ok id, d') ∧
    During t' capacity id ⟨p, mode, position⟩ d' := by
  have hentered := h.entered (.openFile p mode)
  have hanswer := h.answer_eq (.openFile p mode)
  rw [Device.perform, hentered.tree, ho] at hanswer
  refine ⟨_, _, hanswer, ⟨rfl, hentered.capacity, hentered.faultless⟩, ?_⟩
  exact Device.session_eq_ok_iff.2 (KeyMap.get?_insert_self _ _ _)

end Idle

namespace During

theorem entered (h : During t capacity id s d) (hr : d.release r = d) :
    During t capacity id s ((d.release r).enter r.op).2 := by
  refine ⟨h.toIdle.entered r, ?_⟩
  rw [hr]
  exact h.session

theorem setSession (h : During t capacity id s d) (s' : Session) :
    During t capacity id s' (d.setSession id s') :=
  ⟨⟨h.tree, h.capacity, h.faultless⟩,
    Device.session_eq_ok_iff.2 (KeyMap.get?_insert_self _ _ _)⟩

theorem setTree (h : During t capacity id s d) (t' : Tree) :
    During t' capacity id s { d with tree := t' } :=
  ⟨⟨rfl, h.capacity, h.faultless⟩, h.session⟩

theorem seek (h : During t capacity id s d) (offset : UInt64) :
    ∃ d', RemoteDevice.answer (.seek id offset) d = (.ok (), d') ∧
      During t capacity id { s with position := offset } d' := by
  have hentered := h.entered (r := .seek id offset) rfl
  refine ⟨_, (h.answer_eq _).trans ?_, hentered.setSession _⟩
  simp only [Device.perform, hentered.session]

theorem read (h : During t capacity id s d) (max : Nat) : ∃ s' d',
    RemoteDevice.answer (.read id max) d = ((s.read t max).map Prod.fst, d') ∧
    During t capacity id s' d' := by
  have hentered := h.entered (r := .read id max) rfl
  have hanswer := h.answer_eq (.read id max)
  simp only [Device.perform, hentered.session, hentered.tree, Bind.bind, Except.bind] at hanswer
  cases hr : s.read t max with
  | error e =>
    rw [hr] at hanswer
    exact ⟨s, _, hanswer, hentered⟩
  | ok x =>
    rw [hr] at hanswer
    exact ⟨x.2, _, hanswer, hentered.setSession _⟩

theorem write_error (h : During t capacity id s d) {data : Bytes}
    (hw : s.write t capacity data = .error e) :
    ∃ d', RemoteDevice.answer (.write id data) d = (.error e, d') ∧ During t capacity id s d' := by
  have hentered := h.entered (r := .write id data) rfl
  have hanswer := h.answer_eq (.write id data)
  simp only [Device.perform, hentered.session, hentered.tree, hentered.capacity, Bind.bind,
    Except.bind, hw] at hanswer
  exact ⟨_, hanswer, hentered⟩

theorem write_ok (h : During t capacity id s d) {data : Bytes} {n : Nat}
    (hw : s.write t capacity data = .ok (n, s', t')) :
    ∃ d', RemoteDevice.answer (.write id data) d = (.ok n, d') ∧ During t' capacity id s' d' := by
  have hentered := h.entered (r := .write id data) rfl
  have hanswer := h.answer_eq (.write id data)
  simp only [Device.perform, hentered.session, hentered.tree, hentered.capacity, Bind.bind,
    Except.bind, hw] at hanswer
  exact ⟨_, hanswer, (hentered.setSession _).setTree _⟩

theorem truncate_error (h : During t capacity id s d) {length : UInt64}
    (hc : s.truncate t capacity length = .error e) :
    ∃ d', RemoteDevice.answer (.truncate id length) d = (.error e, d') ∧
    During t capacity id s d' := by
  have hentered := h.entered (r := .truncate id length) rfl
  have hanswer := h.answer_eq (.truncate id length)
  simp only [Device.perform, hentered.session, hentered.tree, hentered.capacity, Bind.bind,
    Except.bind, hc] at hanswer
  exact ⟨_, hanswer, hentered⟩

theorem truncate_ok (h : During t capacity id s d) {length : UInt64}
    (hc : s.truncate t capacity length = .ok t') :
    ∃ d', RemoteDevice.answer (.truncate id length) d = (.ok (), d') ∧
    During t' capacity id s d' := by
  have hentered := h.entered (r := .truncate id length) rfl
  have hanswer := h.answer_eq (.truncate id length)
  simp only [Device.perform, hentered.session, hentered.tree, hentered.capacity, Bind.bind,
    Except.bind, hc] at hanswer
  exact ⟨_, hanswer, hentered.setTree _⟩

theorem close (h : During t capacity id s d) :
    ∃ d', RemoteDevice.answer (.close id) d = (.ok (), d') ∧ Idle t capacity d' :=
  ⟨_, h.answer_eq (.close id), h.toIdle.entered (.close id)⟩

end During

section Sessions

variable {α : Type} {m : CachedDevice Device} {body : SessionId → Program (Except RemoteError α)}
    {x : Except RemoteError α}

/-- What a call on a device without faults answers with, and the tree that it leaves. -/
structure Answered (t : Tree) (capacity : UInt64) (x : Except RemoteError α)
    (r : Except RemoteError α × CachedDevice Device) : Prop where
  answer : r.1 = x
  idle : Idle t capacity r.2.device

theorem answered_of_error (h : Idle t capacity m.device) (ho : t.openFile p mode = .error e) :
    Answered t capacity (.error e) ((withSession p mode body).run m) := by
  obtain ⟨d', hanswer, hidle⟩ := h.openFile_error ho
  rw [run_withSession_of_error hanswer]
  exact ⟨rfl, hidle⟩

theorem answered_of_ok {opened : Tree} (h : Idle t capacity m.device)
    (ho : t.openFile p mode = .ok (opened, position))
    (hb : ∀ id m₁, During opened capacity id ⟨p, mode, position⟩ m₁.device →
      ∃ s m', (body id).run m₁ = (x, m') ∧ During t' capacity id s m'.device) :
    Answered t' capacity x ((withSession p mode body).run m) := by
  obtain ⟨id, d₁, hopen, hduring⟩ := h.openFile_ok ho
  obtain ⟨s, m', hrun, hduring⟩ := hb id ⟨d₁, m.cache⟩ hduring
  obtain ⟨d', hclose, hidle⟩ := hduring.close
  rw [run_withSession_of_ok hopen hrun hclose]
  exact ⟨rfl, hidle⟩

theorem Answered.remotely {q : Program (Except RemoteError α)}
    (h : Answered t capacity x (q.run m)) :
    ((remotely q).run m).1 = x.mapError .remote ∧
    Idle t capacity ((remotely q).run m).2.device := by
  rw [run_remotely]
  exact ⟨congrArg (Except.mapError CallError.remote) h.answer, h.idle⟩

end Sessions

section Calls

variable {m : CachedDevice Device} {count : Nat} {offset length : UInt64} {data : Bytes}

theorem openFile_of_file (hp : t.get? p = some (.file content))
    (hm : mode = .read ∨ mode = .write) :
    t.openFile p mode = .ok (t, 0) := by
  rcases hm with rfl | rfl <;> simp only [Tree.openFile, hp]

theorem answered_read (h : Idle t capacity m.device) (hp : t.get? p = some (.file content)) :
    ((Filesystem.read p count offset).run m).1 = .ok (content.slice offset.toNat count) ∧
      Idle t capacity ((Filesystem.read p count offset).run m).2.device := by
  refine Answered.remotely (x := .ok (content.slice offset.toNat count))
    (answered_of_ok h (openFile_of_file hp (.inl rfl)) fun id m₁ hduring ↦ ?_)
  obtain ⟨d₂, hseek, hduring⟩ := hduring.seek offset
  obtain ⟨s, d₃, hread, hduring⟩ := hduring.read count
  refine ⟨s, ⟨d₃, (m₁.cache.updateSize p (RemoteDevice.size m₁.device id)).2⟩, ?_, hduring⟩
  rw [run_bind, run_askSize, run_bind, run_access, run_bind, run_request, hseek]
  dsimp only
  rw [run_request, hread, Session.read, Session.content_eq_ok_iff.2 hp]
  rfl

theorem write_session (capacity : UInt64) (hp : t.get? p = some (.file content)) (data : Bytes)
    (offset : UInt64) :
    Session.write ⟨p, .write, offset⟩ t capacity data =
      if UInt64.size ≤ offset.toNat + data.length then
        .error (.reported Errno.fbig "offset too large")
      else (t.requireRoom capacity p (offset + data.length.toUInt64)).map fun _ ↦
        (data.length, ⟨p, .write, offset + data.length.toUInt64⟩,
          t.insert p (.file (content.overwrite offset.toNat data))) :=
  Session.write_of_file (s := ⟨p, .write, offset⟩) rfl hp capacity data

theorem answered_write_error (h : Idle t capacity m.device) (hp : t.get? p = some (.file content))
    (hw : Session.write ⟨p, .write, offset⟩ t capacity data = .error e) :
    ((Filesystem.write p data offset).run m).1 = .error (.remote e) ∧
      Idle t capacity ((Filesystem.write p data offset).run m).2.device := by
  refine Answered.remotely (x := .error e)
    (answered_of_ok h (openFile_of_file hp (.inr rfl)) fun id m₁ hduring ↦ ?_)
  obtain ⟨d₂, hseek, hduring⟩ := hduring.seek offset
  obtain ⟨d₃, hwrite, hduring⟩ := hduring.write_error hw
  refine ⟨_, ⟨d₃, m₁.cache⟩, ?_, hduring⟩
  rw [run_bind, run_request, hseek]
  dsimp only
  rw [run_bind, run_request, hwrite]
  rfl

theorem answered_write_ok (h : Idle t capacity m.device)
    (hp : t.get? p = some (.file content)) {n : Nat}
    (hw : Session.write ⟨p, .write, offset⟩ t capacity data = .ok (n, s', t')) :
    ((Filesystem.write p data offset).run m).1 = .ok n ∧
      Idle t' capacity ((Filesystem.write p data offset).run m).2.device := by
  refine Answered.remotely (x := .ok n)
    (answered_of_ok h (openFile_of_file hp (.inr rfl)) fun id m₁ hduring ↦ ?_)
  obtain ⟨d₂, hseek, hduring⟩ := hduring.seek offset
  obtain ⟨d₃, hwrite, hduring⟩ := hduring.write_ok hw
  refine ⟨s', ⟨d₃, (m₁.cache.updateSize p
    (max (RemoteDevice.size d₃ id) (saturatingEnd offset n))).2⟩, ?_, hduring⟩
  rw [run_bind, run_request, hseek]
  dsimp only
  rw [run_bind, run_request, hwrite]
  rfl

theorem truncate_session (capacity : UInt64) (hp : t.get? p = some (.file content))
    (length : UInt64) :
    Session.truncate ⟨p, .write, 0⟩ t capacity length =
      (t.requireRoom capacity p length).map fun _ ↦
        t.insert p (.file (content.resize length.toNat)) :=
  Session.truncate_of_file (s := ⟨p, .write, 0⟩) rfl hp capacity length

theorem answered_truncate {x : Except RemoteError Unit}
    (hx : Answered t' capacity x ((withSession p .write fun s ↦
      request (.truncate s length)).run m)) :
    ((Filesystem.truncate p length).run m).1 = x.mapError .remote ∧
      Idle t' capacity ((Filesystem.truncate p length).run m).2.device := by
  obtain ⟨hanswer, hidle⟩ := hx
  rw [Filesystem.truncate, run_bind, hanswer]
  cases x with
  | error e => exact ⟨rfl, hidle⟩
  | ok u => exact ⟨rfl, hidle⟩

theorem answered_truncate_error (h : Idle t capacity m.device)
    (hp : t.get? p = some (.file content))
    (hc : Session.truncate ⟨p, .write, 0⟩ t capacity length = .error e) :
    Answered t capacity (.error e)
      ((withSession p .write fun s ↦ request (.truncate s length)).run m) := by
  refine answered_of_ok h (openFile_of_file hp (.inr rfl)) fun id m₁ hduring ↦ ?_
  obtain ⟨d₂, hcut, hduring⟩ := hduring.truncate_error hc
  refine ⟨_, ⟨d₂, m₁.cache⟩, ?_, hduring⟩
  rw [run_request, hcut]

theorem answered_truncate_ok (h : Idle t capacity m.device) (hp : t.get? p = some (.file content))
    (hc : Session.truncate ⟨p, .write, 0⟩ t capacity length = .ok t') :
    Answered t' capacity (.ok ())
      ((withSession p .write fun s ↦ request (.truncate s length)).run m) := by
  refine answered_of_ok h (openFile_of_file hp (.inr rfl)) fun id m₁ hduring ↦ ?_
  obtain ⟨d₂, hcut, hduring⟩ := hduring.truncate_ok hc
  refine ⟨_, ⟨d₂, m₁.cache⟩, ?_, hduring⟩
  rw [run_request, hcut]

theorem answered_create (h : Idle t capacity m.device) :
    ((create p).run m).1 = ((t.openFile p .createWrite).map fun _ ↦ ()).mapError .remote ∧
      Idle (((t.openFile p .createWrite).map Prod.fst).toOption.getD t) capacity
        ((create p).run m).2.device := by
  obtain ⟨hx, hd⟩ := run_create p m
  rw [hx, hd]
  cases ho : t.openFile p .createWrite with
  | error e =>
    have hcall : Answered t capacity (.error e)
        ((withSession p .createWrite fun _ ↦ return .ok ()).run m) :=
      answered_of_error h ho
    exact ⟨congrArg (Except.mapError CallError.remote) hcall.answer, hcall.idle⟩
  | ok y =>
    have hcall : Answered y.1 capacity (.ok ())
        ((withSession p .createWrite fun _ ↦ return .ok ()).run m) :=
      answered_of_ok h ho fun id m₁ hduring ↦ ⟨_, m₁, rfl, hduring⟩
    exact ⟨congrArg (Except.mapError CallError.remote) hcall.answer, hcall.idle⟩

end Calls

section Outcomes

variable {policy : Policy} {caller : Caller} {m : CachedDevice Device}

def Device.found (d : Device) : RemotePath → Option Found := d.tree.foundAt

def Leaves (p : RemotePath) (capacity : UInt64) (d : Device)
    (out : Except Errno CallAnswer × Option Found)
    (r : Except CallError CallAnswer × CachedDevice Device) : Prop :=
  Comes Device.found p d out r ∧ ∃ t, Idle t capacity r.2.device

theorem leaves_of_answered {α : Type} {x : Except RemoteError α}
    {r : Except CallError α × CachedDevice Device}
    {y : Option Found} (h : Idle t capacity d)
    (hr : r.1 = x.mapError .remote ∧ Idle t' capacity r.2.device)
    (f : α → CallAnswer) (ht : t'.foundAt = Function.update t.foundAt p y) :
    Leaves p capacity d ((x.mapError RemoteError.errno).map f, y) (r.1.map f, r.2) := by
  obtain ⟨hx, hidle⟩ := hr
  refine ⟨.of_remote f hx ?_, t', hidle⟩
  rw [Device.found, hidle.tree, ht, Device.found, h.tree]

theorem leaves_of_error {call : FileCall} (h : Idle t capacity m.device)
    (ho : ∀ mode, (mode = .createWrite → call = .create) → t.openFile p mode = .error e) :
    Leaves p capacity m.device (.error e.errno, t.foundAt p)
      (((call.toCall p).program policy caller).run m) := by
  have hsame : t.foundAt = Function.update t.foundAt p (t.foundAt p) :=
    (Function.update_eq_self p _).symm
  rw [FileCall.run_toCall]
  cases call with
  | create =>
    have hcreate := answered_create (p := p) h
    rw [ho .createWrite fun _ ↦ rfl] at hcreate
    exact leaves_of_answered h hcreate _ hsame
  | write data offset =>
    exact leaves_of_answered h (answered_of_error h (ho .write nofun)).remotely _ hsame
  | truncate length =>
    exact leaves_of_answered h (answered_truncate (answered_of_error h (ho .write nofun))) _ hsame
  | read count offset =>
    exact leaves_of_answered h (answered_of_error h (ho .read nofun)).remotely _ hsame

theorem leaves_of_file (h : Idle t capacity m.device) (hp : t.get? p = some (.file content))
    (call : FileCall) :
    Leaves p capacity m.device ((t.storage capacity p).outcome (some (.file content.toBytes)) call)
      (((call.toCall p).program policy caller).run m) := by
  have hsame : t.foundAt = Function.update t.foundAt p (some (.file content.toBytes)) := by
    have hfound : t.foundAt p = some (.file content.toBytes) := by
      rw [Tree.foundAt, hp, Option.map_some, Node.found]
    rw [← hfound, Function.update_eq_self]
  have hstored := fun new ↦ Tree.foundAt_insert t p (.file new)
  rw [FileCall.run_toCall]
  cases call with
  | create =>
    have hopen : t.openFile p .createWrite = .ok (t.insert p (.file .empty), 0) := by
      simp only [Tree.openFile, hp]
    have hcreate := answered_create (p := p) h
    rw [hopen] at hcreate
    exact leaves_of_answered h hcreate (fun _ ↦ .nothing) (hstored .empty)
  | read count offset =>
    dsimp only [Storage.outcome, Tree.storage]
    rw [← Content.slice_eq]
    exact leaves_of_answered (x := .ok (content.slice offset.toNat count)) h
      (answered_read h hp) .data hsame
  | write data offset =>
    dsimp only [Storage.outcome, Tree.storage]
    have hw := write_session capacity hp data offset
    split at hw
    · rw [if_pos ‹_›]
      exact leaves_of_answered (x := .error (.reported Errno.fbig "offset too large")) h
        (answered_write_error h hp hw) .count hsame
    · rw [if_neg ‹_›]
      cases hroom : t.requireRoom capacity p (offset + data.length.toUInt64) with
      | error e =>
        rw [hroom] at hw
        exact leaves_of_answered (x := .error e) h (answered_write_error h hp hw) .count hsame
      | ok u =>
        rw [hroom] at hw
        dsimp only [Except.mapError, Except.map, Except.toOption, Option.getD]
        rw [← Content.toBytes_overwrite]
        exact leaves_of_answered (x := .ok data.length) h (answered_write_ok h hp hw) .count
          (hstored _)
  | truncate length =>
    dsimp only [Storage.outcome, Tree.storage]
    have hc := truncate_session capacity hp length
    cases hroom : t.requireRoom capacity p length with
    | error e =>
      rw [hroom] at hc
      exact leaves_of_answered h (answered_truncate (answered_truncate_error h hp hc)) _ hsame
    | ok u =>
      rw [hroom] at hc
      dsimp only [Except.mapError, Except.map, Except.toOption, Option.getD]
      rw [← Content.toBytes_resize]
      exact leaves_of_answered h (answered_truncate (answered_truncate_ok h hp hc))
        (fun _ ↦ .nothing) (hstored _)

theorem leaves_of_none (h : Idle t capacity m.device) (hn : t.get? p = none)
    (hp : t.foundAt p.parent = some .directory) (call : FileCall) :
    Leaves p capacity m.device ((t.storage capacity p).outcome none call)
      (((call.toCall p).program policy caller).run m) := by
  have hparent : t.requireDirectory p.parent = .ok () := by
    obtain ⟨node, hnode, hfound⟩ := Option.map_eq_some_iff.1 hp
    cases node with
    | directory => exact Tree.requireDirectory_eq_ok_iff.2 hnode
    | file content => cases hfound
  by_cases hcall : call = .create
  · subst hcall
    have hopen : t.openFile p .createWrite = .ok (t.insert p (.file .empty), 0) := by
      simp only [Tree.openFile, hn, hparent]
      rfl
    have hcreate := answered_create (p := p) h
    rw [hopen] at hcreate
    rw [FileCall.run_toCall]
    exact leaves_of_answered h hcreate (fun _ ↦ .nothing) (Tree.foundAt_insert t p (.file .empty))
  · have hout : (t.storage capacity p).outcome none call = (.error Errno.noent, t.foundAt p) := by
      rw [Tree.foundAt, hn]
      cases call with
      | create => exact absurd rfl hcall
      | write | truncate | read => rfl
    rw [hout]
    refine leaves_of_error (e := (.reported Errno.noent "no such file")) h fun mode hmode ↦ ?_
    cases mode with
    | createWrite => exact absurd (hmode rfl) hcall
    | read | write | append => simp only [Tree.openFile, hn]

/-- What a call on a file answers and leaves is told by what is at its path and by the room that
is left. -/
theorem leaves_of_idle (policy : Policy) (caller : Caller) (h : Idle t capacity m.device)
    (hp : t.foundAt p.parent = some .directory) (call : FileCall) :
    Leaves p capacity m.device ((t.storage capacity p).outcome (t.foundAt p) call)
      (((call.toCall p).program policy caller).run m) := by
  cases hnode : t.get? p with
  | none =>
    rw [Tree.foundAt, hnode]
    exact leaves_of_none h hnode hp call
  | some node =>
    have hfound : t.foundAt p = some node.found := by rw [Tree.foundAt, hnode, Option.map_some]
    cases node with
    | file content =>
      rw [hfound]
      exact leaves_of_file h hnode call
    | directory =>
      have hout : (t.storage capacity p).outcome (t.foundAt p) call =
          (.error Errno.isdir, t.foundAt p) := by
        rw [hfound]
        cases call <;> rfl
      rw [hout]
      exact leaves_of_error (e := (.reported Errno.isdir "is a directory")) h fun mode _ ↦
        by simp only [Tree.openFile, hnode]

end Outcomes

end RemoteMount.Memory
