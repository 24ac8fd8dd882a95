import RemoteMount.Call
import RemoteMount.Proofs.Memory.Sessions

namespace RemoteMount

/-- Faults to arm, each for the next request of its kind. -/
abbrev Faults := List (RemoteOp × RemoteError)

namespace Memory.Device

variable {d : Device} {faults : Faults}

def arm (d : Device) (faults : Faults) : Device := faults.foldl (fun d f ↦ d.armFault f.1 f.2) d

theorem arm_eq (d : Device) (faults : Faults) :
    d.arm faults = { d with faults := (d.arm faults).faults } := by
  induction faults generalizing d with
  | nil => rfl
  | cons f faults ih => exact ih (d.armFault f.1 f.2)

@[simp] theorem tree_arm : (d.arm faults).tree = d.tree := by rw [arm_eq]

@[simp] theorem sessions_arm : (d.arm faults).sessions = d.sessions := by rw [arm_eq]

@[simp] theorem size_arm (id : SessionId) : (d.arm faults).size id = d.size id := by
  rw [arm_eq]
  rfl

end Memory.Device

namespace Turns

open Memory

structure Exchange where
  request : Request
  granted : Bool
deriving DecidableEq

/-- What a call works on, and the requests it has made, the latest first. -/
structure State where
  shared : CachedDevice Device
  log : List Exchange

def logged : (a : Step) → a.Answer → List Exchange → List Exchange
  | .remote r, x, log => ⟨r, x.isOk⟩ :: log
  | _, _, log => log

namespace State

def tree (s : State) : Tree := s.shared.device.tree

def cache (s : State) : AttributeCache := s.shared.cache

def take (s : State) (faults : Faults) (a : Step) : a.Answer × State :=
  let x := a.run { s.shared with device := s.shared.device.arm faults }
  (x.1, ⟨x.2, logged a x.1 s.log⟩)

/-- The device can answer the request so, and is left so; which faults are armed is open. -/
def Answers (s : State) (r : Request) (x : Except RemoteError r.Reply) (s' : State) : Prop :=
  ∃ faults, (s.take faults (.remote r)).1 = x ∧ (s.take faults (.remote r)).2 = s'

def Holds (s : State) (id : SessionId) (path : RemotePath) : Prop :=
  ∃ x, s.shared.device.sessions.get? id = some x ∧ x.path = path

end State

def handle (a : Step) (t : State × List Faults) : a.Answer × State × List Faults :=
  let (x, s) := t.1.take (t.2.headD []) a
  (x, s, t.2.tail)

/-- Runs a program. Before each of its steps, the faults that are next in line are armed. -/
def perform {α : Type} (p : Program α) (m : CachedDevice Device)
    (faults : List Faults) : α × State :=
  let (x, s, _) := p.interpret handle (⟨m, []⟩, faults)
  (x, s)

structure Turn where
  call : Call String
  faults : List Faults

structure Deed where
  call : Call String
  log : List Exchange

structure History where
  shared : CachedDevice Device
  deeds : List Deed

theorem perform_of_no_faults {α : Type} (p : Program α) (m : CachedDevice Device) :
    (perform p m []).1 = (p.run m).1 ∧ (perform p m []).2.shared = (p.run m).2 := by
  suffices hgen : ∀ s : State, (p.interpret handle (s, [])).1 = (p.run s.shared).1 ∧
      (p.interpret handle (s, [])).2.1.shared = (p.run s.shared).2 from hgen ⟨m, []⟩
  induction p with
  | done a => exact fun _ ↦ ⟨rfl, rfl⟩
  | step a next ih => exact fun s ↦ ih _ (s.take [] a).2

variable (policy : Policy) (caller : Caller)

def History.turn (h : History) (t : Turn) : History :=
  let s := (perform (t.call.programOfText policy caller) h.shared t.faults).2
  ⟨s.shared, ⟨t.call, s.log⟩ :: h.deeds⟩

def run (d : Device) (turns : List Turn) : History :=
  turns.foldl (History.turn policy caller) ⟨⟨d, .empty⟩, []⟩

end Turns

open Turns Memory

/-- The program ends as `Q` says, whatever faults are armed before its steps. -/
def Program.Ensures {α : Type} (Q : α → State → Prop) : Program α → State → Prop
  | .done a, s => Q a s
  | .step a next, s => ∀ faults, (next (s.take faults a).1).Ensures Q (s.take faults a).2

namespace Program

variable {α β : Type} {p : Program α} {f : α → Program β} {s : State} {Q R : α → State → Prop}
variable {T : β → State → Prop}

theorem Ensures.mono (h : p.Ensures Q s) (hq : ∀ a s', Q a s' → R a s') : p.Ensures R s := by
  induction p generalizing s with
  | done a => exact hq a s h
  | step a next ih => exact fun faults ↦ ih _ (h faults)

theorem Ensures.bind (hp : p.Ensures Q s) (hf : ∀ a s', Q a s' → (f a).Ensures T s') :
    (p >>= f).Ensures T s := by
  induction p generalizing s with
  | done a => exact hf a s hp
  | step a next ih => exact fun faults ↦ ih _ (hp faults)

theorem Ensures.map {g : α → β} (h : p.Ensures (fun a s' ↦ T (g a) s') s) :
    (g <$> p).Ensures T s := by
  rw [map_eq_pure_bind]
  exact h.bind fun _ _ hq ↦ hq

/-- What is ensured for all faults holds for those that a run arms. -/
theorem Ensures.perform {m : CachedDevice Device} (h : p.Ensures Q ⟨m, []⟩) (faults : List Faults) :
    Q (perform p m faults).1 (perform p m faults).2 := by
  suffices hgen : ∀ s faults, p.Ensures Q s →
      Q (p.interpret handle (s, faults)).1 (p.interpret handle (s, faults)).2.1 from hgen _ faults h
  clear h
  induction p with
  | done a => exact fun _ _ h ↦ h
  | step a next ih => exact fun s faults h ↦ ih _ _ faults.tail (h (faults.headD []))

theorem ensures_of_steps {P : State → Prop} (hs : ∀ s faults a, P s → P (s.take faults a).2)
    (h : P s) :
    p.Ensures (fun _ ↦ P) s := by
  induction p generalizing s with
  | done a => exact h
  | step a next ih => exact fun faults ↦ ih _ (hs s faults a h)

theorem ensures_remote {r : Request} {next : Except RemoteError r.Reply → Program α}
    (h : ∀ x s', s.Answers r x s' → (next x).Ensures Q s') :
    (Program.step (.remote r) next).Ensures Q s :=
  fun faults ↦ h _ _ ⟨faults, rfl, rfl⟩

end Program

namespace Turns.State

variable {s s' : State} {r : Request} {x : Except RemoteError r.Reply} {id : SessionId}
    {path : RemotePath}
variable {faults : Faults}

@[simp] theorem tree_take_access (a : CacheAccess) : (s.take faults (.cache a)).2.tree = s.tree :=
  Device.tree_arm

@[simp] theorem cache_take_access (a : CacheAccess) :
    (s.take faults (.cache a)).2.cache = (a.run s.cache).2 := rfl

@[simp] theorem tree_take_size : (s.take faults (.size id)).2.tree = s.tree := Device.tree_arm

theorem answer_take_size (h : s.Holds id path) :
    (s.take faults (.size id)).1 = s.tree.lengthAt path := by
  obtain ⟨x, hx, rfl⟩ := h
  exact (Device.size_arm id).trans (Device.size_of_session hx)

namespace Answers

theorem cache_eq (h : s.Answers r x s') : s'.cache = s.cache := by
  obtain ⟨faults, rfl, rfl⟩ := h
  rfl

theorem log_eq (h : s.Answers r x s') : s'.log = ⟨r, x.isOk⟩ :: s.log := by
  obtain ⟨faults, rfl, rfl⟩ := h
  rfl

theorem exists_answer (h : s.Answers r x s') :
    ∃ faults, x = ((s.shared.device.arm faults).answer r).1 ∧
    s'.shared.device = ((s.shared.device.arm faults).answer r).2 := by
  obtain ⟨faults, rfl, rfl⟩ := h
  exact ⟨faults, rfl, rfl⟩

theorem effect (h : s.Answers r x s') :
    ∃ faults, (s.shared.device.arm faults).Effect r s'.tree := by
  obtain ⟨faults, -, hd⟩ := h.exists_answer
  refine ⟨faults, ?_⟩
  rw [tree, hd]
  exact Device.answer_effect _ r

theorem tree_of_error {e : RemoteError} (h : s.Answers r (.error e) s') : s'.tree = s.tree := by
  obtain ⟨faults, hx, hd⟩ := h.exists_answer
  rw [tree, hd, Device.tree_answer_of_error hx.symm, Device.tree_arm]
  rfl

theorem tree_of_quiet (h : s.Answers r x s') (hn : ∀ p, ¬r.Names p) (hs : r.stores? = none) :
    s'.tree = s.tree := by
  obtain ⟨faults, he⟩ := h.effect
  rw [he.eq_of_quiet hn hs, Device.tree_arm]
  rfl

theorem listing {dir : RemotePath} {rows : List ListingEntry}
    (h : s.Answers (.listdir dir) (.ok rows) s') :
    s.tree.listing dir = .ok rows := by
  obtain ⟨faults, hx, -⟩ := h.exists_answer
  have hlisting := Device.listing_of_answer hx.symm
  rwa [Device.tree_arm] at hlisting

theorem opened {mode : OpenMode} (h : s.Answers (.openFile path mode) (.ok id) s') :
    ∃ x, s'.shared.device.sessions.get? id = some x ∧ x.path = path ∧ x.mode = mode := by
  obtain ⟨faults, hx, hd⟩ := h.exists_answer
  rw [hd]
  exact (Device.opened_of_answer hx.symm).2

theorem sought {offset : UInt64} {u : Unit} {x : Session}
    (h : s.Answers (.seek id offset) (.ok u) s') (hs : s.shared.device.sessions.get? id = some x) :
    s'.shared.device.sessions.get? id = some { x with position := offset } := by
  obtain ⟨faults, hx, hd⟩ := h.exists_answer
  rw [hd]
  rw [← Device.sessions_arm] at hs
  exact Device.sought_of_answer hs hx.symm

theorem written {data : Bytes} {n : Nat} {x : Session} (h : s.Answers (.write id data) (.ok n) s')
    (hs : s.shared.device.sessions.get? id = some x) :
    ∃ old, s.tree.get? x.path = some (.file old) ∧
    (x.writeStart old.size).toNat + data.length < UInt64.size ∧
      n = data.length ∧ s'.Holds id x.path ∧
      s'.tree = s.tree.insert x.path
        (.file (old.overwrite (x.writeStart old.size).toNat data)) := by
  obtain ⟨faults, hx, hd⟩ := h.exists_answer
  rw [← Device.sessions_arm] at hs
  have hw := Device.written_of_answer hs hx.symm
  rw [Device.tree_arm, ← hd] at hw
  exact hw

theorem cut {length : UInt64} {u : Unit} (h : s.Answers (.truncate id length) (.ok u) s')
    (hs : s.Holds id path) :
    ∃ old, s.tree.get? path = some (.file old) ∧
      s'.tree = s.tree.insert path (.file (old.resize length.toNat)) := by
  obtain ⟨faults, hx, hd⟩ := h.exists_answer
  obtain ⟨x, hs, rfl⟩ := hs
  rw [← Device.sessions_arm] at hs
  have hc := Device.cut_of_answer hs hx.symm
  rw [Device.tree_arm, ← hd] at hc
  exact hc

end Answers

end Turns.State

end RemoteMount
