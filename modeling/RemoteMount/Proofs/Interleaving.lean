import RemoteMount.Call
import RemoteMount.Memory.Device

namespace RemoteMount

namespace Call

def changesNames {π : Type} : Call π → Bool
  | mkdir _ | rmdir _ | unlink _ | create _ | createNew _ | rename _ _ => true
  | getattr _ | readdir _ | read .. | write .. | truncate .. | destroy => false

end Call

namespace Interleaving

open Memory

structure BegunCall where
  call : Call RemotePath
  caller : Caller
  rest : Program (Except CallError CallAnswer)

def BegunCall.finished (c : BegunCall) : Bool :=
  match c.rest with
  | .done _ => true
  | .step _ _ => false

structure Moment where
  found : CachedDevice Device
  step : Step

/-- Calls on one device and one cache whose steps are interleaved in any order. -/
structure State where
  shared : CachedDevice Device
  calls : List BegunCall
  past : List Moment

namespace State

def initial (d : Device) : State := ⟨⟨d, .empty⟩, [], []⟩

def tree (s : State) : Tree := s.shared.device.tree

def cache (s : State) : AttributeCache := s.shared.cache

end State

inductive Choice
  | start (caller : Caller) (call : Call RemotePath)
  | advance (i : Nat)
  | arm (op : RemoteOp) (e : RemoteError)

variable (policy : Policy)

def State.take (s : State) (i : Nat) (c : BegunCall) (a : Step)
    (k : a.Answer → Program (Except CallError CallAnswer)) : State where
  shared := (a.run s.shared).2
  calls := s.calls.set i { c with rest := k (a.run s.shared).1 }
  past := ⟨s.shared, a⟩ :: s.past

def next (s : State) : Choice → State
  | .start caller call =>
    { s with calls := s.calls ++ [⟨call, caller, call.program policy caller⟩] }
  | .advance i =>
    match s.calls[i]? with
    | none => s
    | some c =>
      match c.rest with
      | .done _ => s
      | .step a k => s.take i c a k
  | .arm op e => { s with shared := { s.shared with device := s.shared.device.armFault op e } }

def run (s : State) (schedule : List Choice) : State := schedule.foldl (next policy) s

theorem run_induction {P : State → Prop} {s : State} {schedule : List Choice} (h : P s)
    (hs : ∀ s, ∀ choice ∈ schedule, P s → P (next policy s choice)) :
    P (run policy s schedule) := by
  induction schedule generalizing s with
  | nil => exact h
  | cons choice schedule ih =>
    exact ih (hs s choice List.mem_cons_self h) fun s c hc ↦ hs s c (List.mem_cons_of_mem choice hc)

/-- What a choice keeps is kept by beginning a call, by a step of a call and by arming a
fault. -/
theorem next_cases {P : State → Prop} {s : State} (choice : Choice) (h : P s)
    (hstart : ∀ caller call, choice = .start caller call →
      P { s with calls := s.calls ++ [⟨call, caller, call.program policy caller⟩] })
    (htake : ∀ i c a k, s.calls[i]? = some c → c.rest = .step a k → P (s.take i c a k))
    (harm : ∀ op e, choice = .arm op e →
      P { s with shared := { s.shared with device := s.shared.device.armFault op e } }) :
    P (next policy s choice) := by
  cases choice with
  | start caller call => exact hstart caller call rfl
  | advance i =>
    simp only [next]
    split
    · exact h
    · rename_i c hc
      split
      · exact h
      · rename_i a k hk
        exact htake i c a k hc hk
  | arm op e => exact harm op e rfl

namespace State

variable {s : State} {i : Nat} {c c' : BegunCall} {a : Step}
    {k : a.Answer → Program (Except CallError CallAnswer)}

theorem mem_take (h : c' ∈ (s.take i c a k).calls) :
    c' = { c with rest := k (a.run s.shared).1 } ∨ c' ∈ s.calls :=
  (List.mem_or_eq_of_mem_set h).symm

theorem take_mem (hc : s.calls[i]? = some c) :
    { c with rest := k (a.run s.shared).1 } ∈ (s.take i c a k).calls :=
  List.mem_set (List.getElem?_eq_some_iff.1 hc).1 _

theorem mem_take_of_mem (hc : s.calls[i]? = some c) (h : c' ∈ s.calls) :
    c' = c ∨ c' ∈ (s.take i c a k).calls := by
  obtain ⟨j, hj⟩ := List.mem_iff_getElem?.1 h
  by_cases hij : i = j
  · subst hij
    exact .inl (Option.some_inj.1 (hj.symm.trans hc))
  · refine .inr (List.mem_iff_getElem?.2 ⟨j, ?_⟩)
    rw [take, List.getElem?_set_ne hij, hj]

end State

end Interleaving

end RemoteMount
