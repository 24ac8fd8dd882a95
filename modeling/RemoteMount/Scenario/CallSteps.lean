import RemoteMount.Call
import RemoteMount.Scenario.DeviceSteps

namespace RemoteMount.Scenario

/-- A moment in the course of a call, by the kind of the request next to it. Steps that are
armed for it run there, once, while the call waits. -/
inductive Moment
  | before (op : RemoteOp)
  | after (op : RemoteOp)
deriving DecidableEq, Repr

inductive CallStep
  | call (c : Call String)
  | caller (c : Caller)
  | permission (path : RemotePath) (kind : EntryKind)
  | cache (a : CacheAccess)
  | device (s : DeviceStep)
  /-- Arms steps for a moment; they take the place of those armed for it before. -/
  | arm (m : Moment) (steps : List CallStep)
  | malformed (e : InvalidPath)

namespace CallStep

mutual

def armings : CallStep → Nat
  | arm _ steps => armingsOf steps + 1
  | _ => 0

def armingsOf : List CallStep → Nat
  | [] => 0
  | s :: rest => s.armings + armingsOf rest

end

end CallStep

inductive CallOutcome
  | answered (a : CallAnswer)
  | failed (e : CallError)
  | permission (perm : UInt16)
  | cached (a : CacheAccess) (answer : a.Answer)
  | device (out : DeviceOutcome)
  | nothing
  | malformed (e : InvalidPath)

/-- What a step showed, the state after it, and what was observed of the steps that ran during
it. -/
inductive CallObservation
  | mk (out : CallOutcome) (cached generation : Nat) (sessions : Option Nat)
      (during : List CallObservation)

def CallOutcome.isTrap : CallOutcome → Bool
  | failed (.remote .overflow) => true
  | device out => out.isTrap
  | _ => false

mutual

def CallObservation.isTrap : CallObservation → Bool
  | .mk out _ _ _ during => out.isTrap || CallObservation.anyTrap during

def CallObservation.anyTrap : List CallObservation → Bool
  | [] => false
  | o :: rest => o.isTrap || anyTrap rest

end

structure CallBench where
  bench : Bench
  cache : AttributeCache
  policy : Policy
  caller : Caller
  armed : KeyMap Moment (List CallStep)
  during : List CallObservation

namespace CallBench

def start (device : Bench) (policy : Policy) (caller : Caller)
    (cache : AttributeCache) : CallBench :=
  ⟨device, cache, policy, caller, .empty, []⟩

def plainStep (b : CallBench) (s : Step) : s.Answer × CallBench :=
  let (x, m) := s.run ⟨b.bench.device, b.cache⟩
  (x, { b with bench := { b.bench with device := m.device }, cache := m.cache })

/-- Takes one step of a program; what is armed for a request runs around it. -/
def programStep (fire : Moment → CallBench → CallBench) (s : Step) (b : CallBench) :
    s.Answer × CallBench :=
  match s with
  | .remote r =>
    let b := fire (.before r.op) b
    let (x, b) := b.plainStep (.remote r)
    (x, fire (.after r.op) b)
  | s => b.plainStep s

def perform (fire : Moment → CallBench → CallBench) (b : CallBench) :
    CallStep → CallOutcome × CallBench
  | .call c =>
    match (c.programOfText b.policy b.caller).interpret (programStep fire) b with
    | (.ok a, b) => (.answered a, b)
    | (.error e, b) => (.failed e, b)
  | .caller c => (.nothing, { b with caller := c })
  | .permission path kind => (.permission (b.policy.permission path kind), b)
  | .cache a =>
    let (x, c) := a.run b.cache
    (.cached a x, { b with cache := c })
  | .device s =>
    let (out, bench) := b.bench.step s
    (.device out, { b with bench := bench })
  | .arm m steps => (.nothing, { b with armed := b.armed.insert m steps })
  | .malformed e => (.malformed e, b)

def observe (fire : Moment → CallBench → CallBench) (b : CallBench) (s : CallStep) :
    CallObservation × CallBench :=
  let outer := b.during
  let (out, b) := perform fire { b with during := [] } s
  (.mk out b.cache.size b.cache.generation b.bench.device.device.openSessions? b.during,
    { b with during := outer })

def observeAll (fire : Moment → CallBench → CallBench) (b : CallBench) :
    List CallStep → List CallObservation × CallBench
  | [] => ([], b)
  | s :: rest =>
    let (o, b) := observe fire b s
    let (os, b) := observeAll fire b rest
    (o :: os, b)

/-- Runs what is armed for a moment. Armed steps may reach moments themselves, up to a depth. -/
def fire : Nat → Moment → CallBench → CallBench
  | 0, _, b => b
  | depth + 1, m, b =>
    match b.armed.get? m with
    | none => b
    | some steps =>
      let (os, b) := observeAll (fire depth) { b with armed := b.armed.erase m } steps
      { b with during := b.during ++ os }

/-- Takes all steps. What is armed runs once, so no nesting is deeper than there are armings. A
program that unwinds leaves no observations. -/
def run (b : CallBench) (steps : List CallStep) : Option (List CallObservation × CallBench) :=
  let (os, b) := observeAll (fire (CallStep.armingsOf steps)) b steps
  if CallObservation.anyTrap os then none else some (os, b)

end CallBench

end RemoteMount.Scenario
