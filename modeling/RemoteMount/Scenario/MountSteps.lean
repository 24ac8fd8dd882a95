import RemoteMount.Mount.Callback
import RemoteMount.Scenario.DeviceSteps

namespace RemoteMount.Scenario

inductive MountStep
  | callback (c : Mount.Callback)
  | caller (c : Caller)
  | device (s : DeviceStep)
  | inode (op : InodeOp)
  | cached (path : RemotePath)
  | malformed (e : InvalidPath)

inductive MountOutcome
  | replied (r : Mount.Reply)
  | failed (e : CallError)
  | device (out : DeviceOutcome)
  | inode (op : InodeOp) (answer : op.Answer)
  | cached (a : Option Attributes)
  | nothing
  | malformed (e : InvalidPath)

def MountOutcome.isTrap : MountOutcome → Bool
  | failed (.remote .overflow) => true
  | device out => out.isTrap
  | _ => false

structure MountObservation where
  out : MountOutcome
  inodes : Nat
  cached : Nat
  generation : Nat
  sessions : Option Nat

structure MountBench where
  mount : Mount (Scripted Storage)
  handles : KeyMap Nat SessionId
  caller : Caller

namespace MountBench

def start (bench : Bench) (config : Mount.Config) (caller : Caller) : MountBench :=
  ⟨.start bench.device config, bench.handles, caller⟩

def setDevice (b : MountBench) (d : Scripted Storage) : MountBench :=
  { b with mount := { b.mount with base := { b.mount.base with device := d } } }

def perform (b : MountBench) : MountStep → MountOutcome × MountBench
  | .callback c =>
    match b.mount.answer b.caller c with
    | (.ok r, m) => (.replied r, { b with mount := m })
    | (.error e, m) => (.failed e, { b with mount := m })
  | .caller c => (.nothing, { b with caller := c })
  | .device s =>
    let (out, bench) := Bench.step ⟨b.mount.base.device, b.handles⟩ s
    (.device out, { b.setDevice bench.device with handles := bench.handles })
  | .inode op =>
    let (x, t) := op.run b.mount.inodes
    (.inode op x, { b with mount := { b.mount with inodes := t } })
  | .cached path => (.cached (b.mount.base.cache.lookup path), b)
  | .malformed e => (.malformed e, b)

def observe (b : MountBench) (s : MountStep) : MountObservation × MountBench :=
  let (out, b) := b.perform s
  (⟨out, b.mount.inodes.size, b.mount.base.cache.size, b.mount.base.cache.generation,
    b.mount.base.device.device.openSessions?⟩, b)

def run (b : MountBench) : List MountStep → Option (List MountObservation × MountBench)
  | [] => some ([], b)
  | s :: rest =>
    let (o, b) := b.observe s
    if o.out.isTrap then none else (b.run rest).map fun (os, b) ↦ (o :: os, b)

end MountBench

end RemoteMount.Scenario
