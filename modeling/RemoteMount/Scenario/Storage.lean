import RemoteMount.Host.Device
import RemoteMount.Memory.Device

namespace RemoteMount.Scenario

inductive Storage
  | memory (d : Memory.Device)
  | host (d : Host.Device)

namespace Storage

def answer (r : Request) : Storage → Except RemoteError r.Reply × Storage
  | memory d =>
    let (x, d) := d.answer r
    (x, memory d)
  | host d =>
    let (x, d) := d.answer r
    (x, host d)

def size : Storage → SessionId → UInt64
  | memory d, s => d.size s
  | host d, s => d.size s

instance : RemoteDevice Storage := ⟨answer, size⟩

def openSessions? : Storage → Option Nat
  | memory d => some d.openSessions
  | host _ => none

def calls? : Storage → Option (List (RemoteOp × Nat))
  | memory d => some (RemoteOp.all.map fun op ↦ (op, d.callCount op))
  | host _ => none

def walk : Storage → List (String × Found)
  | memory d => d.tree.walk.map fun e ↦ (e.1.text, e.2)
  | host d => d.store.walk

end Storage

/-- A device with a script over it. What the script does not touch, the device answers. -/
structure Scripted (σ : Type) where
  device : σ
  /-- Rows to be answered for a directory that the device can list. -/
  listings : KeyMap RemotePath (List ListingEntry)
  sessionSize : Option UInt64
  /-- The number of bytes of a write that reach the device. -/
  acceptLimit : Option Nat

namespace Scripted

variable {σ : Type}

def plain (device : σ) : Scripted σ := ⟨device, .empty, none, none⟩

variable [RemoteDevice σ]

def answer (r : Request) (d : Scripted σ) : Except RemoteError r.Reply × Scripted σ :=
  match r with
  | .listdir dir =>
    let (rows, device) := RemoteDevice.answer (.listdir dir) d.device
    (rows.map fun rows ↦ (d.listings.get? dir).getD rows, { d with device := device })
  | .write s data =>
    let accepted := match d.acceptLimit with
      | some n => data.take n
      | none => data
    let (count, device) := RemoteDevice.answer (.write s accepted) d.device
    (count, { d with device := device })
  | r =>
    let (x, device) := RemoteDevice.answer r d.device
    (x, { d with device := device })

def size (d : Scripted σ) (s : SessionId) : UInt64 :=
  d.sessionSize.getD (RemoteDevice.size d.device s)

instance : RemoteDevice (Scripted σ) := ⟨answer, size⟩

end Scripted

end RemoteMount.Scenario
