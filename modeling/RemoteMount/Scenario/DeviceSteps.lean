import RemoteMount.Scenario.Storage

namespace RemoteMount.Scenario

inductive DeviceStep
  | listdir (dir : RemotePath)
  /-- The session is kept under the handle. One that was kept there before is abandoned. -/
  | openFile (handle : Nat) (path : RemotePath) (mode : OpenMode)
  | seek (handle : Nat) (offset : UInt64)
  | read (handle max : Nat)
  | write (handle : Nat) (data : Bytes)
  | truncate (handle : Nat) (length : UInt64)
  | size (handle : Nat)
  | close (handle : Nat)
  | abandon (handle : Nat)
  | mkdir (path : RemotePath)
  | rmdir (path : RemotePath)
  | unlink (path : RemotePath)
  | rename (old new : RemotePath)
  | insertDirectory (path : RemotePath)
  | insertFile (path : RemotePath) (data : Bytes)
  | contents (path : RemotePath)
  | kind (path : RemotePath)
  | armFault (op : RemoteOp) (e : RemoteError)
  | calls (op : RemoteOp)
  | putEntries (entries : List Host.Entry)
  | scriptListing (dir : RemotePath) (rows : Option (List ListingEntry))
  | scriptSize (n : Option UInt64)
  | scriptAccept (n : Option Nat)
  | malformed (e : InvalidPath)

inductive DeviceOutcome
  | nothing
  | rows (rows : List ListingEntry)
  | opened (size : UInt64)
  | data (data : Bytes)
  | count (n : Nat)
  | size (n : UInt64)
  | existed (b : Bool)
  | contents (data : Option Bytes)
  | kind (k : Option EntryKind)
  | failed (e : RemoteError)
  | malformed (e : InvalidPath)
  | noHandle
  | notMemory
  | notHost

def DeviceOutcome.isFailure : DeviceOutcome → Bool
  | failed _ | malformed _ | noHandle | notMemory | notHost => true
  | _ => false

def DeviceOutcome.isTrap : DeviceOutcome → Bool
  | failed .overflow => true
  | _ => false

/-- A scripted device and the sessions that a scenario keeps open on it. -/
structure Bench where
  device : Scripted Storage
  handles : KeyMap Nat SessionId

namespace Bench

def start (device : Storage) : Bench := ⟨.plain device, .empty⟩

def ask (b : Bench) (r : Request) : Except RemoteError r.Reply × Bench :=
  let (x, device) := b.device.device.answer r
  (x, { b with device := { b.device with device := device } })

def setMemory (b : Bench) (d : Memory.Device) : Bench :=
  { b with device := { b.device with device := .memory d } }

def onMemory (b : Bench) (f : Memory.Device → DeviceOutcome × Memory.Device) :
    DeviceOutcome × Bench :=
  match b.device.device with
  | .memory d =>
    let (out, d) := f d
    (out, b.setMemory d)
  | .host _ => (.notMemory, b)

def order (b : Bench) (r : Request) : DeviceOutcome × Bench :=
  match b.ask r with
  | (.ok _, b) => (.nothing, b)
  | (.error e, b) => (.failed e, b)

def withHandle (b : Bench) (handle : Nat) (f : SessionId → DeviceOutcome × Bench) :
    DeviceOutcome × Bench :=
  match b.handles.get? handle with
  | some s => f s
  | none => (.noHandle, b)

def step (b : Bench) : DeviceStep → DeviceOutcome × Bench
  | .listdir dir =>
    match b.ask (.listdir dir) with
    | (.ok rows, b) => (.rows rows, b)
    | (.error e, b) => (.failed e, b)
  | .openFile handle path mode =>
    match b.ask (.openFile path mode) with
    | (.ok s, b) =>
      (.opened (b.device.device.size s), { b with handles := b.handles.insert handle s })
    | (.error e, b) => (.failed e, b)
  | .seek handle offset => b.withHandle handle fun s ↦ b.order (.seek s offset)
  | .read handle max => b.withHandle handle fun s ↦
    match b.ask (.read s max) with
    | (.ok data, b) => (.data data, b)
    | (.error e, b) => (.failed e, b)
  | .write handle data => b.withHandle handle fun s ↦
    match b.ask (.write s data) with
    | (.ok n, b) => (.count n, b)
    | (.error e, b) => (.failed e, b)
  | .truncate handle length => b.withHandle handle fun s ↦ b.order (.truncate s length)
  | .size handle => b.withHandle handle fun s ↦ (.size (b.device.device.size s), b)
  | .close handle => b.withHandle handle fun s ↦
    { b with handles := b.handles.erase handle }.order (.close s)
  | .abandon handle =>
    (.existed (b.handles.contains handle), { b with handles := b.handles.erase handle })
  | .mkdir path => b.order (.mkdir path)
  | .rmdir path => b.order (.rmdir path)
  | .unlink path => b.order (.unlink path)
  | .rename old new => b.order (.rename old new)
  | .insertDirectory path =>
    b.onMemory fun d ↦ (.nothing, { d with tree := d.tree.insertDirectory path })
  | .insertFile path data =>
    b.onMemory fun d ↦ (.nothing, { d with tree := d.tree.insertFile path data })
  | .contents path => b.onMemory fun d ↦
    (.contents (match d.tree.get? path with
      | some (.file content) => some content.toBytes
      | _ => none), d)
  | .kind path => b.onMemory fun d ↦ (.kind ((d.tree.get? path).map Memory.Node.kind), d)
  | .armFault op e => b.onMemory fun d ↦ (.nothing, d.armFault op e)
  | .calls op => b.onMemory fun d ↦ (.count (d.callCount op), d)
  | .putEntries entries =>
    match b.device.device with
    | .host d =>
      let d := { d with store := entries.foldl Host.FileStore.put d.store }
      (.nothing, { b with device := { b.device with device := .host d } })
    | .memory _ => (.notHost, b)
  | .scriptListing dir rows =>
    let listings := match rows with
      | some rows => b.device.listings.insert dir rows
      | none => b.device.listings.erase dir
    (.nothing, { b with device := { b.device with listings := listings } })
  | .scriptSize n => (.nothing, { b with device := { b.device with sessionSize := n } })
  | .scriptAccept n => (.nothing, { b with device := { b.device with acceptLimit := n } })
  | .malformed e => (.malformed e, b)

def prepare (b : Bench) : List DeviceStep → Except DeviceOutcome Bench
  | [] => .ok b
  | s :: rest =>
    let (out, b) := b.step s
    if out.isFailure then .error out else b.prepare rest

structure Observation where
  out : DeviceOutcome
  sessions : Option Nat

def observe (b : Bench) (s : DeviceStep) : Observation × Bench :=
  let (out, b) := b.step s
  (⟨out, b.device.device.openSessions?⟩, b)

def run (b : Bench) : List DeviceStep → Option (List Observation × Bench)
  | [] => some ([], b)
  | s :: rest =>
    let (o, b) := b.observe s
    if o.out.isTrap then none else (b.run rest).map fun (os, b) ↦ (o :: os, b)

end Bench

end RemoteMount.Scenario
