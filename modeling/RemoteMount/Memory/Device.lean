import RemoteMount.Memory.Tree

namespace RemoteMount.Memory

/-- An open file. The path is looked up again by each request of the session. -/
structure Session where
  path : RemotePath
  mode : OpenMode
  position : UInt64
deriving DecidableEq

/-- A device that keeps its files in memory. It counts the requests it gets, fails a request for
which a fault is armed, and holds no more bytes than its capacity. -/
structure Device where
  tree : Tree
  capacity : UInt64
  /-- Faults by the kind of request that they fail, once. -/
  faults : KeyMap RemoteOp RemoteError
  calls : KeyMap RemoteOp Nat
  /-- Sessions opened and never closed, abandoned ones included. -/
  sessions : KeyMap SessionId Session
  nextSession : SessionId

namespace Session

def vanished : RemoteError := .reported Errno.noent "file vanished during session"

def content (s : Session) (t : Tree) : Except RemoteError Content :=
  match t.get? s.path with
  | some (.file content) => .ok content
  | _ => .error vanished

def requireWrite (s : Session) : Except RemoteError Unit :=
  if s.mode.isWrite then .ok () else .error (.reported Errno.badf "session is read-only")

def size (s : Session) (t : Tree) : UInt64 :=
  match s.content t with
  | .ok content => content.size.toUInt64
  | .error _ => 0

def read (s : Session) (t : Tree) (max : Nat) : Except RemoteError (Bytes × Session) := do
  let content ← s.content t
  let chunk := content.slice s.position.toNat max
  -- A chunk is not empty only within a file, and no file is so long that this leaves the word.
  return (chunk, { s with position := s.position + chunk.length.toUInt64 })

def writeStart (s : Session) (length : Nat) : UInt64 :=
  if s.mode = .append then length.toUInt64 else s.position

def write (s : Session) (t : Tree) (capacity : UInt64) (data : Bytes) :
    Except RemoteError (Nat × Session × Tree) := do
  s.requireWrite
  let old ← s.content t
  let start := s.writeStart old.size
  if UInt64.size ≤ start.toNat + data.length then .error (.reported Errno.fbig "offset too large")
  else
    let stop := start + data.length.toUInt64
    t.requireRoom capacity s.path stop
    return (data.length, { s with position := stop },
      t.insert s.path (.file (old.overwrite start.toNat data)))

def truncate (s : Session) (t : Tree) (capacity length : UInt64) : Except RemoteError Tree := do
  s.requireWrite
  t.requireRoom capacity s.path length
  let old ← s.content t
  return t.insert s.path (.file (old.resize length.toNat))

end Session

namespace Device

def defaultCapacity : UInt64 := 512 * 1024 * 1024

def empty (capacity : UInt64) : Device where
  tree := KeyMap.empty.insert .root .directory
  capacity := capacity
  faults := .empty
  calls := .empty
  sessions := .empty
  nextSession := 0

def logDirectory : RemotePath := RemotePath.storageCard.child ⟨"log", by decide⟩

/-- A device laid out like the storage of a PX4 flight controller. -/
def px4 : Device :=
  let d := empty defaultCapacity
  { d with tree := d.tree.insertDirectory logDirectory }

def openSessions (d : Device) : Nat := d.sessions.size

def callCount (d : Device) (op : RemoteOp) : Nat := (d.calls.get? op).getD 0

def armFault (d : Device) (op : RemoteOp) (e : RemoteError) : Device :=
  { d with faults := d.faults.insert op e }

/-- Counts a request, and takes the fault that is armed for it. -/
def enter (d : Device) (op : RemoteOp) : Option RemoteError × Device :=
  (d.faults.get? op,
    { d with calls := d.calls.insert op (d.callCount op + 1), faults := d.faults.erase op })

/-- A closing request ends its session even if it fails. -/
def release (d : Device) : Request → Device
  | .close s => { d with sessions := d.sessions.erase s }
  | _ => d

def setTree (d : Device) : Except RemoteError Tree → Except RemoteError Unit × Device
  | .ok t => (.ok (), { d with tree := t })
  | .error e => (.error e, d)

def setSession (d : Device) (id : SessionId) (s : Session) : Device :=
  { d with sessions := d.sessions.insert id s }

def noSession : RemoteError := .reported Errno.badf "session already closed"

def session (d : Device) (id : SessionId) : Except RemoteError Session :=
  match d.sessions.get? id with
  | some s => .ok s
  | none => .error noSession

def perform (d : Device) : (r : Request) → Except RemoteError r.Reply × Device
  | .listdir dir => (d.tree.listing dir, d)
  | .openFile path mode =>
    match d.tree.openFile path mode with
    | .error e => (.error e, d)
    | .ok (t, position) =>
      (.ok d.nextSession,
        { d with
          tree := t
          sessions := d.sessions.insert d.nextSession ⟨path, mode, position⟩
          nextSession := d.nextSession + 1 })
  | .seek id offset =>
    match d.session id with
    | .error e => (.error e, d)
    | .ok s => (.ok (), d.setSession id { s with position := offset })
  | .read id max =>
    match d.session id >>= (·.read d.tree max) with
    | .error e => (.error e, d)
    | .ok (chunk, s) => (.ok chunk, d.setSession id s)
  | .write id data =>
    match d.session id >>= (·.write d.tree d.capacity data) with
    | .error e => (.error e, d)
    | .ok (count, s, t) => (.ok count, { d.setSession id s with tree := t })
  | .truncate id length => d.setTree (d.session id >>= (·.truncate d.tree d.capacity length))
  | .close _ => (.ok (), d)
  | .mkdir path => d.setTree (d.tree.mkdir path)
  | .rmdir path => d.setTree (d.tree.rmdir path)
  | .unlink path => d.setTree (d.tree.unlink path)
  | .rename old new => d.setTree (d.tree.rename old new)

def answer (r : Request) (d : Device) : Except RemoteError r.Reply × Device :=
  match (d.release r).enter r.op with
  | (some e, d) => (.error e, d)
  | (none, d) => d.perform r

def size (d : Device) (id : SessionId) : UInt64 :=
  match d.session id with
  | .ok s => s.size d.tree
  | .error _ => 0

instance : RemoteDevice Device := ⟨answer, size⟩

end Device

end RemoteMount.Memory
