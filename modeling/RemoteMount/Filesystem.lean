import RemoteMount.CallError
import RemoteMount.Program

namespace RemoteMount.Filesystem

open Program

structure DirectoryRow where
  name : String
  kind : EntryKind
deriving DecidableEq, Repr

/-- The records of the rows whose names can stand in a path, in the order of the device. -/
def recordsOf (policy : Policy) (caller : Caller) (dir : RemotePath) (rows : List ListingEntry) :
    List (String × Attributes) :=
  rows.filterMap fun row ↦
    match dir.join row.name with
    | .ok path => some (row.name, .ofEntry path row policy caller)
    | .error _ => none

/-- Lists `dir` and stores what it finds, unless the listing became stale in the meantime. The
caller gets the records in either case. -/
def refresh (policy : Policy) (caller : Caller) (dir : RemotePath) :
    Program (Except RemoteError (List (String × Attributes))) := do
  let generation ← access .generation
  match ← request (.listdir dir) with
  | .error e => return .error e
  | .ok rows =>
    let records := recordsOf policy caller dir rows
    let _ ← access (.populateIfCurrent dir generation records)
    return .ok records

def invalidateAll : List RemotePath → Program Unit
  | [] => return
  | dir :: rest => do
    let _ ← access (.invalidate dir)
    invalidateAll rest

/-- Drops the listings of the touched directories before and after a mutation. -/
def mutate (touched : List RemotePath) (mutation : Program (Except RemoteError Unit)) :
    Program (Except RemoteError Unit) := do
  invalidateAll touched
  let result ← mutation
  invalidateAll touched
  return result

/-- Opens a session, does something with it and closes it. Of two failures the earlier is
reported. -/
def withSession {α : Type} (path : RemotePath) (mode : OpenMode)
    (body : SessionId → Program (Except RemoteError α)) : Program (Except RemoteError α) := do
  match ← request (.openFile path mode) with
  | .error e => return .error e
  | .ok s =>
    let value ← body s
    let closed ← request (.close s)
    match value, closed with
    | .error e, _ => return .error e
    | .ok _, .error e => return .error e
    | .ok a, .ok _ => return .ok a

/-- Attributes of a path. A name that is listed twice has those of its first row. -/
def getattr (policy : Policy) (caller : Caller) (path : RemotePath) :
    Program (Except CallError Attributes) := do
  match path.name? with
  | none => return .ok (.ofRoot caller)
  | some name =>
    match ← access (.lookup path) with
    | some a => return .ok a
    | none =>
      match ← refresh policy caller path.parent with
      | .error e => return .error (.remote e)
      | .ok records =>
        match records.find? (·.1 = name) with
        | some (_, a) => return .ok a
        | none => return .error (.notFound path.text)

/-- The rows of a directory after those for itself and its parent. -/
def readdir (policy : Policy) (caller : Caller) (path : RemotePath) :
    Program (Except CallError (List DirectoryRow)) := do
  match ← refresh policy caller path with
  | .error e => return .error (.remote e)
  | .ok records =>
    return .ok (⟨".", .directory⟩ :: ⟨"..", .directory⟩ :: records.map fun r ↦ ⟨r.1, r.2.kind⟩)

def remotely {α : Type} (p : Program (Except RemoteError α)) : Program (Except CallError α) := do
  return (← p).mapError .remote

def mkdir (path : RemotePath) : Program (Except CallError Unit) :=
  remotely (mutate [path.parent] (request (.mkdir path)))

def rmdir (path : RemotePath) : Program (Except CallError Unit) := do
  access (.invalidateTree path)
  remotely (mutate [path.parent] (request (.rmdir path)))

def unlink (path : RemotePath) : Program (Except CallError Unit) :=
  remotely (mutate [path.parent] (request (.unlink path)))

def create (path : RemotePath) : Program (Except CallError Unit) :=
  remotely (mutate [path.parent] (withSession path .createWrite fun _ ↦ return .ok ()))

/-- Makes an empty file unless a fresh listing of its directory shows the name. The device
cannot open exclusively: a file made between the listing and the opening is cut. -/
def createNew (policy : Policy) (caller : Caller) (path : RemotePath) :
    Program (Except CallError Unit) := do
  match ← refresh policy caller path.parent with
  | .error e => return .error (.remote e)
  | .ok records =>
    if records.any (·.1 = path.name?.getD "") then return .error (.alreadyExists path.text)
    else create path

def read (path : RemotePath) (max : Nat) (offset : UInt64) : Program (Except CallError Bytes) :=
  remotely (withSession path .read fun s ↦ do
    let length ← askSize s
    let _ ← access (.updateSize path length)
    match ← request (.seek s offset) with
    | .error e => return .error e
    | .ok _ => request (.read s max))

def saturatingEnd (offset : UInt64) (length : Nat) : UInt64 :=
  if offset.toNat + length < UInt64.size then offset + length.toUInt64 else 0xFFFFFFFFFFFFFFFF

def write (path : RemotePath) (data : Bytes) (offset : UInt64) : Program (Except CallError Nat) :=
  remotely (withSession path .write fun s ↦ do
    match ← request (.seek s offset) with
    | .error e => return .error e
    | .ok _ =>
      match ← request (.write s data) with
      | .error e => return .error e
      | .ok written =>
        let length ← askSize s
        let _ ← access (.updateSize path (max length (saturatingEnd offset written)))
        return .ok written)

def rename (old new : RemotePath) : Program (Except CallError Unit) := do
  access (.invalidateTree old)
  access (.invalidateTree new)
  let result ← remotely (mutate [old.parent, new.parent] (request (.rename old new)))
  access (.invalidateTree old)
  access (.invalidateTree new)
  return result

def truncate (path : RemotePath) (length : UInt64) : Program (Except CallError Unit) := do
  match ← withSession path .write fun s ↦ request (.truncate s length) with
  | .error e => return .error (.remote e)
  | .ok _ =>
    let _ ← access (.updateSize path length)
    return .ok ()

/-- The end of a mount. Nothing is held back, so only the cache is dropped. -/
def destroy : Program Unit := access .clear

end RemoteMount.Filesystem
