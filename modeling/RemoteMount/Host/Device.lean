import RemoteMount.Host.FileStore
import RemoteMount.Request
import RemoteMount.Text.Utf8

namespace RemoteMount.Host

/-- An open file. The node stays the same when its name is moved or removed. -/
structure Session where
  node : NodeId
  mode : OpenMode
  position : UInt64
deriving DecidableEq

/-- A directory of the host served as the storage of a device. Names that are no text, and what
is neither file nor directory, are not listed; links are followed where a path leads through
them. -/
structure Device where
  store : FileStore
  sessions : KeyMap SessionId Session
  nextSession : SessionId

inductive Entry
  | directory (path : Bytes)
  | file (path : Bytes) (data : Bytes)
  | symlink (path : Bytes) (target : Bytes)
deriving DecidableEq

namespace Session

def offsetLimit : Nat := 0x8000000000000000

/-- A reader asks the host for no more than this at a time. -/
def transferLimit : Nat := 8192

def read (s : Session) (content : Content) (max : Nat) : Except RemoteError (Bytes × Session) :=
  if max = 0 then .ok ([], s)
  else if s.mode ≠ .read then .error (.ofHost Errno.badf)
  else if offsetLimit ≤ s.position.toNat + min max transferLimit then .error (.ofHost Errno.inval)
  else
    let chunk := content.slice s.position.toNat max
    .ok (chunk, { s with position := s.position + chunk.length.toUInt64 })

/-- Writing nothing is no call to the host, so it succeeds in every mode and fills no gap. -/
def write (s : Session) (content : Content) (piece : Bytes) :
    Except RemoteError (Session × Content) :=
  if piece = [] then .ok (s, content)
  else if s.mode = .read then .error (.ofHost Errno.badf)
  else
    let start := if s.mode = .append then content.size else s.position.toNat
    if offsetLimit ≤ start + piece.length then .error (.ofHost Errno.inval)
    else .ok ({ s with position := (start + piece.length).toUInt64 }, content.overwrite start piece)

def seek (s : Session) (offset : UInt64) : Except RemoteError Session :=
  if offsetLimit ≤ offset.toNat then .error (.ofHost Errno.inval)
  else .ok { s with position := offset }

def truncate (s : Session) (content : Content) (length : UInt64) : Except RemoteError Content :=
  if !s.mode.isWrite then .error (.reported Errno.badf "session is read-only")
  else if offsetLimit ≤ length.toNat then .error (.ofText "number too large to fit in target type")
  else .ok (content.resize length.toNat)

end Session

namespace Device

def servedName : RawName := Text.encode "storage"

def pathLimit : Nat := 4095

def hostNames (path : RemotePath) : List RawName := servedName :: path.components.map Text.encode

def hostCall {α : Type} (path : RemotePath) (f : List RawName → Except Errno α) :
    Except RemoteError α :=
  if pathLimit < path.text.utf8ByteSize then .error (.ofHost Errno.nametoolong)
  else (f (hostNames path)).mapError .ofHost

def serve (store : FileStore) : Except RemoteError Device :=
  match store.stat (hostNames .root) with
  | .error e => .error (.ofHost e)
  | .ok id =>
    if store.isDirectory id then .ok ⟨store, .empty, 0⟩
    else .error (.reported Errno.notdir "device root is not a directory")

/-- The row for one name of a directory, if it is listed. A link is not followed. -/
def row? (store : FileStore) (name : RawName) (id : NodeId) : Option ListingEntry := do
  let name ← Text.decode? name
  match ← store.nodes.get? id with
  | .directory _ => return .directory name
  | .file content => return .file name content.size.toUInt64
  | .symlink _ => none

def listing (store : FileStore) (path : RemotePath) : Except RemoteError (List ListingEntry) :=
  hostCall path fun names ↦ do
    let id ← store.stat names
    if store.isDirectory id then
      return ListingEntry.sorted ((store.entries id).toList.filterMap fun e ↦ row? store e.1 e.2)
    else throw Errno.notdir

/-- A directory is refused before the host is asked to open it. -/
def openFile (store : FileStore) (path : RemotePath) (mode : OpenMode) :
    Except RemoteError (NodeId × FileStore) :=
  match hostCall path store.stat with
  | .ok id =>
    if store.isDirectory id then .error (.reported Errno.isdir "is a directory")
    else hostCall path fun names ↦ store.openFile names (mode = .createWrite)
  | .error _ => hostCall path fun names ↦ store.openFile names (mode = .createWrite)

/-- The directories of both paths are looked up before the names in them. -/
def rename (store : FileStore) (old new : RemotePath) : Except RemoteError FileStore := do
  let source ← hostCall old store.parentOf
  let dest ← hostCall new store.parentOf
  (store.rename source dest).mapError .ofHost

def noSession : RemoteError := .reported Errno.badf "session already closed"

def session (d : Device) (id : SessionId) : Except RemoteError Session :=
  match d.sessions.get? id with
  | some s => .ok s
  | none => .error noSession

def setStore (d : Device) : Except RemoteError FileStore → Except RemoteError Unit × Device
  | .ok store => (.ok (), { d with store := store })
  | .error e => (.error e, d)

def setSession (d : Device) (id : SessionId) (s : Session) : Device :=
  { d with sessions := d.sessions.insert id s }

def contentOf (d : Device) (s : Session) : Content := d.store.content s.node

def answer (r : Request) (d : Device) : Except RemoteError r.Reply × Device :=
  match r with
  | .listdir dir => (listing d.store dir, d)
  | .openFile path mode =>
    match openFile d.store path mode with
    | .error e => (.error e, d)
    | .ok (node, store) =>
      (.ok d.nextSession,
        ⟨store, d.sessions.insert d.nextSession ⟨node, mode, 0⟩, d.nextSession + 1⟩)
  | .seek id offset =>
    match d.session id >>= (·.seek offset) with
    | .error e => (.error e, d)
    | .ok s => (.ok (), d.setSession id s)
  | .read id max =>
    match d.session id >>= fun s ↦ s.read (d.contentOf s) max with
    | .error e => (.error e, d)
    | .ok (chunk, s) => (.ok chunk, d.setSession id s)
  | .write id data =>
    match d.session id >>= fun s ↦ s.write (d.contentOf s) data with
    | .error e => (.error e, d)
    | .ok (s, content) =>
      (.ok data.length, { d.setSession id s with store := d.store.setContent s.node content })
  | .truncate id length =>
    d.setStore (d.session id >>= fun s ↦
      d.store.setContent s.node <$> s.truncate (d.contentOf s) length)
  | .close id => (.ok (), { d with sessions := d.sessions.erase id })
  | .mkdir path => d.setStore (hostCall path d.store.mkdir)
  | .rmdir path => d.setStore (hostCall path d.store.rmdir)
  | .unlink path => d.setStore (hostCall path d.store.unlink)
  | .rename old new => d.setStore (rename d.store old new)

def size (d : Device) (id : SessionId) : UInt64 :=
  match d.session id with
  | .ok s => (d.contentOf s).size.toUInt64
  | .error _ => 0

instance : RemoteDevice Device := ⟨answer, size⟩

end Device

namespace FileStore

def after (fs : FileStore) (result : Except Errno FileStore) : FileStore := result.toOption.getD fs

def makeDirectories (fs : FileStore) (above : List RawName) : List RawName → FileStore
  | [] => fs
  | name :: rest =>
    let names := above ++ [name]
    makeDirectories (fs.after (fs.mkdir names)) names rest

def putFile (fs : FileStore) (names : List RawName) (data : Bytes) : FileStore :=
  let fs := fs.makeDirectories [] names.dropLast
  match fs.openFile names true with
  | .ok (id, fs) => fs.setContent id (.ofBytes data)
  | .error _ => fs

def putLink (fs : FileStore) (names : List RawName) (target : Bytes) : FileStore :=
  let fs := fs.makeDirectories [] names.dropLast
  match fs.parentOf names with
  | .error _ => fs
  | .ok (chain, name) =>
    match fs.child chain name with
    | .ok none => (fs.add (here chain) name (.symlink target)).2
    | _ => fs

def put (fs : FileStore) : Entry → FileStore
  | .directory path => fs.makeDirectories [] (Device.servedName :: RawName.between path)
  | .file path data => fs.putFile (Device.servedName :: RawName.between path) data
  | .symlink path target => fs.putLink (Device.servedName :: RawName.between path) target

def walkFrom (fs : FileStore) : Nat → String → NodeId → List (String × Found)
  | 0, _, _ => []
  | levels + 1, above, dir =>
    let rows := (fs.entries dir).toList.mergeSort fun a b ↦ decide (a.1 ≤ b.1)
    rows.flatMap fun e ↦
      let path := above ++ "/" ++ Text.decodeLossy e.1
      match fs.nodes.get? e.2 with
      | some (.directory _) => (path, .directory) :: fs.walkFrom levels path e.2
      | some (.file content) => [(path, .file content.toBytes)]
      | some (.symlink _) => [(path, .link)]
      | none => []

def walk (fs : FileStore) : List (String × Found) :=
  match fs.stat (Device.hostNames .root) with
  | .ok id => fs.walkFrom (fs.nodes.size + 1) "" id
  | .error _ => []

end FileStore

end RemoteMount.Host
