import RemoteMount.Filesystem
import RemoteMount.InodeTable
import RemoteMount.Mount.Config
import RemoteMount.Mount.Reply

namespace RemoteMount.Mount

inductive FileName
  | text (name : String)
  | notText (bytes : Bytes)
deriving DecidableEq

def FileName.ofBytes (bytes : Bytes) : FileName :=
  match Text.decode? bytes with
  | some s => text s
  | none => notText bytes

/-- Changes of attributes. Times are not among them: they can be asked for, and nothing
happens. -/
structure Changes where
  mode : Option UInt32
  uid : Option UInt32
  gid : Option UInt32
  size : Option UInt64
deriving DecidableEq, Repr

inductive Callback
  | lookup (parent : Nat) (name : FileName)
  | forget (ino n : Nat)
  | forgetAll (counts : List (Nat × Nat))
  | getattr (ino : Nat)
  | setattr (ino : Nat) (changes : Changes)
  | mkdir (parent : Nat) (name : FileName)
  | create (parent : Nat) (name : FileName) (flags : UInt32)
  | unlink (parent : Nat) (name : FileName)
  | rmdir (parent : Nat) (name : FileName)
  | rename (parent : Nat) (name : FileName) (newParent : Nat) (newName : FileName) (flags : UInt32)
  | openFile (ino : Nat) (flags : UInt32)
  | opendir (ino : Nat)
  | read (ino : Nat) (max : Nat) (offset : Int)
  | write (ino : Nat) (data : Bytes) (offset : Int)
  | readdir (ino : Nat) (offset : Int) (room : Nat)
  | release (ino : Nat)
  | releasedir (ino : Nat)
  | flush (ino : Nat)
  | fsync (ino : Nat)
  | statfs (ino : Nat)
  | getxattr (ino : Nat) (name : FileName)
  | setxattr (ino : Nat) (name : FileName)
  | listxattr (ino : Nat)
  | removexattr (ino : Nat) (name : FileName)
  | destroy
deriving DecidableEq

end Mount

/-- A mounted filesystem over a device with states `σ`. -/
structure Mount (σ : Type) where
  base : CachedDevice σ
  inodes : InodeTable
  config : Mount.Config

namespace Mount

variable {σ α : Type}

def start (device : σ) (config : Config) : Mount σ := ⟨⟨device, .empty⟩, .initial, config⟩

def pathOf (m : Mount σ) (ino : Nat) : Except CallError RemotePath :=
  match m.inodes.path? ino with
  | some path => .ok path
  | none => .error (.invalidInode ino)

/-- The path of a child. A name that is no text is refused before the parent is looked up. -/
def childOf (m : Mount σ) (parent : Nat) (name : FileName) : Except CallError RemotePath :=
  match name with
  | .notText bytes => .error (.invalidArgument ("non-UTF-8 name " ++ Text.quoteBytes bytes))
  | .text name => do
    let dir ← m.pathOf parent
    (dir.join name).mapError .ofInvalidPath

def offsetOf (offset : Int) : Except CallError UInt64 :=
  match offset with
  | .ofNat n => .ok n.toUInt64
  | .negSucc n => .error (.invalidArgument s!"negative offset -{n + 1}")

def call [RemoteDevice σ] (m : Mount σ) (p : Program (Except CallError α)) :
    Except CallError α × Mount σ :=
  let (result, base) := p.run m.base
  (result, { m with base := base })

variable [RemoteDevice σ]

def entryFor (m : Mount σ) (caller : Caller) (path : RemotePath) :
    Except CallError FileAttributes × Mount σ :=
  match m.call (Filesystem.getattr m.config.policy caller path) with
  | (.error e, m) => (.error e, m)
  | (.ok a, m) =>
    let (ino, inodes) := m.inodes.lookup path
    (.ok (.ofAttributes ino a), { m with inodes := inodes })

def lookup (m : Mount σ) (caller : Caller) (parent : Nat) (name : FileName) :
    Except CallError FileAttributes × Mount σ :=
  match m.childOf parent name with
  | .error e => (.error e, m)
  | .ok path => m.entryFor caller path

def getattr (m : Mount σ) (caller : Caller) (ino : Nat) :
    Except CallError FileAttributes × Mount σ :=
  match m.pathOf ino with
  | .error e => (.error e, m)
  | .ok path =>
    match m.call (Filesystem.getattr m.config.policy caller path) with
    | (.error e, m) => (.error e, m)
    | (.ok a, m) => (.ok (.ofAttributes ino a), m)

/-- Only the size can be changed. Owner and mode are fixed by the policy, and asking for a
change of them fails the whole callback. -/
def setattr (m : Mount σ) (caller : Caller) (ino : Nat) (changes : Changes) :
    Except CallError FileAttributes × Mount σ :=
  match m.pathOf ino with
  | .error e => (.error e, m)
  | .ok path =>
    if changes.mode.isSome || changes.uid.isSome || changes.gid.isSome then
      (.error (.notPermitted s!"{path}: ownership and mode are fixed by the mount policy"), m)
    else match changes.size with
      | none => m.getattr caller ino
      | some size =>
        match m.call (Filesystem.truncate path size) with
        | (.error e, m) => (.error e, m)
        | (.ok _, m) => m.getattr caller ino

def mkdir (m : Mount σ) (caller : Caller) (parent : Nat) (name : FileName) :
    Except CallError FileAttributes × Mount σ :=
  match m.childOf parent name with
  | .error e => (.error e, m)
  | .ok path =>
    match m.call (Filesystem.mkdir path) with
    | (.error e, m) => (.error e, m)
    | (.ok _, m) => m.entryFor caller path

def create (m : Mount σ) (caller : Caller) (parent : Nat) (name : FileName) (flags : UInt32) :
    Except CallError FileAttributes × Mount σ :=
  match OpenMode.ofFlags flags with
  | .error e => (.error (.ofUnsupportedFlags e), m)
  | .ok _ =>
    match m.childOf parent name with
    | .error e => (.error e, m)
    | .ok path =>
      let creation := if OpenFlags.has flags OpenFlags.excl
        then Filesystem.createNew m.config.policy caller path else Filesystem.create path
      match m.call creation with
      | (.error e, m) => (.error e, m)
      | (.ok _, m) => m.entryFor caller path

def remove (m : Mount σ) (parent : Nat) (name : FileName)
    (removal : RemotePath → Program (Except CallError Unit)) : Except CallError Unit × Mount σ :=
  match m.childOf parent name with
  | .error e => (.error e, m)
  | .ok path =>
    match m.call (removal path) with
    | (.error e, m) => (.error e, m)
    | (.ok _, m) => (.ok (), { m with inodes := m.inodes.invalidate path })

/-- Flags would ask for an exchange, or for refusing to replace: the device has neither. -/
def rename (m : Mount σ) (parent : Nat) (name : FileName) (newParent : Nat) (newName : FileName)
    (flags : UInt32) : Except CallError Unit × Mount σ :=
  if flags ≠ 0 then (.error (.ofRenameFlags flags), m)
  else match m.childOf parent name with
    | .error e => (.error e, m)
    | .ok old =>
      match m.childOf newParent newName with
      | .error e => (.error e, m)
      | .ok new =>
        match m.call (Filesystem.rename old new) with
        | (.error e, m) => (.error e, m)
        | (.ok _, m) => (.ok (), { m with inodes := m.inodes.rename old new })

def openFile (m : Mount σ) (ino : Nat) (flags : UInt32) : Except CallError Unit := do
  let _ ← m.pathOf ino
  let _ ← (OpenMode.ofFlags flags).mapError .ofUnsupportedFlags

def positionOf (m : Mount σ) (ino : Nat) (offset : Int) :
    Except CallError (RemotePath × UInt64) := do
  let path ← m.pathOf ino
  let offset ← offsetOf offset
  return (path, offset)

def read (m : Mount σ) (ino max : Nat) (offset : Int) : Except CallError Bytes × Mount σ :=
  match m.positionOf ino offset with
  | .error e => (.error e, m)
  | .ok (path, offset) => m.call (Filesystem.read path max offset)

def write (m : Mount σ) (ino : Nat) (data : Bytes) (offset : Int) :
    Except CallError Nat × Mount σ :=
  match m.positionOf ino offset with
  | .error e => (.error e, m)
  | .ok (path, offset) =>
    match m.call (Filesystem.write path data offset) with
    | (.error e, m) => (.error e, m)
    | (.ok n, m) =>
      if n < UInt32.size then (.ok n, m) else (.error (.invalidArgument s!"write of {n} bytes"), m)

def rowInode (inodes : InodeTable) (path : RemotePath) (ino parentIno : Nat) (name : String) :
    Except CallError (Nat × InodeTable) :=
  if name = "." then .ok (ino, inodes)
  else if name = ".." then .ok (parentIno, inodes)
  else match path.join name with
    | .ok p => .ok (inodes.peek p)
    | .error e => .error (.ofInvalidPath e)

def numberRows (path : RemotePath) (ino parentIno : Nat) :
    Nat → InodeTable → List Filesystem.DirectoryRow → Except CallError (List InodeRow) × InodeTable
  | _, inodes, [] => (.ok [], inodes)
  | index, inodes, row :: rest =>
    match rowInode inodes path ino parentIno row.name with
    | .error e => (.error e, inodes)
    | .ok (rowIno, inodes) =>
      match numberRows path ino parentIno (index + 1) inodes rest with
      | (.error e, inodes) => (.error e, inodes)
      | (.ok rows, inodes) => (.ok (⟨rowIno, index + 1, row.kind, row.name⟩ :: rows), inodes)

/-- All rows of a directory. A parent without a number counts as the root. -/
def allRows (m : Mount σ) (caller : Caller) (ino : Nat) :
    Except CallError (List InodeRow) × Mount σ :=
  match m.pathOf ino with
  | .error e => (.error e, m)
  | .ok path =>
    let parentIno := (m.inodes.inode? path.parent).getD InodeTable.rootInode
    match m.call (Filesystem.readdir m.config.policy caller path) with
    | (.error e, m) => (.error e, m)
    | (.ok rows, m) =>
      let (result, inodes) := numberRows path ino parentIno 0 m.inodes rows
      (result, { m with inodes := inodes })

def readdirInto (buffer : RowBuffer) (m : Mount σ) (caller : Caller) (ino : Nat) (offset : Int) :
    Except CallError (List InodeRow) × Mount σ :=
  match m.allRows caller ino with
  | (.error e, m) => (.error e, m)
  | (.ok rows, m) => (.ok (buffer.taken (rows.drop offset.toNat)), m)

def readdir (m : Mount σ) (caller : Caller) (ino : Nat) (offset : Int) (room : Nat) :
    Except CallError (List InodeRow) × Mount σ := readdirInto (.ofSize room) m caller ino offset

def forget (m : Mount σ) (ino n : Nat) : Mount σ := { m with inodes := (m.inodes.forget ino n).2 }

def reply {α : Type} (result : Except CallError α × Mount σ) (f : α → Reply) :
    Except CallError Reply × Mount σ :=
  (result.1.map f, result.2)

def answer (m : Mount σ) (caller : Caller) : Callback → Except CallError Reply × Mount σ
  | .lookup parent name => reply (m.lookup caller parent name) .entry
  | .forget ino n => (.ok .nothing, m.forget ino n)
  | .forgetAll counts => (.ok .nothing, counts.foldl (fun m c ↦ m.forget c.1 c.2) m)
  | .getattr ino => reply (m.getattr caller ino) .attributes
  | .setattr ino changes => reply (m.setattr caller ino changes) .attributes
  | .mkdir parent name => reply (m.mkdir caller parent name) .entry
  | .create parent name flags => reply (m.create caller parent name flags) .created
  | .unlink parent name => reply (m.remove parent name Filesystem.unlink) fun _ ↦ .nothing
  | .rmdir parent name => reply (m.remove parent name Filesystem.rmdir) fun _ ↦ .nothing
  | .rename parent name newParent newName flags =>
    reply (m.rename parent name newParent newName flags) fun _ ↦ .nothing
  | .openFile ino flags => ((m.openFile ino flags).map fun _ ↦ .opened, m)
  | .opendir ino => ((m.pathOf ino).map fun _ ↦ .opened, m)
  | .read ino max offset => reply (m.read ino max offset) .data
  | .write ino data offset => reply (m.write ino data offset) .count
  | .readdir ino offset room => reply (m.readdir caller ino offset room) .rows
  | .release _ | .releasedir _ | .flush _ | .fsync _ => (.ok .nothing, m)
  | .statfs _ => (.ok (.geometry .unknown), m)
  | .getxattr .. | .setxattr .. | .listxattr _ | .removexattr .. => (.error .notSupported, m)
  | .destroy =>
    let (_, base) := Filesystem.destroy.run m.base
    (.ok .nothing, { m with base := base })

end Mount

end RemoteMount
