import RemoteMount.Content
import RemoteMount.KeyMap
import RemoteMount.Request

namespace RemoteMount.Memory

inductive Node
  | directory
  | file (content : Content)
deriving DecidableEq

def Node.kind : Node → EntryKind
  | directory => .directory
  | file _ => .file

def Node.entry (name : String) : Node → ListingEntry
  | directory => .directory name
  | file content => .file name content.size.toUInt64

/-- The map may hold anything: that every node lies in a directory is `Tree.WellFormed`, which
the requests keep and the seeding functions may break. -/
abbrev Tree := KeyMap RemotePath Node

/-- Adds a length to a sum of lengths that is kept in a word. -/
def addLength (sum : UInt64) (n : Nat) : Except RemoteError UInt64 :=
  if sum.toNat + n < UInt64.size then .ok (sum + n.toUInt64) else .error .overflow

namespace Tree

/-- The root is a directory, and so is the parent of every node. -/
def WellFormed (t : Tree) : Prop :=
  t.get? .root = some .directory ∧ ∀ p ∈ t.keys, t.get? p.parent = some .directory

def requireDirectory (t : Tree) (p : RemotePath) : Except RemoteError Unit :=
  match t.get? p with
  | some .directory => .ok ()
  | some (.file _) => .error (.reported Errno.notdir "not a directory")
  | none => .error (.reported Errno.noent "no such directory")

def childrenOf (t : Tree) (dir : RemotePath) : List (String × Node) :=
  t.toList.filterMap fun e ↦
    match e.1.name? with
    | some name => if e.1.parent = dir then some (name, e.2) else none
    | none => none

def listing (t : Tree) (dir : RemotePath) : Except RemoteError (List ListingEntry) := do
  t.requireDirectory dir
  return ListingEntry.sorted ((t.childrenOf dir).map fun e ↦ e.2.entry e.1)

def hasDescendants (t : Tree) (dir : RemotePath) : Bool :=
  t.keys.any fun p ↦ !p.isRoot && p != dir && p.within dir

def openFile (t : Tree) (path : RemotePath) (mode : OpenMode) :
    Except RemoteError (Tree × UInt64) :=
  match t.get? path with
  | some .directory => .error (.reported Errno.isdir "is a directory")
  | some (.file content) =>
    match mode with
    | .createWrite => .ok (t.insert path (.file .empty), 0)
    | .append => .ok (t, content.size.toUInt64)
    | .read | .write => .ok (t, 0)
  | none =>
    match mode with
    | .createWrite => do
      t.requireDirectory path.parent
      return (t.insert path (.file .empty), 0)
    | _ => .error (.reported Errno.noent "no such file")

def mkdir (t : Tree) (path : RemotePath) : Except RemoteError Tree :=
  if t.contains path then .error (.reported Errno.exist "already exists")
  else do
    t.requireDirectory path.parent
    return t.insert path .directory

def rmdir (t : Tree) (path : RemotePath) : Except RemoteError Tree :=
  if path.isRoot then .error (.reported Errno.busy "cannot remove root")
  else do
    t.requireDirectory path
    if t.hasDescendants path then .error (.reported Errno.notempty "directory not empty")
    else return t.erase path

def unlink (t : Tree) (path : RemotePath) : Except RemoteError Tree :=
  match t.get? path with
  | some (.file _) => .ok (t.erase path)
  | some .directory => .error (.reported Errno.isdir "is a directory")
  | none => .error (.reported Errno.noent "no such file")

/-- Whether a node may take the place of what is at `path`: a file that of a file, a directory
that of an empty directory. -/
def requireReplaceable (t : Tree) (path : RemotePath) (source : Node) : Except RemoteError Unit :=
  match source, t.get? path with
  | .directory, some (.file _) => .error (.reported Errno.notdir "not a directory")
  | .file _, some .directory => .error (.reported Errno.isdir "is a directory")
  | .directory, some .directory =>
    if t.hasDescendants path then .error (.reported Errno.notempty "directory not empty")
      else .ok ()
  | _, _ => .ok ()

def moveNode (old new : RemotePath) (t : Tree) (path : RemotePath) : Tree :=
  match t.get? path, path.rebase old new with
  | some node, some target => (t.erase path).insert target node
  | _, _ => t

/-- Moves everything at or below `old` to `new`, node by node in ascending order of paths. -/
def moveSubtree (t : Tree) (old new : RemotePath) : Tree :=
  let moved := (t.keys.filter (·.within old)).mergeSort fun p q ↦ (p.order q).isLE
  moved.foldl (moveNode old new) (t.erase new)

def rename (t : Tree) (old new : RemotePath) : Except RemoteError Tree :=
  if old.isRoot || new.isRoot then .error (.reported Errno.busy "cannot rename root")
  else match t.get? old with
    | none => .error (.reported Errno.noent "no such file or directory")
    | some source =>
      if old = new then .ok t
      else if new.within old then .error
        (.reported Errno.inval "cannot move a directory into itself")
      else do
        t.requireDirectory new.parent
        t.requireReplaceable new source
        return t.moveSubtree old new

def usedBeside (t : Tree) (path : RemotePath) : Except RemoteError UInt64 :=
  t.toList.foldlM (fun used e ↦
    match e.2 with
    | .file content => if e.1 = path then .ok used else addLength used content.size
    | .directory => .ok used) 0

def lengthAt (t : Tree) (path : RemotePath) : UInt64 :=
  match t.get? path with
  | some (.file content) => content.size.toUInt64
  | _ => 0

/-- Whether the file at `path` may come to have `newLength` bytes. Only growth is refused, and a
length beyond the capacity. -/
def requireRoom (t : Tree) (capacity : UInt64) (path : RemotePath) (newLength : UInt64) :
    Except RemoteError Unit :=
  if capacity < newLength then .error (.reported Errno.fbig "file too large")
  else do
    let used ← t.usedBeside path
    if t.lengthAt path < newLength then
      let total ← addLength used newLength.toNat
      if capacity < total then .error (.reported Errno.nospc "no space left on device") else .ok ()
    else .ok ()

def fillDirectories (t : Tree) (dir : RemotePath) : List Segment → Tree
  | [] => t
  | s :: rest =>
    let next := dir.child s
    fillDirectories (if t.contains next then t else t.insert next .directory) next rest

/-- Seeds a directory and the ancestors it lacks. Whatever is on the way already stays. -/
def insertDirectory (t : Tree) (path : RemotePath) : Tree := t.fillDirectories .root path.segments

/-- Seeds a file over whatever is at `path`, and the ancestors it lacks. -/
def insertFile (t : Tree) (path : RemotePath) (data : Bytes) : Tree :=
  (t.insertDirectory path.parent).insert path (.file (.ofBytes data))

def walkFrom (t : Tree) : Nat → RemotePath → List (RemotePath × Found)
  | 0, _ => []
  | levels + 1, dir =>
    match t.listing dir with
    | .error _ => []
    | .ok rows => rows.flatMap fun row ↦
      match dir.join row.name with
      | .error _ => []
      | .ok path =>
        match t.get? path with
        | some (.file content) => [(path, .file content.toBytes)]
        | _ => (path, .directory) :: t.walkFrom levels path

/-- Everything that can be reached from the root by listing. No way down has more levels than
the tree has nodes. -/
def walk (t : Tree) : List (RemotePath × Found) := t.walkFrom (t.size + 1) .root

end Tree

end RemoteMount.Memory
