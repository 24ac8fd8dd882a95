import RemoteMount.Content
import RemoteMount.Errno
import RemoteMount.KeyMap

namespace RemoteMount.Host

abbrev NodeId := Nat

/-- A name in a directory of the host. It need not be text. -/
abbrev RawName := Bytes

namespace RawName

def dot : RawName := [46]

def dotdot : RawName := [46, 46]

def limit : Nat := 255

def pieces : Bytes → List RawName
  | [] => [[]]
  | b :: rest =>
    if b = 47 then [] :: pieces rest
    else match pieces rest with
      | [] => [[b]]
      | p :: ps => (b :: p) :: ps

/-- What stands behind a slash that ends a path. It leads nowhere else and asks for a
directory. -/
def nothing : RawName := []

def between (path : Bytes) : List RawName := (pieces path).filter (· ≠ nothing)

def ofPath (path : Bytes) : List RawName :=
  between path ++ if path.getLast? = some 47 then [nothing] else []

end RawName

inductive Node
  | directory (entries : KeyMap RawName NodeId)
  | file (content : Content)
  | symlink (target : Bytes)

/-- The files of a host, each under a number of its own. A file stays under its number when its
last name is gone, so that whoever has it open can go on using it. -/
structure FileStore where
  nodes : KeyMap NodeId Node
  next : NodeId

/-- Where a path leads. A chain is a directory followed by those that contain it, up to the
top. -/
inductive Place
  /-- The path ends with a dot or with nothing: it names the first directory of the chain. -/
  | directory (chain : List NodeId)
  /-- The path ends with a name in the first directory of the chain, which may be free. -/
  | entry (chain : List NodeId) (name : RawName) (node : Option NodeId)

/-- How far the names of a path lead without following symbolic links. -/
inductive Progress
  | arrived (place : Place)
  | failed (e : Errno)
  | atLink (chain : List NodeId) (target : Bytes) (rest : List RawName)

namespace FileStore

def top : NodeId := 0

def linkLimit : Nat := 40

def empty : FileStore := ⟨KeyMap.empty.insert top (.directory .empty), top + 1⟩

def entries (fs : FileStore) (dir : NodeId) : KeyMap RawName NodeId :=
  match fs.nodes.get? dir with
  | some (.directory entries) => entries
  | _ => .empty

def isDirectory (fs : FileStore) (id : NodeId) : Bool :=
  match fs.nodes.get? id with
  | some (.directory _) => true
  | _ => false

def here (chain : List NodeId) : NodeId := chain.headD top

/-- The chain of the containing directory. The top contains itself. -/
def up : List NodeId → List NodeId
  | _ :: d :: rest => d :: rest
  | chain => chain

def child (fs : FileStore) (chain : List NodeId) (name : RawName) : Except Errno (Option NodeId) :=
  if name = RawName.dot then .ok (some (here chain))
  else if name = RawName.dotdot then .ok (some (here (up chain)))
  else if RawName.limit < name.length then .error Errno.nametoolong
  else .ok ((fs.entries (here chain)).get? name)

/-- Walks names from a directory on, up to the first link. Where a file may be made, a last name
with a slash behind it is refused before it is looked up. -/
def advance (fs : FileStore) (create : Bool) : List NodeId → List RawName → Progress
  | chain, [] => .arrived (.directory chain)
  | chain, name :: rest =>
    if name = RawName.dot ∨ name = RawName.nothing then fs.advance create chain rest
    else if name = RawName.dotdot then fs.advance create (up chain) rest
    else if create ∧ rest = [RawName.nothing] then .failed Errno.isdir
    else match fs.child chain name with
      | .error e => .failed e
      | .ok none => if rest = [] then .arrived (.entry chain name none) else .failed Errno.noent
      | .ok (some id) =>
        match fs.nodes.get? id with
        | some (.symlink target) => .atLink chain target rest
        | some (.directory _) =>
          if rest = [] then .arrived (.entry chain name (some id))
            else fs.advance create (id :: chain) rest
        | _ => if rest = [] then .arrived (.entry chain name (some id)) else .failed Errno.notdir

/-- Walks names and follows links, up to the given number of them. A link whose target begins
with a slash leads on from the top, any other from the directory it is in. -/
def resolveFrom (fs : FileStore) (create : Bool) :
    Nat → List NodeId → List RawName → Except Errno Place
  | links, chain, names =>
    match fs.advance create chain names with
    | .arrived place => .ok place
    | .failed e => .error e
    | .atLink chain target rest =>
      match links with
      | 0 => .error Errno.loop
      | links + 1 =>
        fs.resolveFrom create links (if target.head? = some 47 then [top] else chain)
          (RawName.ofPath target ++ rest)

def resolve (fs : FileStore) (create : Bool) (names : List RawName) : Except Errno Place :=
  fs.resolveFrom create linkLimit [top] names

def stat (fs : FileStore) (names : List RawName) : Except Errno NodeId := do
  match ← fs.resolve false names with
  | .directory chain => return here chain
  | .entry _ _ (some id) => return id
  | .entry _ _ none => throw Errno.noent

def parentOf (fs : FileStore) (names : List RawName) : Except Errno (List NodeId × RawName) := do
  match ← fs.resolve false (names.dropLast ++ [RawName.dot]) with
  | .directory chain => return (chain, names.getLastD RawName.dot)
  | .entry .. => throw Errno.notdir

def link (fs : FileStore) (dir : NodeId) (name : RawName) (id : NodeId) : FileStore :=
  { fs with nodes := fs.nodes.insert dir (.directory ((fs.entries dir).insert name id)) }

def unlinkName (fs : FileStore) (dir : NodeId) (name : RawName) : FileStore :=
  { fs with nodes := fs.nodes.insert dir (.directory ((fs.entries dir).erase name)) }

def add (fs : FileStore) (dir : NodeId) (name : RawName) (node : Node) : NodeId × FileStore :=
  let id := fs.next
  (id, link ⟨fs.nodes.insert id node, id + 1⟩ dir name id)

def content (fs : FileStore) (id : NodeId) : Content :=
  match fs.nodes.get? id with
  | some (.file content) => content
  | _ => .empty

def setContent (fs : FileStore) (id : NodeId) (content : Content) : FileStore :=
  { fs with nodes := fs.nodes.insert id (.file content) }

def openFile (fs : FileStore) (names : List RawName) (create : Bool) :
    Except Errno (NodeId × FileStore) := do
  match ← fs.resolve create names with
  | .directory _ => throw Errno.isdir
  | .entry chain name node =>
    match node, create with
    | none, false => throw Errno.noent
    | none, true => return fs.add (here chain) name (.file .empty)
    | some id, create =>
      if fs.isDirectory id then throw Errno.isdir
      else return (id, if create then fs.setContent id .empty else fs)

def mkdir (fs : FileStore) (names : List RawName) : Except Errno FileStore := do
  let (chain, name) ← fs.parentOf names
  match ← fs.child chain name with
  | some _ => throw Errno.exist
  | none => return (fs.add (here chain) name (.directory .empty)).2

def rmdir (fs : FileStore) (names : List RawName) : Except Errno FileStore := do
  let (chain, name) ← fs.parentOf names
  match ← fs.child chain name with
  | none => throw Errno.noent
  | some id =>
    if !fs.isDirectory id then throw Errno.notdir
    else if (fs.entries id).size ≠ 0 then throw Errno.notempty
    else return fs.unlinkName (here chain) name

def unlink (fs : FileStore) (names : List RawName) : Except Errno FileStore := do
  let (chain, name) ← fs.parentOf names
  match ← fs.child chain name with
  | none => throw Errno.noent
  | some id =>
    if fs.isDirectory id then throw Errno.isdir
    else return fs.unlinkName (here chain) name

def requireReplaceable (fs : FileStore) (moved target : NodeId) : Except Errno Unit :=
  match fs.isDirectory moved, fs.isDirectory target with
  | true, false => throw Errno.notdir
  | false, true => throw Errno.isdir
  | true, true => if (fs.entries target).size ≠ 0 then throw Errno.notempty else return
  | false, false => return

/-- Gives what is under one name of a directory another name in the same or another one. Both
come with the chains of their directories, which were looked up before. A directory cannot move
below itself, and what contains the source cannot be replaced by it. -/
def rename (fs : FileStore) (old new : List NodeId × RawName) : Except Errno FileStore := do
  let (source, oldName) := old
  let (dest, newName) := new
  match ← fs.child source oldName with
  | none => throw Errno.noent
  | some moved =>
    let target ← fs.child dest newName
    if moved ∈ dest then throw Errno.inval
    let moveTo := ((fs.unlinkName (here source) oldName).link (here dest) newName moved)
    match target with
    | none => return moveTo
    | some t =>
      if t ∈ source then throw Errno.notempty
      else if t = moved then return fs
      else
        fs.requireReplaceable moved t
        return moveTo

end FileStore

end RemoteMount.Host
