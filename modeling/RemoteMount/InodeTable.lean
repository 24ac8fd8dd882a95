import RemoteMount.KeyMap
import RemoteMount.Path

namespace RemoteMount

/-- A number that was given out: the path it stands for now, and the lookups the kernel holds.
They are counted one by one, and no run makes as many as a word of 64 bits counts. -/
structure InodeEntry where
  path : RemotePath
  lookups : Nat
deriving DecidableEq

/-- The kernel knows files by number, the device by path. A number is given up when the kernel
holds no lookup of it any more, and is never given out again. -/
structure InodeTable where
  index : KeyMap RemotePath Nat
  entries : KeyMap Nat InodeEntry
  /-- Goes up by one at a time, and no run comes to the end of a word of 64 bits. -/
  next : Nat
deriving DecidableEq

namespace InodeTable

def rootInode : Nat := 1

def initial : InodeTable where
  index := KeyMap.empty.insert .root rootInode
  entries := KeyMap.empty.insert rootInode ⟨.root, 1⟩
  next := rootInode + 1

def path? (t : InodeTable) (ino : Nat) : Option RemotePath := (t.entries.get? ino).map (·.path)

def lookups? (t : InodeTable) (ino : Nat) : Option Nat := (t.entries.get? ino).map (·.lookups)

def inode? (t : InodeTable) (path : RemotePath) : Option Nat := t.index.get? path

def size (t : InodeTable) : Nat := t.entries.size

def isEmpty (t : InodeTable) : Bool := t.size ≤ 1

def allocate (t : InodeTable) (path : RemotePath) (lookups : Nat) : Nat × InodeTable :=
  (t.next, ⟨t.index.insert path t.next, t.entries.insert t.next ⟨path, lookups⟩, t.next + 1⟩)

def increment (t : InodeTable) (ino : Nat) : InodeTable :=
  { t with entries := t.entries.modify ino fun e ↦ { e with lookups := e.lookups + 1 } }

def lookup (t : InodeTable) (path : RemotePath) : Nat × InodeTable :=
  match t.inode? path with
  | some ino => (ino, t.increment ino)
  | none => t.allocate path 1

/-- The number of a path. Rows of directories are no lookups. -/
def peek (t : InodeTable) (path : RemotePath) : Nat × InodeTable :=
  match t.inode? path with
  | some ino => (ino, t)
  | none => t.allocate path 0

def decrement (t : InodeTable) (ino n : Nat) : Option InodeTable :=
  match t.lookups? ino with
  | some held =>
    if n ≤ held then
      some { t with entries := t.entries.modify ino fun e ↦ { e with lookups := e.lookups - n } }
    else none
  | none => none

/-- Takes a number out of the table. Its path keeps the number that it may have got since. -/
def evict (t : InodeTable) (ino : Nat) : InodeTable where
  index := match t.path? ino with
    | some path => if t.inode? path = some ino then t.index.erase path else t.index
    | none => t.index
  entries := t.entries.erase ino
  next := t.next

/-- Takes `n` lookups from a number and evicts it if none are left. Tells whether it was
evicted. The root never is, and a count is never taken below zero. -/
def forget (t : InodeTable) (ino n : Nat) : Bool × InodeTable :=
  if ino = rootInode then (false, t)
  else match t.decrement ino n with
    | none => (false, t)
    | some t' => if t'.lookups? ino = some 0 then (true, t'.evict ino) else (false, t')

/-- Unmaps a path that was deleted. The number stays until the kernel forgets it. -/
def invalidate (t : InodeTable) (path : RemotePath) : InodeTable :=
  { t with index := t.index.erase path }

def moveMapping (old new : RemotePath) (t : InodeTable) (mapping : RemotePath × Nat) : InodeTable :=
  match mapping.1.rebase old new with
  | none => t
  | some target =>
    { t with
      entries := t.entries.modify mapping.2 fun e ↦ { e with path := target }
      index := (t.index.erase mapping.1).insert target mapping.2 }

/-- Moves the mappings at or below `old` to `new`. What `new` and the paths below it stood for
before is unmapped. -/
def rename (t : InodeTable) (old new : RemotePath) : InodeTable :=
  if old = new then t
  else
    let kept := t.index.filter fun p _ ↦ !p.within new
    let moved := kept.toList.filter fun m ↦ m.1.within old
    moved.foldl (moveMapping old new) { t with index := kept }

end InodeTable

inductive InodeOp
  | lookup (path : RemotePath)
  | peek (path : RemotePath)
  | pathOf (ino : Nat)
  | lookupsOf (ino : Nat)
  | inodeOf (path : RemotePath)
  | forget (ino n : Nat)
  | invalidate (path : RemotePath)
  | rename (old new : RemotePath)
  | increment (ino : Nat)
  | decrement (ino n : Nat)
deriving DecidableEq

namespace InodeOp

abbrev Answer : InodeOp → Type
  | .lookup _ | .peek _ => Nat
  | .pathOf _ => Option RemotePath
  | .lookupsOf _ | .inodeOf _ | .increment _ | .decrement .. => Option Nat
  | .forget .. => Bool
  | .invalidate _ | .rename .. => Unit

def run (t : InodeTable) : (op : InodeOp) → op.Answer × InodeTable
  | .lookup path => t.lookup path
  | .peek path => t.peek path
  | .pathOf ino => (t.path? ino, t)
  | .lookupsOf ino => (t.lookups? ino, t)
  | .inodeOf path => (t.inode? path, t)
  | .forget ino n => t.forget ino n
  | .invalidate path => ((), t.invalidate path)
  | .rename old new => ((), t.rename old new)
  | .increment ino => ((t.increment ino).lookups? ino, t.increment ino)
  | .decrement ino n =>
    match t.decrement ino n with
    | some t' => (t'.lookups? ino, t')
    | none => (none, t)

end InodeOp

end RemoteMount
