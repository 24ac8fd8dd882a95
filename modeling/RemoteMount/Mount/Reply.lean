import RemoteMount.Attributes
import RemoteMount.Bytes

namespace RemoteMount.Mount

structure FileAttributes where
  ino : Nat
  size : UInt64
  blocks : Nat
  kind : EntryKind
  mode : UInt32
  links : Nat
  uid : UInt32
  gid : UInt32
  device : Nat
  blockSize : Nat
deriving DecidableEq, Repr

def blockSize : Nat := 4096

/-- The unit in which the size on the device is counted. -/
def sectorSize : Nat := 512

def nameLimit : Nat := 255

namespace FileAttributes

/-- A started block counts as a whole one. A directory has two links, a file one. -/
def ofAttributes (ino : Nat) (a : Attributes) : FileAttributes where
  ino := ino
  size := a.size
  blocks := (a.size.toNat + (sectorSize - 1)) / sectorSize
  kind := a.kind
  mode := a.mode
  links := if a.kind = .directory then 2 else 1
  uid := a.uid
  gid := a.gid
  device := 0
  blockSize := Mount.blockSize

end FileAttributes

/-- A row of a directory. The kernel resumes a scan behind a row by giving `next` as the
offset. -/
structure InodeRow where
  ino : Nat
  next : Nat
  kind : EntryKind
  name : String
deriving DecidableEq, Repr

/-- What a reply buffer takes of rows that are offered to it one after another, until one does
not go in. The buffers are those of the library that speaks to the kernel. -/
structure RowBuffer where
  taken : List InodeRow → List InodeRow
  taken_front : ∀ rows, taken rows <+: rows

/-- Bytes that a row takes in a reply: a header of 24 and the name, rounded up to a multiple of
8. -/
def InodeRow.footprint (row : InodeRow) : Nat := (24 + row.name.utf8ByteSize + 7) / 8 * 8

def InodeRow.fitting (room : Nat) : List InodeRow → List InodeRow
  | [] => []
  | row :: rest =>
    if row.footprint ≤ room then row :: fitting (room - row.footprint) rest else []

theorem InodeRow.fitting_front (room : Nat) (rows : List InodeRow) :
    fitting room rows <+: rows := by
  induction rows generalizing room with
  | nil => exact List.prefix_refl _
  | cons row rows ih =>
    rw [fitting]
    split
    · exact (List.prefix_cons_inj row).2 (ih _)
    · exact List.nil_prefix

/-- A buffer of so many bytes, as the library lays the rows out. -/
def RowBuffer.ofSize (room : Nat) : RowBuffer :=
  ⟨InodeRow.fitting room, InodeRow.fitting_front room⟩

structure Geometry where
  blocks : Nat
  freeBlocks : Nat
  availableBlocks : Nat
  files : Nat
  freeFiles : Nat
  blockSize : Nat
  nameLimit : Nat
  fragmentSize : Nat
deriving DecidableEq, Repr

def Geometry.unknown : Geometry :=
  ⟨0, 0, 0, 0, 0, Mount.blockSize, Mount.nameLimit, Mount.blockSize⟩

inductive Reply
  /-- The kernel now holds one more lookup of the number. -/
  | entry (a : FileAttributes)
  | attributes (a : FileAttributes)
  | created (a : FileAttributes)
  /-- There are no handles, so a file or directory is opened with none. -/
  | opened
  | data (data : Bytes)
  | count (n : Nat)
  | rows (rows : List InodeRow)
  | geometry (g : Geometry)
  | nothing
deriving DecidableEq

end RemoteMount.Mount
