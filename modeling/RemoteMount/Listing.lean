import RemoteMount.Bytes

namespace RemoteMount

inductive EntryKind
  | file
  | directory
deriving DecidableEq, Repr

def EntryKind.isDirectory : EntryKind → Bool
  | file => false
  | directory => true

/-- One row of a listing. The device chooses the name, so any text can stand there. -/
structure ListingEntry where
  name : String
  kind : EntryKind
  size : UInt64
deriving DecidableEq, Repr

namespace ListingEntry

def file (name : String) (size : UInt64) : ListingEntry := ⟨name, .file, size⟩

def directory (name : String) : ListingEntry := ⟨name, .directory, 0⟩

def sorted (rows : List ListingEntry) : List ListingEntry :=
  rows.mergeSort fun a b ↦ decide (a.name ≤ b.name)

end ListingEntry

inductive Found
  | directory
  | file (data : Bytes)
  | link
deriving DecidableEq, Repr

end RemoteMount
