import RemoteMount.Attributes
import RemoteMount.KeyMap

namespace RemoteMount

/-- A cache of attributes, kept by directory and filled from listings. Every invalidation is
stamped with a new generation, and a listing that was begun at an earlier one is not stored. -/
structure AttributeCache where
  listings : KeyMap RemotePath (KeyMap String Attributes)
  /-- Counts invalidations, of which no run makes as many as a word of 64 bits counts. -/
  generation : Nat
  /-- The generation of the last invalidation of a directory. -/
  directoryStamps : KeyMap RemotePath Nat
  /-- The generation of the last invalidation of a subtree, by its root. -/
  subtreeStamps : KeyMap RemotePath Nat
  clearedAt : Nat
deriving DecidableEq

namespace AttributeCache

def empty : AttributeCache := ⟨.empty, 0, .empty, .empty, 0⟩

/-- The root is in no directory and never has attributes here. -/
def lookup (c : AttributeCache) (path : RemotePath) : Option Attributes := do
  let name ← path.name?
  let listing ← c.listings.get? path.parent
  listing.get? name

/-- Whether a subtree that holds `dir` was dropped after the given generation. The walk looks
for stamps at `dir` and at each directory above it, up to the root, which is so many levels
up. -/
def droppedAbove (stamps : KeyMap RemotePath Nat) (generation : Nat) : Nat → RemotePath → Bool
  | 0, dir => (stamps.get? dir).any (generation < ·)
  | levels + 1, dir =>
    (stamps.get? dir).any (generation < ·) || droppedAbove stamps generation levels dir.parent

def staleSince (c : AttributeCache) (dir : RemotePath) (generation : Nat) : Bool :=
  generation < c.clearedAt ||
  (c.directoryStamps.get? dir).any (generation < ·) ||
  droppedAbove c.subtreeStamps generation dir.depth dir

/-- Replaces all attributes in `dir`. Of two records of one name the later counts. -/
def populate (c : AttributeCache) (dir : RemotePath) (records : List (String × Attributes)) :
    AttributeCache :=
  { c with listings := c.listings.insert dir (.ofList records) }

/-- Like `populate`, but only if nothing made a listing of `dir` stale that was begun at the
given generation. Tells whether it stored the records. -/
def populateIfCurrent (c : AttributeCache) (dir : RemotePath) (generation : Nat)
    (records : List (String × Attributes)) : Bool × AttributeCache :=
  if c.staleSince dir generation then (false, c) else (true, c.populate dir records)

def invalidate (c : AttributeCache) (dir : RemotePath) : Bool × AttributeCache :=
  (c.listings.contains dir,
    { c with
      generation := c.generation + 1
      directoryStamps := c.directoryStamps.insert dir (c.generation + 1)
      listings := c.listings.erase dir })

def invalidateTree (c : AttributeCache) (path : RemotePath) : AttributeCache :=
  { c with
    generation := c.generation + 1
    subtreeStamps := c.subtreeStamps.insert path (c.generation + 1)
    listings := c.listings.filter fun dir _ ↦ !dir.within path }

/-- Changes the size of a path whose attributes are held; adds nothing. Tells whether they
are. -/
def updateSize (c : AttributeCache) (path : RemotePath) (size : UInt64) : Bool × AttributeCache :=
  match path.name?, c.lookup path with
  | some name, some _ =>
    (true,
      { c with
        listings := c.listings.modify path.parent fun listing ↦
          listing.modify name fun a ↦ { a with size := size } })
  | _, _ => (false, c)

def clear (c : AttributeCache) : AttributeCache :=
  ⟨.empty, c.generation + 1, .empty, .empty, c.generation + 1⟩

def size (c : AttributeCache) : Nat := c.listings.values.foldr (fun listing n ↦ listing.size + n) 0

def hasListing (c : AttributeCache) (dir : RemotePath) : Bool := c.listings.contains dir

end AttributeCache

inductive CacheAccess
  | lookup (path : RemotePath)
  | generation
  | populate (dir : RemotePath) (records : List (String × Attributes))
  | populateIfCurrent (dir : RemotePath) (generation : Nat) (records : List (String × Attributes))
  | invalidate (dir : RemotePath)
  | invalidateTree (path : RemotePath)
  | updateSize (path : RemotePath) (size : UInt64)
  | clear
  | hasListing (dir : RemotePath)
  | isEmpty
deriving DecidableEq

namespace CacheAccess

abbrev Answer : CacheAccess → Type
  | .lookup _ => Option Attributes
  | .generation => Nat
  | .populateIfCurrent .. => Bool
  | .invalidate _ => Bool
  | .updateSize .. => Bool
  | .hasListing _ => Bool
  | .isEmpty => Bool
  | .populate .. | .invalidateTree _ | .clear => Unit

def run (c : AttributeCache) : (a : CacheAccess) → a.Answer × AttributeCache
  | .lookup path => (c.lookup path, c)
  | .generation => (c.generation, c)
  | .populate dir records => ((), c.populate dir records)
  | .populateIfCurrent dir g records => c.populateIfCurrent dir g records
  | .invalidate dir => c.invalidate dir
  | .invalidateTree path => ((), c.invalidateTree path)
  | .updateSize path size => c.updateSize path size
  | .clear => ((), c.clear)
  | .hasListing dir => (c.hasListing dir, c)
  | .isEmpty => (c.size == 0, c)

end CacheAccess

end RemoteMount
