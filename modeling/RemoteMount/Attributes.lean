import RemoteMount.Policy

namespace RemoteMount

/-- The process that issues a call. The device knows no owners, so all belongs to who asks. -/
structure Caller where
  uid : UInt32
  gid : UInt32
  pid : UInt32
deriving DecidableEq, Repr

structure Attributes where
  kind : EntryKind
  perm : UInt16
  size : UInt64
  uid : UInt32
  gid : UInt32
deriving DecidableEq, Repr

namespace Attributes

/-- The attributes of a listed entry at `path`. A directory has size zero, whatever the row
tells. -/
def ofEntry (path : RemotePath) (entry : ListingEntry) (policy : Policy) (caller : Caller) :
    Attributes where
  kind := entry.kind
  perm := policy.permission path entry.kind
  size := if entry.kind = .file then entry.size else 0
  uid := caller.uid
  gid := caller.gid

/-- The root may be read and searched by all, whatever the policy. -/
def ofRoot (caller : Caller) : Attributes where
  kind := .directory
  perm := Permissions.readOnly.directory
  size := 0
  uid := caller.uid
  gid := caller.gid

def typeBits : EntryKind → UInt32
  | .directory => 0o040000
  | .file => 0o100000

def mode (a : Attributes) : UInt32 := typeBits a.kind ||| a.perm.toUInt32

end Attributes

end RemoteMount
