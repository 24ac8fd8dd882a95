namespace RemoteMount

inductive OpenMode
  | read
  | write
  | createWrite
  | append
deriving DecidableEq, Repr

structure UnsupportedFlags where
  flags : UInt32
deriving DecidableEq, Repr

def UnsupportedFlags.message (e : UnsupportedFlags) : String :=
  "unsupported open flags 0o" ++ String.ofList (Nat.toDigits 8 e.flags.toNat)

namespace OpenFlags

def accessMask : UInt32 := 0o3
def excl : UInt32 := 0o200
def trunc : UInt32 := 0o1000
def append : UInt32 := 0o2000

def has (flags mask : UInt32) : Bool := flags &&& mask != 0

end OpenFlags

namespace OpenMode

/-- Reading and writing at once is served by a session for writing; appending goes before
truncating. -/
def ofFlags (flags : UInt32) : Except UnsupportedFlags OpenMode :=
  match flags &&& OpenFlags.accessMask with
  | 0 => .ok read
  | 3 => .error ⟨flags⟩
  | _ =>
    if OpenFlags.has flags OpenFlags.append then .ok append
    else if OpenFlags.has flags OpenFlags.trunc then .ok createWrite
    else .ok write

def isWrite : OpenMode → Bool
  | read => false
  | _ => true

end OpenMode

end RemoteMount
