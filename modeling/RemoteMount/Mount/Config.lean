import RemoteMount.Policy

namespace RemoteMount.Mount

structure Config where
  /-- How long the kernel may keep attributes and directory entries, in milliseconds. -/
  ttl : Nat
  policy : Policy
  fsName : String
  readOnly : Bool
  /-- Whether the kernel checks permissions. Without it, writes anywhere reach the device. -/
  defaultPermissions : Bool
  autoUnmount : Bool
deriving DecidableEq

inductive MountOption
  | fsName (name : String)
  | subtype (name : String)
  | noDev
  | noSuid
  | noAtime
  | readOnly
  | readWrite
  | defaultPermissions
  | autoUnmount
deriving DecidableEq, Repr

def MountOption.text : MountOption → String
  | fsName name => "fsname=" ++ name
  | subtype name => "subtype=" ++ name
  | noDev => "nodev"
  | noSuid => "nosuid"
  | noAtime => "noatime"
  | readOnly => "ro"
  | readWrite => "rw"
  | defaultPermissions => "default_permissions"
  | autoUnmount => "auto_unmount"

namespace Config

/-- The kernel keeps things for a second only: it cannot see what changes on the device. -/
def standard : Config where
  ttl := 1000
  policy := .standard
  fsName := "mavftp"
  readOnly := false
  defaultPermissions := true
  autoUnmount := false

def addWritable (c : Config) (region : RemotePath) : Config :=
  { c with policy := c.policy.addWritable region }

def ttlSeconds (c : Config) : Nat := c.ttl / 1000

def ttlNanoseconds (c : Config) : Nat := c.ttl % 1000 * 1000000

def options (c : Config) : List MountOption :=
  [.fsName c.fsName, .subtype "mavfs", .noDev, .noSuid, .noAtime,
    if c.readOnly then .readOnly else .readWrite] ++
  (if c.defaultPermissions then [.defaultPermissions] else []) ++
  (if c.autoUnmount then [.autoUnmount] else [])

end Config

inductive Setting
  | ttl (milliseconds : Nat)
  /-- A policy given by the one it starts from and the rules added to it. -/
  | policy (base : Policy) (rules : List (String × Option Permissions))
  | writable (region : String)
  | fsName (name : String)
  | readOnly (on : Bool)
  | defaultPermissions (on : Bool)
  | autoUnmount (on : Bool)

namespace Setting

def apply (c : Config) : Setting → Except InvalidPath Config
  | ttl milliseconds => .ok { c with ttl := milliseconds }
  | policy base rules => do
    let p ← base.addRules rules
    return { c with policy := p }
  | writable region => c.addWritable <$> RemotePath.parse region
  | fsName name => .ok { c with fsName := name }
  | readOnly on => .ok { c with readOnly := on }
  | defaultPermissions on => .ok { c with defaultPermissions := on }
  | autoUnmount on => .ok { c with autoUnmount := on }

def applyAll (c : Config) : List Setting → Except InvalidPath Config
  | [] => .ok c
  | s :: rest => do applyAll (← s.apply c) rest

end Setting

end RemoteMount.Mount
