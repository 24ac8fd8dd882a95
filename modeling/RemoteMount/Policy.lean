import RemoteMount.Listing
import RemoteMount.Path

namespace RemoteMount

structure Permissions where
  directory : UInt16
  file : UInt16
deriving DecidableEq, Repr

namespace Permissions

def readOnly : Permissions := ⟨0o555, 0o444⟩

def readWrite : Permissions := ⟨0o755, 0o644⟩

def ofKind (p : Permissions) : EntryKind → UInt16
  | .directory => p.directory
  | .file => p.file

end Permissions

structure PolicyRule where
  region : RemotePath
  permissions : Permissions
deriving DecidableEq

/-- Permissions by region. The device reports none, so they follow from where an entry lies: the
rule whose region is the longest prefix of the path decides. -/
structure Policy where
  rules : List PolicyRule
deriving DecidableEq

namespace Policy

def uniform (permissions : Permissions) : Policy := ⟨[⟨.root, permissions⟩]⟩

def readOnly : Policy := uniform .readOnly

/-- A new rule replaces the one of the same region and counts as the last one added. -/
def addRule (policy : Policy) (rule : PolicyRule) : Policy :=
  ⟨policy.rules.filter (·.region ≠ rule.region) ++ [rule]⟩

def addWritable (policy : Policy) (region : RemotePath) : Policy :=
  policy.addRule ⟨region, .readWrite⟩

def deepest : List PolicyRule → Option PolicyRule
  | [] => none
  | r :: rest =>
    match deepest rest with
    | none => some r
    | some s => if s.region.depth < r.region.depth then some r else some s

/-- The rule for a path. Where no region holds the path, the first rule stands in. -/
def ruleFor (policy : Policy) (p : RemotePath) : PolicyRule :=
  (deepest (policy.rules.filter (p.within ·.region))).getD (policy.rules.headD ⟨.root, .readOnly⟩)

def permission (policy : Policy) (p : RemotePath) (kind : EntryKind) : UInt16 :=
  (policy.ruleFor p).permissions.ofKind kind

def standard : Policy := readOnly.addWritable .storageCard

/-- Adds rules in order, their regions given as text. A rule without permissions makes its
region writable. -/
def addRules (policy : Policy) : List (String × Option Permissions) → Except InvalidPath Policy
  | [] => .ok policy
  | (region, permissions) :: rest => do
    let region ← RemotePath.parse region
    (policy.addRule ⟨region, permissions.getD .readWrite⟩).addRules rest

end Policy

end RemoteMount
