import RemoteMount.Filesystem

namespace RemoteMount

/-- A call whose paths are of type `π`: text as a caller gives it, or paths that were read. -/
inductive Call (π : Type)
  | getattr (path : π)
  | readdir (path : π)
  | mkdir (path : π)
  | rmdir (path : π)
  | unlink (path : π)
  | create (path : π)
  | createNew (path : π)
  | read (path : π) (max : Nat) (offset : UInt64)
  | write (path : π) (data : Bytes) (offset : UInt64)
  | rename (old new : π)
  | truncate (path : π) (length : UInt64)
  | destroy
deriving DecidableEq

inductive CallAnswer
  | attributes (a : Attributes)
  | rows (rows : List Filesystem.DirectoryRow)
  | data (data : Bytes)
  | count (n : Nat)
  | nothing
deriving DecidableEq

namespace Call

def resolve : Call String → Except CallError (Call RemotePath)
  | getattr path => getattr <$> RemotePath.ofCaller path
  | readdir path => readdir <$> RemotePath.ofCaller path
  | mkdir path => mkdir <$> RemotePath.ofCaller path
  | rmdir path => rmdir <$> RemotePath.ofCaller path
  | unlink path => unlink <$> RemotePath.ofCaller path
  | create path => create <$> RemotePath.ofCaller path
  | createNew path => createNew <$> RemotePath.ofCaller path
  | read path max offset => (read · max offset) <$> RemotePath.ofCaller path
  | write path data offset => (write · data offset) <$> RemotePath.ofCaller path
  | rename old new => do
    let old ← RemotePath.ofCaller old
    let new ← RemotePath.ofCaller new
    return rename old new
  | truncate path length => (truncate · length) <$> RemotePath.ofCaller path
  | destroy => .ok destroy

def program (policy : Policy) (caller : Caller) :
    Call RemotePath → Program (Except CallError CallAnswer)
  | getattr path => Except.map .attributes <$> Filesystem.getattr policy caller path
  | readdir path => Except.map .rows <$> Filesystem.readdir policy caller path
  | mkdir path => Except.map (fun _ ↦ .nothing) <$> Filesystem.mkdir path
  | rmdir path => Except.map (fun _ ↦ .nothing) <$> Filesystem.rmdir path
  | unlink path => Except.map (fun _ ↦ .nothing) <$> Filesystem.unlink path
  | create path => Except.map (fun _ ↦ .nothing) <$> Filesystem.create path
  | createNew path => Except.map (fun _ ↦ .nothing) <$> Filesystem.createNew policy caller path
  | read path max offset => Except.map .data <$> Filesystem.read path max offset
  | write path data offset => Except.map .count <$> Filesystem.write path data offset
  | rename old new => Except.map (fun _ ↦ .nothing) <$> Filesystem.rename old new
  | truncate path length => Except.map (fun _ ↦ .nothing) <$> Filesystem.truncate path length
  | destroy => (fun _ ↦ .ok .nothing) <$> Filesystem.destroy

/-- The steps of a call whose paths are text. A malformed path fails the call without a step. -/
def programOfText (policy : Policy) (caller : Caller) (c : Call String) :
    Program (Except CallError CallAnswer) :=
  match c.resolve with
  | .ok c => c.program policy caller
  | .error e => return .error e

end Call

end RemoteMount
