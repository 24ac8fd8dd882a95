import RemoteMount.OpenMode
import RemoteMount.Path
import RemoteMount.RemoteError

namespace RemoteMount

inductive CallError
  | remote (e : RemoteError)
  | notFound (path : String)
  | alreadyExists (path : String)
  | invalidArgument (detail : String)
  /-- A change that the device has no means to keep. -/
  | notPermitted (detail : String)
  | invalidInode (ino : Nat)
  | notSupported
deriving DecidableEq, Repr

namespace CallError

def ofInvalidPath (e : InvalidPath) : CallError := invalidArgument e.message

def ofUnsupportedFlags (e : UnsupportedFlags) : CallError := invalidArgument e.message

def ofRenameFlags (flags : UInt32) : CallError :=
  invalidArgument ("unsupported rename flags 0x" ++ String.ofList (Nat.toDigits 16 flags.toNat))

def message : CallError → String
  | remote e => e.message
  | notFound path => "No such file or directory: " ++ path
  | alreadyExists path => "File exists: " ++ path
  | invalidArgument detail => "Invalid argument: " ++ detail
  | notPermitted detail => "Operation not permitted: " ++ detail
  | invalidInode ino => s!"Invalid inode: {ino}"
  | notSupported => "Operation not supported"

def errno : CallError → Errno
  | remote e => e.errno
  | notFound _ | invalidInode _ => Errno.noent
  | alreadyExists _ => Errno.exist
  | invalidArgument _ => Errno.inval
  | notPermitted _ => Errno.perm
  | notSupported => Errno.nosys

theorem errno_pos (e : CallError) : 0 < e.errno := by
  cases e with
  | remote e => exact e.errno_pos
  | _ => simp [errno, Errno.noent, Errno.exist, Errno.inval, Errno.perm, Errno.nosys]

end CallError

def RemotePath.ofCaller (s : String) : Except CallError RemotePath :=
  (RemotePath.parse s).mapError CallError.ofInvalidPath

end RemoteMount
