import RemoteMount.Bytes
import RemoteMount.Listing
import RemoteMount.OpenMode
import RemoteMount.Path
import RemoteMount.RemoteError

namespace RemoteMount

abbrev SessionId := Nat

inductive Request
  | listdir (dir : RemotePath)
  | openFile (path : RemotePath) (mode : OpenMode)
  | seek (s : SessionId) (offset : UInt64)
  /-- At most `max` bytes from the position on; none at the end of the file. -/
  | read (s : SessionId) (max : Nat)
  | write (s : SessionId) (data : Bytes)
  | truncate (s : SessionId) (length : UInt64)
  | close (s : SessionId)
  | mkdir (path : RemotePath)
  | rmdir (path : RemotePath)
  | unlink (path : RemotePath)
  | rename (old new : RemotePath)
deriving DecidableEq

inductive RemoteOp
  | listdir
  | openFile
  | seek
  | read
  | write
  | truncate
  | close
  | mkdir
  | rmdir
  | unlink
  | rename
deriving DecidableEq, Repr

def RemoteOp.all : List RemoteOp :=
  [listdir, openFile, seek, read, write, truncate, close, mkdir, rmdir, unlink, rename]

namespace Request

def op : Request → RemoteOp
  | listdir .. => .listdir
  | openFile .. => .openFile
  | seek .. => .seek
  | read .. => .read
  | write .. => .write
  | truncate .. => .truncate
  | close .. => .close
  | mkdir .. => .mkdir
  | rmdir .. => .rmdir
  | unlink .. => .unlink
  | rename .. => .rename

/-- What a successful request answers with. A write answers with the number of bytes it
accepted. -/
abbrev Reply : Request → Type
  | listdir _ => List ListingEntry
  | openFile _ _ => SessionId
  | read _ _ => Bytes
  | write _ _ => Nat
  | _ => Unit

end Request

/-- A device: its states `σ`, and how it answers in each of them. -/
class RemoteDevice (σ : Type) where
  answer (r : Request) (d : σ) : Except RemoteError r.Reply × σ
  /-- The length of the file of an open session. Asking for it cannot fail and changes
  nothing. -/
  size (d : σ) (s : SessionId) : UInt64

end RemoteMount
