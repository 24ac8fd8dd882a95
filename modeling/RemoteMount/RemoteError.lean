import RemoteMount.Errno

namespace RemoteMount

/-- Why a remote request gives no answer. -/
inductive RemoteError
  | reported (code : Errno) (reason : String)
  /-- A sum of lengths does not fit a word. Nothing is reported: the program unwinds, and a
  session that it holds is closed on the way. -/
  | overflow
deriving DecidableEq, Repr

namespace RemoteError

/-- Whoever waits for a program that ends is told that the connection was aborted. -/
def code : RemoteError → Errno
  | reported code _ => code
  | overflow => Errno.connaborted

def reason : RemoteError → String
  | reported _ reason => reason
  | overflow => "attempt to add with overflow"

def ofCode (code : Errno) : RemoteError := reported code "device reported failure"

def timeout : RemoteError := reported Errno.timedout "request timed out"

def ofHost (n : Errno) : RemoteError := reported n s!"{n.text} (os error {n})"

def ofText (reason : String) : RemoteError := reported Errno.io reason

def message (e : RemoteError) : String := s!"remote operation failed (errno {e.code}): {e.reason}"

/-- The number to reply with: the device's own where it can be an error number, else an I/O
error. -/
def errno (e : RemoteError) : Errno := if 0 < e.code then e.code else Errno.io

theorem errno_pos (e : RemoteError) : 0 < e.errno := by
  unfold errno
  split
  · assumption
  · decide

end RemoteError

/-- A refusal by the device, selected by the first byte of the frame's payload. -/
inductive Nak
  | fail
  | failErrno (code : UInt8)
  | invalidDataSize
  | invalidSession
  | noSessionsAvailable
  | eof
  | unknownCommand
  | fileExists
  | fileProtected
  | fileNotFound
deriving DecidableEq, Repr

namespace Nak

/-- The second byte is the device's own error number; a frame that lacks it has number zero. -/
def ofPayload? : List UInt8 → Option Nak
  | [] => none
  | code :: rest =>
    match code with
    | 1 => some fail
    | 2 => some (failErrno (rest.headD 0))
    | 3 => some invalidDataSize
    | 4 => some invalidSession
    | 5 => some noSessionsAvailable
    | 6 => some eof
    | 7 => some unknownCommand
    | 8 => some fileExists
    | 9 => some fileProtected
    | 10 => some fileNotFound
    | _ => none

/-- The end of a file is no failure and has number zero. -/
def errno : Nak → Errno
  | fail => Errno.fault
  | failErrno code => if code = 0 then Errno.io else code.toNat
  | invalidDataSize => Errno.msgsize
  | invalidSession => Errno.badfd
  | noSessionsAvailable => Errno.mfile
  | eof => 0
  | unknownCommand => Errno.nosys
  | fileExists => Errno.exist
  | fileProtected => Errno.perm
  | fileNotFound => Errno.noent

def reason : Nak → String
  | fail => "device failure"
  | failErrno _ => "device failure with errno"
  | invalidDataSize => "invalid data size"
  | invalidSession => "invalid session"
  | noSessionsAvailable => "no sessions available"
  | eof => "end of file"
  | unknownCommand => "unknown command"
  | fileExists => "file exists"
  | fileProtected => "file protected"
  | fileNotFound => "file not found"

def toError (n : Nak) : RemoteError := .reported n.errno n.reason

end Nak

end RemoteMount
