import RemoteMount.CommandLine.Options

namespace RemoteMount.CommandLine

structure Arguments where
  mountpoint : Option String
  deviceRoot : Option String
  rwPrefixes : List String
  verbosity : Nat
  debug : Bool
  attrTtl : Option Nat
  fsName : Option String
  readOnly : Bool
  noDefaultPermissions : Bool
deriving DecidableEq, Repr

def Arguments.initial : Arguments := ⟨none, none, [], 0, false, none, none, false, false⟩

/-- Why a command line is not carried out. The first two are what was asked for. -/
inductive Refusal
  | displayHelp
  | displayVersion
  | missingRequiredArgument
  | unknownArgument
  | invalidValue
  | valueValidation
  | tooManyValues
  | argumentConflict
deriving DecidableEq, Repr

def Refusal.exitCode : Refusal → UInt32
  | displayHelp | displayVersion => 0
  | _ => 2

/-- Something given that has not taken effect yet. Only when the next thing takes effect is it
checked that this was not given before and that its value is fit. -/
inductive Pending
  | nothing
  | option (name : OptionName) (value : Option String)
  | mountpoint (value : String)
deriving DecidableEq, Repr

structure State where
  arguments : Arguments
  pending : Pending
  trailing : Bool
  positional : Bool
deriving DecidableEq, Repr

def State.start : State := ⟨.initial, .nothing, false, false⟩

def number? (s : String) : Option Nat :=
  let digits := match s.toList with
    | '+' :: rest => rest
    | cs => cs
  if digits ≠ [] ∧ digits.all Char.isDigit then
    let n := digits.foldl (fun n c ↦ 10 * n + (c.toNat - '0'.toNat)) 0
    if n < UInt64.size then some n else none
  else none

namespace Arguments

def setValue (a : Arguments) (o : OptionName) (value : String) : Except Refusal Arguments :=
  match o with
  | .deviceRoot =>
    if a.deviceRoot.isSome then .error .argumentConflict
    else if value = "" then .error .invalidValue
    else .ok { a with deviceRoot := some value }
  | .rwPrefix => .ok { a with rwPrefixes := a.rwPrefixes ++ [value] }
  | .attrTtl =>
    if a.attrTtl.isSome then .error .argumentConflict
    else match number? value with
      | some n => .ok { a with attrTtl := some n }
      | none => .error .valueValidation
  | .fsName =>
    if a.fsName.isSome then .error .argumentConflict else .ok { a with fsName := some value }
  | _ => .error .tooManyValues

def setSwitch (a : Arguments) (o : OptionName) : Except Refusal Arguments :=
  match o with
  | .verbose => .ok { a with verbosity := a.verbosity + 1 }
  | .debug => if a.debug then .error .argumentConflict else .ok { a with debug := true }
  | .readOnly => if a.readOnly then .error .argumentConflict else .ok { a with readOnly := true }
  | .noDefaultPermissions =>
    if a.noDefaultPermissions then .error .argumentConflict
    else .ok { a with noDefaultPermissions := true }
  | .help => .error .displayHelp
  | .version => .error .displayVersion
  | _ => .error .invalidValue

end Arguments

namespace State

def settle (s : State) : Except Refusal State :=
  match s.pending with
  | .nothing => .ok s
  | .option _ none => .error .invalidValue
  | .option o (some value) => do
    return { s with arguments := ← s.arguments.setValue o value, pending := .nothing }
  | .mountpoint value =>
    if value = "" then .error .invalidValue
    else .ok { s with arguments := { s.arguments with
      mountpoint := some value }, pending := .nothing }

def long (s : State) (name : String) (value : Option String) : Except Refusal State :=
  match OptionName.ofLong? name with
  | none => .error .unknownArgument
  | some o =>
    match o.takesValue, value with
    | true, some v => do
      let s ← s.settle
      return { s with arguments := ← s.arguments.setValue o v }
    | true, none => do
      let s ← s.settle
      return { s with pending := .option o none }
    | false, some _ => .error .tooManyValues
    | false, none => do
      let s ← s.settle
      return { s with arguments := ← s.arguments.setSwitch o }

def short (s : State) : List Char → Except Refusal State
  | [] => .ok s
  | c :: rest =>
    match OptionName.ofShort? c with
    | none => .error .unknownArgument
    | some o => do
      let s ← s.settle
      let a ← s.arguments.setSwitch o
      short { s with arguments := a } rest

def positionalArgument (s : State) (value : String) : Except Refusal State :=
  if s.positional then .error .unknownArgument
  else do
    let s ← s.settle
    return { s with pending := .mountpoint value, positional := true }

/-- An argument that is no option: the value that an option waits for, or the mountpoint. -/
def plain (s : State) (value : String) : Except Refusal State :=
  match s.pending with
  | .option o none => .ok { s with pending := .option o (some value) }
  | _ => s.positionalArgument value

def argument (s : State) (arg : String) : Except Refusal State :=
  if s.trailing then s.positionalArgument arg
  else match arg.toList with
    | ['-', '-'] => .ok { s with trailing := true }
    | '-' :: '-' :: rest =>
      match rest.dropWhile (· ≠ '=') with
      | [] => s.long (String.ofList rest) none
      | _ :: value => s.long (String.ofList (rest.takeWhile (· ≠ '='))) (some (String.ofList value))
    | '-' :: c :: rest => s.short (c :: rest)
    | _ => s.plain arg

def finish (s : State) : Except Refusal (String × Arguments) := do
  let s ← s.settle
  match s.arguments.mountpoint with
  | some m => return (m, s.arguments)
  | none => .error .missingRequiredArgument

end State

def parseFrom (s : State) : List String → Except Refusal (String × Arguments)
  | [] => s.finish
  | arg :: rest => do parseFrom (← s.argument arg) rest

/-- Reads a command line as the library does that the program leaves this to. The library is no
part of the program: what is proved begins behind it, with any `Arguments`. -/
def parse (args : List String) : Except Refusal (String × Arguments) := parseFrom .start args

end RemoteMount.CommandLine
