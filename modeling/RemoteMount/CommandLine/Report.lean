import RemoteMount.CommandLine.Settings

namespace RemoteMount.CommandLine

/-- What the program says and how it ends, with texts in place of those of the library that
reads the command line. -/
structure Report where
  output : List String
  errors : List String
  exitCode : UInt32
deriving DecidableEq, Repr

def usageLine : String := "Usage: mavmount [OPTIONS] <MOUNTPOINT>"

def helpLines : List String :=
  ["Mount flight controller storage as a FUSE filesystem", "", usageLine, "", "Arguments:",
    "  <MOUNTPOINT>", "          Mountpoint for the filesystem", "", "Options:"] ++
  OptionName.all.map OptionName.helpLine

def Refusal.message? : Refusal → Option String
  | displayHelp | displayVersion => none
  | missingRequiredArgument => some "error: the mountpoint is not given"
  | unknownArgument => some "error: unexpected argument"
  | invalidValue => some "error: a value is required"
  | valueValidation => some "error: a value is not a number"
  | tooManyValues => some "error: an option takes no value"
  | argumentConflict => some "error: an option cannot be used multiple times"

def Refusal.report (r : Refusal) : Report where
  output := match r with
    | displayHelp => helpLines
    | displayVersion => ["mavmount 0.1.0"]
    | _ => []
  errors := match r.message? with
    | some m => [m, "", usageLine]
    | none => []
  exitCode := r.exitCode

def InvalidRegion.report (e : InvalidRegion) : Report where
  output := []
  errors := ["Error: " ++ e.title, "", "Caused by:", "    " ++ e.cause.message]
  exitCode := 1

def mountReport (mountpoint : String) (a : Arguments) (c : Mount.Config) : Report where
  output :=
    ["mountpoint: " ++ mountpoint,
      "device: " ++ a.deviceRoot.getD "in memory",
      "log: " ++ a.logFilter,
      "options: " ++ ",".intercalate (c.options.map Mount.MountOption.text),
      "regions:"] ++
    c.policy.rules.map fun r ↦ "  " ++ r.region.text
  errors := []
  exitCode := 0

def report (args : List String) : Report :=
  match parse args with
  | .error r => r.report
  | .ok (mountpoint, a) =>
    match a.mountConfig with
    | .error e => e.report
    | .ok c => mountReport mountpoint a c

end RemoteMount.CommandLine
