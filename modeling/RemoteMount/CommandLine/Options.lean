namespace RemoteMount.CommandLine

inductive OptionName
  | deviceRoot
  | rwPrefix
  | verbose
  | debug
  | attrTtl
  | fsName
  | readOnly
  | noDefaultPermissions
  | help
  | version
deriving DecidableEq, Repr

namespace OptionName

def all : List OptionName :=
  [deviceRoot, rwPrefix, verbose, debug, attrTtl, fsName, readOnly, noDefaultPermissions,
    help, version]

def long : OptionName → String
  | deviceRoot => "device-root"
  | rwPrefix => "rw-prefix"
  | verbose => "verbose"
  | debug => "debug"
  | attrTtl => "attr-ttl-ms"
  | fsName => "fs-name"
  | readOnly => "read-only"
  | noDefaultPermissions => "no-default-permissions"
  | help => "help"
  | version => "version"

def short? : OptionName → Option Char
  | verbose => some 'v'
  | debug => some 'd'
  | help => some 'h'
  | version => some 'V'
  | _ => none

def value? : OptionName → Option String
  | deviceRoot => some "DIR"
  | rwPrefix => some "PATH"
  | attrTtl => some "N"
  | fsName => some "FS_NAME"
  | _ => none

def takesValue (o : OptionName) : Bool := o.value?.isSome

def description : OptionName → String
  | deviceRoot => "Serve this host directory as the device storage root"
  | rwPrefix => "Additional read-write region on the device (repeatable)"
  | verbose => "Increase log verbosity (-v debug, -vv trace)"
  | debug => "Trace every FUSE request, including fuser's own logging"
  | attrTtl => "Kernel attribute/entry cache TTL in milliseconds [default: 1000]"
  | fsName => "Filesystem name shown in the mount table [default: mavftp]"
  | readOnly => "Mount as read-only (default: read-write)"
  | noDefaultPermissions => "Do not let the kernel enforce the synthesized permissions"
  | help => "Print help"
  | version => "Print version"

def ofLong? (s : String) : Option OptionName := all.find? (·.long = s)

def ofShort? (c : Char) : Option OptionName := all.find? (·.short? = some c)

def helpLine (o : OptionName) : String :=
  let short := match o.short? with
    | some c => "  -" ++ c.toString ++ ", "
    | none => "      "
  let value := match o.value? with
    | some v => " <" ++ v ++ ">"
    | none => ""
  short ++ "--" ++ o.long ++ value ++ "\n          " ++ o.description

end OptionName

end RemoteMount.CommandLine
