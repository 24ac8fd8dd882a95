import RemoteMount.CommandLine.Parser
import RemoteMount.Mount.Config

namespace RemoteMount.CommandLine

structure InvalidRegion where
  cause : InvalidPath
deriving DecidableEq

def InvalidRegion.title (e : InvalidRegion) : String :=
  "Invalid --rw-prefix " ++ Text.quote e.cause.text

def InvalidRegion.messages (e : InvalidRegion) : List String := [e.title, e.cause.message]

namespace Arguments

def logFilter (a : Arguments) : String :=
  let level := if a.debug || 2 ≤ a.verbosity then "trace" else if a.verbosity = 1 then "debug"
    else "info"
  level ++ ",fuser=" ++ if a.debug then "trace" else "warn"

def addRegions (c : Mount.Config) : List String → Except InvalidRegion Mount.Config
  | [] => .ok c
  | region :: rest =>
    match RemotePath.parse region with
    | .error e => .error ⟨e⟩
    | .ok p => addRegions (c.addWritable p) rest

def mountConfig (a : Arguments) : Except InvalidRegion Mount.Config :=
  let c := Mount.Config.standard
  addRegions
    { c with
      ttl := a.attrTtl.getD c.ttl
      fsName := a.fsName.getD c.fsName
      readOnly := a.readOnly
      defaultPermissions := !a.noDefaultPermissions }
    a.rwPrefixes

end Arguments

end RemoteMount.CommandLine
