import RemoteMount.CommandLine.Report

def main (args : List String) : IO UInt32 := do
  let r := RemoteMount.CommandLine.report args
  r.output.forM IO.println
  r.errors.forM IO.eprintln
  return r.exitCode
