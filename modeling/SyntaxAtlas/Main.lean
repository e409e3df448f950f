-- The program: reads the arguments, the input and the environment, and prints
-- the answer.

import SyntaxAtlas.CommandLine

namespace SyntaxAtlas.CommandLine

/-- The variables that matter, and whether errors go to a terminal. -/
def readEnvironment : IO Environment := do
  let names := ["NO_COLOR", "SYNTAXLENS_COLOR", "SYNTAXLENS_DUMP_CST"]
  let values ← names.filterMapM fun name => do
    return (← IO.getEnv name).map (name, ·)
  return { settings := values, terminal := ← (← IO.getStderr).isTty }

/-- Looks a file up on the disk. -/
def findFile (path : String) : IO Found := do
  try
    return .file (← IO.FS.readBinFile path).toList
  catch _ =>
    let isLong := longestPath < path.utf8ByteSize
      || (pathParts path).any fun part => longestName < part.utf8ByteSize
    return if isLong then .nameTooLong else .nothing

/-- Reads the input that the arguments name. -/
def readInput (args : Arguments) : IO Input := do
  match args.file with
  | none => return .standard (← (← IO.getStdin).readBinToEnd).toList
  | some path =>
    let directory := (← IO.currentDir).toString
    let whole := joinParts (resolveParts (resolveParts [] directory) path)
    return .file whole (← findFile whole)

/-- Looks for what is in the way of the dumps. -/
def findDumpPlace (env : Environment) : IO DumpPlace := do
  if !env.wantsDump then return .nowhere
  let directory := (← IO.currentDir) / dumpDirectory
  if (← directory.pathExists) && !(← directory.isDir) then return .occupied
  return .directory (← [Stage.parsed, .folded].filterM fun s => (directory / s.file).isDir)

/-- Prints a response and writes its dumps. -/
def printResponse (r : Response) : IO UInt32 := do
  for (name, text) in r.dumps do
    IO.FS.createDirAll dumpDirectory
    IO.FS.writeFile (dumpDirectory ++ "/" ++ name) text
  IO.print r.output
  IO.eprint r.errors
  return r.exit.toUInt32

end SyntaxAtlas.CommandLine

open SyntaxAtlas.CommandLine in
def main (texts : List String) : IO UInt32 := do
  match Arguments.ofTexts texts with
  | .error stop => printResponse stop.response
  | .ok args =>
    let env ← readEnvironment
    let input ← readInput args
    let place ← findDumpPlace env
    match respond .roomy args input env place with
    | .ok r => printResponse r
    | .error e =>
      IO.eprintln e.message
      return 1
