import Capabilities.CommandLine.Check
import Capabilities.Script.Parse

/-!
# The program

Reads what a check can need from disk, lets the library check it, and prints the outcome. What a
check can need are the configuration, the path table, the directory, and the directories that hold
the modules directory of the directory or of an entry file; modules are scheduled nowhere else.
Scripts are read by the grammar.
-/

open Capabilities CommandLine Resolver Workspace

namespace Capabilities.Main

/-- Read a file, or a folder with everything below it, but nothing that is passed over. -/
partial def readTree (path : String) : IO Tree := do
  let canonical ← IO.FS.realPath path
  if ← canonical.isDir then
    let entries ← canonical.readDir
    let visible := entries.toList.filter fun entry => !isPassedOver entry.fileName
    let children ← visible.mapM fun entry => do
      return (entry.fileName, ← readTree entry.path.toString)
    return .folder children
  else
    try return .file (some (← IO.FS.readFile canonical))
    catch _ => return .file none

/-- Add what an absolute path leads to. -/
def addTree (root : Tree) (path : String) : IO Tree := do
  return root.put ((pathNames path).filter (· != "")) (← readTree path)

/-- The absolute path of what a path leads to, if it leads anywhere. -/
def realPath? (path : String) : IO (Option String) := do
  try return some (← IO.FS.realPath path).toString
  catch _ => return none

/-- The part of the disk that a check can need. Outer directories come before what lies in them,
    so that nothing added is lost again. -/
def readDisk (arguments : CheckArguments) : IO Disk := do
  let current ← IO.currentDir
  let place := (pathNames current.toString).filter (· != "")
  let start ← (arguments.directory :: arguments.entryFiles).filterMapM realPath?
  let files ← (arguments.config.toList ++ arguments.table.toList).filterMapM realPath?
  let base := Tree.empty.put place .empty
  let settings : Disk := ⟨← files.foldlM addTree base, place⟩
  let config := match arguments.config with
    | none => Config.default
    | some path => (loadConfig (settings.read path)).toOption.getD .default
  let roots := start.filterMap fun path => config.modulesRoot? (path ++ "/")
  let needed := (roots ++ start ++ files).mergeSort fun first second => first.length ≤ second.length
  return ⟨← needed.foldlM addTree base, place⟩

def describeError : CheckError → String
  | .usage .help =>
    "usage: check DIR [--table FILE] [--config FILE] [--entry FILE]... [--max-passes N] [--json]"
  | .usage .version => "0.1.0"
  | .usage _ => "error: see --help"
  | .file => "Error: a file could not be read"
  | .json => "Error: a file does not hold the JSON expected"
  | .config error => "Error: " ++ error.message

def exitCode : CheckError → UInt32
  | .usage .help | .usage .version => 0
  | .usage _ => 2
  | _ => 1

end Capabilities.Main

open Capabilities.Main in
def main (arguments : List String) : IO UInt32 := do
  let outcome ← match parse arguments with
    | .error error => pure (.error (.usage error))
    | .ok arguments => do
      let disk ← readDisk arguments
      pure (check disk arguments)
  match outcome with
  | .ok text =>
    IO.print text
    return 0
  | .error error =>
    (if exitCode error == 0 then IO.println else IO.eprintln) (describeError error)
    return exitCode error
