import SheetTemplate.Command.PackageFile
import SheetTemplate.Command.Run

/-!
# The program

Reads the files that a command line may need, answers it, and carries the answer out: the result is
written, and the program tells what it did.
-/

namespace SheetTemplate.Command

/-- What is found at a path that could be opened. Only a directory cannot be read then. -/
def readOpened (file : IO.FS.Handle) : IO FileContent := do
  try
    return PackageFile.ofBytes (← file.readBinToEnd)
  catch _ =>
    return .directory

/-- What is found at a path. -/
def readPath (path : String) : IO (Option FileContent) := do
  try
    return some (← readOpened (← IO.FS.Handle.mk path .read))
  catch _ =>
    return none

/-- The files at some paths. What can be written only shows when it is written. -/
def readDisk (paths : List String) : IO Disk := do
  let found ← paths.mapM fun path => return (path, ← readPath path)
  return { find? := fun path => (found.lookup path).join, canWrite := fun _ => true }

/-- Writes the result of a command; where that fails, the command has failed. -/
def writeResult (outcome : Outcome) : IO Outcome :=
  match outcome.written with
  | none => return outcome
  | some (path, package) => do
    try
      IO.FS.writeFile path (PackageFile.written package)
      return outcome
    catch _ =>
      return .unwritten path outcome.skipped

/-- Answers a command line and carries the answer out. -/
def carryOut (args : List String) : IO UInt32 := do
  let data := (dataFile? args).toList
  let values := valuesFor (← readDisk data) args
  let outcome ← writeResult (run (← readDisk (data ++ filesFor args values)) args)
  IO.print outcome.stdout
  outcome.messages.forM fun line => IO.eprintln line
  return UInt32.ofNat outcome.code

end SheetTemplate.Command

def main (args : List String) : IO UInt32 := SheetTemplate.Command.carryOut args
