import DeclScan.Console.Standard

/-!
# DeclScan.Main

The program. It sees the files whose paths it reads from standard input, one a line, and no others;
nothing changes while it runs, so watching ends at once. All else is `Run.start`, put
together with the standard libraries.
-/

namespace DeclScan
namespace Program

def fileTime : Float := 0

/-- The lines of a stream up to its end. -/
partial def readLines (input : IO.FS.Stream) : IO (List String) := do
  let line ← input.getLine
  if line.isEmpty then return []
  let rest ← readLines input
  return line.trimAscii.toString :: rest

def addFile (store : FileStore Float) (path : String) : IO (FileStore Float) := do
  try
    let bytes ← IO.FS.readBinFile path
    return store.write path ⟨bytes.toList, fileTime⟩
  catch _ => return store

/-- The variables of the environment that have a meaning to the program. -/
def environmentNames : List String :=
  ["HOME", "NO_COLOR", "FORCE_COLOR"] ++ Settings.environmentNames

def readEnvironment : IO (Table String) := do
  let values ← environmentNames.mapM fun name => return (name, ← IO.getEnv name)
  return values.filterMap fun (name, value) => value.map fun value => (name, value)

def writeLog (run : Run) : IO Unit := do
  match run.logging.bind LogSetup.file with
  | none => return
  | some path =>
    let time := toString (← IO.monoMsNow)
    IO.FS.createDirAll (Path.parent path)
    let file ← IO.FS.Handle.mk path .append
    (run.logLines time).forM fun line => file.putStr (line ++ "\n")

def run (words : List String) : IO UInt32 := do
  let paths ← readLines (← IO.getStdin)
  let files ← paths.foldlM addFile FileStore.empty
  let run := Run.start Run.Libraries.standard
    { environment := ← readEnvironment
      files := files
      clock := 0
      keepsColor := false
      watching := WatchTime.none }
    words
  writeLog run
  (← IO.getStdout).putStr (run.streamText .out)
  (← IO.getStderr).putStr (run.streamText .err)
  return UInt32.ofNat run.exitCode.toNat

end Program
end DeclScan

def main (words : List String) : IO UInt32 := DeclScan.Program.run words
