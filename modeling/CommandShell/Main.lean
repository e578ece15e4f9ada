import CommandShell.Startup

/-! # The program

The shell works on a file system of its own in memory. It starts with the working directory, the two
variables of the environment that a shell knows, and the settings file if one is named on the
command line.
-/
namespace CommandShell

partial def readAll (stream : IO.FS.Stream) (before : Array Read := #[]) : IO (List Read) := do
  let line ← stream.getLine
  if line.isEmpty then return before.toList
  else readAll stream (before.push (.line line))

def settingsFile? (arguments : List String) : IO (Option (String × ByteArray)) := do
  match CommandLine.request arguments with
  | .start (some path) _ =>
    try return some (path, ← IO.FS.readBinFile path)
    catch _ => return none
  | _ => return none

def initialWorld (dir : String) (environment : Table String String)
    (file : Option (String × ByteArray)) : World :=
  let fs := FileSystem.ensureDirectory {} (Location.ofText dir)
  let fs := match file with
    | some (path, content) =>
      fs.add (Location.ofText (Path.resolve path dir)) (.file {} content none)
    | none => fs
  { fs, environment, processDir := dir }

end CommandShell

open CommandShell in
def main (arguments : List String) : IO UInt32 := do
  let dir := (← IO.currentDir).toString
  let mut environment := []
  for v in [Variable.searchPath, Variable.home] do
    if let some value ← IO.getEnv v.name then
      environment := (v.name, value) :: environment
  let file ← settingsFile? arguments
  let input ← readAll (← IO.getStdin)
  let terminal ← (← IO.getStderr).isTty
  let (status, w) := match Startup.start arguments input terminal (initialWorld dir environment file) with
    | .ok e w => (e.status, w)
    | .error s w => (1, { w with notices := w.notices ++ [Notice.text (s.message ++ "\n")] })
  IO.print w.output
  IO.eprint w.errors
  return (status % 256).toNat.toUInt32
