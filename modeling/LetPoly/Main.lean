import LetPoly.Program

/-!
# The command line

The program on the real files and streams of the process.
-/

namespace LetPoly

/-- what an error of the file system means for the output file, by its number -/
def openFaultOf (path : String) : IO.Error → OpenFault
  | .noFileOrDirectory .. => .refused .fileNotFound
  | .permissionDenied _ 1 _ => .refused .noPermission
  | .permissionDenied _ 13 _ => .refused .noPermission
  | .inappropriateType _ 20 _ => .belowFile (Path.normalized path)
  | .inappropriateType _ 21 _ => .refused .pathIsFolder
  | .invalidArgument _ 36 _ => .nameTooLong (Path.normalized path)
  | e => .other (toString e)

/-- a path as the file system gets it; the empty one is the working folder -/
def filePath (path : String) : String := Path.normalized path

def processHost : Host IO where
  openFile path := do
    if path.contains '\x00' then return .error .embeddedNull
    try
      let file ← IO.FS.Handle.mk (filePath path) .append
      file.flush
      return .ok ()
    catch e => return .error (openFaultOf path e)
  writeFile path text := IO.FS.writeFile (filePath path) text
  out text := do (← IO.getStdout).putStr text
  err text := do (← IO.getStderr).putStr text
  note _ := return

end LetPoly

def main (argv : List String) : IO UInt32 := do
  match ← LetPoly.Program.run LetPoly.processHost argv with
  | .exit status => return status.toUInt32
  | .escaped e =>
    (← IO.getStderr).putStrLn e.message
    return 1
