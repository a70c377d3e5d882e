import PartTree.Command.Run

/-!
The program: reads the files that its command names, runs it, and prints the output.
-/

namespace PartTree

/-- Whether an error has a number of the system, which comes with either sign. -/
def hasCode (code number : UInt32) : Bool := code == number || code == -number

def faultOf : IO.Error → ReadFault
  | .noFileOrDirectory .. => .missing
  | .permissionDenied .. => .denied
  | .inappropriateType _ code _ => if hasCode code 20 then .notDirectory else .directory
  | e@(.invalidArgument _ code _) => if hasCode code 36 then .nameTooLong else .other (toString e)
  | e => .other (toString e)

/-- The text of a file. One that is not UTF-8 has no text and holds no document. -/
def readText (path : String) : IO (Except ReadFault String) := do
  try
    let bytes ← IO.FS.readBinFile path
    pure (.ok ((String.fromUTF8? bytes).getD ""))
  catch e => pure (.error (faultOf e))

end PartTree

open PartTree

def main (args : List String) : IO UInt32 := do
  let request := Request.parse args
  let paths := match request with
    | .run _ command => command.paths
    | _ => []
  let texts ← paths.mapM fun path => do pure (path, ← readText path)
  let files : Files := fun path =>
    (texts.lookup path).getD (.error .missing)
  let output := request.output files
  (← IO.getStdout).putStr output.stdout
  (← IO.getStderr).putStr output.stderr
  pure (UInt32.ofNat output.exit)
