import PartTree.Json.Printer

/-!
What the passes report on their way: the events, how grave each is, who reports it and in which
words.
-/

namespace PartTree

inductive Level
  | warn
  | debug
  deriving DecidableEq

inductive Event
  | droppedParts (found : Value)
  | replacedBag (found : Value)
  | demoted (key : String) (value : Value) (typeName : String)
  | restored (key : String)
  | expanding (name typeName : String)
  | compiled (path typeName : String)
  deriving DecidableEq

namespace Event

def level : Event → Level
  | droppedParts _ | replacedBag _ => .warn
  | demoted .. | restored _ | expanding .. | compiled .. => .debug

def origin : Event → String
  | droppedParts _ => "l3d_kernel::definition"
  | replacedBag _ | demoted .. | restored _ => "l3d_kernel::sanitize"
  | expanding .. => "l3d_kernel::compile"
  | compiled .. => "l3d::commands::compile"

def message : Event → String
  | droppedParts found => "dropping composite parts that are not an array: " ++ found.compact
  | replacedBag found => "replacing overflow bag that is not an object: " ++ found.compact
  | demoted key value typeName =>
    "demoting " ++ key ++ ": " ++ value.compact ++ " (not declared by " ++ typeName ++ ")"
  | restored key => "restoring " ++ key ++ " from overflow bag"
  | expanding name typeName => "expanding reference '" ++ name ++ "' to " ++ typeName
  | compiled path typeName => "compiled " ++ path ++ " into a " ++ typeName ++ " tree"

end Event

end PartTree
