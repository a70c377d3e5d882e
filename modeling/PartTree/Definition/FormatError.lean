import PartTree.Json.Printer

/-!
What can be wrong with the shape of a document, and how it is said.
-/

namespace PartTree

/-- The fields whose shape matters. -/
inductive Slot
  | position
  | rotation
  | repeatRule
  | repeatTimes
  | repeatPosition
  | repeatRotation
  | overflow
  | name
  deriving DecidableEq

def Slot.path : Slot → String
  | position => "position"
  | rotation => "rotation"
  | repeatRule => "repeat"
  | repeatTimes => "repeat.times"
  | repeatPosition => "repeat.position"
  | repeatRotation => "repeat.rotation"
  | overflow => "_dustbin"
  | name => "name"

inductive Shape
  | object
  | count
  | numbers
  | number
  | string
  deriving DecidableEq

def Shape.describe : Shape → String
  | object => "an object"
  | count => "a non-negative integer"
  | numbers => "an array of numbers"
  | number => "a number"
  | string => "a string"

inductive Problem
  | expected (shape : Shape) (found : Value)
  | unnamedReference
  deriving DecidableEq

def Problem.message : Problem → String
  | expected shape found => "expected " ++ shape.describe ++ ", found " ++ found.compact
  | unnamedReference => "reference has no name"

inductive FormatError
  | notARecord (found : Value)
  | missingType
  | malformed (slot : Slot) (problem : Problem)
  deriving DecidableEq

def malformedField (field reason : String) : String :=
  "malformed field \"" ++ field ++ "\": " ++ reason

def notARecordMessage (found : Value) : String :=
  "definition (or part of a definition) is not an object: " ++ found.compact

def FormatError.message : FormatError → String
  | notARecord found => notARecordMessage found
  | missingType => "definition has no string \"type\" field"
  | malformed slot problem => malformedField slot.path problem.message

end PartTree
