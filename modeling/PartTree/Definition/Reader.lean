import PartTree.Definition.Basic
import PartTree.Definition.FormatError
import PartTree.Logged

/-!
Reading a node from a document.

The structural fields are checked in a fixed order: type, position, rotation, repeat, overflow bag,
and then the name of a reference or the parts of a composite. All other keys are kept as they stand.
-/

namespace PartTree

/-- Reads the field of a key if it is there. -/
def KeyMap.readField? {ε α : Type} (fields : Object) (key : String) (read : Value → Except ε α) :
    Except ε (Option α) :=
  match fields.find? key with
  | none => .ok none
  | some value => some <$> read value

namespace Vec

def ofItems (slot : Slot) : List Value → Except FormatError Vec
  | [] => .ok []
  | .number n :: items => (n :: ·) <$> ofItems slot items
  | item :: _ => .error (.malformed slot (.expected .number item))

def ofValue (slot : Slot) : Value → Except FormatError Vec
  | .array items => ofItems slot items
  | found => .error (.malformed slot (.expected .numbers found))

end Vec

namespace RepeatRule

def countOfValue (value : Value) : Except FormatError UInt64 :=
  let count? := match value with
    | .number n => n.toUInt64?
    | _ => none
  match count? with
  | some count => .ok count
  | none => .error (.malformed .repeatTimes (.expected .count value))

/-- A rule without a number of times makes no copies. -/
def ofValue : Value → Except FormatError RepeatRule
  | .object rule => do
    let times ← rule.readField? "times" countOfValue
    let position ← rule.readField? "position" (Vec.ofValue .repeatPosition)
    let rotation ← rule.readField? "rotation" (Vec.ofValue .repeatRotation)
    pure ⟨times.getD 0, position, rotation⟩
  | found => .error (.malformed .repeatRule (.expected .object found))

end RepeatRule

namespace Definition

def bagOfValue : Value → Except FormatError Object
  | .object bag => .ok bag
  | found => .error (.malformed .overflow (.expected .object found))

/-- The keys with a meaning in every node. -/
def isStructural (key : String) : Bool :=
  key == "type" || key == "position" || key == "rotation" || key == "repeat" || key == "_dustbin"

def readHeader (fields : Object) : Except FormatError (String × Attributes) :=
  match fields.find? "type" with
  | some (.string typeName) => do
    let position ← fields.readField? "position" (Vec.ofValue .position)
    let rotation ← fields.readField? "rotation" (Vec.ofValue .rotation)
    let rule ← fields.readField? "repeat" RepeatRule.ofValue
    let overflow ← fields.readField? "_dustbin" bagOfValue
    let others := fields.filter fun key _ => !isStructural key
    pure (typeName, ⟨position, rotation, rule, overflow, others⟩)
  | _ => .error .missingType

def readName (fields : Object) : Except FormatError String :=
  match fields.find? "name" with
  | some (.string name) => .ok name
  | some found => .error (.malformed .name (.expected .string found))
  | none => .error (.malformed .name .unnamedReference)

end Definition

namespace Attributes

def eraseField (a : Attributes) (key : String) : Attributes :=
  { a with fields := a.fields.erase key }

end Attributes

namespace Definition

mutual

def read : Value → Logged FormatError Definition
  | .object fields => do
    let (typeName, attributes) ← .ofExcept (readHeader fields)
    if typeName = "composite" then
      let parts ← readParts fields
      pure (.composite parts (attributes.eraseField "parts"))
    else if typeName = "ref" then
      let name ← .ofExcept (readName fields)
      pure (.reference name (attributes.eraseField "name"))
    else pure (.primitive typeName attributes)
  | found => .fail (.notARecord found)

/-- The parts of a composite, if it has a list of them; anything else under their key is dropped. -/
def readParts {bound : Option String} :
    KeyMap Value bound → Logged FormatError (Option (List Definition))
  | .nil => pure none
  | .cons key _ value rest =>
    if key = "parts" then
      match value with
      | .array items => some <$> readAll items
      | found => do
        .report (.droppedParts found)
        pure none
    else readParts rest

def readAll : List Value → Logged FormatError (List Definition)
  | [] => pure []
  | item :: items => do
    let part ← read item
    let parts ← readAll items
    pure (part :: parts)

end

def ofObject (fields : Object) : Except FormatError Definition := (read (.object fields)).result

def ofValue (value : Value) : Except FormatError Definition := (read value).result

end Definition

end PartTree
