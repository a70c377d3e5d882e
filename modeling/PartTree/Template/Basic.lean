import PartTree.Json.Value

/-!
Templates: which fields a node of a type has, and what stands in a field that is missing.

All types share the master fields; a registered type adds its own, whose defaults go before those of
the master.
-/

namespace PartTree

structure Template where
  typeName : String
  fields : Object

/-- The own fields of each registered type. -/
abbrev Registry := KeyMap Object none

namespace Template

def declares (t : Template) (key : String) : Bool := t.fields.contains key

def default? (t : Template) (key : String) : Option Value := t.fields.find? key

def toValue (t : Template) : Value := .object t.fields

def master : Object := KeyMap.ofList [
  ("position", .ofInts [0, 0, 0]),
  ("rotation", .ofInts [0, 0, 0]),
  ("repeat", .object (KeyMap.ofList [
    ("times", .number (.whole 1)),
    ("position", .ofInts [0, 0, 0]),
    ("rotation", .ofInts [0, 0, 0])])),
  ("_dustbin", .object .nil)]

/-- The template of a type with its own fields. -/
def ofOwn (typeName : String) (own : Object) : Template :=
  ⟨typeName, own.layOver (master.insert "type" (.string typeName))⟩

theorem find?_ofOwn (typeName : String) (own : Object) (key : String) :
    (ofOwn typeName own).fields.find? key =
      (own.find? key).or (if key = "type" then some (.string typeName) else master.find? key) := by
  simp [ofOwn]

end Template

namespace Registry

def builtin : Registry := KeyMap.ofList [
  ("box", KeyMap.ofList [("dimensions", .ofInts [10, 10, 10])]),
  ("cylinder", KeyMap.ofList [("radii", .ofInts [10, 15]), ("height", .number (.whole 10))]),
  ("extrude", KeyMap.ofList [
    ("points", .array [.ofInts [-45, 0], .ofInts [65, 0], .ofInts [65, 10], .ofInts [30, 15],
      .ofInts [-45, 15]]),
    ("width", .number (.whole 44))]),
  ("composite", KeyMap.ofList [("parts", .array [])]),
  ("ref", KeyMap.ofList [("name", .string "plate")])]

/-- Registers a type, or replaces it. -/
def register (registry : Registry) (typeName : String) (own : Object) : Registry :=
  registry.insert typeName own

def template? (registry : Registry) (typeName : String) : Option Template :=
  (registry.find? typeName).map (Template.ofOwn typeName)

end Registry

end PartTree
