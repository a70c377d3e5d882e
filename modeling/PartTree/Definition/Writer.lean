import PartTree.Definition.Basic

/-!
Writing a node as a document. A structural field goes over a key of the same name among the others.
-/

namespace PartTree

namespace Vec

def toValue (v : Vec) : Value := .array (v.map .number)

end Vec

namespace RepeatRule

def toObject (rule : RepeatRule) : Object :=
  (KeyMap.nil.insert "times" (.number (.ofUInt64 rule.times)))
    |>.insert? "position" (rule.position.map Vec.toValue)
    |>.insert? "rotation" (rule.rotation.map Vec.toValue)

def toValue (rule : RepeatRule) : Value := .object rule.toObject

end RepeatRule

namespace Attributes

/-- The fields of a node of some type. -/
def toObject (a : Attributes) (typeName : String) : Object :=
  (a.fields.insert "type" (.string typeName))
    |>.insert? "position" (a.position.map Vec.toValue)
    |>.insert? "rotation" (a.rotation.map Vec.toValue)
    |>.insert? "repeat" (a.rule.map RepeatRule.toValue)
    |>.insert? "_dustbin" (a.overflow.map Value.object)

/-- The same with the field of the node's kind, over which the structural ones go. -/
def withField (a : Attributes) (key : String) (value : Value) : Attributes :=
  { a with fields := a.fields.insert key value }

end Attributes

namespace Definition

mutual

def toObject : Definition → Object
  | .primitive typeName a => a.toObject typeName
  | .composite none a => a.toObject "composite"
  | .composite (some parts) a =>
    (a.withField "parts" (.array (toValues parts))).toObject "composite"
  | .reference name a => (a.withField "name" (.string name)).toObject "ref"

def toValues : List Definition → List Value
  | [] => []
  | part :: parts => .object part.toObject :: toValues parts

end

def toValue (d : Definition) : Value := .object d.toObject

end Definition

end PartTree
