import PartTree.Json.Value

/-!
Nodes of a part tree: a primitive part, a composite of parts in order, or a reference to a named
part.
-/

namespace PartTree

abbrev Vec := List Number

def zeroVec : Vec := [.whole 0, .whole 0, .whole 0]

/-- Stands for so many copies of a node, each moved and turned on from the one before. -/
structure RepeatRule where
  times : UInt64
  position : Option Vec := none
  rotation : Option Vec := none
  deriving BEq, DecidableEq

/-- What a node carries besides its kind. The overflow bag keeps the fields of other types; `fields`
keeps, as they stand, the keys that have no meaning for the tree. -/
structure Attributes where
  position : Option Vec := none
  rotation : Option Vec := none
  rule : Option RepeatRule := none
  overflow : Option Object := none
  fields : Object := .nil
  deriving BEq, DecidableEq

inductive Definition
  | primitive (typeName : String) (attributes : Attributes)
  | composite (parts : Option (List Definition)) (attributes : Attributes)
  | reference (name : String) (attributes : Attributes)

namespace Definition

instance : Inhabited Definition := ⟨.composite none ⟨none, none, none, none, .nil⟩⟩

def attributes : Definition → Attributes
  | .primitive _ a | .composite _ a | .reference _ a => a

def mapAttributes (f : Attributes → Attributes) : Definition → Definition
  | .primitive typeName a => .primitive typeName (f a)
  | .composite parts a => .composite parts (f a)
  | .reference name a => .reference name (f a)

def typeName : Definition → String
  | .primitive typeName _ => typeName
  | .composite .. => "composite"
  | .reference .. => "ref"

def referenceName? : Definition → Option String
  | .reference name _ => some name
  | _ => none

def parts? : Definition → Option (List Definition)
  | .composite parts _ => parts
  | _ => none

mutual

/-- Whether no node of the tree is a reference or has a repeat rule. -/
def fullyCompiled : Definition → Bool
  | .primitive _ a => a.rule.isNone
  | .composite none a => a.rule.isNone
  | .composite (some parts) a => a.rule.isNone && allCompiled parts
  | .reference .. => false

def allCompiled : List Definition → Bool
  | [] => true
  | part :: parts => part.fullyCompiled && allCompiled parts

end

mutual

/-- Equality up to an equality of what the nodes carry. -/
def sameBy (eq : Attributes → Attributes → Bool) : Definition → Definition → Bool
  | .primitive s a, .primitive t b => s == t && eq a b
  | .composite none a, .composite none b => eq a b
  | .composite (some ps) a, .composite (some qs) b => sameAll eq ps qs && eq a b
  | .reference m a, .reference n b => m == n && eq a b
  | _, _ => false

def sameAll (eq : Attributes → Attributes → Bool) : List Definition → List Definition → Bool
  | [], [] => true
  | p :: ps, q :: qs => sameBy eq p q && sameAll eq ps qs
  | _, _ => false

end

/-- Equality of trees up to that of the numbers in them. -/
instance : BEq Definition := ⟨sameBy (· == ·)⟩

mutual

theorem sameBy_iff : (c d : Definition) → (sameBy (fun a b => decide (a = b)) c d = true ↔ c = d)
  | .primitive .., d => by rcases d with _ | ⟨_ | _, _⟩ | _ <;> simp [sameBy]
  | .reference .., d => by rcases d with _ | ⟨_ | _, _⟩ | _ <;> simp [sameBy]
  | .composite none _, d => by rcases d with _ | ⟨_ | _, _⟩ | _ <;> simp [sameBy]
  | .composite (some ps) _, .composite (some qs) _ => by simp [sameBy, sameAll_iff ps qs]
  | .composite (some _) _, .composite none _ | .composite (some _) _, .primitive ..
  | .composite (some _) _, .reference .. => by simp [sameBy]

theorem sameAll_iff : (ps qs : List Definition) →
    (sameAll (fun a b => decide (a = b)) ps qs = true ↔ ps = qs)
  | [], qs => by cases qs <;> simp [sameAll]
  | _ :: _, [] => by simp [sameAll]
  | p :: ps, q :: qs => by simp [sameAll, sameBy_iff p q, sameAll_iff ps qs]

end

instance : DecidableEq Definition := fun c d => decidable_of_iff _ (sameBy_iff c d)

end Definition

end PartTree
