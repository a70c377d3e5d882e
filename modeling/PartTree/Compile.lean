import PartTree.Catalog
import PartTree.Definition.Weight
import PartTree.Repeat

/-!
Compiling a tree: every reference becomes a copy of its catalog entry with the reference's own
fields laid over it, and every repeat rule becomes the copies it stands for.

The names under expansion form a chain. A name that comes up again below itself is a cycle.
-/

namespace PartTree

inductive CompileError
  | format (cause : FormatError)
  | unresolved (name : String)
  | cycle (chain : List String)
  deriving DecidableEq

def unresolvedMessage (name : String) : String :=
  "no object found for reference name '" ++ name ++ "'"

def CompileError.message : CompileError → String
  | format cause => cause.message
  | unresolved name => unresolvedMessage name
  | cycle chain => "reference cycle detected: " ++ String.intercalate " -> " chain

namespace Definition

def overrides (d : Definition) : Object :=
  d.toObject.filter fun key _ => key != "type" && key != "name"

/-- The entry with the fields of a reference over its own. -/
def overlay (entry reference : Definition) : Logged FormatError Definition :=
  Definition.read (.object (reference.overrides.layOver entry.toObject))

end Definition

namespace Compile

/-- What an entry can add to a tree. -/
def entryWeight (entry : Definition) : Nat := 1 + Value.sizeUnder "parts" entry.toObject

theorem weight_overlay_lt {entry d : Definition} {name : String} {a : Attributes}
    (merged : (entry.overlay (.reference name a)).result = .ok d) :
    d.weight < (Definition.reference name a).weight + entryWeight entry := by
  have le := Definition.weight_read_object
    (fun parts parts_ok => Definition.weight_readParts _ parts parts_ok) merged
  have own : (Definition.reference name a).overrides.find? "parts" = a.fields.find? "parts" := by
    simp only [Definition.overrides, KeyMap.find?_filter, Definition.toObject, Attributes.toObject,
      Attributes.withField, KeyMap.find?_insert?, KeyMap.find?_insert]
    cases a.fields.find? "parts" <;> simp [Option.filter]
  simp only [Value.sizeUnder, KeyMap.find?_layOver, own, Definition.weight, entryWeight] at le ⊢
  cases inner : a.fields.find? "parts" with
  | none =>
    rw [inner, Option.none_or] at le
    simp only [Option.map_none, Option.getD_none]
    omega
  | some value =>
    rw [inner, Option.some_or] at le
    omega

variable (catalog : Catalog)

mutual

/-- A node below the references on the chain. Its own repeat rule is left to what holds it. -/
def node (chain : List String) : Definition → Logged CompileError Definition
  | .reference name a =>
    if _again : name ∈ chain then .fail (.cycle (chain ++ [name]))
    else
      match _found : catalog.find? name with
      | none => .fail (.unresolved name)
      | some entry => do
        .report (.expanding name entry.typeName)
        let ⟨d, _merged⟩ ← (entry.overlay (.reference name a)).attach.mapError .format
        node (chain ++ [name]) d
  | .composite (some parts) a => do
    let parts ← nodes chain parts
    pure (.composite (some parts) a)
  | d => pure d
termination_by d => d.weight + catalog.pending entryWeight chain
decreasing_by
  · have lighter := weight_overlay_lt _merged
    have visited := KeyMap.pending_visit entryWeight _found _again
    omega
  · simp only [Definition.weight]
    omega

/-- The parts of a composite, in which repeat rules are replaced. -/
def nodes (chain : List String) : List Definition → Logged CompileError (List Definition)
  | [] => pure []
  | part :: parts => do
    let part ← node chain part
    let parts ← nodes chain parts
    pure (part.expandRepeat :: parts)
termination_by parts => Definition.weightAll parts + catalog.pending entryWeight chain
decreasing_by
  all_goals
    simp only [Definition.weightAll]
    omega

end

theorem node_reference (chain : List String) (name : String) (a : Attributes) :
    node catalog chain (.reference name a) =
      if name ∈ chain then .fail (.cycle (chain ++ [name]))
      else
        match catalog.find? name with
        | none => .fail (.unresolved name)
        | some entry => (do
          .report (.expanding name entry.typeName)
          let d ← (entry.overlay (.reference name a)).mapError .format
          node catalog (chain ++ [name]) d) := by
  rw [node]
  split
  · rfl
  · split
    · simp only [*]
    · simp only [*]
      exact congrArg (_ >>= ·) (funext fun _ => Logged.attach_bind _ (node catalog _) _)

end Compile

namespace Catalog

def compileDefinitionLogged (catalog : Catalog) (d : Definition) : Logged CompileError Definition :=
  Definition.expandRepeat <$> Compile.node catalog [] d

def compileLogged (catalog : Catalog) (document : Value) : Logged CompileError Definition := do
  let d ← (Definition.read document).mapError .format
  catalog.compileDefinitionLogged d

def compileDefinition (catalog : Catalog) (d : Definition) : Except CompileError Definition :=
  (catalog.compileDefinitionLogged d).result

def compile (catalog : Catalog) (document : Value) : Except CompileError Definition :=
  (catalog.compileLogged document).result

end Catalog

end PartTree
