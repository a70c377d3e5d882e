import PartTree.Definition.Writer

/-!
The nodes of a part tree and of a document: what is reached from the root through the parts of
composites. A tree is fully compiled when none of its nodes is a reference or has a repeat rule.
-/

namespace PartTree

namespace Definition

inductive Within (node : Definition) : Definition → Prop
  | root : Within node node
  | part {parts : List Definition} {a : Attributes} {part : Definition} (member : part ∈ parts)
      (inside : Within node part) : Within node (.composite (some parts) a)

/-- What holds of every node of a tree. -/
def Everywhere (P : Definition → Prop) (d : Definition) : Prop := ∀ node, Within node d → P node

variable {P : Definition → Prop} {d : Definition} {a : Attributes}

theorem Everywhere.here (all : d.Everywhere P) : P d := all d .root

@[simp] theorem everywhere_primitive {typeName : String} :
    (primitive typeName a).Everywhere P ↔ P (.primitive typeName a) := by
  constructor
  · exact Everywhere.here
  · intro here node inside
    cases inside
    exact here

@[simp] theorem everywhere_reference {name : String} :
    (reference name a).Everywhere P ↔ P (.reference name a) := by
  constructor
  · exact Everywhere.here
  · intro here node inside
    cases inside
    exact here

@[simp] theorem everywhere_childless :
    (composite none a).Everywhere P ↔ P (.composite none a) := by
  constructor
  · exact Everywhere.here
  · intro here node inside
    cases inside
    exact here

@[simp] theorem everywhere_composite {parts : List Definition} :
    (composite (some parts) a).Everywhere P ↔
      P (.composite (some parts) a) ∧ ∀ part ∈ parts, part.Everywhere P := by
  constructor
  · intro all
    exact ⟨all.here, fun part member node inside => all node (.part member inside)⟩
  · intro both node inside
    rcases both with ⟨here, below⟩
    cases inside with
    | root => exact here
    | part member inside => exact below _ member node inside

@[simp] theorem attributes_mapAttributes (d : Definition) (f : Attributes → Attributes) :
    (d.mapAttributes f).attributes = f d.attributes := by
  cases d <;> rfl

theorem Everywhere.mapAttributes {f : Attributes → Attributes} (all : d.Everywhere P)
    (here : P (d.mapAttributes f)) : (d.mapAttributes f).Everywhere P := by
  intro node inside
  cases d with
  | primitive typeName a =>
      cases inside
      exact here
  | reference name a =>
      cases inside
      exact here
  | composite parts a =>
      cases inside with
      | root => exact here
      | part member inside => exact all node (.part member inside)

/-- Induction over a tree whose hypothesis speaks of each part of a composite. -/
theorem tree_induction {motive : Definition → Prop}
    (primitive : ∀ typeName a, motive (.primitive typeName a))
    (childless : ∀ a, motive (.composite none a))
    (composite : ∀ parts a, (∀ part ∈ parts, motive part) → motive (.composite (some parts) a))
    (reference : ∀ name a, motive (.reference name a)) (d : Definition) : motive d := by
  refine @Definition.rec motive
    (fun parts => ∀ list, parts = some list → ∀ part ∈ list, motive part)
    (fun parts => ∀ part ∈ parts, motive part)
    primitive ?_ reference ?_ ?_ ?_ ?_ d
  · intro parts a each
    cases parts with
    | none => exact childless a
    | some parts => exact composite parts a (each parts rfl)
  · intro list absent
    cases absent
  · intro parts each list present
    cases present
    exact each
  · intro part member
    cases member
  · intro head tail first others part member
    rcases List.mem_cons.mp member with rfl | later
    · exact first
    · exact others part later

/-- Neither a reference nor the carrier of a repeat rule. -/
def Final (node : Definition) : Prop := node.referenceName? = none ∧ node.attributes.rule = none

theorem allCompiled_iff {parts : List Definition} :
    allCompiled parts = true ↔ ∀ part ∈ parts, part.fullyCompiled = true := by
  induction parts with
  | nil => simp [allCompiled]
  | cons part parts ih => simp [allCompiled, ih]

theorem fullyCompiled_iff (d : Definition) : d.fullyCompiled = true ↔ d.Everywhere Final := by
  induction d using tree_induction with
  | primitive typeName a => simp [fullyCompiled, Final, referenceName?, attributes]
  | childless a => simp [fullyCompiled, Final, referenceName?, attributes]
  | reference name a => simp [fullyCompiled, Final, referenceName?]
  | composite parts a each =>
      have below : (∀ part ∈ parts, part.fullyCompiled = true) ↔
          ∀ part ∈ parts, part.Everywhere Final :=
        forall₂_congr each
      simp [fullyCompiled, allCompiled_iff, below, Final, referenceName?, attributes]

end Definition

namespace Value

/-- The nodes of a document, found under `parts` where the type is that of a composite. -/
inductive Within (node : Value) : Value → Prop
  | root : Within node node
  | part {fields : Object} {items : List Value} {item : Value}
      (composite : fields.find? "type" = some (.string "composite"))
      (parts : fields.find? "parts" = some (.array items)) (member : item ∈ items)
      (inside : Within node item) : Within node (.object fields)

theorem size_lt_sizeItems {items : List Value} {item : Value} (member : item ∈ items) :
    item.size < sizeItems items := by
  induction items with
  | nil => cases member
  | cons head tail ih =>
      rw [sizeItems]
      rcases List.mem_cons.mp member with rfl | later
      · omega
      · have smaller := ih later
        omega

theorem listed_induction {motive : Value → Prop}
    (scalar : ∀ v, (∀ fields, v ≠ .object fields) → motive v)
    (object : ∀ fields, (∀ key items, fields.find? key = some (.array items) →
      ∀ item ∈ items, motive item) → motive (.object fields)) (v : Value) : motive v := by
  induction v using (measure size).wf.induction with
  | _ v smaller =>
      cases v with
      | object fields =>
          apply object
          intro key items found item member
          apply smaller
          have listed := size_le_sizeFields found
          have below := size_lt_sizeItems member
          change item.size < 1 + sizeFields fields
          rw [size] at listed
          omega
      | _ =>
          apply scalar
          intro fields same
          cases same

end Value

end PartTree
