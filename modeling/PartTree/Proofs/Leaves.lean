import Mathlib.Algebra.BigOperators.Ring.List
import Mathlib.Algebra.Ring.Nat
import PartTree.Proofs.Compiled
import PartTree.Proofs.Layers

/-!
The primitive parts of a tree, in order. What a tree stands for is read off the source: the parts of
a composite one after the other, each list as often as a rule says, and behind a reference what its
entry stands for under its own fields. Compiling gives exactly these parts, and as many of each as
the product of the rules on the way down to it.
-/

namespace PartTree

/-- What a primitive part keeps wherever it is put. -/
structure Leaf where
  typeName : String
  fields : Object
  overflow : Option Object
  deriving DecidableEq

namespace Definition

mutual

/-- The primitive parts of a tree as it stands, from left to right. -/
def leaves : Definition → List Leaf
  | .primitive typeName a => [⟨typeName, a.fields, a.overflow⟩]
  | .composite none _ => []
  | .composite (some parts) _ => leavesAll parts
  | .reference .. => []

def leavesAll : List Definition → List Leaf
  | [] => []
  | part :: parts => part.leaves ++ leavesAll parts

end

end Definition

def repeated {α : Type} (times : Nat) (xs : List α) : List α := (List.replicate times xs).flatten

/-- What the rule of a node, if it has one, makes of what is below it. -/
def Attributes.ruled {α : Type} (copies : Nat → List α → List α) (a : Attributes)
    (below : List α) : List α :=
  match a.rule with
  | none => below
  | some rule => copies rule.times.toNat below

namespace Catalog

/-- What is gathered from a tree: something from each primitive part, in the order of the parts, all
of it subject to the rules above. A reference gives what its entry gives under its own fields. -/
inductive Gathers {α : Type} (catalog : Catalog) (leaf : Leaf → α)
    (copies : Nat → List α → List α) : Definition → List α → Prop
  | primitive (typeName : String) (a : Attributes) :
      Gathers catalog leaf copies (.primitive typeName a)
        (a.ruled copies [leaf ⟨typeName, a.fields, a.overflow⟩])
  | childless (a : Attributes) : Gathers catalog leaf copies (.composite none a) (a.ruled copies [])
  | composite {parts : List Definition} (a : Attributes) {lists : List (List α)}
      (each : List.Forall₂ (Gathers catalog leaf copies) parts lists) :
      Gathers catalog leaf copies (.composite (some parts) a) (a.ruled copies lists.flatten)
  | reference {name : String} {a : Attributes} {entry d : Definition} {gathered : List α}
      (found : catalog.find? name = some entry)
      (merged : (entry.overlay (.reference name a)).result = .ok d)
      (below : Gathers catalog leaf copies d gathered) :
      Gathers catalog leaf copies (.reference name a) gathered

/-- The primitive parts that a tree stands for. -/
def StandsFor (catalog : Catalog) : Definition → List Leaf → Prop := catalog.Gathers id repeated

/-- A primitive part of the source, with the numbers of copies in the rules on the way to it. -/
structure Source where
  leaf : Leaf
  times : List Nat
  deriving DecidableEq

def Source.below (n : Nat) (source : Source) : Source := { source with times := n :: source.times }

/-- The primitive parts of the source, each once for each way down to it. -/
def DrawsOn (catalog : Catalog) : Definition → List Source → Prop :=
  catalog.Gathers (fun leaf => ⟨leaf, []⟩) fun n => List.map (Source.below n)

end Catalog

namespace Definition

variable {d : Definition} {f : Attributes → Attributes}

theorem leavesAll_eq_flatten (parts : List Definition) :
    leavesAll parts = (parts.map leaves).flatten := by
  induction parts with
  | nil => rfl
  | cons part parts ih => rw [leavesAll, ih, List.map_cons, List.flatten_cons]

theorem leaves_mapAttributes (fields : (f d.attributes).fields = d.attributes.fields)
    (overflow : (f d.attributes).overflow = d.attributes.overflow) :
    (d.mapAttributes f).leaves = d.leaves := by
  cases d with
  | reference name a => rfl
  | primitive typeName a =>
      simp only [attributes] at fields overflow
      simp only [mapAttributes, leaves, fields, overflow]
  | composite parts a => cases parts <;> rfl

theorem leaves_expandRepeat (d : Definition) :
    d.expandRepeat.leaves = d.attributes.ruled repeated d.leaves := by
  cases ruled : d.attributes.rule with
  | none => rw [expandRepeat_of_no_rule ruled, Attributes.ruled, ruled]
  | some rule =>
      have copied : (rule.copies d).map leaves = List.replicate rule.times.toNat d.leaves := by
        rw [RepeatRule.copies, List.map_map, List.eq_replicate_iff]
        constructor
        · rw [List.length_map, List.length_range]
        · intro copy member
          rcases List.mem_map.mp member with ⟨step, -, rfl⟩
          exact leaves_mapAttributes rfl rfl
      rw [expandRepeat_of_rule ruled, leaves, leavesAll_eq_flatten, copied, Attributes.ruled, ruled]
      rfl

end Definition

namespace Catalog

variable {α : Type} {catalog : Catalog} {leaf : Leaf → α} {copies : Nat → List α → List α}
variable {a : Attributes} {gathered : List α}

theorem gathers_primitive_iff {typeName : String} :
    catalog.Gathers leaf copies (.primitive typeName a) gathered ↔
      gathered = a.ruled copies [leaf ⟨typeName, a.fields, a.overflow⟩] := by
  constructor
  · intro gathers
    cases gathers
    rfl
  · intro same
    rw [same]
    exact .primitive typeName a

theorem gathers_childless_iff :
    catalog.Gathers leaf copies (.composite none a) gathered ↔ gathered = a.ruled copies [] := by
  constructor
  · intro gathers
    cases gathers
    rfl
  · intro same
    rw [same]
    exact .childless a

theorem gathers_composite_iff {parts : List Definition} :
    catalog.Gathers leaf copies (.composite (some parts) a) gathered ↔
      ∃ lists, List.Forall₂ (catalog.Gathers leaf copies) parts lists ∧
        gathered = a.ruled copies lists.flatten := by
  constructor
  · intro gathers
    cases gathers with
    | composite a each => exact ⟨_, each, rfl⟩
  · intro found
    rcases found with ⟨lists, each, rfl⟩
    exact .composite a each

theorem gathers_reference_iff {name : String} :
    catalog.Gathers leaf copies (.reference name a) gathered ↔
      ∃ entry d, catalog.find? name = some entry ∧
        (entry.overlay (.reference name a)).result = .ok d ∧
        catalog.Gathers leaf copies d gathered := by
  constructor
  · intro gathers
    cases gathers with
    | reference found merged below => exact ⟨_, _, found, merged, below⟩
  · intro found
    rcases found with ⟨entry, d, found, merged, below⟩
    exact .reference found merged below

/-- Whether a relation to lists of primitive parts holds of each part, and is kept when lists are
put together and when they are copied. -/
structure Follows (leaf : Leaf → α) (copies : Nat → List α → List α)
    (R : List α → List Leaf → Prop) : Prop where
  nil : R [] []
  single : ∀ l, R [leaf l] [l]
  append : ∀ {xs ys ls ms}, R xs ls → R ys ms → R (xs ++ ys) (ls ++ ms)
  copies : ∀ n {xs ls}, R xs ls → R (copies n xs) (repeated n ls)

namespace Follows

variable {R : List α → List Leaf → Prop} (follows : Follows leaf copies R)

include follows

theorem ruled {below : List α} {leaves : List Leaf} (related : R below leaves) :
    R (a.ruled copies below) (a.ruled repeated leaves) := by
  rw [Attributes.ruled, Attributes.ruled]
  cases a.rule with
  | none => exact related
  | some rule => exact follows.copies rule.times.toNat related

theorem parts {P : Definition → List α → Prop} {parts results : List Definition}
    (each : List.Forall₂ (fun part result => ∃ gathered,
      (∀ other, P part other ↔ other = gathered) ∧ R gathered result.leaves) parts results) :
    ∃ lists, (∀ others, List.Forall₂ P parts others ↔ others = lists) ∧
      R lists.flatten (Definition.leavesAll results) := by
  induction each with
  | nil => exact ⟨[], fun others => List.forall₂_nil_left_iff, follows.nil⟩
  | cons here _ ih =>
      rcases here with ⟨gathered, first, related⟩
      rcases ih with ⟨lists, rest, all_related⟩
      refine ⟨gathered :: lists, fun others => ?_, follows.append related all_related⟩
      simp only [List.forall₂_cons_left_iff, first, rest]
      constructor
      · intro found
        rcases found with ⟨_, _, rfl, rfl, rfl⟩
        rfl
      · intro same
        exact ⟨gathered, lists, rfl, rfl, same⟩

/-- A tree that compiles gathers in only one way, and what it gathers follows the primitive parts of
what it compiles to. -/
theorem node {chain : List String} {d r : Definition}
    (ok : (Compile.node catalog chain d).result = .ok r) :
    ∃ gathered, (∀ other, catalog.Gathers leaf copies d other ↔ other = gathered) ∧
      R gathered r.expandRepeat.leaves := by
  induction chain, d using Compile.expansion_induction catalog generalizing r with
  | primitive chain typeName a =>
      rcases Compile.node_primitive_eq_ok.mp ok with rfl
      refine ⟨_, fun other => gathers_primitive_iff, ?_⟩
      rw [Definition.leaves_expandRepeat]
      exact follows.ruled (follows.single _)
  | childless chain a =>
      rcases Compile.node_childless_eq_ok.mp ok with rfl
      refine ⟨_, fun other => gathers_childless_iff, ?_⟩
      rw [Definition.leaves_expandRepeat]
      exact follows.ruled follows.nil
  | composite chain parts a each =>
      rcases Compile.node_composite_eq_ok.mp ok with ⟨compiled, rfl, related⟩
      have gathered_each := forall₂_of_mem related (S := fun part result => ∃ gathered,
          (∀ other, catalog.Gathers leaf copies part other ↔ other = gathered) ∧
            R gathered result.leaves) (by
        intro part member result part_compiled
        rcases part_compiled with ⟨d, part_ok, rfl⟩
        exact each part member part_ok)
      rcases follows.parts gathered_each with ⟨lists, unique, all_related⟩
      refine ⟨a.ruled copies lists.flatten, fun other => ?_, ?_⟩
      · rw [gathers_composite_iff]
        simp only [unique, exists_eq_left]
      · rw [Definition.leaves_expandRepeat]
        exact follows.ruled all_related
  | reference chain name a below =>
      rcases Compile.node_reference_eq_ok.mp ok with ⟨fresh, entry, d, found, merged, rest⟩
      rcases below entry d fresh found merged rest with ⟨gathered, unique, related⟩
      refine ⟨gathered, fun other => ?_, related⟩
      rw [gathers_reference_iff, ← unique]
      constructor
      · intro gathers
        rcases gathers with ⟨again, e, present, remerged, gathers⟩
        cases found.symm.trans present
        cases merged.symm.trans remerged
        exact gathers
      · intro gathers
        exact ⟨entry, d, found, merged, gathers⟩

end Follows

theorem follows_repeated : Follows id repeated Eq where
  nil := rfl
  single _ := rfl
  append first second := congrArg₂ _ first second
  copies n _ _ same := congrArg (repeated n) same

def Source.count (source : Source) : Nat := source.times.prod

theorem sum_count_below (n : Nat) (sources : List Source) :
    ((sources.map (Source.below n)).map Source.count).sum = n * (sources.map Source.count).sum := by
  calc
    ((sources.map (Source.below n)).map Source.count).sum =
        (sources.map fun source => n * source.count).sum := by
      rw [List.map_map]
      congr 1
    _ = n * (sources.map Source.count).sum := List.sum_map_mul_left ..

theorem follows_count :
    Follows (fun leaf => ⟨leaf, []⟩) (fun n => List.map (Source.below n))
      fun sources leaves => leaves.length = (sources.map Source.count).sum where
  nil := rfl
  single _ := rfl
  append first second := by
    rw [List.length_append, List.map_append, List.sum_append, first, second]
  copies n sources leaves counted := by
    rw [sum_count_below, ← counted, repeated, List.length_flatten, List.map_replicate,
      List.sum_replicate_nat]

variable {d r : Definition}

/-- A tree that compiles stands for one list of primitive parts, which is that of the compiled tree,
in the same order and as they are in the source. There are as many as the rules on the way down to
each part of the source multiply to, and a rule of a reference goes before that of its entry. -/
theorem standsFor_compiled (ok : catalog.compileDefinition d = .ok r) :
    (∀ leaves, catalog.StandsFor d leaves ↔ leaves = r.leaves) ∧
    (∃ sources, (∀ others, catalog.DrawsOn d others ↔ others = sources) ∧
      r.leaves.length = (sources.map Source.count).sum) ∧
    ∀ name a entry merged rule, (Definition.overlay entry (.reference name a)).result = .ok merged →
      a.rule = some rule → merged.attributes.rule = some rule := by
  rcases compileDefinition_eq_ok.mp ok with ⟨compiled, node_ok, rfl⟩
  refine ⟨?_, follows_count.node node_ok, ?_⟩
  · rcases follows_repeated.node node_ok with ⟨leaves, unique, same⟩
    rw [← same]
    exact unique
  · intro name a entry merged rule merges ruled
    exact Definition.rule_of_overlay merges ruled

def yardPost : Definition :=
  .primitive "post" ⟨none, none, none, none, KeyMap.ofList [("color", .string "red")]⟩

def yardRail (name : String) (position : Option Vec) : Definition :=
  .reference name ⟨position, none, some ⟨3, none, none⟩, none, .nil⟩

def yard : Definition :=
  .composite (some [yardPost, .reference "rail" ⟨none, none, none, none, .nil⟩,
    yardRail "alias" none]) ⟨none, none, some ⟨2, none, none⟩, none, .nil⟩

def yardBoxes (count : Nat) (position : Vec) : Definition :=
  .composite (some (List.replicate count
    (.primitive "box" ⟨some position, some zeroVec, none, none, .nil⟩)))
    ⟨none, none, none, none, .nil⟩

def yardCompiled : Definition :=
  .composite (some (List.replicate 2 (.composite
    (some [yardPost, yardBoxes 2 zeroVec, yardBoxes 3 [.ofUInt64 5]])
    ⟨some zeroVec, some zeroVec, none, none, .nil⟩))) ⟨none, none, none, none, .nil⟩

def yardPostLeaf : Leaf := ⟨"post", KeyMap.ofList [("color", .string "red")], none⟩

def yardBoxLeaf : Leaf := ⟨"box", .nil, none⟩

def yardEntry : Definition :=
  .primitive "box" ⟨none, none, some ⟨2, some [.ofUInt64 2], none⟩, none, .nil⟩

def yardMerged : Definition :=
  .primitive "box" ⟨some [.ofUInt64 5], none, some ⟨3, none, none⟩, none, .nil⟩

theorem drawsOn_yard : railCatalog.DrawsOn yard
    [⟨yardPostLeaf, [2]⟩, ⟨yardBoxLeaf, [2, 2]⟩, ⟨yardBoxLeaf, [2, 3]⟩] := by
  have railed : railCatalog.find? "rail" = some yardEntry := by decide +kernel
  have aliased : railCatalog.find? "alias" =
      some (.reference "rail" ⟨some [.ofUInt64 5], none, none, none, .nil⟩) := by
    decide +kernel
  have post : railCatalog.DrawsOn yardPost [⟨yardPostLeaf, []⟩] := .primitive _ _
  have two : railCatalog.DrawsOn (.reference "rail" ⟨none, none, none, none, .nil⟩)
      [⟨yardBoxLeaf, [2]⟩] :=
    .reference (d := yardEntry) railed (by decide +kernel) (.primitive _ _)
  have moved : railCatalog.DrawsOn (yardRail "rail" (some [.ofUInt64 5])) [⟨yardBoxLeaf, [3]⟩] :=
    .reference (d := yardMerged) railed (by decide +kernel) (.primitive _ _)
  have three : railCatalog.DrawsOn (yardRail "alias" none) [⟨yardBoxLeaf, [3]⟩] :=
    .reference aliased (by decide +kernel) moved
  exact .composite _ (.cons post (.cons two (.cons three .nil)))

theorem standsFor_compiled_yard :
    (railCatalog.compileDefinition yard = .ok yardCompiled ∧
      (yardEntry.overlay (yardRail "rail" (some [.ofUInt64 5]))).result = .ok yardMerged) ∧
    railCatalog.StandsFor yard (repeated 2 (yardPostLeaf :: List.replicate 5 yardBoxLeaf)) ∧
    yardCompiled.leaves.length = 2 + 2 * 2 + 2 * 3 ∧
    yardMerged.attributes.rule = some ⟨3, none, none⟩ := by
  have ok : railCatalog.compileDefinition yard = .ok yardCompiled := by decide +kernel
  have merged : (yardEntry.overlay (yardRail "rail" (some [.ofUInt64 5]))).result =
      .ok yardMerged := by
    decide +kernel
  rcases standsFor_compiled ok with ⟨leaves, ⟨sources, drawn, counted⟩, ruled⟩
  refine ⟨⟨ok, merged⟩, (leaves _).mpr (by decide +kernel), ?_, ruled _ _ _ _ _ merged rfl⟩
  rw [counted, ← (drawn _).mp drawsOn_yard]
  decide

end Catalog

end PartTree
