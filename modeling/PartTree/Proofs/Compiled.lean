import PartTree.Proofs.Expansion
import PartTree.Proofs.Written

/-!
What compiling leaves behind. The tree that comes out has no reference and no repeat rule at any
node, and neither has the document that is written of it.
-/

namespace PartTree

namespace Definition

/-- A node that is no reference and has nothing left to do below it. Its own rule may stand. -/
def PartsFinal : Definition → Prop
  | .reference .. => False
  | .composite (some parts) _ => ∀ part ∈ parts, part.Everywhere Final
  | _ => True

theorem PartsFinal.mapAttributes {d : Definition} (final : d.PartsFinal)
    (f : Attributes → Attributes) : (d.mapAttributes f).PartsFinal := by
  cases d with
  | primitive typeName a => trivial
  | reference name a => exact final.elim
  | composite parts a =>
      cases parts with
      | none => trivial
      | some parts => exact final

theorem PartsFinal.everywhere {d : Definition} (final : d.PartsFinal)
    (noRule : d.attributes.rule = none) : d.Everywhere Final := by
  cases d with
  | primitive typeName a => exact everywhere_primitive.mpr ⟨rfl, noRule⟩
  | reference name a => exact final.elim
  | composite parts a =>
      cases parts with
      | none => exact everywhere_childless.mpr ⟨rfl, noRule⟩
      | some parts => exact everywhere_composite.mpr ⟨⟨rfl, noRule⟩, final⟩

theorem partsFinal_of_everywhere {d : Definition} (final : d.Everywhere Final) :
    d.PartsFinal := by
  cases d with
  | primitive typeName a => trivial
  | reference name a => cases final.here.1
  | composite parts a =>
      cases parts with
      | none => trivial
      | some parts => exact (everywhere_composite.mp final).2

theorem final_expandRepeat {d : Definition} (final : d.PartsFinal) :
    d.expandRepeat.Everywhere Final := by
  rw [expandRepeat]
  split
  · rename_i noRule
    exact final.everywhere noRule
  · rename_i rule _
    refine everywhere_composite.mpr ⟨⟨rfl, rfl⟩, fun copy member => ?_⟩
    rcases List.mem_map.mp member with ⟨step, -, rfl⟩
    apply (final.mapAttributes (rule.place step)).everywhere
    rw [attributes_mapAttributes]
    rfl

end Definition

namespace Value

/-- Whether a node of a document is an object that neither names a part nor repeats. -/
def Final (node : Value) : Prop :=
  ∃ fields, node = .object fields ∧ fields.find? "repeat" = none ∧
    fields.find? "type" ≠ some (.string "ref")

end Value

namespace Definition

theorem final_toValue {d : Definition} (keyed : d.Keyed) (final : d.Final) : d.toValue.Final := by
  refine ⟨d.toObject, rfl, ?_, ?_⟩
  · rw [find?_repeat_toObject keyed, final.2]
    rfl
  · rw [find?_type_toObject]
    intro same
    cases d with
    | primitive typeName a =>
        cases same
        exact keyed.2.1 rfl
    | reference name a => cases final.1
    | composite parts a => simp [typeName] at same

theorem final_of_within {d : Definition} (canonical : d.Canonical) (final : d.Everywhere Final)
    {v : Value} (inside : Value.Within v d.toValue) : v.Final := by
  rcases exists_node_of_within canonical inside with ⟨node, within, rfl⟩
  exact final_toValue (canonical node within) (final node within)

end Definition

namespace Compile

variable {catalog : Catalog} {chain : List String} {d r : Definition}

theorem partsFinal_of_node (ok : (node catalog chain d).result = .ok r) : r.PartsFinal := by
  induction chain, d using expansion_induction catalog generalizing r with
  | primitive chain typeName a =>
      rcases node_primitive_eq_ok.mp ok with rfl
      trivial
  | childless chain a =>
      rcases node_childless_eq_ok.mp ok with rfl
      trivial
  | composite chain parts a each =>
      rcases node_composite_eq_ok.mp ok with ⟨compiled, rfl, related⟩
      intro result member
      rcases exists_left_of_forall₂ related member with ⟨part, inside, d, part_ok, rfl⟩
      exact Definition.final_expandRepeat (each part inside part_ok)
  | reference chain name a below =>
      rcases node_reference_eq_ok.mp ok with ⟨fresh, entry, d, found, merged, rest⟩
      exact below entry d fresh found merged rest

/-- Where nothing is left to do, compiling does nothing. -/
theorem node_of_partsFinal (final : d.PartsFinal) : (node catalog chain d).result = .ok d := by
  induction d using Definition.tree_induction with
  | primitive typeName a => exact node_primitive_eq_ok.mpr rfl
  | childless a => exact node_childless_eq_ok.mpr rfl
  | reference name a => exact final.elim
  | composite parts a each =>
      refine node_composite_eq_ok.mpr ⟨parts, rfl, List.forall₂_same.mpr ?_⟩
      intro part member
      have part_final := final part member
      exact ⟨part, each part member (Definition.partsFinal_of_everywhere part_final),
        Definition.expandRepeat_of_no_rule part_final.here.2⟩

/-- Whether a document is read as a tree that compiles, below some names, to another. -/
def CompilesTo (catalog : Catalog) (chain : List String) (document : Value) (r : Definition) :
    Prop :=
  ∃ d, (Definition.read document).result = .ok d ∧ (node catalog chain d).result = .ok r

/-- What is laid over an entry is read again, so the entries need not be canonical. -/
theorem canonical_of_node (canonical : d.Canonical) (ok : (node catalog chain d).result = .ok r) :
    r.Canonical := by
  induction chain, d using expansion_induction catalog generalizing r with
  | primitive chain typeName a =>
      rcases node_primitive_eq_ok.mp ok with rfl
      exact canonical
  | childless chain a =>
      rcases node_childless_eq_ok.mp ok with rfl
      exact canonical
  | composite chain parts a each =>
      rcases node_composite_eq_ok.mp ok with ⟨compiled, rfl, related⟩
      have keyed := canonical.here
      have below := (Definition.everywhere_composite.mp canonical).2
      refine Definition.everywhere_composite.mpr ⟨keyed, fun result member => ?_⟩
      rcases exists_left_of_forall₂ related member with ⟨part, inside, d, part_ok, rfl⟩
      exact Definition.canonical_expandRepeat (each part inside (below part inside) part_ok)
  | reference chain name a below =>
      rcases node_reference_eq_ok.mp ok with ⟨fresh, entry, d, found, merged, rest⟩
      exact below entry d fresh found merged (Definition.canonical_of_read merged) rest

end Compile

namespace Catalog

variable {catalog : Catalog} {document : Value} {d r : Definition}

theorem compileDefinition_eq_node (catalog : Catalog) (d : Definition) :
    catalog.compileDefinition d =
      Definition.expandRepeat <$> (Compile.node catalog [] d).result := by
  rw [compileDefinition, compileDefinitionLogged, Logged.result_map]

theorem compileDefinition_eq_ok :
    catalog.compileDefinition d = .ok r ↔
      ∃ compiled, (Compile.node catalog [] d).result = .ok compiled ∧
        compiled.expandRepeat = r := by
  rw [compileDefinition_eq_node, map_eq_ok]

theorem compile_eq_compileDefinition (catalog : Catalog)
    (read_ok : Definition.ofValue document = .ok d) :
    catalog.compile document = catalog.compileDefinition d := by
  rw [Definition.ofValue] at read_ok
  rw [compile, compileLogged, Logged.result_bind, Logged.result_mapError, read_ok]
  rfl

theorem compile_eq_error_of_ofValue (catalog : Catalog) {cause : FormatError}
    (rejected : Definition.ofValue document = .error cause) :
    catalog.compile document = .error (.format cause) := by
  rw [Definition.ofValue] at rejected
  rw [compile, compileLogged, Logged.result_bind, Logged.result_mapError, rejected]
  rfl

theorem compile_eq_ok :
    catalog.compile document = .ok r ↔
      ∃ d, Definition.ofValue document = .ok d ∧ catalog.compileDefinition d = .ok r := by
  cases accepted : Definition.ofValue document with
  | error cause => simp [compile_eq_error_of_ofValue catalog accepted]
  | ok d => simp [compile_eq_compileDefinition catalog accepted]

theorem compile_eq_ok_iff_compilesTo :
    catalog.compile document = .ok r ↔
      ∃ d, Compile.CompilesTo catalog [] document d ∧ d.expandRepeat = r := by
  rw [compile_eq_ok]
  constructor
  · intro found
    obtain ⟨d, read_ok, ok⟩ := found
    obtain ⟨compiled, node_ok, same⟩ := compileDefinition_eq_ok.mp ok
    exact ⟨compiled, ⟨d, read_ok, node_ok⟩, same⟩
  · intro found
    obtain ⟨compiled, ⟨d, read_ok, node_ok⟩, same⟩ := found
    exact ⟨d, read_ok, compileDefinition_eq_ok.mpr ⟨compiled, node_ok, same⟩⟩

theorem everywhere_final_of_compileDefinition (ok : catalog.compileDefinition d = .ok r) :
    r.Everywhere Definition.Final := by
  rcases compileDefinition_eq_ok.mp ok with ⟨compiled, node_ok, rfl⟩
  exact Definition.final_expandRepeat (Compile.partsFinal_of_node node_ok)

theorem canonical_of_compileDefinition (canonical : d.Canonical)
    (ok : catalog.compileDefinition d = .ok r) : r.Canonical := by
  rcases compileDefinition_eq_ok.mp ok with ⟨compiled, node_ok, rfl⟩
  exact Definition.canonical_expandRepeat (Compile.canonical_of_node canonical node_ok)

theorem final_of_within_compiled (read_ok : Definition.ofValue document = .ok d)
    (ok : catalog.compileDefinition d = .ok r) {node : Value}
    (inside : Value.Within node r.toValue) : node.Final := by
  have canonical := canonical_of_compileDefinition (Definition.canonical_of_read read_ok) ok
  exact Definition.final_of_within canonical (everywhere_final_of_compileDefinition ok) inside

/-- What compiles is free of references and repeat rules, whatever the catalog holds. So is the
document written of it, if the tree itself was read from a document. -/
theorem compiled_everywhere_final (catalog : Catalog) :
    (∀ d r, catalog.compileDefinition d = .ok r →
      r.fullyCompiled = true ∧ r.Everywhere Definition.Final ∧
        ∀ document, Definition.ofValue document = .ok d →
          ∀ node, Value.Within node r.toValue → node.Final) ∧
    (∀ document r, catalog.compile document = .ok r →
      r.fullyCompiled = true ∧ r.Everywhere Definition.Final ∧
        ∀ node, Value.Within node r.toValue → node.Final) := by
  constructor
  · intro d r ok
    have final := everywhere_final_of_compileDefinition ok
    refine ⟨(Definition.fullyCompiled_iff r).mpr final, final, ?_⟩
    intro document read_ok node inside
    exact final_of_within_compiled read_ok ok inside
  · intro document r ok
    rcases compile_eq_ok.mp ok with ⟨d, read_ok, d_ok⟩
    have final := everywhere_final_of_compileDefinition d_ok
    refine ⟨(Definition.fullyCompiled_iff r).mpr final, final, ?_⟩
    intro node inside
    exact final_of_within_compiled read_ok d_ok inside

def railCatalog : Catalog := KeyMap.ofList [
  ("rail", .primitive "box" ⟨none, none, some ⟨2, some [.ofUInt64 2], none⟩, none, .nil⟩),
  ("alias", .reference "rail" ⟨some [.ofUInt64 5], none, none, none, .nil⟩)]

def aliasDocument : Value := .object (KeyMap.ofList [
  ("type", .string "ref"),
  ("name", .string "alias"),
  ("repeat", .object (KeyMap.ofList [("times", .number (.ofUInt64 1))]))])

def aliasDefinition : Definition :=
  .reference "alias" ⟨none, none, some ⟨1, none, none⟩, none, .nil⟩

def aliasCompiled : Definition :=
  .composite (some [.primitive "box" ⟨some [.ofUInt64 5], some zeroVec, none, none, .nil⟩])
    ⟨none, none, none, none, .nil⟩

theorem compiled_alias_everywhere_final :
    (Definition.ofValue aliasDocument = .ok aliasDefinition ∧
      railCatalog.compileDefinition aliasDefinition = .ok aliasCompiled ∧
      railCatalog.compile aliasDocument = .ok aliasCompiled) ∧
    aliasCompiled.fullyCompiled = true ∧ aliasCompiled.Everywhere Definition.Final ∧
      ∀ node, Value.Within node aliasCompiled.toValue → node.Final := by
  have read_ok : Definition.ofValue aliasDocument = .ok aliasDefinition := by decide +kernel
  have ok : railCatalog.compileDefinition aliasDefinition = .ok aliasCompiled := by
    decide +kernel
  have document_ok : railCatalog.compile aliasDocument = .ok aliasCompiled := by decide +kernel
  have final := (compiled_everywhere_final railCatalog).1 aliasDefinition aliasCompiled ok
  have written := (compiled_everywhere_final railCatalog).2 aliasDocument aliasCompiled document_ok
  exact ⟨⟨read_ok, ok, document_ok⟩, written.1, written.2.1, final.2.2 aliasDocument read_ok⟩

end Catalog

end PartTree
