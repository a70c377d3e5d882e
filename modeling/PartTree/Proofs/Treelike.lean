import PartTree.Proofs.Fitted
import PartTree.Proofs.FixedPoint
import PartTree.Proofs.Grammar
import PartTree.Proofs.Layers
import PartTree.Proofs.References

/-!
Documents in which every node that can be come to is an object with a type. Sanitizing leaves no
others, whatever the types, and reading and overlaying keep them so. When a document is prepared, a
node is therefore never found to be no record or to have no type.
-/

namespace PartTree

/-- Whether it is a field that is malformed, and not a node that is none. -/
def FormatError.OfField (e : FormatError) : Prop := ∃ slot problem, e = .malformed slot problem

namespace Value

/-- An object with a type. If parts may be read from it then so are its parts: those of a composite
are its own, those of a reference are given to its entry, which may be a composite. -/
inductive Treelike : Value → Prop
  | node {fields : Object} {typeName : String}
      (typed : fields.find? "type" = some (.string typeName))
      (parts : typeName = "composite" ∨ typeName = "ref" →
        ∀ items, fields.find? "parts" = some (.array items) → ∀ item ∈ items, Treelike item) :
      Treelike (.object fields)

variable {v item : Value} {fields : Object} {typeName : String} {items : List Value}
variable {e : FormatError}

theorem Treelike.part (tree : Treelike (.object fields))
    (typed : fields.find? "type" = some (.string typeName))
    (holds : typeName = "composite" ∨ typeName = "ref")
    (listed : fields.find? "parts" = some (.array items)) (member : item ∈ items) :
    item.Treelike := by
  cases tree with
  | node named parts =>
      cases typed.symm.trans named
      exact parts holds items listed item member

theorem ofField_of_numbersFault {slot : Slot} (fault : NumbersFault slot v e) : e.OfField := by
  rcases fault with ⟨-, named⟩ | ⟨_, _, _, -, -, named⟩
  · exact ⟨_, _, named⟩
  · exact ⟨_, _, named⟩

theorem ofField_of_ruleFault (fault : RuleFault v e) : e.OfField := by
  rcases fault with ⟨-, named⟩ | ⟨rule, -, first⟩
  · exact ⟨_, _, named⟩
  · rcases exists_of_firstOf first with ⟨violated, member, violation⟩
    simp only [ruleFaults, List.mem_cons, List.not_mem_nil, or_false] at member
    rcases member with rfl | rfl | rfl
    · rcases violation with ⟨_, -, -, named⟩
      exact ⟨_, _, named⟩
    all_goals
      rcases violation with ⟨_, -, numbers⟩
      exact ofField_of_numbersFault numbers

theorem ofField_of_headerFaults (typed : fields.find? "type" = some (.string typeName))
    (first : FirstOf (headerFaults fields) e) : e.OfField := by
  rcases exists_of_firstOf first with ⟨violated, member, violation⟩
  simp only [headerFaults, List.mem_cons, List.not_mem_nil, or_false] at member
  rcases member with rfl | rfl | rfl | rfl | rfl
  · exact absurd typed (violation.1 typeName)
  · rcases violation with ⟨_, -, numbers⟩
    exact ofField_of_numbersFault numbers
  · rcases violation with ⟨_, -, numbers⟩
    exact ofField_of_numbersFault numbers
  · rcases violation with ⟨_, -, rule⟩
    exact ofField_of_ruleFault rule
  · rcases violation with ⟨_, -, -, named⟩
    exact ⟨_, _, named⟩

/-- Reading a tree fails with a field of one of its nodes if at all. -/
theorem ofField_of_rejected (rejected : Rejected v e) (tree : v.Treelike) : e.OfField := by
  induction rejected with
  | notObject other =>
      cases tree
      exact absurd ⟨_, rfl⟩ other
  | header violation =>
      cases tree with
      | node typed _ => exact ofField_of_headerFaults typed violation
  | name header reference violation =>
      rcases violation with ⟨-, named⟩ | ⟨found, -, -, named⟩
      · exact ⟨_, _, named⟩
      · exact ⟨_, _, named⟩
  | part header composite parts passed rejected ih =>
      exact ih (tree.part composite (.inl rfl) parts (by simp))

end Value

namespace Definition

open Value (Treelike)

variable {d entry : Definition} {v : Value} {name : String} {a : Attributes}

theorem treelike_composite {parts : List Definition}
    (each : ∀ part ∈ parts, part.toValue.Treelike) :
    (composite (some parts) a).toValue.Treelike := by
  apply Treelike.node (find?_type_toObject _)
  intro _ items listed item member
  rw [find?_parts_toObject] at listed
  cases listed
  rcases List.mem_map.mp member with ⟨part, belongs, rfl⟩
  exact each part belongs

theorem treelike_part {parts : List Definition} {part : Definition}
    (tree : (composite (some parts) a).toValue.Treelike) (member : part ∈ parts) :
    part.toValue.Treelike :=
  tree.part (find?_type_toObject _) (.inl rfl) (find?_parts_toObject _)
    (List.mem_map_of_mem member)

theorem treelike_of_not_listed
    (notListed : d.typeName = "composite" ∨ d.typeName = "ref" →
      d.toObject.find? "parts" = none) : d.toValue.Treelike := by
  apply Treelike.node (find?_type_toObject d)
  intro holds items listed
  rw [notListed holds] at listed
  cases listed

theorem treelike_primitive {typeName : String} (keyed : (primitive typeName a).Keyed) :
    (primitive typeName a).toValue.Treelike := by
  apply treelike_of_not_listed
  intro holds
  rcases holds with composite | reference
  · exact absurd composite keyed.1
  · exact absurd reference keyed.2.1

theorem treelike_childless (keyed : (composite none a).Keyed) :
    (composite none a).toValue.Treelike :=
  treelike_of_not_listed fun _ => (find?_parts_toObject _).trans keyed.2

theorem treelike_of_read (tree : v.Treelike) (ok : (read v).result = .ok d) :
    d.toValue.Treelike := by
  induction d using tree_induction generalizing v with
  | primitive typeName a => exact treelike_primitive (keyed_of_read ok)
  | childless a => exact treelike_childless (keyed_of_read ok)
  | reference name a =>
      rcases eq_object_of_read_reference ok with ⟨fields, _, rfl, header, -, -⟩
      have typed := (readHeader_eq_ok header).1
      apply Treelike.node (find?_type_toObject _)
      intro _ items listed item member
      exact tree.part typed (.inr rfl) ((find?_parts_of_read_reference ok).symm.trans listed) member
  | composite parts a each =>
      rcases eq_object_of_read_composite ok with ⟨fields, b, rfl, header, parts_ok, rfl⟩
      have typed := (readHeader_eq_ok header).1
      rcases readParts_eq_some.mp parts_ok with ⟨items, listed, items_ok⟩
      rw [result_readAll, mapM_eq_ok] at items_ok
      apply treelike_composite
      intro part belongs
      rcases exists_left_of_forall₂ items_ok belongs with ⟨item, member, item_ok⟩
      exact each part belongs (tree.part typed (.inl rfl) listed member) item_ok

theorem Plain.treelike (plain : d.Plain) : d.toValue.Treelike := by
  induction d using tree_induction with
  | primitive typeName a => exact treelike_primitive plain.canonical.here
  | childless a => exact treelike_childless plain.canonical.here
  | reference name a =>
      exact treelike_of_not_listed fun _ =>
        (find?_parts_toObject _).trans plain.keepsParts.here
  | composite parts a each =>
      exact treelike_composite fun part member => each part member (plain.part member)

/-- The fields of a reference over its entry are a tree where both are. -/
theorem treelike_overlay (tree : entry.toValue.Treelike)
    (upper : (reference name a).toValue.Treelike) :
    Treelike (.object ((reference name a).overrides.layOver entry.toObject)) := by
  have typed : ((reference name a).overrides.layOver entry.toObject).find? "type" =
      some (.string entry.typeName) := by
    rw [KeyMap.find?_layOver, find?_overrides]
    exact find?_type_toObject entry
  -- The type is that of the entry: on a primitive, parts of the reference are not looked at again.
  apply Treelike.node typed
  intro holds items listed item member
  rw [KeyMap.find?_layOver, find?_overrides, if_pos (by decide)] at listed
  rcases Option.or_eq_some_iff.mp listed with own | ⟨-, below⟩
  · exact upper.part (find?_type_toObject _) (.inr rfl) own member
  · exact tree.part (find?_type_toObject entry) holds below member

theorem ofField_of_overlay {cause : FormatError} (tree : entry.toValue.Treelike)
    (upper : (reference name a).toValue.Treelike)
    (failed : (entry.overlay (.reference name a)).result = .error cause) : cause.OfField :=
  Value.ofField_of_rejected (((Value.keepsToGrammar _).2 cause).mp failed)
    (treelike_overlay tree upper)

end Definition

namespace CompileError

/-- The failures of a document that is a tree: with a field, a name, or a cycle. -/
def OfTree : CompileError → Prop
  | .format cause => cause.OfField
  | .unresolved _ => True
  | .cycle _ => True

end CompileError

namespace Registry

variable {registry : Registry} {document sanitized : Value} {fields result : Object} {t : Template}

theorem find?_type_of_fits (chosen : registry.templateOf fields = .ok t)
    (fits : t.Fits fields result) : result.find? "type" = some (.string t.typeName) := by
  calc
    result.find? "type" = t.given fields "type" := fits.top "type" (by decide) (by decide)
    _ = (t.reconcile fields).find? "type" :=
      (t.find?_reconcile_eq_given fields (by decide)).symm
    _ = fields.find? "type" := find?_type_reconcile chosen
    _ = some (.string t.typeName) := (templateOf_type chosen).1

/-- What sanitizing leaves is a tree, whatever the types are. -/
theorem treelike_of_fitted (fitted : registry.Fitted document sanitized) :
    sanitized.Treelike := by
  induction fitted with
  | leaf chosen fits noList parts =>
      apply Value.Treelike.node (find?_type_of_fits chosen fits)
      intro _ items listed
      exact absurd (parts.symm.trans listed) (noList items)
  | branch chosen fits list parts lengths each each_tree =>
      apply Value.Treelike.node (find?_type_of_fits chosen fits)
      intro _ items listed item member
      cases parts.symm.trans listed
      rcases List.mem_iff_get.mp member with ⟨i, rfl⟩
      exact each_tree i (Nat.lt_of_lt_of_eq i.isLt lengths.symm) i.isLt

end Registry

namespace Compile

variable {catalog : Catalog} {chain : List String} {d : Definition} {e : CompileError}

theorem ofTree_of_node
    (entries : ∀ name entry, catalog.find? name = some entry → entry.toValue.Treelike)
    (tree : d.toValue.Treelike) (failed : (node catalog chain d).result = .error e) :
    e.OfTree := by
  induction chain, d using expansion_induction catalog with
  | primitive chain typeName a =>
      rw [node_primitive] at failed
      cases failed
  | childless chain a =>
      rw [node_childless] at failed
      cases failed
  | composite chain parts a each =>
      rcases node_composite_eq_error failed with ⟨part, member, part_failed⟩
      exact each part member (Definition.treelike_part tree member) part_failed
  | reference chain name a below =>
      rcases node_reference_eq_error failed with
        ⟨-, rfl⟩ | ⟨-, -, rfl⟩ | ⟨entry, fresh, found, outcome⟩
      · trivial
      · trivial
      · have lower := entries name entry found
        rcases outcome with ⟨cause, merged, rfl⟩ | ⟨d, merged, deeper⟩
        · exact Definition.ofField_of_overlay lower tree merged
        · have merged_tree :=
            Definition.treelike_of_read (Definition.treelike_overlay lower tree) merged
          exact below entry d fresh found merged merged_tree deeper

end Compile

namespace Catalog

variable {catalog : Catalog} {document : Value} {e : CompileError}

theorem ofTree_of_compile
    (entries : ∀ name entry, catalog.find? name = some entry → entry.toValue.Treelike)
    (tree : document.Treelike) (failed : catalog.compile document = .error e) : e.OfTree := by
  cases accepted : Definition.ofValue document with
  | error cause =>
      rw [compile_eq_error_of_ofValue catalog accepted] at failed
      cases failed
      exact Value.ofField_of_rejected (((Value.keepsToGrammar document).2 cause).mp accepted) tree
  | ok d =>
      rw [compile_eq_compileDefinition catalog accepted] at failed
      exact Compile.ofTree_of_node entries (Definition.treelike_of_read tree accepted)
        (compileDefinition_eq_error failed)

end Catalog

section

variable {registry : Registry} {catalog : Catalog} {document : Value}

theorem sanitize_of_prepare {cause : SanitizeError}
    (failed : prepare registry catalog document = .error (.sanitize cause)) :
    registry.sanitize document = .error cause := by
  cases outcome : registry.sanitize document with
  | error other =>
      rw [prepare_of_sanitize_error catalog outcome] at failed
      cases failed
      rfl
  | ok sanitized =>
      rw [prepare_of_sanitize catalog outcome, mapError_eq_error] at failed
      rcases failed with ⟨_, -, same⟩
      cases same

theorem ofTree_of_prepare {cause : CompileError}
    (entries : ∀ name entry, catalog.find? name = some entry → entry.toValue.Treelike)
    (failed : prepare registry catalog document = .error (.compile cause)) : cause.OfTree := by
  cases outcome : registry.sanitize document with
  | error other =>
      rw [prepare_of_sanitize_error catalog outcome] at failed
      cases failed
  | ok sanitized =>
      rw [prepare_of_sanitize catalog outcome, mapError_eq_error] at failed
      rcases failed with ⟨_, compile_failed, same⟩
      cases same
      have tree := Registry.treelike_of_fitted (Registry.fitted_of_node outcome)
      exact Catalog.ofTree_of_compile entries tree compile_failed

/-- When a document is prepared with entries in which no reference brings parts, every node is found
to be an object with a type. Unless its sanitizing is endless, it fails with an unknown type, with a
field, with a name that has no entry or with a cycle, and with nothing else. -/
theorem prepare_fails_as_tree {source : Value} (registry : Registry)
    (built : Catalog.ofValue source = .ok catalog)
    (keepsParts : ∀ name entry, catalog.find? name = some entry →
      entry.Everywhere Definition.KeepsParts) (document : Value) :
    (∀ found, prepare registry catalog document ≠ .error (.compile (.format (.notARecord found)))) ∧
    prepare registry catalog document ≠ .error (.compile (.format .missingType)) ∧
    (registry.Finishes document → ∀ e, prepare registry catalog document = .error e →
      (∃ cause, e = .sanitize (.unknownType cause)) ∨
      (∃ slot problem, e = .compile (.format (.malformed slot problem))) ∨
      (∃ name, e = .compile (.unresolved name)) ∨ ∃ chain, e = .compile (.cycle chain)) := by
  have entries : ∀ name entry, catalog.find? name = some entry → entry.toValue.Treelike :=
    fun name entry found => (Catalog.plain_of_ofValue built keepsParts name entry found).treelike
  refine ⟨?_, ?_, ?_⟩
  · intro found failed
    rcases ofTree_of_prepare entries failed with ⟨_, _, malformed⟩
    cases malformed
  · intro failed
    rcases ofTree_of_prepare entries failed with ⟨_, _, malformed⟩
    cases malformed
  · intro finishes e failed
    cases e with
    | sanitize cause =>
        cases cause with
        | unknownType cause => exact .inl ⟨cause, rfl⟩
        | endless typeName =>
            have stuck := sanitize_of_prepare failed
            exact absurd stuck (Registry.finishes_iff_not_endless.mp finishes typeName)
    | compile cause =>
        have ofTree := ofTree_of_prepare entries failed
        cases cause with
        | format cause =>
            rcases ofTree with ⟨slot, problem, rfl⟩
            exact .inr (.inl ⟨slot, problem, rfl⟩)
        | unresolved name => exact .inr (.inr (.inl ⟨name, rfl⟩))
        | cycle chain => exact .inr (.inr (.inr ⟨chain, rfl⟩))

end

def lidRegistry : Registry :=
  Registry.builtin.register "ref" (KeyMap.ofList [
    ("name", .string "crate"),
    ("parts", .array [])])

def crateSource : Value := .object (KeyMap.ofList [
  ("crate", .object (KeyMap.ofList [
    ("type", .string "composite"),
    ("parts", .array [.object (KeyMap.ofList [("type", .string "box")])])]))])

def crateCatalog : Catalog := KeyMap.ofList [
  ("crate", .composite (some [.primitive "box" ⟨none, none, none, none, .nil⟩])
    ⟨none, none, none, none, .nil⟩)]

def lidDocument : Value := .object (KeyMap.ofList [
  ("type", .string "composite"),
  ("parts", .array [.object (KeyMap.ofList [
    ("type", .string "ref"),
    ("parts", .array [.object (KeyMap.ofList [
      ("type", .string "box"),
      ("position", .string "left")])])])])])

theorem prepare_lid_fails_as_tree :
    (Catalog.ofValue crateSource = .ok crateCatalog ∧
      (∀ name entry, crateCatalog.find? name = some entry →
        entry.Everywhere Definition.KeepsParts) ∧
      lidRegistry.Finishes lidDocument ∧
      prepare lidRegistry crateCatalog lidDocument =
        .error (.compile (.format (.malformed .position (.expected .numbers (.string "left")))))) ∧
    (∀ found, prepare lidRegistry crateCatalog lidDocument ≠
      .error (.compile (.format (.notARecord found)))) ∧
    prepare lidRegistry crateCatalog lidDocument ≠ .error (.compile (.format .missingType)) ∧
    ∀ e, prepare lidRegistry crateCatalog lidDocument = .error e →
      (∃ cause, e = .sanitize (.unknownType cause)) ∨
      (∃ slot problem, e = .compile (.format (.malformed slot problem))) ∨
      (∃ name, e = .compile (.unresolved name)) ∨ ∃ chain, e = .compile (.cycle chain) := by
  have built : Catalog.ofValue crateSource = .ok crateCatalog := by decide +kernel
  have keepsParts : ∀ name entry, crateCatalog.find? name = some entry →
      entry.Everywhere Definition.KeepsParts := by
    intro name entry found
    simp only [crateCatalog, KeyMap.ofList, List.foldl_cons, List.foldl_nil, KeyMap.find?_insert,
      KeyMap.find?_nil] at found
    split at found
    · cases found
      simp [Definition.KeepsParts]
    · cases found
  have shallow : ∀ typeName ∈ lidRegistry.keys,
      Sanitize.descend lidRegistry 1 (.object (Registry.bare typeName)) ≠ .error .tooDeep := by
    decide +kernel
  have finishes : lidRegistry.Finishes lidDocument :=
    Registry.finishes_of_bare (fun typeName member => ⟨1, shallow typeName member⟩) lidDocument
  have failed : prepare lidRegistry crateCatalog lidDocument =
      .error (.compile (.format (.malformed .position (.expected .numbers (.string "left"))))) := by
    decide +kernel
  rcases prepare_fails_as_tree lidRegistry built keepsParts lidDocument with
    ⟨records, typed, failures⟩
  exact ⟨⟨built, keepsParts, finishes, failed⟩, records, typed, failures finishes⟩

end PartTree
