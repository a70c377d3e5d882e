import PartTree.Proofs.Agreement
import PartTree.Proofs.Reading

/-!
Writing out a reference. A document in which a reference is replaced by what is written of its
entry, with the fields of the reference over it, compiles to the same tree, wherever the reference
stands.
-/

namespace PartTree

namespace Value

/-- Documents that differ in one node, which is found in both through the parts of composites. -/
inductive Replaced (old new : Value) : Value → Value → Prop
  | root : Replaced old new old new
  | part {fields : Object} {before after : List Value} {item other : Value}
      (composite : fields.find? "type" = some (.string "composite"))
      (parts : fields.find? "parts" = some (.array (before ++ item :: after)))
      (inside : Replaced old new item other) :
      Replaced old new (.object fields)
        (.object (fields.insert "parts" (.array (before ++ other :: after))))

theorem exists_replaced {old document : Value} (inside : Within old document) (new : Value) :
    ∃ other, Replaced old new document other := by
  induction inside with
  | root => exact ⟨new, .root⟩
  | part composite parts member _ ih =>
      obtain ⟨other, replaced⟩ := ih
      obtain ⟨before, after, rfl⟩ := List.mem_iff_append.mp member
      exact ⟨_, .part composite parts replaced⟩

end Value

namespace Definition

/-- What is written of an entry, with the fields of a reference over it. -/
def under (entry : Definition) (reference : Object) : Object :=
  (reference.filter fun key _ => key != "type" && key != "name").layOver entry.toObject

/-- The reference may as well be laid over its entry before it is read. -/
theorem result_read_under {fields : Object} {name : String} {a : Attributes}
    (ok : (read (.object fields)).result = .ok (.reference name a)) (entry : Definition) :
    (read (.object (entry.under fields))).result = (entry.overlay (.reference name a)).result := by
  have parts := find?_parts_of_read_reference ok
  have upper := (readAlike_of_read ok).filter_key parts fun key => key != "type" && key != "name"
  refine (ReadAlike.layOver upper ?_ ?_ (.refl entry.toObject)).result_read.symm
  · rw [KeyMap.find?_filter_key fun key => key != "type" && key != "name"]
    rfl
  · rw [KeyMap.find?_filter_key fun key => key != "type" && key != "name",
      KeyMap.find?_filter_key fun key => key != "type" && key != "name", parts]

theorem eq_reference_of_read {fields : Object} {d : Definition}
    (reference : fields.find? "type" = some (.string "ref"))
    (ok : (read (.object fields)).result = .ok d) :
    ∃ name a, d = .reference name a ∧ fields.find? "name" = some (.string name) := by
  have typed := (readAlike_of_read ok).verbatim "type" (by decide) (by decide)
  rw [find?_type_toObject, reference, Option.some.injEq, Value.string.injEq] at typed
  cases d with
  | primitive typeName a => exact absurd typed (keyed_of_read ok).2.1
  | composite parts a => simp [typeName] at typed
  | reference name a =>
      obtain ⟨_, _, same, -, named, -⟩ := eq_object_of_read_reference ok
      cases same
      exact ⟨name, a, rfl, named⟩

end Definition

namespace Compile

open Definition (read readHeader readAll readParts)

variable {catalog : Catalog} {chain : List String} {document other old new : Value}
variable {fields : Object} {items : List Value} {r : Definition}

theorem forall₂_compilesTo {results : List Definition} :
    List.Forall₂ (fun item result => ∃ part, CompilesTo catalog chain item part ∧
        part.expandRepeat = result) items results ↔
      ∃ parts, (readAll items).result = .ok parts ∧
        List.Forall₂ (fun part result => ∃ d, (node catalog chain part).result = .ok d ∧
          d.expandRepeat = result) parts results := by
  have reordered : ∀ item result,
      (∃ part, CompilesTo catalog chain item part ∧ part.expandRepeat = result) ↔
        ∃ d, (read item).result = .ok d ∧
          ∃ part, (node catalog chain d).result = .ok part ∧ part.expandRepeat = result := by
    intro item result
    constructor
    · intro found
      obtain ⟨part, ⟨d, read_ok, node_ok⟩, same⟩ := found
      exact ⟨d, read_ok, part, node_ok, same⟩
    · intro found
      obtain ⟨d, read_ok, part, node_ok, same⟩ := found
      exact ⟨part, ⟨d, read_ok, node_ok⟩, same⟩
  rw [Definition.result_readAll]
  simp only [reordered, mapM_eq_ok]
  exact forall₂_comp

theorem compilesTo_composite (composite : fields.find? "type" = some (.string "composite"))
    (listed : fields.find? "parts" = some (.array items)) :
    CompilesTo catalog chain (.object fields) r ↔
      ∃ typeName a results, readHeader (fields.erase "parts") = .ok (typeName, a) ∧
        r = .composite (some results) a ∧
        List.Forall₂ (fun item result => ∃ part, CompilesTo catalog chain item part ∧
          part.expandRepeat = result) items results := by
  have readings : (readParts fields).result = some <$> (readAll items).result := by
    rw [Definition.result_readParts, listed]
  rw [CompilesTo, Definition.result_read_of_composite composite, readings]
  constructor
  · intro found
    obtain ⟨d, read_ok, node_ok⟩ := found
    obtain ⟨⟨typeName, a⟩, header, rest⟩ := bind_eq_ok.mp read_ok
    obtain ⟨_, listed_ok, same⟩ := bind_eq_ok.mp rest
    obtain ⟨parts, parts_ok, rfl⟩ := map_eq_ok.mp listed_ok
    cases same
    obtain ⟨results, rfl, each⟩ := node_composite_eq_ok.mp node_ok
    exact ⟨typeName, a, results, header, rfl, forall₂_compilesTo.mpr ⟨parts, parts_ok, each⟩⟩
  · intro found
    obtain ⟨typeName, a, results, header, rfl, each⟩ := found
    obtain ⟨parts, parts_ok, related⟩ := forall₂_compilesTo.mp each
    refine ⟨.composite (some parts) a, ?_, node_composite_eq_ok.mpr ⟨results, rfl, related⟩⟩
    rw [header, parts_ok]
    rfl

theorem compilesTo_of_replaced (replaced : Value.Replaced old new document other)
    (root : ∀ r, CompilesTo catalog chain old r → CompilesTo catalog chain new r)
    (ok : CompilesTo catalog chain document r) : CompilesTo catalog chain other r := by
  induction replaced generalizing r with
  | root => exact root r ok
  | @part fields before after item other composite parts _ ih =>
      obtain ⟨typeName, a, results, header, rfl, each⟩ :=
        (compilesTo_composite composite parts).mp ok
      have typed : (fields.insert "parts" (.array (before ++ other :: after))).find? "type" =
          some (.string "composite") := by
        rw [KeyMap.find?_insert, if_neg (by decide), composite]
      have listed : (fields.insert "parts" (.array (before ++ other :: after))).find? "parts" =
          some (.array (before ++ other :: after)) := by
        rw [KeyMap.find?_insert, if_pos rfl]
      refine (compilesTo_composite typed listed).mpr ⟨typeName, a, results, ?_, rfl, ?_⟩
      · rw [KeyMap.erase_insert]
        exact header
      · apply forall₂_replace each
        intro result found
        obtain ⟨part, part_ok, same⟩ := found
        exact ⟨part, ih part_ok, same⟩

theorem compilesTo_of_within (inside : Value.Within old document)
    (ok : CompilesTo catalog chain document r) : ∃ part, CompilesTo catalog chain old part := by
  induction inside generalizing r with
  | root => exact ⟨r, ok⟩
  | part composite parts member _ ih =>
      obtain ⟨_, _, results, -, -, each⟩ := (compilesTo_composite composite parts).mp ok
      obtain ⟨result, -, part, part_ok, -⟩ := exists_right_of_forall₂ each member
      exact ih part_ok

theorem compilesTo_reference (reference : fields.find? "type" = some (.string "ref"))
    (ok : CompilesTo catalog chain (.object fields) r) :
    ∃ name entry, fields.find? "name" = some (.string name) ∧
      catalog.find? name = some entry ∧
      CompilesTo catalog (chain ++ [name]) (.object (entry.under fields)) r := by
  obtain ⟨d, read_ok, node_ok⟩ := ok
  obtain ⟨name, a, rfl, named⟩ := Definition.eq_reference_of_read reference read_ok
  obtain ⟨-, entry, merged, found, merges, rest⟩ := node_reference_eq_ok.mp node_ok
  refine ⟨name, entry, named, found, merged, ?_, rest⟩
  rw [Definition.result_read_under read_ok]
  exact merges

theorem compilesTo_under {name : String} {entry : Definition}
    (reference : fields.find? "type" = some (.string "ref"))
    (named : fields.find? "name" = some (.string name)) (found : catalog.find? name = some entry)
    (ok : CompilesTo catalog chain (.object fields) r) :
    CompilesTo catalog (chain ++ [name]) (.object (entry.under fields)) r := by
  obtain ⟨_, _, again, present, below⟩ := compilesTo_reference reference ok
  cases named.symm.trans again
  cases found.symm.trans present
  exact below

/-- Nothing above it keeps what a reference stands for from being written in its place. -/
theorem CompilesTo.shorten {shorter : List String} (subset : shorter ⊆ chain)
    (ok : CompilesTo catalog chain document r) : CompilesTo catalog shorter document r := by
  obtain ⟨d, read_ok, node_ok⟩ := ok
  exact ⟨d, read_ok, node_eq_ok_of_chain_subset subset node_ok⟩

end Compile

namespace Catalog

open Compile (CompilesTo)

variable {catalog : Catalog} {document : Value} {fields : Object} {r : Definition}

/-- In a document that compiles, each reference has an entry, and the document compiles to the same
tree when the reference gives way to what is written of its entry with its own fields over it. -/
theorem compile_inlined (ok : catalog.compile document = .ok r)
    (inside : Value.Within (.object fields) document)
    (reference : fields.find? "type" = some (.string "ref")) :
    ∃ name entry, fields.find? "name" = some (.string name) ∧ catalog.find? name = some entry ∧
      (∃ inlined, Value.Replaced (.object fields) (.object (entry.under fields)) document
        inlined) ∧
      ∀ inlined, Value.Replaced (.object fields) (.object (entry.under fields)) document inlined →
        catalog.compile inlined = .ok r := by
  obtain ⟨d, document_ok, expanded⟩ := compile_eq_ok_iff_compilesTo.mp ok
  obtain ⟨part, part_ok⟩ := Compile.compilesTo_of_within inside document_ok
  obtain ⟨name, entry, named, found, -⟩ := Compile.compilesTo_reference reference part_ok
  refine ⟨name, entry, named, found, Value.exists_replaced inside _, ?_⟩
  intro inlined replaced
  apply compile_eq_ok_iff_compilesTo.mpr
  refine ⟨d, Compile.compilesTo_of_replaced replaced ?_ document_ok, expanded⟩
  intro s s_ok
  have below := Compile.compilesTo_under reference named found s_ok
  exact below.shorten (List.subset_append_left _ _)

def shelfEntry : Definition := .reference "board" ⟨some [.ofUInt64 9], none, none, none, .nil⟩

def shelfCatalog : Catalog := KeyMap.ofList [
  ("board", .composite none ⟨none, some [.ofUInt64 1], none, none, .nil⟩),
  ("shelf", shelfEntry)]

def shelfFields : Object := KeyMap.ofList [
  ("type", .string "ref"),
  ("name", .string "shelf"),
  ("repeat", .object (KeyMap.ofList [
    ("times", .number (.ofUInt64 2)),
    ("position", Vec.toValue [.ofUInt64 30])])),
  ("_dustbin", .object (KeyMap.ofList [("height", .number (.ofUInt64 4))])),
  ("parts", .array [.object (KeyMap.ofList [("type", .string "box")])])]

def cabinetFields (shelf : Object) : Object := KeyMap.ofList [
  ("type", .string "composite"),
  ("parts", .array [.object (KeyMap.ofList [("type", .string "box")]), .object shelf])]

def shelfCopy (height : UInt64) : Definition :=
  .composite (some [.primitive "box" ⟨none, none, none, none, .nil⟩])
    ⟨some [.ofUInt64 height], some [.ofUInt64 1], none,
      some (KeyMap.ofList [("height", .number (.ofUInt64 4))]), .nil⟩

def cabinetCompiled : Definition :=
  .composite (some [.primitive "box" ⟨none, none, none, none, .nil⟩,
    .composite (some [shelfCopy 9, shelfCopy 39]) ⟨none, none, none, none, .nil⟩])
    ⟨none, none, none, none, .nil⟩

def boardFields : Object := (shelfFields.insert "name" (.string "board")).insert "position"
  (Vec.toValue [.ofUInt64 9])

theorem compile_cabinet_inlined :
    (shelfCatalog.compile (.object (cabinetFields shelfFields)) = .ok cabinetCompiled ∧
      Value.Within (.object shelfFields) (.object (cabinetFields shelfFields)) ∧
      shelfFields.find? "type" = some (.string "ref") ∧
      shelfEntry.under shelfFields = boardFields) ∧
    Value.Replaced (.object shelfFields) (.object boardFields)
      (.object (cabinetFields shelfFields)) (.object (cabinetFields boardFields)) ∧
    shelfCatalog.compile (.object (cabinetFields boardFields)) = .ok cabinetCompiled := by
  have ok : shelfCatalog.compile (.object (cabinetFields shelfFields)) = .ok cabinetCompiled := by
    decide +kernel
  have typed : (cabinetFields shelfFields).find? "type" = some (.string "composite") := by
    decide +kernel
  have listed : (cabinetFields shelfFields).find? "parts" =
      some (.array ([.object (KeyMap.ofList [("type", .string "box")])] ++
        .object shelfFields :: [])) := by
    decide +kernel
  have inside : Value.Within (.object shelfFields) (.object (cabinetFields shelfFields)) :=
    .part typed listed (by simp) .root
  have reference : shelfFields.find? "type" = some (.string "ref") := by decide +kernel
  have written : shelfEntry.under shelfFields = boardFields := by decide +kernel
  have replaced : Value.Replaced (.object shelfFields) (.object boardFields)
      (.object (cabinetFields shelfFields)) (.object (cabinetFields boardFields)) := by
    have same : cabinetFields boardFields =
        (cabinetFields shelfFields).insert "parts"
          (.array ([.object (KeyMap.ofList [("type", .string "box")])] ++
            .object boardFields :: [])) := by
      decide +kernel
    rw [same]
    exact .part typed listed .root
  obtain ⟨name, entry, named, found, -, compiles⟩ := compile_inlined ok inside reference
  have shelf : shelfFields.find? "name" = some (.string "shelf") := by decide +kernel
  have present : shelfCatalog.find? "shelf" = some shelfEntry := by decide +kernel
  cases named.symm.trans shelf
  cases found.symm.trans present
  rw [written] at compiles
  exact ⟨⟨ok, inside, reference, written⟩, replaced, compiles _ replaced⟩

end Catalog

end PartTree
