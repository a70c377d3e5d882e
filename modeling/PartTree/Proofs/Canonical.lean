import PartTree.Catalog
import PartTree.Definition.Weight
import PartTree.Proofs.Nodes
import PartTree.Repeat
import PartTree.Proofs.Sequence

/-!
Canonical trees, whose nodes keep no key with a meaning of its own among their verbatim fields.
Every tree that is read is canonical, and it stays so when a repeat rule is expanded.
-/

namespace PartTree

namespace Attributes

/-- No key with a meaning in every node is among the verbatim fields. -/
def Unstructured (a : Attributes) : Prop :=
  ∀ key, Definition.isStructural key = true → a.fields.find? key = none

end Attributes

namespace Definition

/-- What a node must be like for its written form to name the same node. -/
def Keyed : Definition → Prop
  | .primitive typeName a => typeName ≠ "composite" ∧ typeName ≠ "ref" ∧ a.Unstructured
  | .composite _ a => a.Unstructured ∧ a.fields.find? "parts" = none
  | .reference _ a => a.Unstructured ∧ a.fields.find? "name" = none

def Canonical (d : Definition) : Prop := d.Everywhere Keyed

theorem unstructured_of_readHeader {fields : Object} {typeName : String} {a : Attributes}
    (header : readHeader fields = .ok (typeName, a)) : a.Unstructured := by
  intro key structural
  rw [fields_of_readHeader header, KeyMap.find?_filter_key]
  simp [structural]

theorem unstructured_eraseField {a : Attributes} (unstructured : a.Unstructured) (key : String) :
    (a.eraseField key).Unstructured := by
  intro other structural
  simp [Attributes.eraseField, unstructured other structural]

theorem result_readAll (items : List Value) :
    (readAll items).result = items.mapM fun item => (read item).result := by
  have walked : (readAll items).result = items.mapM fun item => id <$> (read item).result := by
    apply result_eq_mapM
    · rw [readAll]
    · intro item items
      rw [readAll]
      rfl
  simpa only [id_map] using walked

/-- The parts depend on nothing but what is under their key. -/
theorem result_readParts {bound : Option String} (fields : KeyMap Value bound) :
    (readParts fields).result =
      match fields.find? "parts" with
      | some (.array items) => some <$> (readAll items).result
      | _ => .ok none := by
  induction fields with
  | nil => rfl
  | cons key above value rest ih =>
      by_cases here : key = "parts"
      · subst here
        cases value <;> simp [readParts, KeyMap.find?, bind]
      · unfold readParts
        rw [if_neg here, KeyMap.find?, if_neg (Ne.symm here)]
        exact ih

theorem readParts_eq_some {bound : Option String} {fields : KeyMap Value bound}
    {parts : List Definition} :
    (readParts fields).result = .ok (some parts) ↔
      ∃ items, fields.find? "parts" = some (.array items) ∧
        (readAll items).result = .ok parts := by
  rw [result_readParts]
  cases fields.find? "parts" with
  | none => simp
  | some value => cases value <;> simp [map_eq_ok]

theorem not_listed_of_readParts {bound : Option String} {fields : KeyMap Value bound}
    (ok : (readParts fields).result = .ok none) (items : List Value) :
    fields.find? "parts" ≠ some (.array items) := by
  intro listed
  simp [result_readParts, listed, map_eq_ok] at ok

theorem readParts_eq_none {bound : Option String} {fields : KeyMap Value bound}
    (absent : fields.find? "parts" = none) : (readParts fields).result = .ok none := by
  rw [result_readParts, absent]

theorem result_read_object (fields : Object) :
    (read (.object fields)).result = (do
      let (typeName, a) ← readHeader fields
      if typeName = "composite" then
        let parts ← (readParts fields).result
        pure (.composite parts (a.eraseField "parts"))
      else if typeName = "ref" then
        let name ← readName fields
        pure (.reference name (a.eraseField "name"))
      else pure (.primitive typeName a)) := by
  rw [read, Logged.result_bind, Logged.result_ofExcept]
  congr 1
  funext named
  simp only
  split
  · exact Logged.result_bind _ _
  · split
    · exact Logged.result_bind _ _
    · rfl

/-- What is read is a node of the type that the header names. -/
theorem read_eq_ok {v : Value} {d : Definition} (ok : (read v).result = .ok d) :
    ∃ fields typeName a, v = .object fields ∧ readHeader fields = .ok (typeName, a) ∧
      ((typeName = "composite" ∧ ∃ parts, (readParts fields).result = .ok parts ∧
          d = .composite parts (a.eraseField "parts")) ∨
        (typeName = "ref" ∧ ∃ name, readName fields = .ok name ∧
          d = .reference name (a.eraseField "name")) ∨
        (typeName ≠ "composite" ∧ typeName ≠ "ref" ∧ d = .primitive typeName a)) := by
  cases v with
  | object fields =>
      rw [result_read_object, bind_eq_ok] at ok
      obtain ⟨⟨typeName, a⟩, header, rest⟩ := ok
      refine ⟨fields, typeName, a, rfl, header, ?_⟩
      simp only at rest
      split at rest
      · rename_i composite
        obtain ⟨parts, parts_ok, same⟩ := bind_eq_ok.mp rest
        cases same
        exact .inl ⟨composite, parts, parts_ok, rfl⟩
      · rename_i notComposite
        split at rest
        · rename_i reference
          obtain ⟨name, name_ok, same⟩ := bind_eq_ok.mp rest
          cases same
          exact .inr (.inl ⟨reference, name, name_ok, rfl⟩)
        · rename_i notReference
          cases rest
          exact .inr (.inr ⟨notComposite, notReference, rfl⟩)
  | _ => simp [read] at ok

theorem keyed_of_read {v : Value} {d : Definition} (ok : (read v).result = .ok d) : d.Keyed := by
  obtain ⟨fields, typeName, a, -, header, shape⟩ := read_eq_ok ok
  have unstructured := unstructured_of_readHeader header
  rcases shape with ⟨-, parts, -, rfl⟩ | ⟨-, name, -, rfl⟩ | ⟨notComposite, notReference, rfl⟩
  · exact ⟨unstructured_eraseField unstructured _, by simp [Attributes.eraseField]⟩
  · exact ⟨unstructured_eraseField unstructured _, by simp [Attributes.eraseField]⟩
  · exact ⟨notComposite, notReference, unstructured⟩

theorem canonical_of_read {v : Value} {d : Definition} (ok : (read v).result = .ok d) :
    d.Canonical := by
  induction d using tree_induction generalizing v with
  | primitive typeName a => exact everywhere_primitive.mpr (keyed_of_read ok)
  | childless a => exact everywhere_childless.mpr (keyed_of_read ok)
  | reference name a => exact everywhere_reference.mpr (keyed_of_read ok)
  | composite parts a each =>
      refine everywhere_composite.mpr ⟨keyed_of_read ok, fun part member => ?_⟩
      obtain ⟨fields, typeName, b, -, -, shape⟩ := read_eq_ok ok
      have parts_ok : (readParts fields).result = .ok (some parts) := by
        rcases shape with ⟨-, read_parts, parts_ok, same⟩ | ⟨-, _, -, same⟩ | ⟨-, -, same⟩
        · cases same
          exact parts_ok
        · cases same
        · cases same
      obtain ⟨items, -, items_ok⟩ := readParts_eq_some.mp parts_ok
      rw [result_readAll, mapM_eq_ok] at items_ok
      obtain ⟨item, -, item_ok⟩ := exists_left_of_forall₂ items_ok member
      exact each part member item_ok

theorem keyed_mapAttributes {d : Definition} {f : Attributes → Attributes} (keyed : d.Keyed)
    (same : (f d.attributes).fields = d.attributes.fields) : (d.mapAttributes f).Keyed := by
  cases d
  all_goals
    simp only [attributes] at same
    simpa only [mapAttributes, Keyed, Attributes.Unstructured, same] using keyed

theorem canonical_expandRepeat {d : Definition} (canonical : d.Canonical) :
    d.expandRepeat.Canonical := by
  rw [expandRepeat]
  split
  · exact canonical
  · rename_i rule _
    refine everywhere_composite.mpr ⟨⟨fun _ _ => rfl, rfl⟩, fun copy member => ?_⟩
    rcases List.mem_map.mp member with ⟨step, -, rfl⟩
    exact canonical.mapAttributes (keyed_mapAttributes canonical.here rfl)

end Definition

namespace Catalog

def Canonical (catalog : Catalog) : Prop :=
  ∀ name entry, catalog.find? name = some entry → entry.Canonical

theorem canonical_of_ofValue {source : Value} {catalog : Catalog}
    (built : Catalog.ofValue source = .ok catalog) : catalog.Canonical := by
  intro name entry found
  cases source with
  | object documents =>
      obtain ⟨document, -, read_ok⟩ := KeyMap.find?_of_traverse built found
      exact Definition.canonical_of_read (mapError_eq_ok.mp read_ok)
  | _ => cases built

end Catalog

end PartTree
