import PartTree.Proofs.Inlining
import PartTree.Proofs.References

/-!
Names for names. A reference to an entry that is itself a reference, and so on to one that is not,
compiles to the tree of a single document: what is written of the last entry, under the fields of
all the references on the way to it, each over those behind it.
-/

namespace PartTree

namespace Catalog

/-- The way from a name to the first entry that is not a reference, over those that are. -/
inductive AliasPath (catalog : Catalog) : String → List Definition → Definition → Prop
  | target {name : String} {entry : Definition} (found : catalog.find? name = some entry)
      (notReference : entry.referenceName? = none) : AliasPath catalog name [] entry
  | link {name next : String} {entry last : Definition} {aliases : List Definition}
      (found : catalog.find? name = some entry) (refers : entry.referenceName? = some next)
      (rest : AliasPath catalog next aliases last) : AliasPath catalog name (entry :: aliases) last

end Catalog

namespace Definition

/-- What is written of an entry, under layers of fields. Of each key but its type and its name, the
first layer that has it gives the value. -/
structure Layered (entry : Definition) (layers : List Object) (merged : Object) : Prop where
  type : merged.find? "type" = some (.string entry.typeName)
  name : merged.find? "name" = entry.toObject.find? "name"
  others : ∀ key, key ≠ "type" → key ≠ "name" →
    merged.find? key = (layers ++ [entry.toObject]).findSome? fun layer => layer.find? key

variable {entry last : Definition} {fields merged other : Object} {layers : List Object}

theorem find?_under (key : String) :
    (entry.under fields).find? key =
      if key != "type" && key != "name" then (fields.find? key).or (entry.toObject.find? key)
      else entry.toObject.find? key := by
  rw [under, KeyMap.find?_layOver,
    KeyMap.find?_filter_key fun key => key != "type" && key != "name"]
  split <;> rfl

theorem find?_type_under : (entry.under fields).find? "type" = some (.string entry.typeName) := by
  rw [find?_under]
  exact find?_type_toObject entry

theorem find?_name_under :
    (entry.under fields).find? "name" = entry.toObject.find? "name" := by
  rw [find?_under]
  rfl

theorem find?_under_of_ne {key : String} (notType : key ≠ "type") (notName : key ≠ "name") :
    (entry.under fields).find? key = (fields.find? key).or (entry.toObject.find? key) := by
  rw [find?_under]
  simp [notType, notName]

theorem written_of_referenceName? {name : String} (refers : entry.referenceName? = some name) :
    entry.typeName = "ref" ∧ entry.toObject.find? "name" = some (.string name) := by
  cases entry with
  | reference inner a =>
      cases refers
      rw [toObject, Attributes.find?_toObject_of_not_structural rfl]
      simp [typeName, Attributes.withField]
  | _ => cases refers

namespace Layered

theorem unique (first : entry.Layered layers merged) (second : entry.Layered layers other) :
    other = merged := by
  apply KeyMap.ext
  intro key
  by_cases typed : key = "type"
  · rw [typed, first.type, second.type]
  · by_cases named : key = "name"
    · rw [named, first.name, second.name]
    · rw [first.others key typed named, second.others key typed named]

theorem base (entry : Definition) (fields : Object) :
    entry.Layered [fields] (entry.under fields) where
  type := find?_type_under
  name := find?_name_under
  others key notType notName := by
    rw [find?_under_of_ne notType notName]
    simp only [List.singleton_append, List.findSome?_cons, List.findSome?_nil]
    cases fields.find? key <;> cases entry.toObject.find? key <;> rfl

/-- The fields of a reference over those of another are two layers. -/
theorem split (layered : last.Layered (entry.under fields :: layers) merged) :
    last.Layered (fields :: entry.toObject :: layers) merged where
  type := layered.type
  name := layered.name
  others key notType notName := by
    rw [layered.others key notType notName]
    simp only [List.cons_append, List.findSome?_cons, find?_under_of_ne notType notName]
    cases fields.find? key <;> rfl

end Layered

end Definition

namespace Compile

variable {catalog : Catalog} {chain : List String} {name : String} {fields : Object}
variable {entry last r : Definition} {aliases : List Definition}

/-- Each name on the way adds a layer below those above it. -/
theorem compilesTo_of_aliasPath (path : catalog.AliasPath name aliases last)
    (reference : fields.find? "type" = some (.string "ref"))
    (named : fields.find? "name" = some (.string name))
    (ok : CompilesTo catalog chain (.object fields) r) :
    ∃ merged, last.Layered (fields :: aliases.map Definition.toObject) merged ∧
      CompilesTo catalog [] (.object merged) r := by
  induction path generalizing chain fields with
  | @target name entry found notReference =>
      have below := compilesTo_under reference named found ok
      exact ⟨entry.under fields, .base entry fields, below.shorten (List.nil_subset _)⟩
  | @link name next entry last aliases found refers rest ih =>
      have below := compilesTo_under reference named found ok
      rcases Definition.written_of_referenceName? refers with ⟨kind, written⟩
      have typed : (entry.under fields).find? "type" = some (.string "ref") := by
        rw [Definition.find?_type_under, kind]
      have renamed : (entry.under fields).find? "name" = some (.string next) := by
        rw [Definition.find?_name_under, written]
      rcases ih typed renamed below with ⟨merged, layered, merged_ok⟩
      exact ⟨merged, layered.split, merged_ok⟩

end Compile

namespace Catalog

open Compile (CompilesTo)

variable {catalog : Catalog} {name : String} {fields : Object} {last r : Definition}
variable {aliases : List Definition}

theorem compile_layered_of_aliasPath (path : catalog.AliasPath name aliases last)
    (reference : fields.find? "type" = some (.string "ref"))
    (named : fields.find? "name" = some (.string name))
    (ok : catalog.compile (.object fields) = .ok r) :
    ∃ merged, (∀ other, last.Layered (fields :: aliases.map Definition.toObject) other ↔
        other = merged) ∧
      catalog.compile (.object merged) = .ok r := by
  rcases compile_eq_ok_iff_compilesTo.mp ok with ⟨d, document_ok, expanded⟩
  rcases Compile.compilesTo_of_aliasPath path reference named document_ok with
    ⟨merged, layered, merged_ok⟩
  refine ⟨merged, fun other => ?_, compile_eq_ok_iff_compilesTo.mpr ⟨d, merged_ok, expanded⟩⟩
  constructor
  · intro other_layered
    exact layered.unique other_layered
  · intro same
    rw [same]
    exact layered

/-- A reference compiles to the same tree as the entry behind all its names does under the fields of
the reference and of the names, the outermost first. It makes no difference whether the fields are
taken as they stand in the document or as they are written once it is read. -/
theorem compile_aliases (path : catalog.AliasPath name aliases last)
    (reference : fields.find? "type" = some (.string "ref"))
    (named : fields.find? "name" = some (.string name))
    (ok : catalog.compile (.object fields) = .ok r) :
    ∀ top, (top = fields ∨ ∃ d, Definition.ofValue (.object fields) = .ok d ∧ top = d.toObject) →
      ∃ merged, (∀ other, last.Layered (top :: aliases.map Definition.toObject) other ↔
          other = merged) ∧
        catalog.compile (.object merged) = .ok r := by
  intro top stands
  rcases stands with rfl | ⟨d, read_ok, rfl⟩
  · exact compile_layered_of_aliasPath path reference named ok
  · rcases Definition.eq_reference_of_read reference read_ok with ⟨_, a, rfl, again⟩
    cases named.symm.trans again
    have written : (Definition.reference name a).toObject.find? "name" = some (.string name) :=
      (Definition.written_of_referenceName? rfl).2
    have typed := Definition.find?_type_toObject (.reference name a)
    have canonical := Definition.canonical_of_read read_ok
    have same : catalog.compile (.object (Definition.reference name a).toObject) = .ok r := by
      calc
        catalog.compile (.object (Definition.reference name a).toObject) =
            catalog.compileDefinition (.reference name a) :=
          compile_eq_compileDefinition catalog (Definition.read_toValue canonical)
        _ = catalog.compile (.object fields) :=
          (compile_eq_compileDefinition catalog read_ok).symm
        _ = .ok r := ok
    exact compile_layered_of_aliasPath path typed written same

def lanternSource : Value := .object (KeyMap.ofList [
  ("lantern", .object (KeyMap.ofList [
    ("type", .string "light"),
    ("name", .string "spot"),
    ("color", .string "red"),
    ("position", Vec.toValue [.ofUInt64 1]),
    ("repeat", .object (KeyMap.ofList [("times", .number (.ofUInt64 2))]))])),
  ("hung", .object (KeyMap.ofList [
    ("type", .string "ref"),
    ("name", .string "lantern"),
    ("position", Vec.toValue [.ofUInt64 2]),
    ("_dustbin", .object (KeyMap.ofList [("height", .number (.ofUInt64 4))]))])),
  ("dimmed", .object (KeyMap.ofList [
    ("type", .string "ref"),
    ("name", .string "hung"),
    ("color", .string "blue"),
    ("rotation", Vec.toValue [.ofUInt64 3])]))])

def lanternEntry : Definition :=
  .primitive "light" ⟨some [.ofUInt64 1], none, some ⟨2, none, none⟩, none,
    KeyMap.ofList [("name", .string "spot"), ("color", .string "red")]⟩

def hungEntry : Definition :=
  .reference "lantern" ⟨some [.ofUInt64 2], none, none,
    some (KeyMap.ofList [("height", .number (.ofUInt64 4))]), .nil⟩

def dimmedEntry : Definition :=
  .reference "hung" ⟨none, some [.ofUInt64 3], none, none,
    KeyMap.ofList [("color", .string "blue")]⟩

def lanternCatalog : Catalog := KeyMap.ofList [
  ("lantern", lanternEntry), ("hung", hungEntry), ("dimmed", dimmedEntry)]

def lanternFields : Object := KeyMap.ofList [
  ("type", .string "ref"),
  ("name", .string "dimmed"),
  ("color", .string "green"),
  ("repeat", .object (KeyMap.ofList [("times", .number (.ofUInt64 1))]))]

def lanternMerged : Object := KeyMap.ofList [
  ("type", .string "light"),
  ("name", .string "spot"),
  ("color", .string "green"),
  ("position", Vec.toValue [.ofUInt64 2]),
  ("rotation", Vec.toValue [.ofUInt64 3]),
  ("repeat", .object (KeyMap.ofList [("times", .number (.ofUInt64 1))])),
  ("_dustbin", .object (KeyMap.ofList [("height", .number (.ofUInt64 4))]))]

def lanternCompiled : Definition :=
  .composite (some [.primitive "light" ⟨some [.ofUInt64 2], some [.ofUInt64 3], none,
    some (KeyMap.ofList [("height", .number (.ofUInt64 4))]),
    KeyMap.ofList [("name", .string "spot"), ("color", .string "green")]⟩])
    ⟨none, none, none, none, .nil⟩

theorem compile_lantern_aliases :
    (Catalog.ofValue lanternSource = .ok lanternCatalog ∧
      lanternCatalog.AliasPath "dimmed" [dimmedEntry, hungEntry] lanternEntry ∧
      lanternFields.find? "type" = some (.string "ref") ∧
      lanternFields.find? "name" = some (.string "dimmed") ∧
      lanternCatalog.compile (.object lanternFields) = .ok lanternCompiled) ∧
    lanternEntry.Layered [lanternFields, dimmedEntry.toObject, hungEntry.toObject] lanternMerged ∧
    lanternCatalog.compile (.object lanternMerged) = .ok lanternCompiled := by
  have built : Catalog.ofValue lanternSource = .ok lanternCatalog := by decide +kernel
  have path : lanternCatalog.AliasPath "dimmed" [dimmedEntry, hungEntry] lanternEntry :=
    .link (by decide +kernel) rfl
      (.link (by decide +kernel) rfl (.target (by decide +kernel) rfl))
  have reference : lanternFields.find? "type" = some (.string "ref") := by decide +kernel
  have named : lanternFields.find? "name" = some (.string "dimmed") := by decide +kernel
  have ok : lanternCatalog.compile (.object lanternFields) = .ok lanternCompiled := by
    decide +kernel
  have layered : lanternEntry.Layered [lanternFields, dimmedEntry.toObject, hungEntry.toObject]
      lanternMerged := by
    have written : lanternEntry.under (hungEntry.under (dimmedEntry.under lanternFields)) =
        lanternMerged := by
      decide +kernel
    rw [← written]
    exact (Definition.Layered.base _ _).split.split
  rcases compile_aliases path reference named ok lanternFields (.inl rfl) with
    ⟨merged, unique, merged_ok⟩
  cases (unique lanternMerged).mp layered
  exact ⟨⟨built, path, reference, named, ok⟩, layered, merged_ok⟩

end Catalog

end PartTree
