import PartTree.Proofs.Compiled
import PartTree.Proofs.Overlay
import Mathlib.Data.List.Chain
import Mathlib.Data.List.Nodup

/-!
Compiling as a walk of the reference graph. Over a catalog and a tree that were read, and whose
references bring no parts of their own, compiling succeeds exactly when every name within reach has
an entry and none reaches itself. A failure names what is missing or shows a path into a cycle.
-/

namespace PartTree

namespace Definition

/-- Whether a reference with this name stands somewhere in the tree. -/
def Mentions (d : Definition) (name : String) : Prop := ∃ a, Within (.reference name a) d

/-- Whether the node leaves the parts of what it refers to as they are. -/
def KeepsParts : Definition → Prop
  | .reference _ a => a.fields.find? "parts" = none
  | _ => True

/-- A canonical tree in which no reference brings parts of its own. -/
structure Plain (d : Definition) : Prop where
  canonical : d.Canonical
  keepsParts : d.Everywhere KeepsParts

variable {d : Definition} {a : Attributes} {name : String}

@[simp] theorem mentions_reference {other : String} :
    (reference other a).Mentions name ↔ name = other := by
  constructor
  · intro mentioned
    rcases mentioned with ⟨b, inside⟩
    cases inside
    rfl
  · intro same
    rcases same with rfl
    exact ⟨a, .root⟩

@[simp] theorem mentions_composite {parts : List Definition} :
    (composite (some parts) a).Mentions name ↔ ∃ part ∈ parts, part.Mentions name := by
  constructor
  · intro mentioned
    rcases mentioned with ⟨b, inside⟩
    cases inside with
    | part member inside => exact ⟨_, member, b, inside⟩
  · intro found
    rcases found with ⟨part, member, b, inside⟩
    exact ⟨b, .part member inside⟩

theorem not_mentions_primitive {typeName : String} : ¬ (primitive typeName a).Mentions name := by
  intro mentioned
  rcases mentioned with ⟨b, inside⟩
  cases inside

theorem not_mentions_childless : ¬ (composite none a).Mentions name := by
  intro mentioned
  rcases mentioned with ⟨b, inside⟩
  cases inside

@[simp] theorem mentions_mapAttributes {f : Attributes → Attributes} :
    (d.mapAttributes f).Mentions name ↔ d.Mentions name := by
  cases d with
  | primitive typeName a =>
      exact iff_of_false not_mentions_primitive not_mentions_primitive
  | reference other a => exact mentions_reference.trans mentions_reference.symm
  | composite parts a =>
      cases parts with
      | none => exact iff_of_false not_mentions_childless not_mentions_childless
      | some parts => exact mentions_composite.trans mentions_composite.symm

theorem Plain.part {parts : List Definition} (plain : (composite (some parts) a).Plain)
    {part : Definition} (member : part ∈ parts) : part.Plain where
  canonical := (everywhere_composite.mp plain.canonical).2 part member
  keepsParts := (everywhere_composite.mp plain.keepsParts).2 part member

theorem Plain.layOver {entry : Definition} (plain : entry.Plain)
    (upper : (reference name a).Plain) : (entry.mapAttributes a.layOver).Plain where
  canonical := canonical_layOver plain.canonical upper.canonical.here
    fun _ => upper.keepsParts.here
  keepsParts := by
    apply plain.keepsParts.mapAttributes
    cases entry with
    | primitive typeName b => trivial
    | composite parts b => trivial
    | reference other b =>
        have own : a.fields.find? "parts" = none := upper.keepsParts.here
        have below : b.fields.find? "parts" = none := plain.keepsParts.here
        simp [KeepsParts, mapAttributes, Attributes.layOver, own, below]

end Definition

namespace Catalog

/-- Whether the entry of the first name mentions the second. -/
def Refers (catalog : Catalog) (name other : String) : Prop :=
  ∃ entry, catalog.find? name = some entry ∧ entry.Mentions other

/-- Whether a name is mentioned by a tree or, over any number of entries, by what it mentions. -/
def Reaches (catalog : Catalog) (d : Definition) (name : String) : Prop :=
  ∃ first, d.Mentions first ∧ Relation.ReflTransGen catalog.Refers first name

/-- Names each of which is mentioned by the one before it, the first of them by the tree. -/
def Path (catalog : Catalog) (d : Definition) (names : List String) : Prop :=
  (∃ first, names.head? = some first ∧ d.Mentions first) ∧ names.IsChain catalog.Refers

/-- The failures that the references of a tree account for. -/
inductive Explains (catalog : Catalog) (d : Definition) : CompileError → Prop
  | unresolved {name : String} (reached : catalog.Reaches d name)
      (missing : catalog.find? name = none) : Explains catalog d (.unresolved name)
  | cycle {path : List String} {last : String} (distinct : path.Nodup) (again : last ∈ path)
      (along : catalog.Path d (path ++ [last])) : Explains catalog d (.cycle (path ++ [last]))

def Plain (catalog : Catalog) : Prop :=
  ∀ name entry, catalog.find? name = some entry → entry.Plain

variable {catalog : Catalog} {d : Definition} {name : String}

@[simp] theorem reaches_mapAttributes {f : Attributes → Attributes} :
    catalog.Reaches (d.mapAttributes f) name ↔ catalog.Reaches d name := by
  simp only [Reaches, Definition.mentions_mapAttributes]

theorem not_reaches_primitive {typeName : String} {a : Attributes} :
    ¬ catalog.Reaches (.primitive typeName a) name := by
  intro reached
  rcases reached with ⟨first, mentioned, -⟩
  exact Definition.not_mentions_primitive mentioned

theorem not_reaches_childless {a : Attributes} :
    ¬ catalog.Reaches (.composite none a) name := by
  intro reached
  rcases reached with ⟨first, mentioned, -⟩
  exact Definition.not_mentions_childless mentioned

theorem reaches_composite {parts : List Definition} {a : Attributes} :
    catalog.Reaches (.composite (some parts) a) name ↔
      ∃ part ∈ parts, catalog.Reaches part name := by
  constructor
  · intro reached
    rcases reached with ⟨first, mentioned, steps⟩
    rcases Definition.mentions_composite.mp mentioned with ⟨part, member, inner⟩
    exact ⟨part, member, first, inner, steps⟩
  · intro found
    rcases found with ⟨part, member, first, inner, steps⟩
    exact ⟨first, Definition.mentions_composite.mpr ⟨part, member, inner⟩, steps⟩

theorem reaches_reference {other : String} {a : Attributes} :
    catalog.Reaches (.reference other a) name ↔
      name = other ∨ ∃ entry, catalog.find? other = some entry ∧ catalog.Reaches entry name := by
  constructor
  · intro reached
    rcases reached with ⟨first, mentioned, steps⟩
    rcases Definition.mentions_reference.mp mentioned with rfl
    rcases steps.cases_head with rfl | ⟨next, ⟨entry, found, inner⟩, rest⟩
    · exact .inl rfl
    · exact .inr ⟨entry, found, next, inner, rest⟩
  · intro either
    rcases either with rfl | ⟨entry, found, first, inner, rest⟩
    · exact ⟨name, Definition.mentions_reference.mpr rfl, .refl⟩
    · exact ⟨other, Definition.mentions_reference.mpr rfl, rest.head ⟨entry, found, inner⟩⟩

theorem reaches_of_path {chain : List String} (along : catalog.Path d (chain ++ [name])) :
    catalog.Reaches d name := by
  rcases along with ⟨⟨first, leads, mentioned⟩, linked⟩
  refine ⟨first, mentioned, ?_⟩
  cases chain with
  | nil =>
      cases leads
      exact .refl
  | cons head tail =>
      cases leads
      exact List.relationReflTransGen_of_exists_isChain_cons (tail ++ [name]) linked (by simp)

theorem Path.snoc {chain : List String} {other : String} (along : catalog.Path d (chain ++ [name]))
    (refers : catalog.Refers name other) : catalog.Path d (chain ++ [name] ++ [other]) := by
  rcases along with ⟨⟨first, leads, mentioned⟩, linked⟩
  constructor
  · refine ⟨first, ?_, mentioned⟩
    rw [List.head?_append, leads]
    rfl
  · rw [List.append_assoc, List.singleton_append, List.isChain_split]
    exact ⟨linked, List.isChain_pair.mpr refers⟩

theorem transGen_of_isChain {path : List String} (again : name ∈ path)
    (linked : (path ++ [name]).IsChain catalog.Refers) :
    Relation.TransGen catalog.Refers name name := by
  rcases List.mem_iff_append.mp again with ⟨before, after, rfl⟩
  rw [List.append_assoc, List.cons_append, List.isChain_split] at linked
  have round := linked.2
  cases after with
  | nil => exact .single (List.isChain_pair.mp round)
  | cons next rest =>
      rw [List.cons_append, List.isChain_cons_cons] at round
      refine Relation.TransGen.head' round.1 ?_
      exact List.relationReflTransGen_of_exists_isChain_cons (rest ++ [name]) round.2 (by simp)

theorem plain_of_ofValue {source : Value} (built : Catalog.ofValue source = .ok catalog)
    (keepsParts : ∀ name entry, catalog.find? name = some entry →
      entry.Everywhere Definition.KeepsParts) : catalog.Plain := by
  intro name entry found
  exact ⟨canonical_of_ofValue built name entry found, keepsParts name entry found⟩

end Catalog

namespace Compile

variable {catalog : Catalog} {chain : List String} {d r : Definition}

/-- Nothing within reach of a tree that compiles is missing, under expansion, or on a cycle. -/
theorem reached_of_node_eq_ok (entries : catalog.Plain) (plain : d.Plain)
    (ok : (node catalog chain d).result = .ok r) {name : String}
    (reached : catalog.Reaches d name) :
    catalog.contains name = true ∧ name ∉ chain ∧
      ¬ Relation.TransGen catalog.Refers name name := by
  induction chain, d using expansion_induction catalog generalizing r name with
  | primitive chain typeName a => exact absurd reached Catalog.not_reaches_primitive
  | childless chain a => exact absurd reached Catalog.not_reaches_childless
  | composite chain parts a each =>
      rcases node_composite_eq_ok.mp ok with ⟨compiled, rfl, related⟩
      rcases Catalog.reaches_composite.mp reached with ⟨part, member, inner⟩
      rcases exists_right_of_forall₂ related member with ⟨result, -, compiled_part, part_ok, -⟩
      exact each part member (plain.part member) part_ok inner
  | reference chain other a below =>
      rcases node_reference_eq_ok.mp ok with ⟨fresh, entry, d, found, merged, rest⟩
      have merges :=
        Definition.overlay_eq (entries other entry found).canonical plain.canonical.here
          fun _ => plain.keepsParts.here
      rcases Except.ok.inj (merges.symm.trans merged) with rfl
      have inner : ∀ {name}, catalog.Reaches entry name → catalog.contains name = true ∧
          name ∉ chain ++ [other] ∧ ¬ Relation.TransGen catalog.Refers name name :=
        fun reached => below entry _ fresh found merged ((entries other entry found).layOver plain)
          rest (Catalog.reaches_mapAttributes.mpr reached)
      rcases Catalog.reaches_reference.mp reached with rfl | ⟨again, present, reached⟩
      · refine ⟨by simp [KeyMap.contains, found], fresh, fun round => ?_⟩
        rcases Relation.TransGen.head'_iff.mp round with ⟨next, ⟨again, present, mentioned⟩, back⟩
        cases found.symm.trans present
        exact (inner ⟨next, mentioned, back⟩).2.1 (by simp)
      · cases found.symm.trans present
        rcases inner reached with ⟨present, later, acyclic⟩
        exact ⟨present, fun earlier => later (by simp [earlier]), acyclic⟩

/-- The chain of names under expansion is a path from the root, and so accounts for the failure. -/
theorem explains_of_node_eq_error {root : Definition} (entries : catalog.Plain) (plain : d.Plain)
    (distinct : chain.Nodup)
    (along : ∀ name, d.Mentions name → catalog.Path root (chain ++ [name])) {e : CompileError}
    (failed : (node catalog chain d).result = .error e) : catalog.Explains root e := by
  induction chain, d using expansion_induction catalog with
  | primitive chain typeName a =>
      rw [node_primitive] at failed
      cases failed
  | childless chain a =>
      rw [node_childless] at failed
      cases failed
  | composite chain parts a each =>
      rcases node_composite_eq_error failed with ⟨part, member, part_failed⟩
      apply each part member (plain.part member) distinct ?_ part_failed
      intro name mentioned
      exact along name (Definition.mentions_composite.mpr ⟨part, member, mentioned⟩)
  | reference chain name a below =>
      have here := along name (Definition.mentions_reference.mpr rfl)
      rcases node_reference_eq_error failed with
        ⟨again, rfl⟩ | ⟨-, missing, rfl⟩ | ⟨entry, fresh, found, rest⟩
      · exact .cycle distinct again here
      · exact .unresolved (Catalog.reaches_of_path here) missing
      · have merges :=
          Definition.overlay_eq (entries name entry found).canonical plain.canonical.here
            fun _ => plain.keepsParts.here
        rcases rest with ⟨cause, merged, -⟩ | ⟨d, merged, inner_failed⟩
        · cases merges.symm.trans merged
        · rcases Except.ok.inj (merges.symm.trans merged) with rfl
          apply below entry _ fresh found merged ((entries name entry found).layOver plain) ?_ ?_
            inner_failed
          · rw [← List.concat_eq_append]
            exact List.Nodup.concat fresh distinct
          · intro next mentioned
            exact here.snoc ⟨entry, found, Definition.mentions_mapAttributes.mp mentioned⟩

end Compile

namespace Catalog

variable {catalog : Catalog} {d : Definition}

theorem compileDefinition_eq_error {e : CompileError}
    (failed : catalog.compileDefinition d = .error e) :
    (Compile.node catalog [] d).result = .error e := by
  rw [compileDefinition, compileDefinitionLogged, Logged.result_map] at failed
  cases result : (Compile.node catalog [] d).result with
  | ok r =>
      rw [result] at failed
      cases failed
  | error first =>
      rw [result] at failed
      cases failed
      rfl

theorem explains_of_compileDefinition (entries : catalog.Plain) (plain : d.Plain)
    {e : CompileError} (failed : catalog.compileDefinition d = .error e) :
    catalog.Explains d e := by
  apply Compile.explains_of_node_eq_error entries plain List.nodup_nil ?_
    (compileDefinition_eq_error failed)
  intro name mentioned
  exact ⟨⟨name, rfl, mentioned⟩, List.isChain_singleton name⟩

instance : DecidableEq Catalog :=
  fun first second => decidable_of_iff (first.toList = second.toList) KeyMap.toList_injective.eq_iff

/-- What a failure stands for cannot be where all names within reach resolve and none is on a
cycle. -/
theorem Explains.elim {e : CompileError} (explains : catalog.Explains d e)
    (sound : ∀ name, catalog.Reaches d name →
      catalog.contains name = true ∧ ¬ Relation.TransGen catalog.Refers name name) : False := by
  cases explains with
  | unresolved reached missing =>
      have present := (sound _ reached).1
      simp [KeyMap.contains, missing] at present
  | cycle distinct again along =>
      exact (sound _ (reaches_of_path along)).2 (transGen_of_isChain again along.2)

/-- Over a catalog that was read, and where no reference brings parts of its own, a document
compiles exactly when all names within its reach resolve and none of them reaches itself. -/
theorem compile_ok_iff_acyclic {source document : Value}
    (built : Catalog.ofValue source = .ok catalog) (read_ok : Definition.ofValue document = .ok d)
    (entriesKeep : ∀ name entry, catalog.find? name = some entry →
      entry.Everywhere Definition.KeepsParts)
    (documentKeeps : d.Everywhere Definition.KeepsParts) :
    ((∃ r, catalog.compile document = .ok r) ↔
      ∀ name, catalog.Reaches d name →
        catalog.contains name = true ∧ ¬ Relation.TransGen catalog.Refers name name) ∧
    ∀ e, catalog.compile document = .error e → catalog.Explains d e := by
  have entries := plain_of_ofValue built entriesKeep
  have plain : d.Plain := ⟨Definition.canonical_of_read read_ok, documentKeeps⟩
  have same := compile_eq_compileDefinition catalog read_ok
  have accounted : ∀ e, catalog.compile document = .error e → catalog.Explains d e := by
    intro e failed
    rw [same] at failed
    exact explains_of_compileDefinition entries plain failed
  refine ⟨⟨?_, ?_⟩, accounted⟩
  · intro compiles name reached
    rcases compiles with ⟨r, ok⟩
    rw [same] at ok
    rcases compileDefinition_eq_ok.mp ok with ⟨compiled, node_ok, -⟩
    rcases Compile.reached_of_node_eq_ok entries plain node_ok reached with ⟨present, -, acyclic⟩
    exact ⟨present, acyclic⟩
  · intro sound
    cases result : catalog.compile document with
    | ok r => exact ⟨r, rfl⟩
    | error e => exact ((accounted e result).elim sound).elim

def diamondSource : Value := .object (KeyMap.ofList [
  ("base", .object (KeyMap.ofList [("type", .string "box")])),
  ("left", .object (KeyMap.ofList [("type", .string "ref"), ("name", .string "base")])),
  ("right", .object (KeyMap.ofList [
    ("type", .string "composite"),
    ("parts", .array [
      .object (KeyMap.ofList [("type", .string "ref"), ("name", .string "base")])])]))])

def diamondCatalog : Catalog := KeyMap.ofList [
  ("base", .primitive "box" ⟨none, none, none, none, .nil⟩),
  ("left", .reference "base" ⟨none, none, none, none, .nil⟩),
  ("right", .composite (some [.reference "base" ⟨none, none, none, none, .nil⟩])
    ⟨none, none, none, none, .nil⟩)]

def diamondDocument : Value := .object (KeyMap.ofList [
  ("type", .string "composite"),
  ("parts", .array [
    .object (KeyMap.ofList [("type", .string "ref"), ("name", .string "left")]),
    .object (KeyMap.ofList [("type", .string "ref"), ("name", .string "right")])])])

def diamondDefinition : Definition :=
  .composite (some [.reference "left" ⟨none, none, none, none, .nil⟩,
    .reference "right" ⟨none, none, none, none, .nil⟩]) ⟨none, none, none, none, .nil⟩

def diamondCompiled : Definition :=
  .composite (some [.primitive "box" ⟨none, none, none, none, .nil⟩,
    .composite (some [.primitive "box" ⟨none, none, none, none, .nil⟩])
      ⟨none, none, none, none, .nil⟩]) ⟨none, none, none, none, .nil⟩

theorem compile_diamond_ok_iff_acyclic :
    (Catalog.ofValue diamondSource = .ok diamondCatalog ∧
      Definition.ofValue diamondDocument = .ok diamondDefinition ∧
      (∀ name entry, diamondCatalog.find? name = some entry →
        entry.Everywhere Definition.KeepsParts) ∧
      diamondDefinition.Everywhere Definition.KeepsParts ∧
      diamondCatalog.compile diamondDocument = .ok diamondCompiled) ∧
    ∀ name, diamondCatalog.Reaches diamondDefinition name →
      diamondCatalog.contains name = true ∧
        ¬ Relation.TransGen diamondCatalog.Refers name name := by
  have built : Catalog.ofValue diamondSource = .ok diamondCatalog := by decide +kernel
  have read_ok : Definition.ofValue diamondDocument = .ok diamondDefinition := by decide +kernel
  have ok : diamondCatalog.compile diamondDocument = .ok diamondCompiled := by decide +kernel
  have entriesKeep : ∀ name entry, diamondCatalog.find? name = some entry →
      entry.Everywhere Definition.KeepsParts := by
    intro name entry found
    simp only [diamondCatalog, KeyMap.ofList, List.foldl_cons, List.foldl_nil,
      KeyMap.find?_insert, KeyMap.find?_nil] at found
    split at found
    · cases found
      simp [Definition.KeepsParts]
    · split at found
      · cases found
        simp [Definition.KeepsParts]
      · split at found
        · cases found
          simp [Definition.KeepsParts]
        · cases found
  have documentKeeps : diamondDefinition.Everywhere Definition.KeepsParts := by
    simp [diamondDefinition, Definition.KeepsParts]
  have acyclic := compile_ok_iff_acyclic built read_ok entriesKeep documentKeeps
  exact ⟨⟨built, read_ok, entriesKeep, documentKeeps, ok⟩, acyclic.1.mp ⟨diamondCompiled, ok⟩⟩

end Catalog

end PartTree
