import PartTree.Proofs.Agreement
import PartTree.Proofs.Layers
import PartTree.Proofs.References

/-!
Compiling the entries of a catalog beforehand. A tree that compiled before an entry gave way to what
it compiles to compiles to the same tree afterwards, whatever the references to the entry lay over
it, as long as neither the entry nor what it is only another name for repeats.
-/

namespace PartTree

namespace Catalog

/-- Whether a tree is no more than another name for an entry, but for the fields that it lays over
it. -/
def PointsTo (catalog : Catalog) (d entry : Definition) : Prop :=
  ∃ name, d.referenceName? = some name ∧ catalog.find? name = some entry

end Catalog

namespace Compile

variable {catalog : Catalog} {chain below shorter : List String} {entry d r built : Definition}
variable {name : String} {a : Attributes}

/-- What is laid over the compiled entry in place of the entry is either compiled already or met
again while the tree over the entry is compiled. -/
theorem overlay_of_compiled (canonical : entry.Canonical)
    (keyed : (Definition.reference name a).Keyed)
    (compiled : (node catalog below entry).result = .ok built)
    (merged : (entry.overlay (.reference name a)).result = .ok d)
    (ok : (node catalog chain d).result = .ok r) :
    ∃ d', (built.overlay (.reference name a)).result = .ok d' ∧
      (d' = r ∨ ∃ longer, LeadsTo catalog ⟨chain, d⟩ ⟨longer, d'⟩ ∧
        (node catalog longer d').result = .ok r) := by
  induction below, entry using expansion_induction catalog generalizing chain d built with
  | primitive below typeName b =>
      rcases node_primitive_eq_ok.mp compiled with rfl
      exact ⟨d, merged, .inr ⟨chain, .refl, ok⟩⟩
  | childless below b =>
      rcases node_childless_eq_ok.mp compiled with rfl
      exact ⟨d, merged, .inr ⟨chain, .refl, ok⟩⟩
  | composite below parts b each =>
      have built_canonical := canonical_of_node canonical compiled
      obtain ⟨results, rfl, related⟩ := node_composite_eq_ok.mp compiled
      by_cases absent : a.fields.find? "parts" = none
      -- The parts are those of the entry, and compile to the same below other names.
      · have merges := Definition.overlay_eq canonical keyed fun _ => absent
        have merges_built := Definition.overlay_eq built_canonical keyed fun _ => absent
        cases merges.symm.trans merged
        obtain ⟨others, rfl, again⟩ := node_composite_eq_ok.mp ok
        have parts_ok : (node catalog chain (.composite (some parts) b)).result =
            .ok (.composite (some others) b) :=
          node_composite_eq_ok.mpr ⟨others, rfl, again⟩
        cases node_ok_unique compiled parts_ok
        exact ⟨_, merges_built, .inl rfl⟩
      -- The parts are the reference's own, and it does not matter what the entry's compile to.
      · rw [Definition.result_overlay_of_parts absent parts results] at merged
        exact ⟨d, merged, .inr ⟨chain, .refl, ok⟩⟩
  | reference below inner b behind =>
      obtain ⟨fresh, next, inner_d, found, inner_merged, rest⟩ := node_reference_eq_ok.mp compiled
      -- The entry is another name: its fields join those of the reference on the way down.
      cases (Definition.overlay_reference canonical keyed).symm.trans merged
      obtain ⟨again, _, outer_d, present, outer_merged, outer_ok⟩ :=
        node_reference_eq_ok.mp ok
      cases found.symm.trans present
      have both := Definition.result_overlay_overlay keyed canonical.here inner_merged
      obtain ⟨d', d'_merged, outcome⟩ := behind next inner_d fresh found inner_merged
        (Definition.canonical_of_read inner_merged) rest (both.trans outer_merged) outer_ok
      refine ⟨d', d'_merged, outcome.imp id ?_⟩
      intro met
      obtain ⟨longer, leads, d'_ok⟩ := met
      exact ⟨longer, leads.head (calls_reference again present outer_merged), d'_ok⟩

/-- What compiled before an entry gave way to its compiled tree compiles afterwards. The names above
it may be fewer, as those between the entry and what it is another name for are no longer met. -/
theorem node_eq_ok_of_precompiled (entries : catalog.Canonical)
    (found : catalog.find? name = some entry)
    (compiled : (node catalog [] entry).result = .ok built) (call : Call)
    (canonical : call.tree.Canonical) (subset : shorter ⊆ call.chain)
    (ok : call.result catalog = .ok r) :
    (node (catalog.insert name built) shorter call.tree).result = .ok r := by
  -- What goes over the compiled entry may be met again many calls below the reference, so the
  -- induction is on all that is left to walk.
  induction call using (measure (Call.weight catalog)).wf.induction generalizing shorter r with
  | _ call lighter =>
    obtain ⟨chain, tree⟩ := call
    cases tree with
    | primitive typeName b => exact node_primitive_eq_ok.mpr (node_primitive_eq_ok.mp ok)
    | composite parts b =>
        cases parts with
        | none => exact node_childless_eq_ok.mpr (node_childless_eq_ok.mp ok)
        | some parts =>
            obtain ⟨results, rfl, related⟩ := node_composite_eq_ok.mp ok
            refine node_composite_eq_ok.mpr ⟨results, rfl, forall₂_of_mem related ?_⟩
            intro part member result part_compiled
            obtain ⟨compiled_part, part_ok, same⟩ := part_compiled
            have part_canonical := (Definition.everywhere_composite.mp canonical).2 part member
            exact ⟨compiled_part, lighter ⟨chain, part⟩ (weight_lt_of_calls (calls_part member))
              part_canonical subset part_ok, same⟩
    | reference other b =>
        obtain ⟨fresh, target, d, target_found, merged, d_ok⟩ := node_reference_eq_ok.mp ok
        have called := calls_reference fresh target_found merged
        have still_fresh : other ∉ shorter := fun earlier => fresh (subset earlier)
        have below := append_singleton_subset subset other
        by_cases here : other = name
        · subst here
          cases found.symm.trans target_found
          obtain ⟨d', d'_merged, outcome⟩ := overlay_of_compiled (entries other entry found)
            canonical.here compiled merged d_ok
          refine node_reference_eq_ok.mpr ⟨still_fresh, built, d', ?_, d'_merged, ?_⟩
          · rw [KeyMap.find?_insert, if_pos rfl]
          · rcases outcome with rfl | ⟨longer, leads, d'_ok⟩
            · exact node_of_partsFinal (partsFinal_of_node d_ok)
            · have le := weight_le_of_leadsTo leads
              have longer_than := chain_subset_of_leadsTo leads
              exact lighter ⟨longer, d'⟩ (Nat.lt_of_le_of_lt le (weight_lt_of_calls called))
                (Definition.canonical_of_read d'_merged) (List.Subset.trans below longer_than) d'_ok
        · refine node_reference_eq_ok.mpr ⟨still_fresh, target, d, ?_, merged, ?_⟩
          · rw [KeyMap.find?_insert, if_neg here, target_found]
          · exact lighter ⟨chain ++ [other], d⟩ (weight_lt_of_calls called)
              (Definition.canonical_of_read merged) below d_ok

/-- A tree is without a rule if neither what it was compiled from has one nor any entry that this is
another name for. -/
theorem no_rule_of_node (entries : catalog.Canonical) (canonical : d.Canonical)
    (ruleless : ∀ behind, Relation.ReflTransGen catalog.PointsTo d behind →
      behind.attributes.rule = none)
    (ok : (node catalog chain d).result = .ok r) : r.attributes.rule = none := by
  induction chain, d using expansion_induction catalog generalizing r with
  | primitive chain typeName b =>
      rcases node_primitive_eq_ok.mp ok with rfl
      exact ruleless _ .refl
  | childless chain b =>
      rcases node_childless_eq_ok.mp ok with rfl
      exact ruleless _ .refl
  | composite chain parts b each =>
      obtain ⟨results, rfl, -⟩ := node_composite_eq_ok.mp ok
      exact ruleless (.composite (some parts) b) .refl
  | reference chain inner b below =>
      obtain ⟨fresh, target, d, found, merged, rest⟩ := node_reference_eq_ok.mp ok
      have target_canonical := entries inner target found
      have refers := Definition.referenceName?_overlay target_canonical canonical.here merged
      have rule := Definition.rule_overlay target_canonical.here canonical.here merged
      have points : catalog.PointsTo (.reference inner b) target := ⟨inner, rfl, found⟩
      refine below target d fresh found merged (Definition.canonical_of_read merged) ?_ rest
      intro behind reached
      rcases reached.cases_head with rfl | ⟨next, ⟨further, named, present⟩, reached⟩
      · have upper : b.rule = none := ruleless _ .refl
        have lower : target.attributes.rule = none := ruleless _ (.single points)
        rw [rule, upper, lower, Option.none_or]
      · have same : catalog.PointsTo target next := ⟨further, refers.symm.trans named, present⟩
        exact ruleless behind ((reached.head same).head points)

end Compile

namespace Catalog

variable {catalog : Catalog} {entry r s : Definition} {name : String} {document source : Value}

/-- An entry may give way to the tree that it compiles to, if neither it nor an entry that it is
another name for repeats. Whatever compiled before compiles to the same tree afterwards. -/
theorem compile_precompiled (built : Catalog.ofValue source = .ok catalog)
    (found : catalog.find? name = some entry)
    (ruleless : ∀ behind, Relation.ReflTransGen catalog.PointsTo entry behind →
      behind.attributes.rule = none)
    (compiled : catalog.compile entry.toValue = .ok r) (ok : catalog.compile document = .ok s) :
    compile (catalog.insert name r) document = .ok s := by
  have entries := canonical_of_ofValue built
  have canonical := entries name entry found
  obtain ⟨root, ⟨read_entry, entry_read, root_ok⟩, rfl⟩ := compile_eq_ok_iff_compilesTo.mp compiled
  cases (Definition.read_toValue canonical).symm.trans entry_read
  have noRule := Compile.no_rule_of_node entries canonical ruleless root_ok
  rw [Definition.expandRepeat_of_no_rule noRule]
  obtain ⟨c, ⟨d, read_ok, c_ok⟩, expanded⟩ := compile_eq_ok_iff_compilesTo.mp ok
  have still := Compile.node_eq_ok_of_precompiled entries found root_ok ⟨[], d⟩
    (Definition.canonical_of_read read_ok) (List.Subset.refl _) c_ok
  exact compile_eq_ok_iff_compilesTo.mpr ⟨c, ⟨d, read_ok, still⟩, expanded⟩

def standSource : Value := .object (KeyMap.ofList [
  ("foot", .object (KeyMap.ofList [
    ("type", .string "box"),
    ("repeat", .object (KeyMap.ofList [("times", .number (.ofUInt64 2))]))])),
  ("leg", .object (KeyMap.ofList [
    ("type", .string "composite"),
    ("parts", .array [.object (KeyMap.ofList [
      ("type", .string "ref"), ("name", .string "foot")])])])),
  ("stand", .object (KeyMap.ofList [
    ("type", .string "ref"), ("name", .string "leg"), ("position", Vec.toValue [.ofUInt64 1])])),
  ("turned", .object (KeyMap.ofList [
    ("type", .string "ref"), ("name", .string "stand"), ("rotation", Vec.toValue [.ofUInt64 2])]))])

def standEntry : Definition := .reference "leg" ⟨some [.ofUInt64 1], none, none, none, .nil⟩

def legEntry : Definition :=
  .composite (some [.reference "foot" ⟨none, none, none, none, .nil⟩])
    ⟨none, none, none, none, .nil⟩

def standCatalog : Catalog := KeyMap.ofList [
  ("foot", .primitive "box" ⟨none, none, some ⟨2, none, none⟩, none, .nil⟩),
  ("leg", legEntry),
  ("stand", standEntry),
  ("turned", .reference "stand" ⟨none, some [.ofUInt64 2], none, none, .nil⟩)]

def foot : Definition := .primitive "box" ⟨some zeroVec, some zeroVec, none, none, .nil⟩

def feet : Definition := .composite (some [foot, foot]) ⟨none, none, none, none, .nil⟩

def standCompiled : Definition :=
  .composite (some [feet]) ⟨some [.ofUInt64 1], none, none, none, .nil⟩

def deskDocument : Value := .object (KeyMap.ofList [
  ("type", .string "composite"),
  ("parts", .array [
    .object (KeyMap.ofList [
      ("type", .string "ref"),
      ("name", .string "turned"),
      ("position", Vec.toValue [.ofUInt64 5]),
      ("repeat", .object (KeyMap.ofList [
        ("times", .number (.ofUInt64 2)),
        ("position", Vec.toValue [.ofUInt64 30])]))]),
    .object (KeyMap.ofList [
      ("type", .string "ref"),
      ("name", .string "stand"),
      ("_dustbin", .object (KeyMap.ofList [("height", .number (.ofUInt64 4))])),
      ("parts", .array [
        .object (KeyMap.ofList [("type", .string "ref"), ("name", .string "foot")]),
        .object (KeyMap.ofList [("type", .string "ref"), ("name", .string "foot")])])])])])

def turnedCopy (position : UInt64) : Definition :=
  .composite (some [feet])
    ⟨some [.ofUInt64 position], some [.ofUInt64 2], none, none, .nil⟩

def deskCompiled : Definition :=
  .composite (some [
    .composite (some [turnedCopy 5, turnedCopy 35]) ⟨none, none, none, none, .nil⟩,
    .composite (some [feet, feet])
      ⟨some [.ofUInt64 1], none, none,
        some (KeyMap.ofList [("height", .number (.ofUInt64 4))]), .nil⟩])
    ⟨none, none, none, none, .nil⟩

theorem stand_ruleless {behind : Definition}
    (reached : Relation.ReflTransGen standCatalog.PointsTo standEntry behind) :
    behind.attributes.rule = none := by
  rcases reached.cases_head with rfl | ⟨next, ⟨name, named, found⟩, further⟩
  · rfl
  · cases named
    have leg : standCatalog.find? "leg" = some legEntry := by decide +kernel
    cases leg.symm.trans found
    rcases further.cases_head with rfl | ⟨_, ⟨_, unnamed, -⟩, -⟩
    · rfl
    · cases unnamed

theorem compile_desk_precompiled :
    (Catalog.ofValue standSource = .ok standCatalog ∧
      standCatalog.find? "stand" = some standEntry ∧
      (∀ behind, Relation.ReflTransGen standCatalog.PointsTo standEntry behind →
        behind.attributes.rule = none) ∧
      standCatalog.compile standEntry.toValue = .ok standCompiled ∧
      standCatalog.compile deskDocument = .ok deskCompiled) ∧
    compile (standCatalog.insert "stand" standCompiled) deskDocument = .ok deskCompiled := by
  have built : Catalog.ofValue standSource = .ok standCatalog := by decide +kernel
  have found : standCatalog.find? "stand" = some standEntry := by decide +kernel
  have compiled : standCatalog.compile standEntry.toValue = .ok standCompiled := by decide +kernel
  have ok : standCatalog.compile deskDocument = .ok deskCompiled := by decide +kernel
  exact ⟨⟨built, found, fun _ => stand_ruleless, compiled, ok⟩,
    compile_precompiled built found (fun _ => stand_ruleless) compiled ok⟩

end Catalog

end PartTree
