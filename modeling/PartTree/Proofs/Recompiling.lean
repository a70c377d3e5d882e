import PartTree.Proofs.Compiled
import PartTree.Proofs.Equality

/-!
Compiling what is compiled already. The trees that compiling leaves as they are, are those in which
nothing is left to do, whatever the catalog holds, so that what was compiled against one catalog is
left alone by every other.
-/

namespace PartTree

theorem Attributes.rule_eq_none_of_beq {a b : Attributes} (same : (a == b) = true)
    (noRule : a.rule = none) : b.rule = none := by
  have rules : (a.rule == b.rule) = true := by
    simp only [beq_eq, Bool.and_eq_true] at same
    exact same.2.2.1
  rw [noRule] at rules
  cases other : b.rule with
  | none => rfl
  | some rule =>
      rw [other] at rules
      cases rules

namespace Definition

variable {c d : Definition}

theorem final_of_sameBy (same : sameBy (· == ·) c d = true) (final : c.Final) : d.Final := by
  cases c with
  | reference name a => cases final.1
  | primitive typeName a =>
      cases d with
      | primitive other b =>
          simp only [sameBy, Bool.and_eq_true] at same
          exact ⟨rfl, Attributes.rule_eq_none_of_beq same.2 final.2⟩
      | _ => simp [sameBy] at same
  | composite parts a =>
      cases d with
      | composite others b =>
          have attributes_same : (a == b) = true := by
            cases parts <;> cases others <;> simp_all [sameBy]
          exact ⟨rfl, Attributes.rule_eq_none_of_beq attributes_same final.2⟩
      | _ => cases parts <;> simp [sameBy] at same

theorem everywhere_final_of_beq (same : (c == d) = true) (final : c.Everywhere Final) :
    d.Everywhere Final := by
  intro node inside
  rcases exists_within_of_sameBy same inside with ⟨other, within, alike⟩
  exact final_of_sameBy alike (final other within)

end Definition

namespace Catalog

variable {catalog : Catalog} {d r : Definition} {document : Value}

theorem compileDefinition_of_everywhere_final (catalog : Catalog)
    (final : d.Everywhere Definition.Final) : catalog.compileDefinition d = .ok d := by
  have parts_final := Definition.partsFinal_of_everywhere final
  have unchanged := Definition.expandRepeat_of_no_rule final.here.2
  exact compileDefinition_eq_ok.mpr ⟨d, Compile.node_of_partsFinal parts_final, unchanged⟩

/-- Compiling leaves a tree as it is, whether the same or one equal to it is asked for, exactly when
it is fully compiled. What one catalog compiled is so for every catalog. -/
theorem compileDefinition_fixed_iff (catalog : Catalog) :
    (∀ d : Definition, (catalog.compileDefinition d = .ok d ↔ d.fullyCompiled = true) ∧
      ((∃ r, catalog.compileDefinition d = .ok r ∧ (r == d) = true) ↔
        d.fullyCompiled = true)) ∧
    (∀ d r, catalog.compileDefinition d = .ok r →
      ∀ other : Catalog, other.compileDefinition r = .ok r) ∧
    ∀ document r, catalog.compile document = .ok r →
      ∀ other : Catalog, other.compileDefinition r = .ok r := by
  refine ⟨?_, ?_, ?_⟩
  · intro d
    rw [Definition.fullyCompiled_iff]
    constructor
    · constructor
      · intro fixed
        exact everywhere_final_of_compileDefinition fixed
      · intro final
        exact compileDefinition_of_everywhere_final catalog final
    · constructor
      · intro found
        rcases found with ⟨r, ok, same⟩
        exact Definition.everywhere_final_of_beq same (everywhere_final_of_compileDefinition ok)
      · intro final
        exact ⟨d, compileDefinition_of_everywhere_final catalog final, BEq.refl d⟩
  · intro d r ok other
    have final := everywhere_final_of_compileDefinition ok
    exact compileDefinition_of_everywhere_final other final
  · intro document r ok other
    rcases compile_eq_ok.mp ok with ⟨d, read_ok, d_ok⟩
    have final := everywhere_final_of_compileDefinition d_ok
    exact compileDefinition_of_everywhere_final other final

theorem compileDefinition_alias_fixed_iff :
    (railCatalog.compileDefinition aliasDefinition = .ok aliasCompiled ∧
      railCatalog.compile aliasDocument = .ok aliasCompiled) ∧
    (aliasCompiled.fullyCompiled = true ∧ aliasDefinition.fullyCompiled = false ∧
      railCatalog.compileDefinition aliasDefinition ≠ .ok aliasDefinition) ∧
    compileDefinition .nil aliasCompiled = .ok aliasCompiled ∧
    railCatalog.compileDefinition aliasCompiled = .ok aliasCompiled := by
  have ok : railCatalog.compileDefinition aliasDefinition = .ok aliasCompiled := by
    decide +kernel
  have document_ok : railCatalog.compile aliasDocument = .ok aliasCompiled := by decide +kernel
  have unfinished : aliasDefinition.fullyCompiled = false := rfl
  rcases compileDefinition_fixed_iff railCatalog with ⟨fixed, definitions, documents⟩
  have still := definitions aliasDefinition aliasCompiled ok railCatalog
  refine ⟨⟨ok, document_ok⟩, ⟨(fixed aliasCompiled).1.mp still, unfinished, ?_⟩, ?_, still⟩
  · intro unchanged
    have finished := (fixed aliasDefinition).1.mp unchanged
    cases unfinished.symm.trans finished
  · exact documents aliasDocument aliasCompiled document_ok .nil

end Catalog

end PartTree
