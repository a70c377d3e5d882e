import PartTree.Proofs.Compiled
import PartTree.Proofs.Equality

/-!
What can be written and read again. The canonical trees are those that come back from their written
form; compiling leaves nothing else, and makes the same of such a tree and of its written form.
-/

namespace PartTree

namespace Definition

variable {d : Definition}

theorem ofObject_toObject_iff : ofObject d.toObject = .ok d ↔ d.Canonical := by
  constructor
  · intro back
    exact canonical_of_read back
  · intro canonical
    exact read_toValue canonical

theorem exists_beq_ofObject_toObject_iff :
    (∃ back, ofObject d.toObject = .ok back ∧ (back == d) = true) ↔ d.Canonical := by
  constructor
  · intro found
    obtain ⟨back, read_ok, same⟩ := found
    exact canonical_of_beq same (canonical_of_read read_ok)
  · intro canonical
    exact ⟨d, read_toValue canonical, BEq.refl d⟩

end Definition

namespace Catalog

variable {catalog : Catalog} {d r : Definition}

theorem canonical_of_compile {document : Value} (ok : catalog.compile document = .ok r) :
    r.Canonical := by
  obtain ⟨d, read_ok, d_ok⟩ := compile_eq_ok.mp ok
  exact canonical_of_compileDefinition (Definition.canonical_of_read read_ok) d_ok

/-- A tree comes back from its written form exactly when it is canonical, whether it is asked to be
the same tree or one that is equal to it. What is read is canonical, and remains so when its rule is
expanded and when it is compiled, over entries of any shape. -/
theorem canonical_iff_reads_back (catalog : Catalog) :
    (∀ d : Definition, (Definition.ofObject d.toObject = .ok d ↔ d.Canonical) ∧
      ((∃ back, Definition.ofObject d.toObject = .ok back ∧ (back == d) = true) ↔
        d.Canonical)) ∧
    (∀ document d, Definition.ofValue document = .ok d → d.Canonical) ∧
    (∀ d : Definition, d.Canonical → d.expandRepeat.Canonical ∧
      catalog.compile d.toValue = catalog.compileDefinition d ∧
      ∀ r, catalog.compileDefinition d = .ok r →
        r.Canonical ∧ Definition.ofValue r.toValue = .ok r) ∧
    ∀ document r, catalog.compile document = .ok r →
      r.Canonical ∧ Definition.ofValue r.toValue = .ok r := by
  refine ⟨?_, ?_, ?_, ?_⟩
  · intro d
    exact ⟨Definition.ofObject_toObject_iff, Definition.exists_beq_ofObject_toObject_iff⟩
  · intro document d read_ok
    exact Definition.canonical_of_read read_ok
  · intro d canonical
    refine ⟨Definition.canonical_expandRepeat canonical, ?_, ?_⟩
    · exact compile_eq_compileDefinition catalog (Definition.read_toValue canonical)
    · intro r ok
      have compiled := canonical_of_compileDefinition canonical ok
      exact ⟨compiled, Definition.read_toValue compiled⟩
  · intro document r ok
    have compiled := canonical_of_compile ok
    exact ⟨compiled, Definition.read_toValue compiled⟩

def maskedReference : Definition :=
  .reference "rail" ⟨none, none, none, none, KeyMap.nil.insert "name" (.string "alias")⟩

theorem alias_reads_back :
    (Definition.ofValue aliasDocument = .ok aliasDefinition ∧
      railCatalog.compileDefinition aliasDefinition = .ok aliasCompiled ∧
      railCatalog.compile aliasDocument = .ok aliasCompiled) ∧
    (aliasDefinition.Canonical ∧ ¬ maskedReference.Canonical) ∧
    (aliasDefinition.expandRepeat.Canonical ∧
      railCatalog.compile aliasDefinition.toValue =
        railCatalog.compileDefinition aliasDefinition) ∧
    aliasCompiled.Canonical ∧ Definition.ofValue aliasCompiled.toValue = .ok aliasCompiled := by
  have read_ok : Definition.ofValue aliasDocument = .ok aliasDefinition := by decide +kernel
  have ok : railCatalog.compileDefinition aliasDefinition = .ok aliasCompiled := by
    decide +kernel
  have document_ok : railCatalog.compile aliasDocument = .ok aliasCompiled := by decide +kernel
  have lost : Definition.ofObject maskedReference.toObject ≠ .ok maskedReference := by
    decide +kernel
  obtain ⟨back, read_canonical, of_canonical, of_compile⟩ := canonical_iff_reads_back railCatalog
  have canonical := read_canonical aliasDocument aliasDefinition read_ok
  have masked : ¬ maskedReference.Canonical :=
    fun canonical => lost ((back maskedReference).1.mpr canonical)
  obtain ⟨expanded, same, -⟩ := of_canonical aliasDefinition canonical
  exact ⟨⟨read_ok, ok, document_ok⟩, ⟨canonical, masked⟩, ⟨expanded, same⟩,
    of_compile aliasDocument aliasCompiled document_ok⟩

end Catalog

end PartTree
