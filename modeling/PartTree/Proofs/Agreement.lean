import PartTree.Proofs.Calls

/-!
Two runs of the compiler side by side. As long as they look up the same entries and have the same
names under expansion they come to the same; where they part, the one that knows less fails with a
name that it misses, and the one below more references with a cycle.
-/

namespace PartTree

namespace Compile

variable {catalog other : Catalog} {chain shorter : List String} {d : Definition}

/-- A result is settled if it is none of the errors in which the other run may differ. A settled
result is also that of the other run. Names under expansion are not looked up again. -/
theorem result_node_of_settled (Unsettled : CompileError → Prop)
    (lookups : ∀ name ∉ chain, other.find? name = catalog.find? name ∨
      catalog.find? name = none ∧ Unsettled (.unresolved name))
    (subset : shorter ⊆ chain) (chains : shorter = chain ∨ ∀ cycle, Unsettled (.cycle cycle))
    (settled : ∀ e, Unsettled e → (node catalog chain d).result ≠ .error e) :
    (node other shorter d).result = (node catalog chain d).result := by
  induction chain, d using expansion_induction catalog generalizing shorter with
  | primitive chain typeName a => rw [node_primitive, node_primitive]
  | childless chain a => rw [node_childless, node_childless]
  | composite chain parts a each =>
      rw [result_node_composite] at settled ⊢
      rw [result_node_composite]
      congr 1
      apply mapM_eq_of_settled Unsettled
      · intro e unsettled failed
        exact settled e unsettled (map_eq_error.mpr failed)
      · intro part member part_settled
        congr 1
        apply each part member lookups subset chains
        intro e unsettled failed
        exact part_settled e unsettled (map_eq_error.mpr failed)
  | reference chain name a below =>
      rw [result_node_reference] at settled ⊢
      rw [result_node_reference]
      by_cases again : name ∈ chain
      · rw [if_pos again] at settled ⊢
        rcases chains with rfl | unsettled
        · rw [if_pos again]
        · exact absurd rfl (settled _ (unsettled _))
      · have fresh : name ∉ shorter := fun earlier => again (subset earlier)
        rw [if_neg again] at settled ⊢
        rw [if_neg fresh]
        rcases lookups name again with same | ⟨missing, unsettled⟩
        · rw [same]
          cases found : catalog.find? name with
          | none => rfl
          | some entry =>
              simp only [found] at settled ⊢
              cases merged : (entry.overlay (.reference name a)).result with
              | error cause => rfl
              | ok d =>
                  rw [merged] at settled
                  apply below entry d again found merged
                  · intro next fresh_next
                    exact lookups next fun earlier =>
                      fresh_next (List.mem_append_left [name] earlier)
                  · exact append_singleton_subset subset name
                  · exact chains.imp (congrArg (· ++ [name])) id
                  · exact settled
        · rw [missing] at settled
          exact absurd rfl (settled _ unsettled)

theorem result_node_of_agree (agree : ∀ name ∉ chain, other.find? name = catalog.find? name) :
    (node other chain d).result = (node catalog chain d).result := by
  apply result_node_of_settled fun _ => False
  · intro name fresh
    exact .inl (agree name fresh)
  · exact List.Subset.refl chain
  · exact .inl rfl
  · intro e never
    exact never.elim

theorem result_node_insert_of_mem {name : String} (member : name ∈ chain) (entry : Definition) :
    (node (catalog.insert name entry) chain d).result = (node catalog chain d).result := by
  apply result_node_of_agree
  intro next fresh
  have elsewhere : next ≠ name := fun same => fresh (same.symm ▸ member)
  rw [KeyMap.find?_insert, if_neg elsewhere]

/-- Below fewer names a tree compiles to the same, unless it met a cycle. -/
theorem result_node_of_subset (subset : shorter ⊆ chain)
    (noCycle : ∀ cycle, (node catalog chain d).result ≠ .error (.cycle cycle)) :
    (node catalog shorter d).result = (node catalog chain d).result := by
  apply result_node_of_settled fun e => ∃ cycle, e = .cycle cycle
  · intro name _
    exact .inl rfl
  · exact subset
  · exact .inr fun cycle => ⟨cycle, rfl⟩
  · intro e met failed
    obtain ⟨cycle, rfl⟩ := met
    exact noCycle cycle failed

theorem node_eq_ok_of_chain_subset {r : Definition} (subset : shorter ⊆ chain)
    (ok : (node catalog chain d).result = .ok r) : (node catalog shorter d).result = .ok r := by
  rw [← ok]
  apply result_node_of_subset subset
  intro cycle failed
  cases ok.symm.trans failed

theorem node_ok_unique {other : List String} {r s : Definition}
    (first : (node catalog chain d).result = .ok r)
    (second : (node catalog other d).result = .ok s) : r = s := by
  have first_alone := node_eq_ok_of_chain_subset (List.nil_subset _) first
  have second_alone := node_eq_ok_of_chain_subset (List.nil_subset _) second
  exact Except.ok.inj (first_alone.symm.trans second_alone)

end Compile

namespace Catalog

variable {catalog larger : Catalog}

/-- Whether every entry of a catalog is in a larger one, unchanged. -/
def ExtendsTo (catalog larger : Catalog) : Prop :=
  ∀ name entry, catalog.find? name = some entry → larger.find? name = some entry

theorem compileDefinition_of_extendsTo (extension : catalog.ExtendsTo larger) {d : Definition}
    (settled : ∀ name, catalog.compileDefinition d ≠ .error (.unresolved name)) :
    larger.compileDefinition d = catalog.compileDefinition d := by
  rw [compileDefinition, compileDefinition, compileDefinitionLogged, compileDefinitionLogged,
    Logged.result_map, Logged.result_map]
  congr 1
  apply Compile.result_node_of_settled fun e => ∃ name, e = .unresolved name
  · intro name _
    cases found : catalog.find? name with
    | none => exact .inr ⟨rfl, name, rfl⟩
    | some entry => exact .inl (extension name entry found)
  · exact List.Subset.refl _
  · exact .inl rfl
  · intro e missing failed
    obtain ⟨name, rfl⟩ := missing
    apply settled name
    rw [compileDefinition, compileDefinitionLogged, Logged.result_map, failed]
    rfl

/-- More entries change nothing, unless a name was missing: the same tree comes out, or the same
error. -/
theorem compile_extended (extension : catalog.ExtendsTo larger) :
    (∀ d, (∀ name, catalog.compileDefinition d ≠ .error (.unresolved name)) →
      larger.compileDefinition d = catalog.compileDefinition d) ∧
    ∀ document, (∀ name, catalog.compile document ≠ .error (.unresolved name)) →
      larger.compile document = catalog.compile document := by
  constructor
  · intro d settled
    exact compileDefinition_of_extendsTo extension settled
  · intro document settled
    cases accepted : Definition.ofValue document with
    | error cause =>
        rw [compile_eq_error_of_ofValue catalog accepted,
          compile_eq_error_of_ofValue larger accepted]
    | ok d =>
        rw [compile_eq_compileDefinition catalog accepted] at settled ⊢
        rw [compile_eq_compileDefinition larger accepted]
        exact compileDefinition_of_extendsTo extension settled

def lampCatalog : Catalog :=
  gateCatalog.insert "lamp" (.primitive "box" ⟨none, none, none, none, .nil⟩)

def lampReference : Definition := .reference "lamp" ⟨none, none, none, none, .nil⟩

def doorDocument : Value := .object (KeyMap.ofList [
  ("type", .string "ref"),
  ("name", .string "door"),
  ("position", Vec.toValue [.ofUInt64 7])])

def doorCompiled : Definition := .composite none ⟨some [.ofUInt64 7], none, none, none, .nil⟩

theorem lamp_extendsTo : gateCatalog.ExtendsTo lampCatalog := by
  intro name entry found
  have other : name ≠ "lamp" := by
    intro same
    rw [same] at found
    cases found.symm.trans (show gateCatalog.find? "lamp" = none by decide +kernel)
  rw [lampCatalog, KeyMap.find?_insert, if_neg other, found]

theorem compile_gate_extended :
    (gateCatalog.ExtendsTo lampCatalog ∧
      (∀ name, gateCatalog.compileDefinition gateReference ≠ .error (.unresolved name)) ∧
      (∀ name, gateCatalog.compile doorDocument ≠ .error (.unresolved name)) ∧
      gateCatalog.compileDefinition lampReference = .error (.unresolved "lamp") ∧
      lampCatalog.compileDefinition lampReference ≠ .error (.unresolved "lamp")) ∧
    lampCatalog.compileDefinition gateReference = .error (.cycle ["gate", "door", "gate"]) ∧
    lampCatalog.compile doorDocument = .ok doorCompiled := by
  have closed : gateCatalog.compileDefinition gateReference =
      .error (.cycle ["gate", "door", "gate"]) := by
    decide +kernel
  have opened : gateCatalog.compile doorDocument = .ok doorCompiled := by decide +kernel
  have gate_known : ∀ name,
      gateCatalog.compileDefinition gateReference ≠ .error (.unresolved name) := by
    intro name missing
    cases closed.symm.trans missing
  have door_known : ∀ name, gateCatalog.compile doorDocument ≠ .error (.unresolved name) := by
    intro name missing
    cases opened.symm.trans missing
  obtain ⟨definitions, documents⟩ := compile_extended lamp_extendsTo
  refine ⟨⟨lamp_extendsTo, gate_known, door_known, by decide +kernel, by decide +kernel⟩, ?_, ?_⟩
  · exact (definitions gateReference gate_known).trans closed
  · exact (documents doorDocument door_known).trans opened

end Catalog

end PartTree
