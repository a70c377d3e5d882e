import PartTree.Compile
import PartTree.Proofs.Sequence

/-!
One step of compiling: what a node of each kind compiles to, and the induction that follows the
references into the entries they stand for.
-/

namespace PartTree

namespace Compile

variable {catalog : Catalog}

/-- What holds of the parts of a composite and of the tree that a reference expands to holds of the
node itself. -/
theorem expansion_induction (catalog : Catalog) {motive : List String → Definition → Prop}
    (primitive : ∀ chain typeName a, motive chain (.primitive typeName a))
    (childless : ∀ chain a, motive chain (.composite none a))
    (composite : ∀ chain parts a, (∀ part ∈ parts, motive chain part) →
      motive chain (.composite (some parts) a))
    (reference : ∀ chain name a, (∀ entry d, name ∉ chain → catalog.find? name = some entry →
      (entry.overlay (.reference name a)).result = .ok d → motive (chain ++ [name]) d) →
      motive chain (.reference name a))
    (chain : List String) (d : Definition) : motive chain d := by
  apply node.induct catalog motive (fun chain parts => ∀ part ∈ parts, motive chain part)
  · intro chain name a again
    exact reference chain name a fun entry d fresh => absurd again fresh
  · intro chain name a _ missing
    refine reference chain name a fun entry d _ found => ?_
    rw [missing] at found
    cases found
  · intro chain name a _ entry found below
    refine reference chain name a fun other d _ again merged => ?_
    rw [found] at again
    cases again
    exact below d merged
  · exact composite
  · intro chain d notReference notComposite
    cases d with
    | primitive typeName a => exact primitive chain typeName a
    | reference name a => exact absurd rfl (notReference name a)
    | composite parts a =>
        cases parts with
        | none => exact childless chain a
        | some parts => exact absurd rfl (notComposite parts a)
  · intro chain part member
    cases member
  · intro chain head tail first others part member
    rcases List.mem_cons.mp member with rfl | later
    · exact first
    · exact others part later

@[simp] theorem node_primitive (chain : List String) (typeName : String) (a : Attributes) :
    node catalog chain (.primitive typeName a) = pure (.primitive typeName a) := by
  rw [node] <;> simp

@[simp] theorem node_childless (chain : List String) (a : Attributes) :
    node catalog chain (.composite none a) = pure (.composite none a) := by
  rw [node] <;> simp

theorem node_primitive_eq_ok {chain : List String} {typeName : String} {a : Attributes}
    {r : Definition} :
    (node catalog chain (.primitive typeName a)).result = .ok r ↔ r = .primitive typeName a := by
  simp [eq_comm]

theorem node_childless_eq_ok {chain : List String} {a : Attributes} {r : Definition} :
    (node catalog chain (.composite none a)).result = .ok r ↔ r = .composite none a := by
  simp [eq_comm]

theorem result_nodes (chain : List String) (parts : List Definition) :
    (nodes catalog chain parts).result =
      parts.mapM fun part => Definition.expandRepeat <$> (node catalog chain part).result := by
  apply result_eq_mapM
  · rw [nodes]
  · intro part parts
    rw [nodes]

theorem result_node_composite (chain : List String) (parts : List Definition) (a : Attributes) :
    (node catalog chain (.composite (some parts) a)).result =
      (fun parts => .composite (some parts) a) <$>
        parts.mapM fun part => Definition.expandRepeat <$> (node catalog chain part).result := by
  rw [node, Logged.result_bind, result_nodes]
  rfl

theorem node_composite_eq_ok {chain : List String} {parts : List Definition} {a : Attributes}
    {r : Definition} :
    (node catalog chain (.composite (some parts) a)).result = .ok r ↔
      ∃ compiled, r = .composite (some compiled) a ∧
        List.Forall₂ (fun part result => ∃ d, (node catalog chain part).result = .ok d ∧
          d.expandRepeat = result) parts compiled := by
  rw [result_node_composite, map_eq_ok]
  simp only [mapM_eq_ok, map_eq_ok]
  constructor
  · intro found
    rcases found with ⟨compiled, each, rfl⟩
    exact ⟨compiled, rfl, each⟩
  · intro found
    rcases found with ⟨compiled, rfl, each⟩
    exact ⟨compiled, each, rfl⟩

/-- A composite fails with the error of its first part that fails. -/
theorem node_composite_eq_error_iff {chain : List String} {parts : List Definition} {a : Attributes}
    {e : CompileError} :
    (node catalog chain (.composite (some parts) a)).result = .error e ↔
      ∃ before part after, parts = before ++ part :: after ∧
        (∀ earlier ∈ before, ∃ r, (node catalog chain earlier).result = .ok r) ∧
        (node catalog chain part).result = .error e := by
  rw [result_node_composite, map_eq_error, mapM_eq_error_iff]
  simp only [map_eq_ok, map_eq_error, exists_comm (α := Definition), exists_and_left,
    exists_eq', and_true]

theorem node_composite_eq_error {chain : List String} {parts : List Definition} {a : Attributes}
    {e : CompileError}
    (failed : (node catalog chain (.composite (some parts) a)).result = .error e) :
    ∃ part ∈ parts, (node catalog chain part).result = .error e := by
  obtain ⟨before, part, after, rfl, -, part_failed⟩ := node_composite_eq_error_iff.mp failed
  exact ⟨part, by simp, part_failed⟩

theorem result_node_reference (chain : List String) (name : String) (a : Attributes) :
    (node catalog chain (.reference name a)).result =
      if name ∈ chain then .error (.cycle (chain ++ [name]))
      else
        match catalog.find? name with
        | none => .error (.unresolved name)
        | some entry => (do
          let d ← (entry.overlay (.reference name a)).result.mapError .format
          (node catalog (chain ++ [name]) d).result) := by
  rw [node_reference]
  split
  · rfl
  · cases catalog.find? name with
    | none => rfl
    | some entry =>
        simp only [Logged.result_bind, Logged.result_report, Logged.result_mapError]
        rfl

theorem node_reference_eq_ok {chain : List String} {name : String} {a : Attributes}
    {r : Definition} :
    (node catalog chain (.reference name a)).result = .ok r ↔
      name ∉ chain ∧ ∃ entry d, catalog.find? name = some entry ∧
        (entry.overlay (.reference name a)).result = .ok d ∧
        (node catalog (chain ++ [name]) d).result = .ok r := by
  rw [node_reference]
  by_cases again : name ∈ chain
  · simp [again]
  · cases found : catalog.find? name with
    | none => simp [again]
    | some entry =>
        cases merged : (entry.overlay (.reference name a)).result with
        | error e => simp [again, merged, bind, Except.mapError]
        | ok d => simp [again, merged, bind, Except.mapError]

theorem node_reference_eq_error {chain : List String} {name : String} {a : Attributes}
    {e : CompileError} (failed : (node catalog chain (.reference name a)).result = .error e) :
    (name ∈ chain ∧ e = .cycle (chain ++ [name])) ∨
      (name ∉ chain ∧ catalog.find? name = none ∧ e = .unresolved name) ∨
      ∃ entry, name ∉ chain ∧ catalog.find? name = some entry ∧
        ((∃ cause, (entry.overlay (.reference name a)).result = .error cause ∧ e = .format cause) ∨
          ∃ d, (entry.overlay (.reference name a)).result = .ok d ∧
            (node catalog (chain ++ [name]) d).result = .error e) := by
  rw [node_reference] at failed
  by_cases again : name ∈ chain
  · rw [if_pos again] at failed
    cases failed
    exact .inl ⟨again, rfl⟩
  · rw [if_neg again] at failed
    cases found : catalog.find? name with
    | none =>
        rw [found] at failed
        cases failed
        exact .inr (.inl ⟨again, rfl, rfl⟩)
    | some entry =>
        refine .inr (.inr ⟨entry, again, rfl, ?_⟩)
        simp only [found, Logged.result_bind, Logged.result_report,
          Logged.result_mapError] at failed
        cases merged : (entry.overlay (.reference name a)).result with
        | error cause =>
            rw [merged] at failed
            cases failed
            exact .inl ⟨cause, rfl, rfl⟩
        | ok d =>
            rw [merged] at failed
            exact .inr ⟨d, rfl, failed⟩

end Compile

end PartTree
