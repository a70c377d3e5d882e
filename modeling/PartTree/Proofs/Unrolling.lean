import PartTree.Proofs.Compiled

/-!
Expanding the rule of a tree before it is compiled. A primitive part and a composite compile to the
same below any placement, so that their copies are compiled alike, and alike to the node that they
are copies of. To expand first comes to the same tree, and with one copy or more to the same error.
-/

namespace PartTree

namespace Compile

variable {catalog : Catalog} {chain : List String} {d r : Definition}

/-- A node that is no reference compiles alike whatever it carries besides its kind, and still
carries it. -/
theorem result_node_mapAttributes (notReference : d.referenceName? = none)
    (f : Attributes → Attributes) :
    (node catalog chain (d.mapAttributes f)).result =
      (fun r => r.mapAttributes f) <$> (node catalog chain d).result := by
  cases d with
  | reference name a => cases notReference
  | primitive typeName a =>
      rw [Definition.mapAttributes, node_primitive, node_primitive]
      rfl
  | composite parts a =>
      cases parts with
      | none =>
          rw [Definition.mapAttributes, node_childless, node_childless]
          rfl
      | some parts =>
          rw [Definition.mapAttributes, result_node_composite, result_node_composite,
            Functor.map_map]
          rfl

theorem attributes_of_node (notReference : d.referenceName? = none)
    (ok : (node catalog chain d).result = .ok r) : r.attributes = d.attributes := by
  cases d with
  | reference name a => cases notReference
  | primitive typeName a => rw [node_primitive_eq_ok.mp ok]
  | composite parts a =>
      cases parts with
      | none => rw [node_childless_eq_ok.mp ok]
      | some parts =>
          rcases node_composite_eq_ok.mp ok with ⟨compiled, rfl, -⟩
          rfl

/-- A copy has no rule left, so that it is what the node compiles to, at another place. -/
theorem result_node_copy (notReference : d.referenceName? = none) (rule : RepeatRule)
    (step : Nat) :
    Definition.expandRepeat <$> (node catalog chain (d.mapAttributes (rule.place step))).result =
      (fun r => r.mapAttributes (rule.place step)) <$> (node catalog chain d).result := by
  have placed : ∀ r : Definition,
      (r.mapAttributes (rule.place step)).expandRepeat = r.mapAttributes (rule.place step) := by
    intro r
    apply Definition.expandRepeat_of_no_rule
    rw [Definition.attributes_mapAttributes]
    rfl
  rw [result_node_mapAttributes notReference, Functor.map_map]
  congr 1
  funext r
  exact placed r

theorem result_node_copies (notReference : d.referenceName? = none) (rule : RepeatRule)
    (a : Attributes) :
    (node catalog chain (.composite (some (rule.copies d)) a)).result =
      (fun copies => .composite (some copies) a) <$> (List.range rule.times.toNat).mapM fun step =>
        (fun r => r.mapAttributes (rule.place step)) <$> (node catalog chain d).result := by
  rw [result_node_composite, RepeatRule.copies, List.mapM_map]
  congr 2
  funext step
  exact result_node_copy notReference rule step

end Compile

namespace Catalog

variable {catalog : Catalog} {d r : Definition} {rule : RepeatRule}

theorem compileDefinition_copies (notReference : d.referenceName? = none)
    (ruled : d.attributes.rule = some rule) :
    catalog.compileDefinition d.expandRepeat =
      (fun copies => .composite (some copies) ⟨none, none, none, none, .nil⟩) <$>
        (List.range rule.times.toNat).mapM fun step =>
          (fun r => r.mapAttributes (rule.place step)) <$> (Compile.node catalog [] d).result := by
  rw [compileDefinition_eq_node, Definition.expandRepeat_of_rule ruled,
    Compile.result_node_copies notReference, Functor.map_map]
  rfl

theorem compileDefinition_expandRepeat_of_ok (notReference : d.referenceName? = none)
    (ok : catalog.compileDefinition d = .ok r) :
    catalog.compileDefinition d.expandRepeat = .ok r := by
  cases ruled : d.attributes.rule with
  | none => rw [Definition.expandRepeat_of_no_rule ruled, ok]
  | some rule =>
      rcases compileDefinition_eq_ok.mp ok with ⟨compiled, node_ok, rfl⟩
      have still_ruled : compiled.attributes.rule = some rule := by
        rw [Compile.attributes_of_node notReference node_ok, ruled]
      rw [compileDefinition_copies notReference ruled, mapM_same_of_ok node_ok,
        Definition.expandRepeat_of_rule still_ruled]
      rfl

theorem compileDefinition_expandRepeat_of_error (notReference : d.referenceName? = none)
    (copied : ∀ rule, d.attributes.rule = some rule → 1 ≤ rule.times) {e : CompileError}
    (failed : catalog.compileDefinition d = .error e) :
    catalog.compileDefinition d.expandRepeat = .error e := by
  cases ruled : d.attributes.rule with
  | none => rw [Definition.expandRepeat_of_no_rule ruled, failed]
  | some rule =>
      have node_failed : (Compile.node catalog [] d).result = .error e := by
        rw [compileDefinition_eq_node] at failed
        exact map_eq_error.mp failed
      have first_copy : List.range rule.times.toNat ≠ [] := by
        have positive := UInt64.le_iff_toNat_le.mp (copied rule ruled)
        rw [ne_eq, List.range_eq_nil]
        exact Nat.ne_of_gt positive
      rw [compileDefinition_copies notReference ruled, mapM_same_of_error node_failed _ first_copy]
      rfl

/-- A primitive part or a composite compiles to the same tree whether its own rule is expanded
before or afterwards. Unless there are no copies to fail, it fails with the same error, too. -/
theorem compileDefinition_expandRepeat (catalog : Catalog) (d : Definition)
    (notReference : d.referenceName? = none) :
    (∀ r, catalog.compileDefinition d = .ok r →
      catalog.compileDefinition d.expandRepeat = .ok r) ∧
    ((∀ rule, d.attributes.rule = some rule → 1 ≤ rule.times) →
      catalog.compileDefinition d.expandRepeat = catalog.compileDefinition d) := by
  constructor
  · intro r ok
    exact compileDefinition_expandRepeat_of_ok notReference ok
  · intro copied
    cases outcome : catalog.compileDefinition d with
    | ok r => exact compileDefinition_expandRepeat_of_ok notReference outcome
    | error e => exact compileDefinition_expandRepeat_of_error notReference copied outcome

def fence (times : UInt64) (rails : String) : Definition :=
  .composite (some [.reference rails ⟨none, none, none, none, .nil⟩])
    ⟨some [.ofUInt64 1], none, some ⟨times, some [.ofUInt64 4], none⟩, none, .nil⟩

def railBox (position : UInt64) : Definition :=
  .primitive "box" ⟨some [.ofUInt64 position], some zeroVec, none, none, .nil⟩

def fencePanel (position : UInt64) : Definition :=
  .composite (some [.composite (some [railBox 5, railBox 7]) ⟨none, none, none, none, .nil⟩])
    ⟨some [.ofUInt64 position], some zeroVec, none, none, .nil⟩

def fenceCompiled : Definition :=
  .composite (some [fencePanel 1, fencePanel 5]) ⟨none, none, none, none, .nil⟩

theorem compile_fence_expandRepeat :
    ((fence 2 "alias").referenceName? = none ∧ (fence 2 "lost").referenceName? = none ∧
      (∀ rule, (fence 2 "lost").attributes.rule = some rule → 1 ≤ rule.times) ∧
      railCatalog.compileDefinition (fence 2 "alias") = .ok fenceCompiled ∧
      railCatalog.compileDefinition (fence 2 "lost") = .error (.unresolved "lost")) ∧
    railCatalog.compileDefinition (fence 2 "alias").expandRepeat = .ok fenceCompiled ∧
    railCatalog.compileDefinition (fence 2 "lost").expandRepeat = .error (.unresolved "lost") := by
  have ok : railCatalog.compileDefinition (fence 2 "alias") = .ok fenceCompiled := by
    decide +kernel
  have failed : railCatalog.compileDefinition (fence 2 "lost") = .error (.unresolved "lost") := by
    decide +kernel
  have copied : ∀ rule, (fence 2 "lost").attributes.rule = some rule → 1 ≤ rule.times := by
    intro rule ruled
    cases ruled
    decide
  have found := (compileDefinition_expandRepeat railCatalog (fence 2 "alias") rfl).1
  have missing := (compileDefinition_expandRepeat railCatalog (fence 2 "lost") rfl).2
  exact ⟨⟨rfl, rfl, copied, ok, failed⟩, found fenceCompiled ok, (missing copied).trans failed⟩

/-- No copy fails if there is none, and a reference may have a rule of its entry under its own. -/
example :
    railCatalog.compileDefinition (fence 0 "lost") = .error (.unresolved "lost") ∧
      railCatalog.compileDefinition (fence 0 "lost").expandRepeat =
        .ok (.composite (some []) ⟨none, none, none, none, .nil⟩) ∧
      railCatalog.compileDefinition aliasDefinition.expandRepeat ≠
        railCatalog.compileDefinition aliasDefinition := by
  decide +kernel

end Catalog

end PartTree
