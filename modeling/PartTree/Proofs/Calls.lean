import PartTree.Proofs.Compiled
import Mathlib.Data.List.Nodup
import Mathlib.Data.List.Perm.Subperm
import Mathlib.Logic.Relation

/-!
The calls that compiling makes: a reference goes on to the tree that it expands to, a composite to
each of its parts. Calls cannot be nested for ever, the names above a call are distinct entries of
the catalog, and a cycle is reported by the call that meets one of them again.
-/

namespace PartTree

namespace KeyMap

theorem length_le_size {α : Type} {bound : Option String} {map : KeyMap α bound}
    {names : List String} (distinct : names.Nodup)
    (present : ∀ name ∈ names, map.contains name = true) : names.length ≤ map.size := by
  have subset : names ⊆ map.keys := by
    intro name member
    exact mem_keys_iff.mpr (present name member)
  calc
    names.length ≤ map.keys.length := (distinct.subperm subset).length_le
    _ = map.size := by rw [keys, size, List.length_map]

end KeyMap

namespace Compile

/-- A tree to compile, and the names under expansion above it. -/
structure Call where
  chain : List String
  tree : Definition
  deriving DecidableEq

/-- What must be compiled before the tree can be put together. -/
def calls (catalog : Catalog) (chain : List String) : Definition → Except CompileError (List Call)
  | .reference name a =>
    if name ∈ chain then .error (.cycle (chain ++ [name]))
    else
      match catalog.find? name with
      | none => .error (.unresolved name)
      | some entry =>
        (fun d => [⟨chain ++ [name], d⟩]) <$>
          (entry.overlay (.reference name a)).result.mapError .format
  | .composite (some parts) _ => .ok (parts.map (Call.mk chain))
  | _ => .ok []

/-- The tree put together from what its calls came to. -/
def assemble : Definition → List Definition → Definition
  | .composite (some _) a, results => .composite (some (results.map Definition.expandRepeat)) a
  | .reference .., [result] => result
  | d, _ => d

def Call.result (catalog : Catalog) (call : Call) : Except CompileError Definition :=
  (node catalog call.chain call.tree).result

def Calls (catalog : Catalog) (caller callee : Call) : Prop :=
  ∃ made, calls catalog caller.chain caller.tree = .ok made ∧ callee ∈ made

/-- The calls that a call leads to, itself included. -/
def LeadsTo (catalog : Catalog) : Call → Call → Prop := Relation.ReflTransGen (Calls catalog)

variable {catalog : Catalog} {caller callee call : Call}

/-- What a call comes to depends on its own calls alone. -/
theorem result_eq_calls (catalog : Catalog) (call : Call) :
    call.result catalog = (do
      let made ← calls catalog call.chain call.tree
      let results ← made.mapM (Call.result catalog)
      pure (assemble call.tree results)) := by
  rcases call with ⟨chain, d⟩
  cases d with
  | primitive typeName a =>
      rw [Call.result, node_primitive]
      rfl
  | composite parts a =>
      cases parts with
      | none =>
          rw [Call.result, node_childless]
          rfl
      | some parts =>
          have each : (parts.map (Call.mk chain)).mapM (Call.result catalog) =
              parts.mapM fun part => (node catalog chain part).result := by
            rw [List.mapM_map]
            rfl
          rw [Call.result, result_node_composite, mapM_map_eq, ← each]
          simp only [calls, bind, Except.bind]
          cases (parts.map (Call.mk chain)).mapM (Call.result catalog) <;> rfl
  | reference name a =>
      rw [Call.result, node_reference]
      simp only [calls]
      split
      · rfl
      · cases catalog.find? name with
        | none => rfl
        | some entry =>
            simp only [Logged.result_bind, Logged.result_report, Logged.result_mapError]
            cases (entry.overlay (.reference name a)).result with
            | error cause => rfl
            | ok d =>
                change (node catalog (chain ++ [name]) d).result = (do
                  let results ← [(⟨chain ++ [name], d⟩ : Call)].mapM (Call.result catalog)
                  pure (assemble (.reference name a) results))
                rw [List.mapM_cons, List.mapM_nil, Call.result]
                cases (node catalog (chain ++ [name]) d).result <;> rfl

theorem calls_cases (called : Calls catalog caller callee) :
    (∃ parts a part, caller.tree = .composite (some parts) a ∧ part ∈ parts ∧
      callee = ⟨caller.chain, part⟩) ∨
    ∃ name a entry d, caller.tree = .reference name a ∧ name ∉ caller.chain ∧
      catalog.find? name = some entry ∧ (entry.overlay (.reference name a)).result = .ok d ∧
      callee = ⟨caller.chain ++ [name], d⟩ := by
  obtain ⟨made, calls_ok, member⟩ := called
  cases shape : caller.tree with
  | primitive typeName a =>
      rw [shape] at calls_ok
      cases calls_ok
      cases member
  | composite parts a =>
      rw [shape] at calls_ok
      cases parts with
      | none =>
          cases calls_ok
          cases member
      | some parts =>
          cases calls_ok
          obtain ⟨part, inside, rfl⟩ := List.mem_map.mp member
          exact .inl ⟨parts, a, part, rfl, inside, rfl⟩
  | reference name a =>
      rw [shape, calls] at calls_ok
      split at calls_ok
      · cases calls_ok
      · rename_i fresh
        split at calls_ok
        · cases calls_ok
        · rename_i entry found
          obtain ⟨d, merged, rfl⟩ := map_eq_ok.mp calls_ok
          cases List.mem_singleton.mp member
          exact .inr ⟨name, a, entry, d, rfl, fresh, found, mapError_eq_ok.mp merged, rfl⟩

theorem calls_part {chain : List String} {parts : List Definition} {a : Attributes}
    {part : Definition} (member : part ∈ parts) :
    Calls catalog ⟨chain, .composite (some parts) a⟩ ⟨chain, part⟩ :=
  ⟨_, rfl, List.mem_map_of_mem member⟩

theorem calls_reference {chain : List String} {name : String} {a : Attributes}
    {entry d : Definition} (fresh : name ∉ chain) (found : catalog.find? name = some entry)
    (merged : (entry.overlay (.reference name a)).result = .ok d) :
    Calls catalog ⟨chain, .reference name a⟩ ⟨chain ++ [name], d⟩ := by
  refine ⟨[⟨chain ++ [name], d⟩], ?_, List.mem_singleton_self _⟩
  simp only [calls]
  rw [if_neg fresh, found]
  simp only [merged]
  rfl

/-- Of the errors that a call raises before it makes a call of its own, a cycle is the one of a
reference whose name is under expansion. -/
theorem calls_eq_cycle {chain cycle : List String} {d : Definition}
    (failed : calls catalog chain d = .error (.cycle cycle)) :
    ∃ name ∈ chain, cycle = chain ++ [name] := by
  cases d with
  | primitive typeName a => cases failed
  | composite parts a => cases parts <;> cases failed
  | reference name a =>
      rw [calls] at failed
      split at failed
      · rename_i again
        cases failed
        exact ⟨name, again, rfl⟩
      · split at failed
        · cases failed
        · obtain ⟨cause, -, same⟩ := mapError_eq_error.mp (map_eq_error.mp failed)
          cases same

def Call.weight (catalog : Catalog) (call : Call) : Nat :=
  call.tree.weight + catalog.pending entryWeight call.chain

theorem weight_lt_weightAll {parts : List Definition} {part : Definition} (member : part ∈ parts) :
    part.weight < Definition.weightAll parts := by
  induction parts with
  | nil => cases member
  | cons head tail ih =>
      rw [Definition.weightAll]
      rcases List.mem_cons.mp member with rfl | later
      · omega
      · have smaller := ih later
        omega

theorem weight_lt_of_calls (called : Calls catalog caller callee) :
    callee.weight catalog < caller.weight catalog := by
  rcases caller with ⟨chain, tree⟩
  rcases calls_cases called with
    ⟨parts, a, part, rfl, inside, rfl⟩ | ⟨name, a, entry, d, rfl, fresh, found, merged, rfl⟩
  · have smaller := weight_lt_weightAll inside
    simp only [Call.weight, Definition.weight]
    omega
  · have lighter := weight_overlay_lt merged
    have visited : catalog.pending entryWeight (chain ++ [name]) + entryWeight entry ≤
        catalog.pending entryWeight chain := KeyMap.pending_visit entryWeight found fresh
    simp only [Call.weight]
    omega

theorem weight_le_of_leadsTo (leads : LeadsTo catalog caller callee) :
    callee.weight catalog ≤ caller.weight catalog := by
  induction leads with
  | refl => exact Nat.le_refl _
  | tail _ called ih => exact Nat.le_trans (Nat.le_of_lt (weight_lt_of_calls called)) ih

theorem wellFounded_calls (catalog : Catalog) :
    WellFounded fun callee caller => Calls catalog caller callee :=
  Subrelation.wf weight_lt_of_calls (measure (Call.weight catalog)).wf

theorem chain_subset_of_leadsTo (leads : LeadsTo catalog caller callee) :
    caller.chain ⊆ callee.chain := by
  induction leads with
  | refl => exact List.Subset.refl _
  | tail _ called ih =>
      rcases calls_cases called with
        ⟨parts, a, part, -, -, rfl⟩ | ⟨name, a, entry, d, -, -, -, -, rfl⟩
      · exact ih
      · exact List.subset_append_of_subset_left _ ih

/-- Names under expansion: entries of the catalog, each met once. -/
structure Tracked (catalog : Catalog) (chain : List String) : Prop where
  distinct : chain.Nodup
  present : ∀ name ∈ chain, catalog.contains name = true

theorem Tracked.nil : Tracked catalog [] := by
  constructor
  · exact List.nodup_nil
  · intro name member
    cases member

theorem Tracked.length_le {chain : List String} (tracked : Tracked catalog chain) :
    chain.length ≤ catalog.size :=
  KeyMap.length_le_size tracked.distinct tracked.present

theorem Tracked.snoc {chain : List String} {name : String} {entry : Definition}
    (tracked : Tracked catalog chain) (fresh : name ∉ chain)
    (found : catalog.find? name = some entry) : Tracked catalog (chain ++ [name]) where
  distinct := by
    rw [← List.concat_eq_append]
    exact List.Nodup.concat fresh tracked.distinct
  present := by
    intro other member
    rcases List.mem_append.mp member with earlier | last
    · exact tracked.present other earlier
    · rw [List.mem_singleton.mp last, KeyMap.contains, found]
      rfl

theorem tracked_of_calls (called : Calls catalog caller callee)
    (tracked : Tracked catalog caller.chain) : Tracked catalog callee.chain := by
  rcases calls_cases called with
    ⟨parts, a, part, -, -, rfl⟩ | ⟨name, a, entry, d, -, fresh, found, -, rfl⟩
  · exact tracked
  · exact tracked.snoc fresh found

theorem tracked_of_leadsTo (leads : LeadsTo catalog caller callee)
    (tracked : Tracked catalog caller.chain) : Tracked catalog callee.chain := by
  induction leads with
  | refl => exact tracked
  | tail _ called ih => exact tracked_of_calls called ih

/-- Every error is raised by one of the calls, before it makes calls of its own. -/
theorem exists_raised (call : Call) {e : CompileError} (failed : call.result catalog = .error e) :
    ∃ callee, LeadsTo catalog call callee ∧ calls catalog callee.chain callee.tree = .error e := by
  induction call using (wellFounded_calls catalog).induction with
  | _ call below =>
      rw [result_eq_calls] at failed
      cases called : calls catalog call.chain call.tree with
      | error first =>
          rw [called] at failed
          cases failed
          exact ⟨call, .refl, called⟩
      | ok made =>
          rw [called] at failed
          obtain ⟨callee, member, callee_failed⟩ := mapM_eq_error (map_eq_error.mp failed)
          have step : Calls catalog call callee := ⟨made, called, member⟩
          obtain ⟨last, leads, raised⟩ := below callee step callee_failed
          exact ⟨last, leads.head step, raised⟩

end Compile

namespace Catalog

variable {catalog : Catalog}

/-- Distinct entries of the catalog, and then one of them again. -/
def ShowsCycle (catalog : Catalog) (chain : List String) : Prop :=
  ∃ path last, chain = path ++ [last] ∧ path.Nodup ∧
    (∀ name ∈ path, catalog.contains name = true) ∧ last ∈ path ∧
    chain.length ≤ catalog.size + 1

theorem showsCycle_of_compileDefinition {d : Definition} {chain : List String}
    (failed : catalog.compileDefinition d = .error (.cycle chain)) : catalog.ShowsCycle chain := by
  rw [compileDefinition, compileDefinitionLogged, Logged.result_map, map_eq_error] at failed
  obtain ⟨call, leads, raised⟩ := Compile.exists_raised ⟨[], d⟩ failed
  have tracked := Compile.tracked_of_leadsTo leads .nil
  obtain ⟨last, again, rfl⟩ := Compile.calls_eq_cycle raised
  have bound := tracked.length_le
  refine ⟨call.chain, last, rfl, tracked.distinct, tracked.present, again, ?_⟩
  rw [List.length_append, List.length_singleton]
  omega

theorem compile_eq_cycle {document : Value} {chain : List String}
    (failed : catalog.compile document = .error (.cycle chain)) :
    ∃ d, Definition.ofValue document = .ok d ∧
      catalog.compileDefinition d = .error (.cycle chain) := by
  cases accepted : Definition.ofValue document with
  | ok d =>
      rw [compile_eq_compileDefinition catalog accepted] at failed
      exact ⟨d, rfl, failed⟩
  | error cause =>
      rw [compile_eq_error_of_ofValue catalog accepted] at failed
      cases failed

/-- Compiling ends, whatever the entries look like: a call comes to what its own calls come to, and
calls cannot be nested for ever. The names above each call are distinct entries, no more than the
catalog has, and so are those of a cycle up to the one that closes it. -/
theorem compile_terminates (catalog : Catalog) :
    (∀ call : Compile.Call, call.result catalog = (do
      let made ← Compile.calls catalog call.chain call.tree
      let results ← made.mapM (Compile.Call.result catalog)
      pure (Compile.assemble call.tree results))) ∧
    WellFounded (fun callee caller => Compile.Calls catalog caller callee) ∧
    (∀ d call, Compile.LeadsTo catalog ⟨[], d⟩ call →
      call.chain.Nodup ∧ (∀ name ∈ call.chain, catalog.contains name = true) ∧
        call.chain.length ≤ catalog.size) ∧
    (∀ d chain, catalog.compileDefinition d = .error (.cycle chain) →
      catalog.ShowsCycle chain) ∧
    ∀ document chain, catalog.compile document = .error (.cycle chain) →
      catalog.ShowsCycle chain := by
  refine ⟨Compile.result_eq_calls catalog, Compile.wellFounded_calls catalog, ?_, ?_, ?_⟩
  · intro d call leads
    have tracked := Compile.tracked_of_leadsTo leads .nil
    exact ⟨tracked.distinct, tracked.present, tracked.length_le⟩
  · intro d chain failed
    exact showsCycle_of_compileDefinition failed
  · intro document chain failed
    obtain ⟨d, -, d_failed⟩ := compile_eq_cycle failed
    exact showsCycle_of_compileDefinition d_failed

def gateEntry : Definition :=
  .reference "door" ⟨none, none, none, none, KeyMap.nil.insert "parts" (.array [
    .object (KeyMap.ofList [("type", .string "ref"), ("name", .string "gate")])])⟩

def gateCatalog : Catalog := KeyMap.ofList [
  ("door", .composite none ⟨none, none, none, none, .nil⟩),
  ("gate", gateEntry)]

def gateDocument : Value := .object (KeyMap.ofList [
  ("type", .string "ref"),
  ("name", .string "gate")])

def gateReference : Definition := .reference "gate" ⟨none, none, none, none, .nil⟩

def gateAgain : Compile.Call := ⟨["gate", "door"], gateReference⟩

theorem leadsTo_gateAgain : Compile.LeadsTo gateCatalog ⟨[], gateReference⟩ gateAgain := by
  have first : Compile.Calls gateCatalog ⟨[], gateReference⟩ ⟨["gate"], gateEntry⟩ :=
    ⟨[⟨["gate"], gateEntry⟩], by decide +kernel, List.mem_singleton_self _⟩
  have second : Compile.Calls gateCatalog ⟨["gate"], gateEntry⟩
      ⟨["gate", "door"], .composite (some [gateReference]) ⟨none, none, none, none, .nil⟩⟩ :=
    ⟨[⟨["gate", "door"], .composite (some [gateReference]) ⟨none, none, none, none, .nil⟩⟩],
      by decide +kernel, List.mem_singleton_self _⟩
  have third : Compile.Calls gateCatalog
      ⟨["gate", "door"], .composite (some [gateReference]) ⟨none, none, none, none, .nil⟩⟩
      gateAgain :=
    ⟨[gateAgain], by decide +kernel, List.mem_singleton_self _⟩
  exact ((Relation.ReflTransGen.single first).tail second).tail third

theorem compile_gate_terminates :
    (Compile.LeadsTo gateCatalog ⟨[], gateReference⟩ gateAgain ∧
      gateCatalog.compileDefinition gateReference = .error (.cycle ["gate", "door", "gate"]) ∧
      gateCatalog.compile gateDocument = .error (.cycle ["gate", "door", "gate"])) ∧
    (["gate", "door"].Nodup ∧ (∀ name ∈ ["gate", "door"], gateCatalog.contains name = true) ∧
      ["gate", "door"].length ≤ gateCatalog.size) ∧
    gateCatalog.ShowsCycle ["gate", "door", "gate"] := by
  have failed : gateCatalog.compileDefinition gateReference =
      .error (.cycle ["gate", "door", "gate"]) := by
    decide +kernel
  have document_failed : gateCatalog.compile gateDocument =
      .error (.cycle ["gate", "door", "gate"]) := by
    decide +kernel
  obtain ⟨-, -, tracked, -, shown⟩ := compile_terminates gateCatalog
  exact ⟨⟨leadsTo_gateAgain, failed, document_failed⟩,
    tracked gateReference gateAgain leadsTo_gateAgain, shown gateDocument _ document_failed⟩

end Catalog

end PartTree
