import PartTree.Proofs.Agreement

/-!
Compiling with one chain of names for all calls. A reference pushes its name for the tree that it
expands to and pops it again, so every call leaves the chain as it finds it, whatever it comes to,
and its siblings never see it. What a call comes to depends on the chain only in that a name on it
is a cycle.
-/

namespace PartTree

namespace Compile

/-- What a walk comes to on a chain, and the chain as it leaves it; nothing if it is cut off. -/
abbrev Walk (α : Type) := List String → Option (Except CompileError α × List String)

def walkParts (visit : Definition → Walk Definition) : List Definition → Walk (List Definition)
  | [], chain => some (.ok [], chain)
  | part :: parts, chain =>
    match visit part chain with
    | none => none
    | some (.error e, left) => some (.error e, left)
    | some (.ok d, left) =>
      (walkParts visit parts left).map fun (outcome, left) =>
        ((d.expandRepeat :: ·) <$> outcome, left)

/-- A tree down to a depth of calls. The name of a reference is popped whatever its tree comes to,
and a reference that has no tree to go on to does not push it. -/
def walk (catalog : Catalog) : Nat → Definition → Walk Definition
  | 0, _, _ => none
  | depth + 1, .reference name a, chain =>
    if name ∈ chain then some (.error (.cycle (chain ++ [name])), chain)
    else
      match catalog.find? name with
      | none => some (.error (.unresolved name), chain)
      | some entry =>
        match (entry.overlay (.reference name a)).result with
        | .error cause => some (.error (.format cause), chain)
        | .ok d =>
          (walk catalog depth d (chain ++ [name])).map fun (outcome, left) =>
            (outcome, left.dropLast)
  | depth + 1, .composite (some parts) a, chain =>
    (walkParts (walk catalog depth) parts chain).map fun (outcome, left) =>
      ((fun parts => .composite (some parts) a) <$> outcome, left)
  | _ + 1, d, chain => some (.ok d, chain)

variable {catalog : Catalog} {depth : Nat} {chain left : List String} {d : Definition}
variable {call callee : Call}

theorem walkParts_eq_some {visit : Definition → Walk Definition}
    {compiled : Definition → Except CompileError Definition} {parts : List Definition}
    {outcome : Except CompileError (List Definition)}
    (each : ∀ part ∈ parts, ∀ outcome left, visit part chain = some (outcome, left) →
      outcome = compiled part ∧ left = chain)
    (walked : walkParts visit parts chain = some (outcome, left)) :
    outcome = (parts.mapM fun part => Definition.expandRepeat <$> compiled part) ∧
      left = chain := by
  induction parts generalizing outcome left with
  | nil =>
      cases walked
      exact ⟨rfl, rfl⟩
  | cons part parts ih =>
      rw [walkParts] at walked
      have first := each part List.mem_cons_self
      have others := fun later member => each later (List.mem_cons_of_mem part member)
      rw [List.mapM_cons]
      split at walked
      · cases walked
      · rename_i e after visited
        obtain ⟨failed, rfl⟩ := first _ _ visited
        cases walked
        rw [← failed]
        exact ⟨rfl, rfl⟩
      · rename_i head after visited
        obtain ⟨ok, rfl⟩ := first _ _ visited
        obtain ⟨⟨rest, last⟩, rest_walked, same⟩ := Option.map_eq_some_iff.mp walked
        cases same
        obtain ⟨rfl, rfl⟩ := ih others rest_walked
        rw [← ok]
        exact ⟨rfl, rfl⟩

theorem walkParts_eq {visit : Definition → Walk Definition}
    {compiled : Definition → Except CompileError Definition} {parts : List Definition}
    (each : ∀ part ∈ parts, visit part chain = some (compiled part, chain)) :
    walkParts visit parts chain =
      some (parts.mapM fun part => Definition.expandRepeat <$> compiled part, chain) := by
  induction parts with
  | nil => rfl
  | cons part parts ih =>
      rw [walkParts, each part List.mem_cons_self, List.mapM_cons]
      cases compiled part with
      | error e => rfl
      | ok head =>
          have others := ih fun later member => each later (List.mem_cons_of_mem part member)
          simp only [others]
          rfl

/-- A walk that is not cut off comes to what compiling comes to, and leaves the chain alone. -/
theorem walk_eq_some {outcome : Except CompileError Definition}
    (walked : walk catalog depth d chain = some (outcome, left)) :
    outcome = (node catalog chain d).result ∧ left = chain := by
  induction depth generalizing d chain outcome left with
  | zero => cases walked
  | succ depth ih =>
      cases d with
      | primitive typeName a =>
          cases walked
          rw [node_primitive]
          exact ⟨rfl, rfl⟩
      | reference name a =>
          rw [walk] at walked
          rw [result_node_reference]
          by_cases again : name ∈ chain
          · rw [if_pos again] at walked ⊢
            cases walked
            exact ⟨rfl, rfl⟩
          · rw [if_neg again] at walked ⊢
            cases found : catalog.find? name with
            | none =>
                simp only [found] at walked ⊢
                cases walked
                exact ⟨rfl, rfl⟩
            | some entry =>
                simp only [found] at walked ⊢
                cases merged : (entry.overlay (.reference name a)).result with
                | error cause =>
                    simp only [merged] at walked ⊢
                    cases walked
                    exact ⟨rfl, rfl⟩
                | ok tree =>
                    simp only [merged] at walked ⊢
                    obtain ⟨⟨inner, after⟩, inner_walked, same⟩ := Option.map_eq_some_iff.mp walked
                    cases same
                    obtain ⟨rfl, rfl⟩ := ih inner_walked
                    exact ⟨rfl, List.dropLast_concat⟩
      | composite parts a =>
          cases parts with
          | none =>
              cases walked
              rw [node_childless]
              exact ⟨rfl, rfl⟩
          | some parts =>
              rw [walk] at walked
              obtain ⟨⟨inner, after⟩, inner_walked, same⟩ := Option.map_eq_some_iff.mp walked
              cases same
              obtain ⟨rfl, rfl⟩ := walkParts_eq_some (fun part _ _ _ => ih) inner_walked
              rw [result_node_composite]
              exact ⟨rfl, rfl⟩

theorem exists_walk_eq (catalog : Catalog) (chain : List String) (d : Definition) :
    ∃ enough, ∀ more,
      walk catalog (more + enough) d chain = some ((node catalog chain d).result, chain) := by
  induction chain, d using expansion_induction catalog with
  | primitive chain typeName a =>
      refine ⟨1, fun more => ?_⟩
      rw [node_primitive]
      rfl
  | childless chain a =>
      refine ⟨1, fun more => ?_⟩
      rw [node_childless]
      rfl
  | composite chain parts a each =>
      obtain ⟨enough, finished⟩ := exists_bound_of_mem parts
        (P := fun part enough => ∀ more,
          walk catalog (more + enough) part chain = some ((node catalog chain part).result, chain))
        (fun part least enough le finished more => by
          obtain ⟨further, rfl⟩ := Nat.exists_eq_add_of_le' le
          rw [← Nat.add_assoc]
          exact finished (more + further)) each
      refine ⟨enough + 1, fun more => ?_⟩
      rw [← Nat.add_assoc, walk, walkParts_eq fun part member => finished part member more,
        result_node_composite]
      rfl
  | reference chain name a below =>
      by_cases again : name ∈ chain
      · refine ⟨1, fun more => ?_⟩
        rw [walk, result_node_reference, if_pos again, if_pos again]
      · cases found : catalog.find? name with
        | none =>
            refine ⟨1, fun more => ?_⟩
            rw [walk, result_node_reference, if_neg again, if_neg again, found]
        | some entry =>
            cases merged : (entry.overlay (.reference name a)).result with
            | error cause =>
                refine ⟨1, fun more => ?_⟩
                rw [walk, result_node_reference, if_neg again, if_neg again, found]
                simp only [merged]
                rfl
            | ok d =>
                obtain ⟨enough, finished⟩ := below entry d again found merged
                refine ⟨enough + 1, fun more => ?_⟩
                rw [← Nat.add_assoc, walk, result_node_reference, if_neg again, if_neg again, found]
                simp only [merged, finished more, Option.map_some, List.dropLast_concat]
                rfl

theorem ok_of_calls (called : Calls catalog call callee) {r : Definition}
    (ok : call.result catalog = .ok r) : ∃ s, callee.result catalog = .ok s := by
  obtain ⟨made, calls_ok, member⟩ := called
  rw [result_eq_calls, calls_ok] at ok
  obtain ⟨results, results_ok, -⟩ := map_eq_ok.mp ok
  obtain ⟨s, -, callee_ok⟩ := exists_right_of_forall₂ (mapM_eq_ok.mp results_ok) member
  exact ⟨s, callee_ok⟩

theorem ok_of_leadsTo (leads : LeadsTo catalog call callee) {r : Definition}
    (ok : call.result catalog = .ok r) : ∃ s, callee.result catalog = .ok s := by
  induction leads with
  | refl => exact ⟨r, ok⟩
  | tail _ called ih =>
      obtain ⟨s, caller_ok⟩ := ih
      exact ok_of_calls called caller_ok

/-- The names above a tree matter only in that one of them may close a cycle. With one chain for all
calls each call leaves it as it was; what it comes to below more names it comes to below fewer, and
alone; and a composite comes to what its parts come to, or to the error of the first that fails. -/
theorem compiles_as_alone (catalog : Catalog) :
    (∀ d chain,
      (∃ enough, ∀ more,
        walk catalog (more + enough) d chain = some ((node catalog chain d).result, chain)) ∧
      ∀ depth outcome left, walk catalog depth d chain = some (outcome, left) →
        outcome = (node catalog chain d).result ∧ left = chain) ∧
    (∀ d chain shorter, shorter ⊆ chain →
      (∀ cycle, (node catalog chain d).result ≠ .error (.cycle cycle)) →
        (node catalog shorter d).result = (node catalog chain d).result) ∧
    (∀ call callee, LeadsTo catalog call callee →
      (callee.result catalog = (node catalog [] callee.tree).result ∨
        ∃ cycle, callee.result catalog = .error (.cycle cycle)) ∧
      ∀ r, call.result catalog = .ok r →
        ∃ s, callee.result catalog = .ok s ∧ (node catalog [] callee.tree).result = .ok s) ∧
    ∀ chain parts a,
      (∀ r, (node catalog chain (.composite (some parts) a)).result = .ok r ↔
        ∃ compiled, r = .composite (some compiled) a ∧
          List.Forall₂ (fun part result => ∃ d, (node catalog chain part).result = .ok d ∧
            d.expandRepeat = result) parts compiled) ∧
      ∀ e, (node catalog chain (.composite (some parts) a)).result = .error e ↔
        ∃ before part after, parts = before ++ part :: after ∧
          (∀ earlier ∈ before, ∃ r, (node catalog chain earlier).result = .ok r) ∧
          (node catalog chain part).result = .error e := by
  refine ⟨?_, ?_, ?_, ?_⟩
  · intro d chain
    exact ⟨exists_walk_eq catalog chain d, fun _ _ _ walked => walk_eq_some walked⟩
  · intro d chain shorter subset noCycle
    exact result_node_of_subset subset noCycle
  · intro call callee leads
    constructor
    · by_cases met : ∃ cycle, callee.result catalog = .error (.cycle cycle)
      · exact .inr met
      · exact .inl (result_node_of_subset (List.nil_subset _) (not_exists.mp met)).symm
    · intro r ok
      obtain ⟨s, callee_ok⟩ := ok_of_leadsTo leads ok
      exact ⟨s, callee_ok, node_eq_ok_of_chain_subset (List.nil_subset _) callee_ok⟩
  · intro chain parts a
    exact ⟨fun _ => node_composite_eq_ok, fun _ => node_composite_eq_error_iff⟩

def pairCatalog : Catalog := KeyMap.ofList [
  ("leg", .primitive "cylinder" ⟨none, none, none, none, .nil⟩),
  ("loop", .reference "loop" ⟨none, none, none, none, .nil⟩),
  ("pair", .composite (some [.reference "leg" ⟨none, none, none, none, .nil⟩,
    .reference "leg" ⟨some [.ofUInt64 3], none, none, none, .nil⟩]) ⟨none, none, none, none, .nil⟩)]

def pairReference : Definition := .reference "pair" ⟨none, none, none, none, .nil⟩

def loopReference : Definition := .reference "loop" ⟨none, none, none, none, .nil⟩

def lostReference : Definition := .reference "lost" ⟨none, none, none, none, .nil⟩

def pairCompiled : Definition :=
  .composite (some [.primitive "cylinder" ⟨none, none, none, none, .nil⟩,
    .primitive "cylinder" ⟨some [.ofUInt64 3], none, none, none, .nil⟩])
    ⟨none, none, none, none, .nil⟩

def jumble : Definition :=
  .composite (some [pairReference, loopReference, lostReference]) ⟨none, none, none, none, .nil⟩

theorem jumble_compiles_as_alone :
    ((node pairCatalog ["loop"] pairReference).result = .ok pairCompiled ∧
      walk pairCatalog 5 jumble ["lamp"] =
        some (.error (.cycle ["lamp", "loop", "loop"]), ["lamp"]) ∧
      (node pairCatalog ["lamp"] pairReference).result = .ok pairCompiled ∧
      (node pairCatalog ["lamp"] loopReference).result =
        .error (.cycle ["lamp", "loop", "loop"])) ∧
    (node pairCatalog [] pairReference).result = .ok pairCompiled ∧
    (node pairCatalog ["lamp"] jumble).result = .error (.cycle ["lamp", "loop", "loop"]) ∧
    ∃ outcome, walk pairCatalog 5 jumble ["lamp"] = some (outcome, ["lamp"]) ∧
      outcome = (node pairCatalog ["lamp"] jumble).result := by
  have below : (node pairCatalog ["loop"] pairReference).result = .ok pairCompiled := by
    decide +kernel
  have walked : walk pairCatalog 5 jumble ["lamp"] =
      some (.error (.cycle ["lamp", "loop", "loop"]), ["lamp"]) := by
    decide +kernel
  have pair : (node pairCatalog ["lamp"] pairReference).result = .ok pairCompiled := by
    decide +kernel
  have loop : (node pairCatalog ["lamp"] loopReference).result =
      .error (.cycle ["lamp", "loop", "loop"]) := by
    decide +kernel
  obtain ⟨walks, shorten, -, composite⟩ := compiles_as_alone pairCatalog
  have alone := shorten pairReference ["loop"] [] (List.nil_subset _) (by simp [below])
  have first_failure := (composite ["lamp"] [pairReference, loopReference, lostReference]
    ⟨none, none, none, none, .nil⟩).2 (.cycle ["lamp", "loop", "loop"])
  have failed := first_failure.mpr
    ⟨[pairReference], loopReference, [lostReference], rfl, by simp [pair], loop⟩
  exact ⟨⟨below, walked, pair, loop⟩, alone.trans below, failed, _, walked,
    ((walks jumble ["lamp"]).2 5 _ _ walked).1⟩

end Compile

end PartTree
