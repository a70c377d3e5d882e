import PartTree.Proofs.FixedPoint

/-!
Changing the type of a document again and again. The bag and the top of a sanitized node agree on
every key that both have, and for its parts up to sanitizing them, so nothing is lost on the way.
-/

namespace PartTree

def Value.retype (typeName : String) : Value → Value
  | .object fields => .object (fields.insert "type" (.string typeName))
  | found => found

namespace Registry

/-- Sanitizing a document whose root was given another type. -/
def flip (registry : Registry) (s : Value) (typeName : String) : Except SanitizeError Value :=
  registry.sanitize (s.retype typeName)

def flips (registry : Registry) (s : Value) (types : List String) : Except SanitizeError Value :=
  types.foldlM registry.flip s

variable {registry : Registry} {s next : Value} {t : Template} {typeName key : String}
variable {value : Value}

theorem flips_cons {types : List String} :
    registry.flips s (typeName :: types) = .ok next ↔
      ∃ middle, registry.flip s typeName = .ok middle ∧ registry.flips middle types = .ok next := by
  rw [flips, List.foldlM_cons, bind_eq_ok]
  rfl

theorem flips_snoc {types : List String} :
    registry.flips s (types ++ [typeName]) = .ok next ↔
      ∃ middle, registry.flips s types = .ok middle ∧ registry.flip middle typeName = .ok next := by
  rw [flips, List.foldlM_append, bind_eq_ok]
  simp only [List.foldlM_cons, List.foldlM_nil, bind_pure]
  rfl

theorem flips_induction {P : Value → Prop}
    (step : ∀ s typeName next, P s → registry.flip s typeName = .ok next → P next)
    {types : List String} (start : P s) (run : registry.flips s types = .ok next) : P next := by
  induction types generalizing s with
  | nil =>
      cases run
      exact start
  | cons typeName types ih =>
      rcases flips_cons.mp run with ⟨middle, first, rest⟩
      exact ih (step s typeName middle start first) rest

theorem flip_eq_ok (flipped : registry.flip s typeName = .ok next) :
    ∃ t, s.retype typeName = .object (s.fields.insert "type" (.string typeName)) ∧
      registry.template? typeName = some t ∧
      registry.templateOf (s.fields.insert "type" (.string typeName)) = .ok t ∧
      registry.templateOf next.fields = .ok t ∧ t.Settled next.fields ∧
      ∀ key, key ≠ "parts" → next.fields.find? key =
        (t.reconcile (s.fields.insert "type" (.string typeName))).find? key := by
  rcases Sanitize.settled_of_node_eq_ok flipped with
    ⟨fields, t, result, retyped, rfl, chosen, again, settled, same⟩
  cases s with
  | object own =>
      cases retyped
      have known := templateOf_type chosen
      rw [KeyMap.find?_insert, if_pos rfl, Option.some.injEq, Value.string.injEq] at known
      rcases known with ⟨named, registered⟩
      rw [← named] at registered
      exact ⟨t, rfl, registered, chosen, again, settled, same⟩
  | _ => cases retyped

end Registry

/-- Whichever of the bag and the top is asked first, what it has for the key is as wanted. -/
structure Holds (P : Value → Prop) (fields : Object) (key : String) : Prop where
  bagFirst : ∃ value, ((bagOf fields).find? key).or (fields.find? key) = some value ∧ P value
  topFirst : ∃ value, (fields.find? key).or ((bagOf fields).find? key) = some value ∧ P value

/-- Where a node keeps a key that its template may declare or not. -/
def Keeps (t : Template) (P : Value → Prop) (fields : Object) (key : String) : Prop :=
  if t.declares key = true then ∃ value, fields.find? key = some value ∧ P value
  else ∃ value, (bagOf fields).find? key = some value ∧ P value

variable {P : Value → Prop} {fields : Object} {key : String} {value : Value} {t : Template}

theorem holds_of_bagged (absent : fields.find? key = none)
    (bagged : (bagOf fields).find? key = some value) (wanted : P value) : Holds P fields key := by
  constructor <;> exact ⟨value, by simp [absent, bagged], wanted⟩

theorem holds_of_top (found : fields.find? key = some value) (wanted : P value)
    (bagged : ∀ other, (bagOf fields).find? key = some other → P other) : Holds P fields key := by
  constructor
  · cases below : (bagOf fields).find? key with
    | none => exact ⟨value, found, wanted⟩
    | some other => exact ⟨other, rfl, bagged other below⟩
  · exact ⟨value, by rw [found, Option.some_or], wanted⟩

theorem Holds.bagged (holds : Holds P fields key)
    (found : (bagOf fields).find? key = some value) : P value := by
  rcases holds.bagFirst with ⟨first, here, wanted⟩
  rw [found, Option.some_or] at here
  cases here
  exact wanted

theorem Holds.brings (holds : Holds P fields "parts") : bringsParts fields = true := by
  rcases holds.topFirst with ⟨value, found, -⟩
  have present :
      (((bagOf fields).find? "parts").isSome || (fields.find? "parts").isSome) = true := by
    have some_found := congrArg Option.isSome found
    rwa [Option.isSome_or, Bool.or_comm] at some_found
  exact present

theorem Holds.retyped (holds : Holds P fields key) (notType : key ≠ "type") (type : Value) :
    Holds P (fields.insert "type" type) key := by
  have bag : bagOf (fields.insert "type" type) = bagOf fields := bagOf_insert (by decide)
  have top : (fields.insert "type" type).find? key = fields.find? key := by
    rw [KeyMap.find?_insert, if_neg notType]
  constructor
  · rw [bag, top]
    exact holds.bagFirst
  · rw [bag, top]
    exact holds.topFirst

theorem Holds.find?_reconcile (holds : Holds P fields key) (notType : key ≠ "type")
    (notBag : key ≠ "_dustbin") (declared : t.declares key = true) :
    ∃ raw, (t.reconcile fields).find? key = some raw ∧ P raw := by
  rcases holds.bagFirst with ⟨raw, first, wanted⟩
  refine ⟨raw, ?_, wanted⟩
  rw [t.find?_reconcile fields notBag, if_pos declared, if_neg notType, first, Option.some_or]

theorem Holds.find?_bagOf_reconcile (holds : Holds P fields key) (notBag : key ≠ "_dustbin")
    (undeclared : ¬ t.declares key = true) :
    ∃ raw, (bagOf (t.reconcile fields)).find? key = some raw ∧ P raw := by
  rcases holds.topFirst with ⟨raw, first, wanted⟩
  refine ⟨raw, ?_, wanted⟩
  rw [t.find?_bagOf_reconcile fields notBag, if_neg undeclared, first]

/-- What stands in a settled node stands there under one value. -/
theorem Template.Settled.holds (settled : t.Settled fields) (notType : key ≠ "type")
    (notBag : key ≠ "_dustbin") (notParts : key ≠ "parts")
    (present : fields.find? key = some value ∨ (bagOf fields).find? key = some value) :
    Holds (· = value) fields key := by
  by_cases declared : t.declares key = true
  · have agrees : ∀ other, (bagOf fields).find? key = some other →
        fields.find? key = some other := by
      intro other bagged
      exact settled.agrees key other notType notBag notParts declared bagged
    have top : fields.find? key = some value := present.elim id (agrees value)
    apply holds_of_top (P := (· = value)) top rfl
    intro other bagged
    have same := (agrees other bagged).symm.trans top
    exact Option.some.inj same
  · have absent := settled.absent notBag (Bool.eq_false_iff.mpr declared)
    rw [absent] at present
    exact holds_of_bagged absent (present.resolve_left nofun) rfl

namespace Registry

variable {registry : Registry} {s next : Value} {typeName : String} {types : List String}

/-- A change of type takes a key that holds to where the new type keeps it. -/
theorem holds_of_flip (notType : key ≠ "type") (notBag : key ≠ "_dustbin")
    (holds : Holds P s.fields key) (flipped : registry.flip s typeName = .ok next)
    (registered : registry.template? typeName = some t)
    (top : t.declares key = true → ∃ value, next.fields.find? key = some value ∧ P value) :
    Holds P next.fields key ∧ Keeps t P next.fields key := by
  rcases flip_eq_ok flipped with ⟨own, -, again, -, -, settled, same⟩
  cases registered.symm.trans again
  have bag : bagOf next.fields =
      bagOf (t.reconcile (s.fields.insert "type" (.string typeName))) := by
    rw [bagOf, same "_dustbin" (by decide), bagOf]
  have retyped := holds.retyped notType (.string typeName)
  rw [Keeps]
  by_cases declared : t.declares key = true
  · rw [if_pos declared]
    rcases top declared with ⟨value, found, wanted⟩
    refine ⟨holds_of_top found wanted ?_, value, found, wanted⟩
    intro other present
    rw [bag, t.find?_bagOf_reconcile _ notBag, if_pos declared] at present
    exact retyped.bagged present
  · rw [if_neg declared]
    rcases retyped.find?_bagOf_reconcile notBag declared with ⟨raw, bagged, wanted⟩
    rw [← bag] at bagged
    have absent := settled.absent notBag (Bool.eq_false_iff.mpr declared)
    exact ⟨holds_of_bagged absent bagged wanted, raw, bagged, wanted⟩

theorem keeps_of_flip (notType : key ≠ "type") (notBag : key ≠ "_dustbin")
    (notParts : key ≠ "parts") (holds : Holds P s.fields key)
    (flipped : registry.flip s typeName = .ok next) :
    Holds P next.fields key ∧
      ∃ t, registry.template? typeName = some t ∧ Keeps t P next.fields key := by
  rcases flip_eq_ok flipped with ⟨t, -, registered, -, -, -, same⟩
  have kept := holds_of_flip notType notBag holds flipped registered ?_
  · exact ⟨kept.1, t, registered, kept.2⟩
  · intro declared
    rw [same key notParts]
    exact (holds.retyped notType _).find?_reconcile notType notBag declared

/-- Whichever parts a document holds, those that come out of them are at the top when it is
sanitized. -/
theorem find?_parts_of_holds {parts : Value} (chosen : registry.templateOf fields = .ok t)
    (holds : Holds (registry.sanitizeParts · = .ok parts) fields "parts")
    (declared : t.declares "parts" = true) (ok : registry.sanitize (.object fields) = .ok s) :
    s.fields.find? "parts" = some parts := by
  rcases holds.find?_reconcile (by decide) (by decide) declared with ⟨raw, found, raw_ok⟩
  rcases find?_parts_of_sanitize chosen holds.brings found ok with ⟨result, result_ok, top⟩
  cases raw_ok.symm.trans result_ok
  exact top

theorem keepsParts_of_flip {parts : Value} (fixed : registry.sanitizeParts parts = .ok parts)
    (holds : Holds (registry.sanitizeParts · = .ok parts) s.fields "parts")
    (flipped : registry.flip s typeName = .ok next) :
    Holds (registry.sanitizeParts · = .ok parts) next.fields "parts" ∧
      ∃ t, registry.template? typeName = some t ∧
        (t.declares "parts" = true → next.fields.find? "parts" = some parts) := by
  rcases flip_eq_ok flipped with ⟨t, retype, registered, chosen, -, -, -⟩
  have top : t.declares "parts" = true → next.fields.find? "parts" = some parts := by
    intro declared
    have sanitized := flipped
    rw [flip, retype] at sanitized
    exact find?_parts_of_holds chosen (holds.retyped (by decide) _) declared sanitized
  have kept := holds_of_flip (by decide) (by decide) holds flipped registered ?_
  · exact ⟨kept.1, t, registered, top⟩
  · intro declared
    exact ⟨parts, top declared, fixed⟩

/-- The parts of a sanitized document, as they are and as its bag has them. -/
theorem holdsParts_of_fixed {parts : Value} (fixed : registry.sanitize s = .ok s)
    (found : s.fields.find? "parts" = some parts) :
    Holds (registry.sanitizeParts · = .ok parts) s.fields "parts" ∧
      registry.sanitizeParts parts = .ok parts := by
  rcases Sanitize.settled_of_node_eq_ok fixed with
    ⟨fields, t, result, rfl, same, chosen, -, settled, -⟩
  cases same
  have declared : t.declares "parts" = true := by
    apply (settled.declared "parts" (by decide)).mp
    exact Option.isSome_iff_exists.mpr ⟨parts, found⟩
  have brings : bringsParts fields = true := by
    have present : (fields.find? "parts").isSome = true :=
      Option.isSome_iff_exists.mpr ⟨parts, found⟩
    rw [bringsParts, KeyMap.contains, KeyMap.contains, present, Bool.or_true]
  have becomes : ∀ raw, (t.reconcile fields).find? "parts" = some raw →
      registry.sanitizeParts raw = .ok parts := by
    intro raw fitted
    rcases find?_parts_of_sanitize chosen brings fitted fixed with ⟨result, result_ok, top⟩
    cases found.symm.trans top
    exact result_ok
  have bagged : ∀ raw, (bagOf fields).find? "parts" = some raw →
      registry.sanitizeParts raw = .ok parts := by
    intro raw present
    apply becomes
    rw [t.find?_reconcile fields (by decide), if_pos declared, present]
    rfl
  have own : registry.sanitizeParts parts = .ok parts := by
    cases present : (bagOf fields).find? "parts" with
    | some raw => exact sanitizeParts_sanitizeParts (bagged raw present)
    | none =>
        apply becomes
        have top : fields.find? "parts" = some parts := found
        rw [t.find?_reconcile fields (by decide), if_pos declared, present, top]
        rfl
  exact ⟨holds_of_top found own bagged, own⟩

theorem holds_of_flips (notType : key ≠ "type") (notBag : key ≠ "_dustbin")
    (notParts : key ≠ "parts") (holds : Holds P s.fields key)
    (run : registry.flips s types = .ok next) : Holds P next.fields key := by
  apply flips_induction (P := fun s => Holds P s.fields key) ?_ holds run
  intro s typeName next holds flipped
  exact (keeps_of_flip notType notBag notParts holds flipped).1

theorem holdsParts_of_flips {parts : Value} (fixed : registry.sanitizeParts parts = .ok parts)
    (holds : Holds (registry.sanitizeParts · = .ok parts) s.fields "parts")
    (run : registry.flips s types = .ok next) :
    Holds (registry.sanitizeParts · = .ok parts) next.fields "parts" := by
  apply flips_induction
    (P := fun s => Holds (registry.sanitizeParts · = .ok parts) s.fields "parts") ?_ holds run
  intro s typeName next holds flipped
  exact (keepsParts_of_flip fixed holds flipped).1

/-- A root that is settled in the template that its type names. -/
def Typed (registry : Registry) (s : Value) (t : Template) : Prop :=
  registry.sanitize s = .ok s ∧ registry.templateOf s.fields = .ok t ∧ t.Settled s.fields

theorem typed_of_sanitize {document : Value} (ok : registry.sanitize document = .ok s) :
    ∃ t, registry.Typed s t := by
  rcases Sanitize.settled_of_node_eq_ok ok with ⟨_, t, result, -, rfl, -, again, settled, -⟩
  exact ⟨t, Sanitize.node_node ok, again, settled⟩

theorem typed_of_flips (typed : ∃ t, registry.Typed s t)
    (run : registry.flips s types = .ok next) : ∃ t, registry.Typed next t := by
  apply flips_induction (P := fun s => ∃ t, registry.Typed s t) ?_ typed run
  intro s typeName next _ flipped
  exact typed_of_sanitize flipped

/-- A run of changes of type that ends where it began changes nothing but the bag. -/
theorem find?_of_flips_back (typed : registry.Typed s t) (notBag : key ≠ "_dustbin")
    (run : registry.flips s (types ++ [t.typeName]) = .ok next) :
    next.fields.find? key = s.fields.find? key := by
  rcases typed with ⟨fixed, chosen, settled⟩
  rcases flips_snoc.mp run with ⟨middle, before, flipped⟩
  rcases flip_eq_ok flipped with ⟨own, -, registered, -, back, settled_back, -⟩
  have named := templateOf_type chosen
  cases named.2.symm.trans registered
  by_cases declared : t.declares key = true
  · rcases settled.present notBag declared with ⟨value, found⟩
    by_cases isType : key = "type"
    · rw [isType]
      calc
        next.fields.find? "type" = some (.string t.typeName) := (templateOf_type back).1
        _ = s.fields.find? "type" := named.1.symm
    · by_cases isParts : key = "parts"
      · subst isParts
        rcases holdsParts_of_fixed fixed found with ⟨holds, parts_fixed⟩
        have held := holdsParts_of_flips parts_fixed holds before
        rcases keepsParts_of_flip parts_fixed held flipped with ⟨-, own, again, top⟩
        cases registered.symm.trans again
        calc
          next.fields.find? "parts" = some value := top declared
          _ = s.fields.find? "parts" := found.symm
      · have holds := settled.holds isType notBag isParts (.inl found)
        have held := holds_of_flips isType notBag isParts holds before
        rcases keeps_of_flip isType notBag isParts held flipped with ⟨-, own, again, keeps⟩
        cases registered.symm.trans again
        rw [Keeps, if_pos declared] at keeps
        rcases keeps with ⟨last, top, same⟩
        calc
          next.fields.find? key = some last := top
          _ = some value := congrArg some same
          _ = s.fields.find? key := found.symm
  · have undeclared := Bool.eq_false_iff.mpr declared
    rw [settled.absent notBag undeclared, settled_back.absent notBag undeclared]

/-- Changing the type loses nothing. Back at its first type a sanitized document is as it was but
for the bag, and on the way every key that stood at the top or in the bag keeps its value, at the
top if the type declares the key and else in the bag. -/
theorem flips_lose_nothing (registry : Registry) (document s : Value)
    (start : registry.sanitize document = .ok s) :
    (∃ typeName, s.fields.find? "type" = some (.string typeName) ∧
      ∀ types last, registry.flips s (types ++ [typeName]) = .ok last →
        last.fields.erase "_dustbin" = s.fields.erase "_dustbin") ∧
    ∀ earlier later typeName middle last key value,
      registry.flips s earlier = .ok middle →
      registry.flips middle (later ++ [typeName]) = .ok last →
      key ≠ "type" → key ≠ "_dustbin" → key ≠ "parts" →
      (middle.fields.find? key = some value ∨ (bagOf middle.fields).find? key = some value) →
      ∃ t, registry.template? typeName = some t ∧
        if t.declares key = true then last.fields.find? key = some value
        else (bagOf last.fields).find? key = some value := by
  rcases typed_of_sanitize start with ⟨t, typed⟩
  constructor
  · refine ⟨t.typeName, (templateOf_type typed.2.1).1, ?_⟩
    intro types last run
    apply KeyMap.ext
    intro key
    rw [KeyMap.find?_erase, KeyMap.find?_erase]
    by_cases inBag : key = "_dustbin"
    · rw [if_pos inBag, if_pos inBag]
    · rw [if_neg inBag, if_neg inBag]
      exact find?_of_flips_back typed inBag run
  · intro earlier later typeName middle last key value before run notType notBag notParts present
    rcases typed_of_flips ⟨t, typed⟩ before with ⟨own, -, -, settled⟩
    rcases flips_snoc.mp run with ⟨almost, rest, flipped⟩
    have holds := settled.holds notType notBag notParts present
    have held := holds_of_flips notType notBag notParts holds rest
    rcases keeps_of_flip notType notBag notParts held flipped with ⟨-, last_type, registered, keeps⟩
    refine ⟨last_type, registered, ?_⟩
    rw [Keeps] at keeps
    by_cases declared : last_type.declares key = true
    · rw [if_pos declared] at keeps ⊢
      rcases keeps with ⟨_, top, rfl⟩
      exact top
    · rw [if_neg declared] at keeps ⊢
      rcases keeps with ⟨_, bagged, rfl⟩
      exact bagged

def assemblyBag : Object := KeyMap.ofList [
  ("color", .string "red"),
  ("height", .number (.ofUInt64 4))]

def assemblyDocument : Value := .object (KeyMap.ofList [
  ("type", .string "composite"),
  ("color", .string "red"),
  ("parts", .array [.object (KeyMap.ofList [("type", .string "box")])]),
  ("_dustbin", .object (KeyMap.ofList [("height", .number (.ofUInt64 4))]))])

def assemblyParts : Value := .array [
  .object (KeyMap.layOver
    (KeyMap.ofList [
      ("type", .string "box"),
      ("dimensions", Vec.toValue (List.replicate 3 (.ofUInt64 10)))])
    (Template.master.erase "_dustbin"))]

def assemblyWith (bag : Object) : Value :=
  .object (KeyMap.layOver
    (KeyMap.ofList [
      ("type", .string "composite"),
      ("parts", assemblyParts),
      ("_dustbin", .object bag)])
    Template.master)

def assemblyAsCylinder : Value :=
  .object (KeyMap.layOver
    (KeyMap.ofList [
      ("type", .string "cylinder"),
      ("radii", Vec.toValue [.ofUInt64 10, .ofUInt64 15]),
      ("height", .number (.ofUInt64 4)),
      ("_dustbin", .object (assemblyBag.insert "parts" assemblyParts))])
    Template.master)

def assemblyBack : Value :=
  assemblyWith (KeyMap.layOver
    (KeyMap.ofList [
      ("parts", assemblyParts),
      ("radii", Vec.toValue [.ofUInt64 10, .ofUInt64 15]),
      ("dimensions", Vec.toValue (List.replicate 3 (.ofUInt64 10)))])
    assemblyBag)

theorem flips_of_assembly_lose_nothing :
    (builtin.sanitize assemblyDocument = .ok (assemblyWith assemblyBag) ∧
      builtin.flips (assemblyWith assemblyBag) (["cylinder", "box"] ++ ["composite"]) =
        .ok assemblyBack ∧
      builtin.flips (assemblyWith assemblyBag) ["cylinder"] = .ok assemblyAsCylinder ∧
      builtin.flips assemblyAsCylinder (["box"] ++ ["composite"]) = .ok assemblyBack ∧
      assemblyAsCylinder.fields.find? "height" = some (.number (.ofUInt64 4))) ∧
    assemblyBack.fields.erase "_dustbin" = (assemblyWith assemblyBag).fields.erase "_dustbin" ∧
    ∃ t, builtin.template? "composite" = some t ∧
      if t.declares "height" = true then
        assemblyBack.fields.find? "height" = some (.number (.ofUInt64 4))
      else (bagOf assemblyBack.fields).find? "height" = some (.number (.ofUInt64 4)) := by
  have start : builtin.sanitize assemblyDocument = .ok (assemblyWith assemblyBag) := by
    decide +kernel
  have round : builtin.flips (assemblyWith assemblyBag) (["cylinder", "box"] ++ ["composite"]) =
      .ok assemblyBack := by decide +kernel
  have before : builtin.flips (assemblyWith assemblyBag) ["cylinder"] =
      .ok assemblyAsCylinder := by decide +kernel
  have after : builtin.flips assemblyAsCylinder (["box"] ++ ["composite"]) =
      .ok assemblyBack := by decide +kernel
  have height : assemblyAsCylinder.fields.find? "height" = some (.number (.ofUInt64 4)) := by
    decide +kernel
  have composite : (assemblyWith assemblyBag).fields.find? "type" =
      some (.string "composite") := by decide +kernel
  have kept := flips_lose_nothing builtin assemblyDocument (assemblyWith assemblyBag) start
  refine ⟨⟨start, round, before, after, height⟩, ?_, ?_⟩
  · rcases kept.1 with ⟨typeName, named, back⟩
    cases composite.symm.trans named
    exact back ["cylinder", "box"] assemblyBack round
  · exact kept.2 ["cylinder"] ["box"] "composite" assemblyAsCylinder assemblyBack "height"
      (.number (.ofUInt64 4)) before after (by decide) (by decide) (by decide) (.inl height)

end Registry

end PartTree
