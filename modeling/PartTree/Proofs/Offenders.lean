import PartTree.Proofs.Descent
import PartTree.Proofs.Faults
import PartTree.Proofs.Nodes

/-!
Which node sanitizing fails with. If no type fills in parts of its own, the nodes that it comes to
make a finite tree, although some of them stand in the bags of others and not among their parts. It
fails with the first of them, a node before its parts, that is of no registered type.
-/

namespace PartTree

namespace Value

def typeName? : Value → Option String
  | .object fields =>
    match fields.find? "type" with
    | some (.string typeName) => some typeName
    | _ => none
  | _ => none

def itemsOf : Option Value → List Value
  | some (.array items) => items
  | _ => []

end Value

def UnknownType.ofNode (node : Value) : UnknownType :=
  match node.typeName? with
  | some typeName => .unregistered typeName
  | none => .missing

namespace Registry

/-- Whether no type has a list of parts, but an empty one, by default. -/
def PartlessDefaults (registry : Registry) : Prop :=
  ∀ typeName t items, registry.template? typeName = some t →
    t.default? "parts" = some (.array items) → items = []

def Registers (registry : Registry) (node : Value) : Prop :=
  ∃ typeName, node.typeName? = some typeName ∧ registry.contains typeName = true

def Offends (registry : Registry) (node : Value) (e : SanitizeError) : Prop :=
  ¬ registry.Registers node ∧ e = .unknownType (.ofNode node)

/-- The nodes below a node. If its template declares parts they are those in its bag, else its own,
else the default ones. -/
def children (registry : Registry) (node : Value) : List Value :=
  match node.typeName?.bind registry.template? with
  | some t =>
    if t.declares "parts" then
      Value.itemsOf (((bagOf node.fields).find? "parts").or
        ((node.fields.find? "parts").or (t.default? "parts")))
    else []
  | none => []

variable {registry : Registry} {node child : Value} {fields : Object} {t : Template}
variable {items : List Value} {typeName : String} {cause : UnknownType}

theorem templateOf_eq (registry : Registry) (fields : Object) :
    registry.templateOf fields =
      ((Value.object fields).typeName?.bind registry.template?).elim
        (.error (.unknownType (.ofNode (.object fields)))) .ok := by
  rw [templateOf, UnknownType.ofNode, Value.typeName?]
  cases fields.find? "type" with
  | none => rfl
  | some named =>
      cases named with
      | string typeName =>
          simp only [Option.bind_some]
          cases registry.template? typeName <;> rfl
      | _ => rfl

theorem registers_iff :
    registry.Registers node ↔ ∃ t, node.typeName?.bind registry.template? = some t := by
  constructor
  · intro registered
    rcases registered with ⟨typeName, named, known⟩
    rcases Option.isSome_iff_exists.mp known with ⟨own, present⟩
    refine ⟨.ofOwn typeName own, ?_⟩
    rw [named, Option.bind_some, template?, present, Option.map_some]
  · intro found
    rcases found with ⟨t, found⟩
    rcases Option.bind_eq_some_iff.mp found with ⟨typeName, named, known⟩
    rcases Option.map_eq_some_iff.mp known with ⟨own, present, -⟩
    refine ⟨typeName, named, ?_⟩
    rw [KeyMap.contains, present]
    rfl

theorem template?_of_chosen (chosen : registry.templateOf fields = .ok t) :
    (Value.object fields).typeName?.bind registry.template? = some t := by
  rw [templateOf_eq] at chosen
  cases found : (Value.object fields).typeName?.bind registry.template? with
  | none =>
      rw [found] at chosen
      cases chosen
  | some other =>
      rw [found] at chosen
      cases chosen
      rfl

theorem chosen_of_registers (registered : registry.Registers node) :
    ∃ fields t, node = .object fields ∧ registry.templateOf fields = .ok t := by
  rcases registers_iff.mp registered with ⟨t, found⟩
  cases node with
  | object fields =>
      refine ⟨fields, t, rfl, ?_⟩
      rw [templateOf_eq, found, Option.elim_some]
  | _ => cases found

theorem templateOf_of_unregistered (unregistered : ¬ registry.Registers (.object fields)) :
    registry.templateOf fields = .error (.unknownType (.ofNode (.object fields))) := by
  have not_found := not_exists.mp (mt registers_iff.mpr unregistered)
  rw [templateOf_eq, Option.eq_none_iff_forall_ne_some.mpr not_found, Option.elim_none]

theorem children_eq (chosen : registry.templateOf fields = .ok t) :
    registry.children (.object fields) = Value.itemsOf ((t.reconcile fields).find? "parts") := by
  rw [children, template?_of_chosen chosen, t.find?_reconcile fields (by decide)]
  simp only [Value.fields, Template.default?, Option.or_assoc,
    if_neg (show ¬ "parts" = "type" by decide)]
  split <;> rfl

theorem children_of_parts (chosen : registry.templateOf fields = .ok t)
    (found : (t.reconcile fields).find? "parts" = some (.array items)) :
    registry.children (.object fields) = items := by
  rw [children_eq chosen, found, Value.itemsOf]

theorem children_of_no_parts (chosen : registry.templateOf fields = .ok t)
    (none_found : ∀ items, (t.reconcile fields).find? "parts" ≠ some (.array items)) :
    registry.children (.object fields) = [] := by
  rw [children_eq chosen]
  unfold Value.itemsOf
  split
  · rename_i items found
    exact absurd found (none_found items)
  · rfl

theorem children_of_unregistered (unregistered : ¬ registry.Registers node) :
    registry.children node = [] := by
  have not_found := not_exists.mp (mt registers_iff.mpr unregistered)
  rw [children, Option.eq_none_iff_forall_ne_some.mpr not_found]

theorem eq_nil_of_not_brings (partless : registry.PartlessDefaults)
    (chosen : registry.templateOf fields = .ok t)
    (found : (t.reconcile fields).find? "parts" = some (.array items))
    (none_brought : ¬ bringsParts fields = true) : items = [] := by
  rcases find?_parts_of_not_brings chosen found none_brought with ⟨own, present, default⟩
  have shape : Template.ofOwn t.typeName own = t := by
    have known := (templateOf_type chosen).2
    rw [template?, present] at known
    exact Option.some.inj known
  apply partless t.typeName t items (templateOf_type chosen).2
  rw [← shape, Template.default?, Template.find?_ofOwn, default, Option.some_or]

theorem size_lt_of_child (partless : registry.PartlessDefaults)
    (member : child ∈ registry.children node) : child.size < node.size := by
  by_cases registered : registry.Registers node
  · rcases chosen_of_registers registered with ⟨fields, t, rfl, chosen⟩
    by_cases some_found : ∃ items, (t.reconcile fields).find? "parts" = some (.array items)
    · rcases some_found with ⟨items, found⟩
      rw [children_of_parts chosen found] at member
      by_cases brings : bringsParts fields = true
      · calc
          child.size < Value.sizeItems items := Value.size_lt_sizeItems member
          _ < (Value.object fields).size := Template.sizeItems_lt brings found
      · rw [eq_nil_of_not_brings partless chosen found brings] at member
        cases member
    · rw [children_of_no_parts chosen (not_exists.mp some_found)] at member
      cases member
  · rw [children_of_unregistered registered] at member
    cases member

/-- A node and all nodes below it, each before those below itself. -/
def preorder (registry : Registry) (partless : registry.PartlessDefaults) (node : Value) :
    List Value :=
  node :: (registry.children node).attach.flatMap fun child =>
    registry.preorder partless child.1
termination_by node.size
decreasing_by exact size_lt_of_child partless child.2

theorem preorder_eq (partless : registry.PartlessDefaults) (node : Value) :
    registry.preorder partless node =
      node :: (registry.children node).flatMap (registry.preorder partless) := by
  rw [preorder, List.flatMap_subtype (g := registry.preorder partless) (fun _ _ => rfl),
    List.unattach_attach]

theorem sanitize_of_unregistered (unregistered : ¬ registry.Registers node) :
    registry.sanitize node = .error (.unknownType (.ofNode node)) := by
  cases node with
  | object fields =>
      rw [sanitize, sanitizeLogged, Sanitize.node_object, templateOf_of_unregistered unregistered]
      rfl
  | _ =>
      rw [sanitize, sanitizeLogged, Sanitize.node]
      · rfl
      · intro fields same
        cases same

/-- A node of a registered type sanitizes if its children do, and fails as the first of them that
does not. -/
theorem exists_finish (partless : registry.PartlessDefaults) (registered : registry.Registers node) :
    ∃ finish : List Value → Value,
      registry.sanitize node = finish <$> (registry.children node).mapM registry.sanitize := by
  rcases chosen_of_registers registered with ⟨fields, t, rfl, chosen⟩
  by_cases some_found : ∃ items, (t.reconcile fields).find? "parts" = some (.array items)
  · rcases some_found with ⟨items, found⟩
    refine ⟨Sanitize.withParts (t.reconcile fields), ?_⟩
    rw [children_of_parts chosen found]
    change (Sanitize.node registry [] (.object fields)).result = _
    rw [Sanitize.result_node_of_parts chosen found, if_pos (.inr List.not_mem_nil)]
    by_cases brings : bringsParts fields = true
    · rw [Sanitize.enter_of_brings brings]
      rfl
    · rw [eq_nil_of_not_brings partless chosen found brings]
      rfl
  · have none_found := not_exists.mp some_found
    refine ⟨fun _ => .object (t.reconcile fields), ?_⟩
    rw [children_of_no_parts chosen none_found]
    exact Sanitize.result_node_of_no_parts chosen none_found

/-- Sanitizing fails with the first offender, a node before those below it. -/
theorem failsBy_sanitize (partless : registry.PartlessDefaults) (node : Value) :
    FailsBy (registry.sanitize node)
      (FirstOf ((registry.preorder partless node).map registry.Offends)) := by
  induction node using (measure Value.size).wf.induction with
  | _ node smaller =>
      intro e
      rw [preorder_eq, List.map_cons, List.map_flatMap, firstOf_cons, firstOf_flatMap]
      by_cases registered : registry.Registers node
      · have sound : ∀ d, ¬ registry.Offends node d := fun d offends => offends.1 registered
        have below := failsBy_mapM fun child (member : child ∈ registry.children node) =>
          smaller child (size_lt_of_child partless member)
        rcases exists_finish partless registered with ⟨finish, same⟩
        rw [same, below.map finish e]
        simp only [sound, not_false_eq_true, implies_true, true_and, false_or]
      · have offends : registry.Offends node (.unknownType (.ofNode node)) := ⟨registered, rfl⟩
        rw [sanitize_of_unregistered registered]
        constructor
        · intro failed
          cases failed
          exact .inl offends
        · intro found
          rcases found with here | ⟨sound, -⟩
          · exact congrArg Except.error here.2.symm
          · exact absurd offends (sound _)

theorem forall_not_offends : (∀ e, ¬ registry.Offends node e) ↔ registry.Registers node := by
  constructor
  · intro sound
    by_contra unregistered
    exact sound _ ⟨unregistered, rfl⟩
  · intro registered e offends
    exact offends.1 registered

/-- A document sanitizes if every node that sanitizing comes to is of a registered type. Else it
fails with the first that is not, a node before those below it, and names the type of that node. -/
theorem sanitize_fails_by_first_offender (registry : Registry)
    (partless : registry.PartlessDefaults) (document : Value) :
    ((∃ sanitized, registry.sanitize document = .ok sanitized) ↔
      ∀ node ∈ registry.preorder partless document, registry.Registers node) ∧
    (∀ e, registry.sanitize document = .error e ↔
      FirstOf ((registry.preorder partless document).map registry.Offends) e) ∧
    ∀ node, (UnknownType.ofNode node).typeName = node.typeName?.getD "<missing>" := by
  have fails := failsBy_sanitize partless document
  refine ⟨?_, fails, ?_⟩
  · calc
      (∃ sanitized, registry.sanitize document = .ok sanitized) ↔
          ∀ e, ¬ FirstOf ((registry.preorder partless document).map registry.Offends) e :=
        fails.exists_ok_iff
      _ ↔ ∀ node ∈ registry.preorder partless document, ∀ e, ¬ registry.Offends node e :=
        forall_not_firstOf_map
      _ ↔ ∀ node ∈ registry.preorder partless document, registry.Registers node :=
        forall₂_congr fun _ _ => forall_not_offends
  · intro node
    rw [UnknownType.ofNode]
    cases node.typeName? <;> rfl

theorem partless_builtin : builtin.PartlessDefaults := by
  have empty : ∀ typeName ∈ builtin.keys,
      Value.itemsOf ((builtin.template? typeName).bind (·.default? "parts")) = [] := by
    decide +kernel
  intro typeName t items known default
  rcases Option.map_eq_some_iff.mp known with ⟨own, present, -⟩
  have member : typeName ∈ builtin.keys := by
    rw [KeyMap.mem_keys_iff, KeyMap.contains, present]
    rfl
  have none_listed := empty typeName member
  rwa [known, Option.bind_some, default, Value.itemsOf] at none_listed

def crowdFields : Object := KeyMap.ofList [
  ("type", .string "composite"),
  ("parts", .array [.object (bare "cone")]),
  ("_dustbin", .object (KeyMap.ofList [("parts", .array [
    .object ((bare "box").insert "parts" (.array [.object (bare "torus")])),
    .object ((bare "composite").insert "parts"
      (.array [.object (bare "cylinder"), .object (bare "sphere"), .null])),
    .string "plate"])]))]

theorem crowd_fails_by_sphere :
    ((builtin.preorder partless_builtin (.object crowdFields)).map Value.typeName? =
        [some "composite", some "box", some "composite", some "cylinder", some "sphere", none,
          none] ∧
      builtin.sanitize (.object crowdFields) =
        .error (.unknownType (.unregistered "sphere"))) ∧
    ((∃ sanitized, builtin.sanitize (.object crowdFields) = .ok sanitized) ↔
      ∀ node ∈ builtin.preorder partless_builtin (.object crowdFields),
        builtin.Registers node) ∧
    (∀ e, builtin.sanitize (.object crowdFields) = .error e ↔
      FirstOf ((builtin.preorder partless_builtin (.object crowdFields)).map builtin.Offends) e) ∧
    ∀ node, (UnknownType.ofNode node).typeName = node.typeName?.getD "<missing>" :=
  ⟨⟨by decide +kernel, by decide +kernel⟩,
    sanitize_fails_by_first_offender builtin partless_builtin (.object crowdFields)⟩

end Registry

end PartTree
