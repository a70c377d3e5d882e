import PartTree.Proofs.Faults
import PartTree.Proofs.Rendering

/-!
The grammar of part trees, said without the reader: which documents are read, and what is reported
of any other. Conditions are checked in one order, down to the parts, and the first that a document
violates decides the error. Keys without a meaning for the node can hold anything.
-/

namespace PartTree

namespace KeyMap

variable {α : Type}

/-- Whether what stands under a key, if anything does, is as it should be. -/
def Allows (fields : Object) (key : String) (sound : Value → Prop) : Prop :=
  ∀ value, fields.find? key = some value → sound value

def Faulty (fields : Object) (key : String) (fault : Value → FormatError → Prop)
    (e : FormatError) : Prop :=
  ∃ value, fields.find? key = some value ∧ fault value e

variable {fields : Object} {key : String} {fault : Value → FormatError → Prop}
variable {sound : Value → Prop} {read : Value → Except FormatError α}

theorem forall_not_faulty (sound_iff : ∀ value, (∀ e, ¬ fault value e) ↔ sound value) :
    (∀ e, ¬ Faulty fields key fault e) ↔ Allows fields key sound := by
  constructor
  · intro none_found value found
    exact (sound_iff value).mp fun e violation => none_found e ⟨value, found, violation⟩
  · intro allowed e faulty
    rcases faulty with ⟨value, found, violation⟩
    exact (sound_iff value).mpr (allowed value found) e violation

theorem failsBy_readField? (fails : ∀ value, FailsBy (read value) (fault value)) :
    FailsBy (fields.readField? key read) (Faulty fields key fault) := by
  intro e
  rw [readField?]
  cases found : fields.find? key with
  | none => simp [Faulty, found]
  | some value =>
      rw [map_eq_error, fails value e]
      simp [Faulty, found]

end KeyMap

namespace Value

def IsNumbers (v : Value) : Prop := ∃ numbers : List Number, v = .array (numbers.map .number)

def IsCount (v : Value) : Prop := ∃ n : UInt64, v = .number (.ofUInt64 n)

def IsObject (v : Value) : Prop := ∃ fields, v = .object fields

/-- A repeat rule. Only three keys of it matter. -/
def IsRule (v : Value) : Prop :=
  ∃ rule : Object, v = .object rule ∧ rule.Allows "times" IsCount ∧
    rule.Allows "position" IsNumbers ∧ rule.Allows "rotation" IsNumbers

/-- What is wrong with a value that is no list of numbers: that it is no list, or else its first
item that is no number. -/
def NumbersFault (slot : Slot) (v : Value) (e : FormatError) : Prop :=
  (∀ items, v ≠ .array items) ∧ e = .malformed slot (.expected .numbers v) ∨
    ∃ numbers item after, v = .array (List.map .number numbers ++ item :: after) ∧
      (∀ n, item ≠ .number n) ∧ e = .malformed slot (.expected .number item)

def CountFault (v : Value) (e : FormatError) : Prop :=
  ¬ v.IsCount ∧ e = .malformed .repeatTimes (.expected .count v)

def BagFault (v : Value) (e : FormatError) : Prop :=
  ¬ v.IsObject ∧ e = .malformed .overflow (.expected .object v)

/-- The conditions on the fields of a repeat rule, in their order. -/
def ruleFaults (rule : Object) : List (FormatError → Prop) :=
  [rule.Faulty "times" CountFault,
    rule.Faulty "position" (NumbersFault .repeatPosition),
    rule.Faulty "rotation" (NumbersFault .repeatRotation)]

def RuleFault (v : Value) (e : FormatError) : Prop :=
  ¬ v.IsObject ∧ e = .malformed .repeatRule (.expected .object v) ∨
    ∃ rule, v = .object rule ∧ FirstOf (ruleFaults rule) e

/-- What the fields of every node are like. -/
structure SoundHeader (fields : Object) : Prop where
  type : ∃ typeName, fields.find? "type" = some (.string typeName)
  position : fields.Allows "position" IsNumbers
  rotation : fields.Allows "rotation" IsNumbers
  rule : fields.Allows "repeat" IsRule
  overflow : fields.Allows "_dustbin" IsObject

def TypeFault (fields : Object) (e : FormatError) : Prop :=
  (∀ typeName, fields.find? "type" ≠ some (.string typeName)) ∧ e = .missingType

/-- The conditions on the fields of every node, in their order. -/
def headerFaults (fields : Object) : List (FormatError → Prop) :=
  [TypeFault fields,
    fields.Faulty "position" (NumbersFault .position),
    fields.Faulty "rotation" (NumbersFault .rotation),
    fields.Faulty "repeat" RuleFault,
    fields.Faulty "_dustbin" BagFault]

/-- What is wrong with the name of a reference: that there is none, or that it is no string. -/
def NameFault (fields : Object) (e : FormatError) : Prop :=
  fields.find? "name" = none ∧ e = .malformed .name .unnamedReference ∨
    ∃ found, fields.find? "name" = some found ∧ (∀ name, found ≠ .string name) ∧
      e = .malformed .name (.expected .string found)

/-- The documents that are part trees. Parts that are no list are none. -/
inductive Grammatical : Value → Prop
  | node {fields : Object} (header : SoundHeader fields)
      (named : fields.find? "type" = some (.string "ref") →
        ∃ name, fields.find? "name" = some (.string name))
      (parts : fields.find? "type" = some (.string "composite") →
        ∀ items, fields.find? "parts" = some (.array items) → ∀ item ∈ items, Grammatical item) :
      Grammatical (.object fields)

/-- The documents that are no part trees, each with what is wrong first. -/
inductive Rejected : Value → FormatError → Prop
  | notObject {v : Value} (other : ¬ v.IsObject) : Rejected v (.notARecord v)
  | header {fields : Object} {e : FormatError} (violation : FirstOf (headerFaults fields) e) :
      Rejected (.object fields) e
  | name {fields : Object} {e : FormatError} (header : SoundHeader fields)
      (reference : fields.find? "type" = some (.string "ref")) (violation : NameFault fields e) :
      Rejected (.object fields) e
  | part {fields : Object} {before after : List Value} {item : Value} {e : FormatError}
      (header : SoundHeader fields) (composite : fields.find? "type" = some (.string "composite"))
      (parts : fields.find? "parts" = some (.array (before ++ item :: after)))
      (passed : ∀ earlier ∈ before, Grammatical earlier) (rejected : Rejected item e) :
      Rejected (.object fields) e

/-- Whether a key has a meaning in a node with some fields. -/
def Matters (fields : Object) (key : String) : Prop :=
  Definition.isStructural key = true ∨
    key = "name" ∧ fields.find? "type" = some (.string "ref") ∨
    key = "parts" ∧ fields.find? "type" = some (.string "composite")

variable {v item : Value} {fields rule : Object} {slot : Slot} {items : List Value}
variable {e : FormatError}

theorem numbersFault_number (n : Number) :
    NumbersFault slot (.array (.number n :: items)) e ↔ NumbersFault slot (.array items) e := by
  constructor
  · intro fault
    rcases fault with ⟨notList, -⟩ | ⟨numbers, item, after, split, other, named⟩
    · exact absurd rfl (notList _)
    · cases numbers with
      | nil =>
          cases split
          exact absurd rfl (other n)
      | cons first numbers =>
          cases split
          exact .inr ⟨numbers, item, after, rfl, other, named⟩
  · intro fault
    rcases fault with ⟨notList, -⟩ | ⟨numbers, item, after, split, other, named⟩
    · exact absurd rfl (notList _)
    · cases split
      exact .inr ⟨n :: numbers, item, after, rfl, other, named⟩

theorem numbersFault_other (other : ∀ n, item ≠ .number n) :
    NumbersFault slot (.array (item :: items)) e ↔
      e = .malformed slot (.expected .number item) := by
  constructor
  · intro fault
    rcases fault with ⟨notList, -⟩ | ⟨numbers, first, after, split, -, named⟩
    · exact absurd rfl (notList _)
    · cases numbers with
      | nil =>
          cases split
          exact named
      | cons n numbers =>
          cases split
          exact absurd rfl (other n)
  · intro named
    exact .inr ⟨[], item, items, rfl, other, named⟩

theorem failsBy_ofItems (slot : Slot) (items : List Value) :
    FailsBy (Vec.ofItems slot items) (NumbersFault slot (.array items)) := by
  intro e
  induction items with
  | nil => simp [Vec.ofItems, NumbersFault]
  | cons item items ih =>
      cases item with
      | number n => rw [Vec.ofItems, map_eq_error, ih, numbersFault_number]
      | _ =>
          rw [numbersFault_other (by simp)]
          simp [Vec.ofItems, eq_comm]

theorem failsBy_vec (slot : Slot) (v : Value) :
    FailsBy (Vec.ofValue slot v) (NumbersFault slot v) := by
  cases v with
  | array items => exact failsBy_ofItems slot items
  | _ =>
      intro e
      simp [Vec.ofValue, NumbersFault, eq_comm]

theorem forall_not_numbersFault (slot : Slot) (v : Value) :
    (∀ e, ¬ NumbersFault slot v e) ↔ v.IsNumbers := by
  rw [← (failsBy_vec slot v).exists_ok_iff]
  constructor
  · intro read
    rcases read with ⟨numbers, ok⟩
    exact ⟨numbers, eq_toValue_of_ofValue ok⟩
  · intro listed
    rcases listed with ⟨numbers, rfl⟩
    exact ⟨numbers, ofItems_map_number slot numbers⟩

theorem failsBy_count (v : Value) : FailsBy (RepeatRule.countOfValue v) (CountFault v) := by
  intro e
  cases v with
  | number n =>
      rw [RepeatRule.countOfValue]
      cases counted : n.toUInt64? with
      | some count =>
          have isCount : (number n).IsCount :=
            ⟨count, congrArg number (Number.toUInt64?_eq_some_iff.mp counted)⟩
          simp [CountFault, isCount]
      | none =>
          have notCount : ¬ (number n).IsCount := by
            intro isCount
            rcases isCount with ⟨count, same⟩
            cases same
            rw [Number.toUInt64?_ofUInt64] at counted
            cases counted
          simp [CountFault, notCount, eq_comm]
  | _ => simp [RepeatRule.countOfValue, CountFault, IsCount, eq_comm]

theorem failsBy_bag (v : Value) : FailsBy (Definition.bagOfValue v) (BagFault v) := by
  intro e
  cases v <;> simp [Definition.bagOfValue, BagFault, IsObject, eq_comm]

theorem ruleFault_object : RuleFault (.object rule) e ↔ FirstOf (ruleFaults rule) e := by
  simp [RuleFault, IsObject]

theorem failsBy_rule (v : Value) : FailsBy (RepeatRule.ofValue v) (RuleFault v) := by
  cases v with
  | object rule =>
      intro e
      rw [ruleFault_object]
      refine FailsBy.bind_cons (KeyMap.failsBy_readField? failsBy_count) (fun times => ?_) e
      refine FailsBy.bind_cons (KeyMap.failsBy_readField? (failsBy_vec _)) fun position => ?_
      refine FailsBy.bind_cons (KeyMap.failsBy_readField? (failsBy_vec _)) fun rotation => ?_
      exact failsBy_pure _
  | _ =>
      intro e
      simp [RepeatRule.ofValue, RuleFault, IsObject, eq_comm]

theorem forall_not_countFault (v : Value) : (∀ e, ¬ CountFault v e) ↔ v.IsCount := by
  simp [CountFault]

theorem forall_not_bagFault (v : Value) : (∀ e, ¬ BagFault v e) ↔ v.IsObject := by
  simp [BagFault]

theorem forall_not_ruleFaults :
    (∀ e, ¬ FirstOf (ruleFaults rule) e) ↔ rule.Allows "times" IsCount ∧
      rule.Allows "position" IsNumbers ∧ rule.Allows "rotation" IsNumbers := by
  simp only [ruleFaults, forall_not_firstOf_cons, not_firstOf_nil,
    KeyMap.forall_not_faulty forall_not_countFault,
    KeyMap.forall_not_faulty (forall_not_numbersFault _), not_false_eq_true, implies_true, and_true]

theorem forall_not_ruleFault (v : Value) : (∀ e, ¬ RuleFault v e) ↔ v.IsRule := by
  cases v with
  | object rule => simp only [ruleFault_object, forall_not_ruleFaults, IsRule, object.injEq,
      exists_eq_left']
  | _ => simp [RuleFault, IsRule, IsObject]

theorem forall_not_headerFaults : (∀ e, ¬ FirstOf (headerFaults fields) e) ↔ SoundHeader fields := by
  simp only [headerFaults, forall_not_firstOf_cons, not_firstOf_nil,
    KeyMap.forall_not_faulty (forall_not_numbersFault _),
    KeyMap.forall_not_faulty forall_not_ruleFault, KeyMap.forall_not_faulty forall_not_bagFault,
    not_false_eq_true, implies_true, and_true]
  constructor
  · intro sound
    rcases sound with ⟨typed, position, rotation, rule, overflow⟩
    exact ⟨by simpa [TypeFault] using typed, position, rotation, rule, overflow⟩
  · intro sound
    exact ⟨by simpa [TypeFault] using sound.type, sound.position, sound.rotation, sound.rule,
      sound.overflow⟩

theorem failsBy_header (fields : Object) :
    FailsBy (Definition.readHeader fields) (FirstOf (headerFaults fields)) := by
  rw [Definition.readHeader]
  split
  · rename_i typeName typed
    intro e
    have met : ∀ d, ¬ TypeFault fields d := by simp [TypeFault, typed]
    rw [headerFaults, firstOf_cons, or_iff_right (met e), and_iff_right met]
    refine FailsBy.bind_cons (KeyMap.failsBy_readField? (failsBy_vec _)) (fun position => ?_) e
    refine FailsBy.bind_cons (KeyMap.failsBy_readField? (failsBy_vec _)) fun rotation => ?_
    refine FailsBy.bind_cons (KeyMap.failsBy_readField? failsBy_rule) fun rule => ?_
    refine FailsBy.bind_cons (KeyMap.failsBy_readField? failsBy_bag) fun overflow => ?_
    exact failsBy_pure _
  · rename_i untyped
    intro e
    have fault : ∀ d, TypeFault fields d ↔ d = .missingType := fun d => and_iff_right untyped
    rw [headerFaults, firstOf_cons, fault]
    simp [fault, eq_comm]

theorem failsBy_name (fields : Object) :
    FailsBy (Definition.readName fields) (NameFault fields) := by
  intro e
  rw [Definition.readName]
  cases found : fields.find? "name" with
  | none => simp [NameFault, found, eq_comm]
  | some value => cases value <;> simp [NameFault, found, eq_comm]

theorem rejected_object_iff :
    Rejected (.object fields) e ↔ FirstOf (headerFaults fields) e ∨ SoundHeader fields ∧
      (fields.find? "type" = some (.string "ref") ∧ NameFault fields e ∨
        fields.find? "type" = some (.string "composite") ∧ ∃ before item after,
          fields.find? "parts" = some (.array (before ++ item :: after)) ∧
          (∀ earlier ∈ before, Grammatical earlier) ∧ Rejected item e) := by
  constructor
  · intro rejected
    cases rejected with
    | notObject other => exact absurd ⟨fields, rfl⟩ other
    | header violation => exact .inl violation
    | name header reference violation => exact .inr ⟨header, .inl ⟨reference, violation⟩⟩
    | part header composite parts passed rejected =>
        exact .inr ⟨header, .inr ⟨composite, _, _, _, parts, passed, rejected⟩⟩
  · intro either
    rcases either with violation | ⟨header, ⟨reference, violation⟩ |
      ⟨composite, before, item, after, parts, passed, rejected⟩⟩
    · exact .header violation
    · exact .name header reference violation
    · exact .part header composite parts passed rejected

theorem forall_not_nameFault :
    (∀ e, ¬ NameFault fields e) ↔ ∃ name, fields.find? "name" = some (.string name) := by
  cases found : fields.find? "name" with
  | none => simp [NameFault, found]
  | some value => cases value <;> simp [NameFault, found]

/-- A node fails with its header, else by what its type asks for. -/
theorem failsBy_read_object (fields : Object) :
    FailsBy (Definition.read (.object fields)).result fun e =>
      FirstOf (headerFaults fields) e ∨ SoundHeader fields ∧
        (fields.find? "type" = some (.string "ref") ∧ NameFault fields e ∨
          fields.find? "type" = some (.string "composite") ∧
            (Definition.readParts fields).result = .error e) := by
  rw [Definition.result_read_object, ← forall_not_headerFaults]
  apply (failsBy_header fields).bind
  intro named header e
  rcases named with ⟨typeName, a⟩
  have typed := (Definition.readHeader_eq_ok header).1
  simp only [typed, Option.some.injEq, string.injEq]
  split
  · rename_i composite
    subst composite
    rw [bind_pure_comp, map_eq_error]
    simp
  · rename_i notComposite
    split
    · rename_i reference
      subst reference
      rw [bind_pure_comp, map_eq_error, failsBy_name fields e]
      simp
    · rename_i notReference
      simp [notComposite, notReference, pure, Except.pure]

/-- Whether reading keeps to the grammar: it succeeds on what is grammatical, and on all else it
fails with what is wrong first. -/
def KeepsToGrammar (v : Value) : Prop :=
  ((∃ d, (Definition.read v).result = .ok d) ↔ Grammatical v) ∧
    FailsBy (Definition.read v).result (Rejected v)

theorem KeepsToGrammar.grammatical_iff (keeps : v.KeepsToGrammar) :
    Grammatical v ↔ ∀ e, ¬ Rejected v e :=
  keeps.1.symm.trans keeps.2.exists_ok_iff

section

variable (keep : ∀ items, fields.find? "parts" = some (.array items) →
  ∀ item ∈ items, KeepsToGrammar item)

include keep

theorem readParts_eq_error_iff :
    (Definition.readParts fields).result = .error e ↔ ∃ before item after,
      fields.find? "parts" = some (.array (before ++ item :: after)) ∧
      (∀ earlier ∈ before, Grammatical earlier) ∧ Rejected item e := by
  rw [Definition.result_readParts]
  constructor
  · intro failed
    split at failed
    · rename_i items listed
      rw [map_eq_error, Definition.result_readAll, mapM_eq_error_iff] at failed
      rcases failed with ⟨before, item, after, rfl, passed, item_failed⟩
      refine ⟨before, item, after, listed, ?_, ?_⟩
      · intro earlier member
        exact (keep _ listed earlier (by simp [member])).1.mp (passed earlier member)
      · exact ((keep _ listed item (by simp)).2 e).mp item_failed
    · cases failed
  · intro found
    rcases found with ⟨before, item, after, listed, passed, rejected⟩
    simp only [listed]
    rw [map_eq_error, Definition.result_readAll, mapM_eq_error_iff]
    refine ⟨before, item, after, rfl, ?_, ?_⟩
    · intro earlier member
      exact (keep _ listed earlier (by simp [member])).1.mpr (passed earlier member)
    · exact ((keep _ listed item (by simp)).2 e).mpr rejected

theorem grammatical_of_readParts {parts : Option (List Definition)}
    (ok : (Definition.readParts fields).result = .ok parts)
    (listed : fields.find? "parts" = some (.array items)) (member : item ∈ items) :
    Grammatical item := by
  simp only [Definition.result_readParts, listed] at ok
  rcases map_eq_ok.mp ok with ⟨read, read_ok, -⟩
  rw [Definition.result_readAll, mapM_eq_ok] at read_ok
  rcases exists_right_of_forall₂ read_ok member with ⟨part, -, item_ok⟩
  exact (keep items listed item member).1.mp ⟨part, item_ok⟩

theorem forall_not_rejected_object :
    (∀ e, ¬ Rejected (.object fields) e) ↔ Grammatical (.object fields) := by
  constructor
  · intro sound
    have header : SoundHeader fields :=
      forall_not_headerFaults.mp fun e violation => sound e (.header violation)
    apply Grammatical.node header
    · intro reference
      exact forall_not_nameFault.mp fun e violation => sound e (.name header reference violation)
    · intro composite items listed item member
      cases outcome : (Definition.readParts fields).result with
      | ok parts => exact grammatical_of_readParts keep outcome listed member
      | error e =>
          rcases (readParts_eq_error_iff keep).mp outcome with
            ⟨before, first, after, parts, passed, rejected⟩
          exact absurd (.part header composite parts passed rejected) (sound e)
  · intro grammatical e rejected
    cases grammatical with
    | node header named parts =>
        rcases rejected_object_iff.mp rejected with violation | ⟨-, ⟨reference, violation⟩ |
          ⟨composite, before, first, after, listed, -, first_rejected⟩⟩
        · exact forall_not_headerFaults.mpr header e violation
        · exact forall_not_nameFault.mpr (named reference) e violation
        · have first_sound := parts composite _ listed first (by simp)
          exact (keep _ listed first (by simp)).grammatical_iff.mp first_sound e first_rejected

end

theorem keepsToGrammar (v : Value) : KeepsToGrammar v := by
  induction v using listed_induction with
  | scalar v notObject =>
      have other : ¬ v.IsObject := not_exists.mpr notObject
      have failed : (Definition.read v).result = .error (.notARecord v) := by
        cases v with
        | object fields => exact absurd rfl (notObject fields)
        | _ => rfl
      constructor
      · rw [failed]
        constructor
        · intro found
          rcases found with ⟨d, ok⟩
          cases ok
        · intro grammatical
          cases grammatical
          exact absurd rfl (notObject _)
      · intro e
        rw [failed]
        constructor
        · intro same
          cases same
          exact .notObject other
        · intro rejected
          cases rejected with
          | notObject _ => rfl
          | _ => exact absurd rfl (notObject _)
  | object fields below =>
      have keep := below "parts"
      have fails : FailsBy (Definition.read (.object fields)).result
          (Rejected (.object fields)) := by
        intro e
        have failed := failsBy_read_object fields e
        beta_reduce at failed
        rwa [readParts_eq_error_iff keep, ← rejected_object_iff] at failed
      exact ⟨fails.exists_ok_iff.trans (forall_not_rejected_object keep), fails⟩

/-- What is wrong first with a node depends on nothing but the keys that matter in it. -/
theorem rejected_congr {other : Object}
    (same : ∀ key, Matters fields key → other.find? key = fields.find? key) :
    Rejected (.object other) e ↔ Rejected (.object fields) e := by
  have structural : ∀ key, Definition.isStructural key = true →
      other.find? key = fields.find? key :=
    fun key known => same key (.inl known)
  have typed := structural "type" rfl
  have faults : headerFaults other = headerFaults fields := by
    unfold headerFaults TypeFault KeyMap.Faulty
    rw [typed, structural "position" rfl, structural "rotation" rfl, structural "repeat" rfl,
      structural "_dustbin" rfl]
  rw [rejected_object_iff, rejected_object_iff, ← forall_not_headerFaults,
    ← forall_not_headerFaults, faults, typed]
  refine or_congr_right (and_congr_right fun _ => or_congr ?_ ?_)
  · apply and_congr_right
    intro reference
    rw [NameFault, NameFault, same "name" (.inr (.inl ⟨rfl, reference⟩))]
  · apply and_congr_right
    intro composite
    rw [same "parts" (.inr (.inr ⟨rfl, composite⟩))]

end Value

namespace Definition

open Value

/-- Reading accepts the grammar and no more. What it reports of any other document is what is wrong
with it first, and no key that does not matter has a part in this. -/
theorem ofValue_ok_iff_grammatical :
    (∀ v, (∃ d, ofValue v = .ok d) ↔ Grammatical v) ∧
    (∀ v e, ofValue v = .error e ↔ Rejected v e) ∧
    ∀ fields other : Object,
      (∀ key, Matters fields key → other.find? key = fields.find? key) →
      ((∃ d, ofValue (.object other) = .ok d) ↔ ∃ d, ofValue (.object fields) = .ok d) ∧
        ∀ e, ofValue (.object other) = .error e ↔ ofValue (.object fields) = .error e := by
  refine ⟨fun v => (keepsToGrammar v).1, fun v => (keepsToGrammar v).2, ?_⟩
  intro fields other same
  have alike : ∀ e, Rejected (.object other) e ↔ Rejected (.object fields) e :=
    fun _ => rejected_congr same
  constructor
  · calc
      (∃ d, ofValue (.object other) = .ok d) ↔ ∀ e, ¬ Rejected (.object other) e :=
        (keepsToGrammar _).2.exists_ok_iff
      _ ↔ ∀ e, ¬ Rejected (.object fields) e := forall_congr' fun e => not_congr (alike e)
      _ ↔ ∃ d, ofValue (.object fields) = .ok d := (keepsToGrammar _).2.exists_ok_iff.symm
  · intro e
    calc
      ofValue (.object other) = .error e ↔ Rejected (.object other) e := (keepsToGrammar _).2 e
      _ ↔ Rejected (.object fields) e := alike e
      _ ↔ ofValue (.object fields) = .error e := ((keepsToGrammar _).2 e).symm

def soundItems : List Value := [
  .object (KeyMap.ofList [("type", .string "box"), ("parts", .array [.null])]),
  .object (KeyMap.ofList [("type", .string "composite"), ("parts", .string "none")])]

def unsoundItem : Value := .object (KeyMap.ofList [
  ("type", .string "ref"),
  ("repeat", .object (KeyMap.ofList [("times", .string "3"), ("rotation", .null)]))])

def sketchFields (items : List Value) : Object := KeyMap.ofList [
  ("type", .string "composite"),
  ("rotation", Vec.toValue [.ofUInt64 90]),
  ("parts", .array items)]

def sketchError : FormatError := .malformed .repeatTimes (.expected .count (.string "3"))

theorem sketch_ok_iff_grammatical :
    ((∀ key, Matters (sketchFields (soundItems ++ [unsoundItem])) key →
        ((sketchFields (soundItems ++ [unsoundItem])).insert "name" .null).find? key =
          (sketchFields (soundItems ++ [unsoundItem])).find? key) ∧
      ofValue (.object (sketchFields (soundItems ++ [unsoundItem]))) = .error sketchError) ∧
    Grammatical (.object (sketchFields soundItems)) ∧
    Rejected (.object (sketchFields (soundItems ++ [unsoundItem]))) sketchError ∧
    ofValue (.object ((sketchFields (soundItems ++ [unsoundItem])).insert "name" .null)) =
      .error sketchError := by
  have failed : ofValue (.object (sketchFields (soundItems ++ [unsoundItem]))) =
      .error sketchError := by
    decide +kernel
  have accepted : ∃ d, ofValue (.object (sketchFields soundItems)) = .ok d :=
    ⟨.composite
      (some [.primitive "box" ⟨none, none, none, none, KeyMap.ofList [("parts", .array [.null])]⟩,
        .composite none ⟨none, none, none, none, .nil⟩])
      ⟨none, some [.ofUInt64 90], none, none, .nil⟩, by decide +kernel⟩
  have same : ∀ key, Matters (sketchFields (soundItems ++ [unsoundItem])) key →
      ((sketchFields (soundItems ++ [unsoundItem])).insert "name" .null).find? key =
        (sketchFields (soundItems ++ [unsoundItem])).find? key := by
    intro key matters
    have notName : key ≠ "name" := by
      intro here
      subst here
      rcases matters with structural | ⟨-, reference⟩ | ⟨other, -⟩
      · cases structural
      · exact absurd reference (by decide +kernel)
      · exact absurd other (by decide)
    rw [KeyMap.find?_insert, if_neg notName]
  rcases ofValue_ok_iff_grammatical with ⟨accepts, rejects, unmoved⟩
  exact ⟨⟨same, failed⟩, (accepts _).mp accepted, (rejects _ _).mp failed,
    ((unmoved _ _ same).2 _).mpr failed⟩

end Definition

end PartTree
