import PartTree.Definition.Reader
import PartTree.Definition.Writer
import PartTree.KeyMap.Lemmas

/-!
How much is left to walk in a tree. A reference weighs what the parts among its own fields weigh,
for they come into the tree when it is replaced.
-/

namespace PartTree.Definition

mutual

def weight : Definition → Nat
  | .primitive .. => 1
  | .composite none _ => 1
  | .composite (some parts) _ => 1 + weightAll parts
  | .reference _ a => 1 + Value.sizeUnder "parts" a.fields

def weightAll : List Definition → Nat
  | [] => 0
  | part :: parts => 1 + part.weight + weightAll parts

end

def weightParts : Option (List Definition) → Nat
  | none => 0
  | some parts => 1 + weightAll parts

theorem fields_of_readHeader {fields : Object} {typeName : String} {a : Attributes}
    (header : readHeader fields = .ok (typeName, a)) :
    a.fields = fields.filter fun key _ => !isStructural key := by
  unfold readHeader at header
  split at header
  · simp only [bind_eq_ok, pure, Except.pure] at header
    obtain ⟨_, _, _, _, _, _, _, _, same⟩ := header
    cases same
    rfl
  · cases header

/-- Reading makes no tree heavier than the value under `parts`. -/
theorem weight_read_object {fields : Object} {d : Definition}
    (parts_le : ∀ parts, (readParts fields).result = .ok parts →
      weightParts parts ≤ Value.sizeUnder "parts" fields)
    (read_ok : (read (.object fields)).result = .ok d) :
    d.weight ≤ 1 + Value.sizeUnder "parts" fields := by
  simp only [read, Logged.result_bind, Logged.result_ofExcept, bind_eq_ok] at read_ok
  obtain ⟨⟨typeName, a⟩, header, rest⟩ := read_ok
  have kept := fields_of_readHeader header
  split at rest
  · simp only [Logged.result_bind, bind_eq_ok, Logged.result_pure, Except.ok.injEq] at rest
    obtain ⟨parts, parts_ok, rfl⟩ := rest
    have le := parts_le parts parts_ok
    cases parts with
    | none => simp only [weight]; omega
    | some parts => simp only [weight, weightParts] at le ⊢; omega
  · split at rest
    · simp only [Logged.result_bind, bind_eq_ok, Logged.result_pure, Except.ok.injEq,
        Logged.result_ofExcept] at rest
      obtain ⟨name, _, rfl⟩ := rest
      simp only [weight, Attributes.eraseField, kept, Value.sizeUnder]
      rw [KeyMap.find?_erase, if_neg (by decide), KeyMap.find?_filter]
      cases fields.find? "parts" <;> simp [isStructural, Option.filter]
    · simp only [Logged.result_pure, Except.ok.injEq] at rest
      subst rest
      simp only [weight]
      omega

mutual

theorem weight_read : (v : Value) → (d : Definition) → (read v).result = .ok d → d.weight ≤ v.size
  | .object fields, d, ok => by
    have le := weight_read_object (fun parts parts_ok => weight_readParts fields parts parts_ok) ok
    have small := Value.sizeUnder_le "parts" fields
    simp only [Value.size]
    omega
  | .null, _, ok | .bool _, _, ok | .number _, _, ok | .string _, _, ok | .array _, _, ok => by
    simp [read] at ok

theorem weight_readParts {bound : Option String} : (fields : KeyMap Value bound) →
    (parts : Option (List Definition)) → (readParts fields).result = .ok parts →
    weightParts parts ≤ Value.sizeUnder "parts" fields
  | .nil, parts, ok => by
    simp only [readParts, Logged.result_pure, Except.ok.injEq] at ok
    subst ok
    exact Nat.zero_le _
  | .cons key above value rest, parts, ok => by
    unfold readParts at ok
    split at ok
    · rename_i here
      subst here
      split at ok
      · rename_i items
        obtain ⟨read_parts, read_ok, rfl⟩ := map_eq_ok.mp (Logged.result_map _ _ ▸ ok)
        have le := weight_readAll items _ read_ok
        simp only [weightParts, Value.sizeUnder, KeyMap.find?, ↓reduceIte, Option.map_some,
          Option.getD_some, Value.size]
        omega
      · obtain ⟨_, _, dropped⟩ := bind_eq_ok.mp (Logged.result_bind _ _ ▸ ok)
        cases dropped
        exact Nat.zero_le _
    · rename_i elsewhere
      have le := weight_readParts rest parts ok
      simpa only [Value.sizeUnder, KeyMap.find?, if_neg (Ne.symm elsewhere)] using le

theorem weight_readAll : (items : List Value) → (parts : List Definition) →
    (readAll items).result = .ok parts → weightAll parts ≤ Value.sizeItems items
  | [], parts, ok => by
    simp only [readAll, Logged.result_pure, Except.ok.injEq] at ok
    subst ok
    exact Nat.le_refl _
  | item :: items, parts, ok => by
    simp only [readAll, Logged.result_bind, bind_eq_ok, Logged.result_pure, Except.ok.injEq] at ok
    obtain ⟨part, part_ok, others, others_ok, rfl⟩ := ok
    have head := weight_read item part part_ok
    have tail := weight_readAll items others others_ok
    simp only [weightAll, Value.sizeItems]
    omega

end

end PartTree.Definition
