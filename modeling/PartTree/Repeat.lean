import PartTree.Definition.Basic

/-!
Replacing a repeat rule by the copies it stands for.

Copy `j` of a node is moved and turned by `j` times the rule's offset. Whole numbers stay whole as
long as product and sum fit a signed word; everything else is done in doubles.
-/

namespace PartTree

def fitsSigned (n : Int) : Bool := -9223372036854775808 ≤ n && n < 9223372036854775808

namespace Number

def offsetWhole? (base delta : Number) (step : Nat) : Option Number := do
  let base ← base.signed?
  let delta ← delta.signed?
  if fitsSigned step && fitsSigned (delta * step) && fitsSigned (base + delta * step) then
    whole? (base + delta * step)
  else none

/-- `base + step * delta` in doubles, the product rounded and then the sum. -/
def offsetDouble? (base delta : Number) (step : Nat) : Option Number := do
  let product ← (← Binary64.ofInt? step).mul? (← delta.toBinary64?)
  let sum ← (← base.toBinary64?).add? product
  pure (.float sum)

/-- A component of the copy with a number. One that would leave the finite doubles stays. -/
def offset (base delta : Number) (step : Nat) : Number :=
  if step = 0 then base
  else ((base.offsetWhole? delta step).or (base.offsetDouble? delta step)).getD base

end Number

namespace Vec

/-- An offset of another length than the vector has no effect. -/
def offset (v : Vec) (delta : Option Vec) (step : Nat) : Vec :=
  match delta with
  | none => v
  | some delta =>
    if v.length = delta.length then List.zipWith (fun base d => Number.offset base d step) v delta
    else v

end Vec

namespace RepeatRule

def place (rule : RepeatRule) (step : Nat) (a : Attributes) : Attributes :=
  { a with
    position := some (Vec.offset (a.position.getD zeroVec) rule.position step)
    rotation := some (Vec.offset (a.rotation.getD zeroVec) rule.rotation step)
    rule := none }

def copies (rule : RepeatRule) (d : Definition) : List Definition :=
  (List.range rule.times.toNat).map fun step => d.mapAttributes (rule.place step)

end RepeatRule

namespace Definition

/-- A node with a rule becomes a plain composite of its copies; any other stays as it is. -/
def expandRepeat (d : Definition) : Definition :=
  match d.attributes.rule with
  | none => d
  | some rule => .composite (some (rule.copies d)) ⟨none, none, none, none, .nil⟩

theorem expandRepeat_of_no_rule {d : Definition} (noRule : d.attributes.rule = none) :
    d.expandRepeat = d := by
  rw [expandRepeat, noRule]

theorem expandRepeat_of_rule {d : Definition} {rule : RepeatRule}
    (ruled : d.attributes.rule = some rule) :
    d.expandRepeat = .composite (some (rule.copies d)) ⟨none, none, none, none, .nil⟩ := by
  rw [expandRepeat, ruled]

end Definition

end PartTree
