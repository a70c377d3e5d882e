import PartTree.Json.Parser
import PartTree.Json.Printer

/-!
What a program takes from a library for documents as text. Libraries differ in the double that they
read a numeral as, so that a program is run, and reasoned about, over any of them.
-/

namespace PartTree

structure Codec where
  parse? : String → Option Value
  pretty : Value → Except String String
  compact : Value → String

namespace Codec

/-- A printed document is read as it was, if it nests no deeper than a text may. -/
def RoundTrips (json : Codec) : Prop :=
  ∀ (value : Value) (text : String), value.depth ≤ 127 → json.pretty value = .ok text →
    json.parse? text = some value

def IgnoresLineEnd (json : Codec) : Prop :=
  ∀ (value : Value) (text : String), value.depth ≤ 127 → json.pretty value = .ok text →
    json.parse? (text ++ "\n") = json.parse? text

/-- One codec: a numeral is the double nearest to it. -/
def nearest : Codec := ⟨Value.parse?, fun value => .ok value.pretty, Value.compact⟩

end Codec

end PartTree
