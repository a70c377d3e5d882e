/-!
Maps from strings to values with the keys in increasing order.

The order is part of the type: `KeyMap α (some b)` holds keys above `b` alone, and `KeyMap α none`
any keys, so there is one map for each set of entries.
-/

namespace PartTree

/-- Whether a key lies above a bound; every key lies above no bound. -/
def Above : Option String → String → Prop
  | none, _ => True
  | some bound, key => bound < key

instance (bound : Option String) (key : String) : Decidable (Above bound key) := by
  cases bound <;> simp only [Above] <;> infer_instance

theorem Above.trans {bound : Option String} {middle key : String}
    (low : Above bound middle) (high : middle < key) : Above bound key := by
  cases bound with
  | none => trivial
  | some bound => exact String.lt_trans low high

theorem above_of_not_lt {key other : String} (notBelow : ¬ other < key) (different : other ≠ key) :
    Above (some key) other :=
  Decidable.byContradiction fun notAbove =>
    different (String.le_antisymm (String.not_lt.mp notAbove) (String.not_lt.mp notBelow))

inductive KeyMap (α : Type) : Option String → Type
  | nil {bound : Option String} : KeyMap α bound
  | cons {bound : Option String} (key : String) (above : Above bound key) (value : α)
      (rest : KeyMap α (some key)) : KeyMap α bound

namespace KeyMap

variable {α β : Type} {bound : Option String}

instance : Inhabited (KeyMap α bound) := ⟨.nil⟩

def find? {bound : Option String} : KeyMap α bound → String → Option α
  | .nil, _ => none
  | .cons key _ value rest, wanted => if wanted = key then some value else rest.find? wanted

def contains (map : KeyMap α bound) (key : String) : Bool := (map.find? key).isSome

def toList {bound : Option String} : KeyMap α bound → List (String × α)
  | .nil => []
  | .cons key _ value rest => (key, value) :: rest.toList

def keys (map : KeyMap α bound) : List String := map.toList.map Prod.fst

def size (map : KeyMap α bound) : Nat := map.toList.length

def isEmpty : KeyMap α bound → Bool
  | .nil => true
  | .cons .. => false

/-- The same entries under a bound that every key above the old one is above too. -/
def weaken {low high : Option String} :
    KeyMap α high → (∀ key, Above high key → Above low key) → KeyMap α low
  | .nil, _ => .nil
  | .cons key above value rest, weaker => .cons key (weaker key above) value rest

def insertAbove {bound : Option String} (key : String) (above : Above bound key) (value : α) :
    KeyMap α bound → KeyMap α bound
  | .nil => .cons key above value .nil
  | .cons other otherAbove otherValue rest =>
    if below : key < other then .cons key above value (.cons other below otherValue rest)
    else if same : key = other then .cons other otherAbove value rest
    else .cons other otherAbove otherValue
      (rest.insertAbove key (above_of_not_lt below same) value)

def insert (map : KeyMap α none) (key : String) (value : α) : KeyMap α none :=
  map.insertAbove key trivial value

/-- Sets a key if there is a value to set. -/
def insert? (map : KeyMap α none) (key : String) : Option α → KeyMap α none
  | none => map
  | some value => map.insert key value

def erase {bound : Option String} : KeyMap α bound → String → KeyMap α bound
  | .nil, _ => .nil
  | .cons key above value rest, wanted =>
    if wanted = key then rest.weaken fun _ higher => above.trans higher
    else .cons key above value (rest.erase wanted)

def filter {bound : Option String} (keep : String → α → Bool) : KeyMap α bound → KeyMap α bound
  | .nil => .nil
  | .cons key above value rest =>
    if keep key value then .cons key above value (rest.filter keep)
    else (rest.filter keep).weaken fun _ higher => above.trans higher

/-- All entries of both maps; where both have a key, the first map's value. -/
def layOver {bound : Option String} : KeyMap α bound → KeyMap α none → KeyMap α none
  | .nil, lower => lower
  | .cons key _ value rest, lower => rest.layOver (lower.insert key value)

/-- The map of a list of entries; of two entries with one key the later. -/
def ofList (entries : List (String × α)) : KeyMap α none :=
  entries.foldl (fun map entry => map.insert entry.1 entry.2) .nil

/-- Replaces each value in the order of the keys, up to the first failure. -/
def traverse {m : Type → Type} [Monad m] {bound : Option String} (visit : String → α → m β) :
    KeyMap α bound → m (KeyMap β bound)
  | .nil => pure .nil
  | .cons key above value rest => do
    let value ← visit key value
    let rest ← rest.traverse visit
    pure (.cons key above value rest)

/-- The weight of the entries under names not yet visited. A walk that visits no name twice can be
charged to it. -/
def pending {bound : Option String} (weight : α → Nat) (visited : List String) :
    KeyMap α bound → Nat
  | .nil => 0
  | .cons key _ value rest =>
    (if key ∈ visited then 0 else weight value) + rest.pending weight visited

end KeyMap

end PartTree
