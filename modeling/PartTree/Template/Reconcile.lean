import PartTree.Template.Basic
import PartTree.Event

/-!
Fitting the fields of one node to its template, with nothing lost.

Missing fields get their defaults, fields that the template does not declare move into the overflow
bag, and fields of the bag that it does declare are copied out again. The bag keeps its copies, so a
field survives any number of changes of type.
-/

namespace PartTree

/-- The overflow bag of a node; what is not an object holds nothing. -/
def bagOf (fields : Object) : Object :=
  match fields.find? "_dustbin" with
  | some (.object bag) => bag
  | _ => .nil

namespace Template

variable (t : Template)

def complement (fields : Object) : Object := fields.layOver (t.fields.erase "_dustbin")

def excess (fields : Object) : Object :=
  fields.filter fun key _ => key != "_dustbin" && !t.declares key

def demote (fields : Object) : Object :=
  if (t.excess fields).isEmpty then fields
  else
    (fields.filter fun key _ => key == "_dustbin" || t.declares key).insert "_dustbin"
      (.object ((t.excess fields).layOver (bagOf fields)))

/-- The type stays: the bag must not switch the template it is read by. -/
def reclaimed (fields : Object) : Object :=
  (bagOf fields).filter fun key _ => key != "type" && key != "_dustbin" && t.declares key

def restore (fields : Object) : Object := (t.reclaimed fields).layOver fields

/-- The fields of a node fitted to the template. -/
def reconcile (fields : Object) : Object := t.restore (t.demote (t.complement fields))

def demoteEvents (fields : Object) : List Event :=
  if (t.excess fields).isEmpty then []
  else
    let replaced := match fields.find? "_dustbin" with
      | none | some (.object _) => []
      | some found => [.replacedBag found]
    replaced ++ (t.excess fields).toList.map fun (key, value) => .demoted key value t.typeName

def restoreEvents (fields : Object) : List Event := (t.reclaimed fields).keys.map .restored

def reconcileEvents (fields : Object) : List Event :=
  let complemented := t.complement fields
  t.demoteEvents complemented ++ t.restoreEvents (t.demote complemented)

end Template

end PartTree
