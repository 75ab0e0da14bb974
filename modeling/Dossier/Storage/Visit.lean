import Dossier.Storage.Plan
import Dossier.Storage.Trail

/-!
The records that a plan finds, in the order in which it finds them.
-/

namespace Dossier

open Expression (Record)

/-- Whether a record meets all conditions; those after one that it does not meet are not looked at. -/
def Expression.holdsAll (around : Surroundings) (record : Record) : List Expression → Except ExecutionFault Bool
  | [] => .ok true
  | condition :: rest => do
    if ← condition.holds around record then holdsAll around record rest else return false

namespace Plan

/-- A record and its position in the table. -/
abbrev Placed := Record × Nat

def valueIn (column : String) (placed : Placed) : Scalar := (placed.1.lookup column).getD .null

/-- The order of a direction. -/
def inDirection (descending : Bool) (a b : Scalar) : Bool :=
  if descending then b.compare a != .gt else a.compare b != .gt

/-- The records in the order of a column. -/
def inOrder (column : String) (descending : Bool) (records : List Placed) : List Placed :=
  records.mergeSort fun a b => inDirection descending (valueIn column a) (valueIn column b)

/-- The records that have one of some values, in the order of the values. -/
def withValues (column : String) (descending : Bool) (values : List Scalar) (records : List Placed) : List Placed :=
  let values := (values.filter (· != .null)).mergeSort (inDirection descending)
  values.eraseDups.flatMap fun value => records.filter fun placed => valueIn column placed == value

mutual

/-- The records that a plan finds. -/
def found (around : Surroundings) (records : List Placed) : Plan → Trail Placed
  | .visit settled source tests =>
    match Expression.holdsAll around [] settled with
    | .error fault => Trail.failed fault
    | .ok false => Trail.ofList []
    | .ok true => (foundIn around records source).filterM fun (record, _) => Expression.holdsAll around record tests

def foundIn (around : Surroundings) (records : List Placed) : Source → Trail Placed
  | .all => Trail.ofList records
  | .ordered column descending => Trail.ofList (inOrder column descending records)
  | .having column values descending =>
    match Expression.values around [] values with
    | .error fault => Trail.failed fault
    | .ok values =>
      let values := values.map (·.store (around.affinity column))
      Trail.ofList (withValues column descending values records)
  | .anyOf visits => foundByAny around records visits

def foundByAny (around : Surroundings) (records : List Placed) : List Plan → Trail Placed
  | [] => Trail.ofList []
  | plan :: rest =>
    let first := found around records plan
    let others := foundByAny around records rest
    first.append ⟨others.found.filter fun placed => !first.found.any (·.2 == placed.2), others.fault⟩

end

end Plan

end Dossier
