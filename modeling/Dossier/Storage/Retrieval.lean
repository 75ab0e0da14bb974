import Dossier.Record.Payload
import Dossier.Storage.Ordering
import Dossier.Storage.Visit

/-!
The results of retrievals. Records are visited by a plan; those that do not come in the order that is asked
for are all found and sorted, and the others are looked for until there are as many results as are asked for.
-/

namespace Dossier.Retrieval

open Expression (Record)

/-- A result row; a repeated name keeps its last value. -/
def resultRow (cells : List (String × Scalar)) : Row :=
  Members.ofList (cells.map fun (name, value) => (name, value.toJson))

/-- The expressions of the results. -/
def outputs (r : Retrieval) : List Expression :=
  r.columns.filterMap fun
    | .value expression _ => some expression
    | .count _ => none

def expressions (r : Retrieval) : List Expression :=
  r.outputs ++ r.condition.toList ++ r.groups ++ r.order.map (·.expression)

/-- Whether the results are about all records together. -/
def counts (r : Retrieval) : Bool := r.columns.any fun
  | .count _ => true
  | .value _ _ => false

/-- The keys that bring the records of a group together. They take their directions from an order by as
many keys. -/
def groupKeys (r : Retrieval) : List SortKey :=
  if r.groups.length = r.order.length then
    r.groups.zipWith (fun expression key => ⟨expression, key.descending, none⟩) r.order
  else r.groups.map (⟨·, false, none⟩)

/-- Whether the order is by the columns of the groups. -/
def isByGroups (r : Retrieval) : Bool :=
  r.groups.length == r.order.length && (r.groups.zip r.order).all fun (group, key) =>
    !Plan.displacesNulls key && group.columnName?.isSome && group.columnName? == key.expression.columnName?

/-! ### Plans -/

/-- The estimated share of a column in the size of a record. -/
def columnSize (shape : ColumnShape) : Nat := if shape.affinity = .numeric then 1 else 5

/-- The largest limit that plans take into account. -/
def largestLimit : Int := Int.pow 2 31 - 1

def aim (around : Surroundings) (r : Retrieval) : Plan.Aim :=
  let isGrouped := !r.groups.isEmpty
  let isPlain := !isGrouped && !r.counts
  { indexes := ((around.columns.filter (·.unique)).map (·.name)).reverse
    width := Estimate.ofCount (4 * (around.columns.foldl (fun size shape => size + columnSize shape) 0 + 1))
    entry := Estimate.ofCount (4 * (5 + 1))
    used := r.expressions.flatMap (·.columns true)
    results := r.columns.length
    keys := if isGrouped then r.groupKeys else if isPlain then r.order else []
    grouped := isGrouped
    sorted := isGrouped && r.isByGroups
    limit := match r.limit with
      | some (.integer n) => if isPlain && 0 < n && n ≤ largestLimit then some n.toNat else none
      | _ => none }

/-! ### Rows -/

/-- The results for a group of records; the first of them stands for the group. -/
def outputRow (around : Surroundings) (columns : List Output) (group : List Record) :
    Except ExecutionFault Row := do
  let first := group.head?.getD []
  let cells ← columns.mapM fun
    | .value expression name => do return (name, ← expression.value around first)
    | .count name => return (name, .integer group.length)
  return resultRow cells

/-- A whole number of rows. -/
def rowCount : Scalar → Except ExecutionFault Int
  | .integer n => .ok n
  | _ => .error .refused

/-- The items of a page; a negative limit is none. -/
def page (limit : Option Int) (offset : Nat) (items : Trail α) : Except ExecutionFault (List α) :=
  match limit with
  | some (.ofNat n) => do return (← items.first (offset + n)).drop offset
  | _ => do return (← items.all).drop offset

/-- Sorts groups by the values of keys on their first records. -/
def sortGroups (around : Surroundings) (order : List SortKey) (groups : Trail (List Record)) :
    Trail (List Record) :=
  Trail.ofExcept do
    Ordering.sortOn (fun group => Expression.values around (group.head?.getD []) (order.map (·.expression)))
      order (← groups.all)

/-- The groups of records with the same values of some expressions. -/
def groupBy (around : Surroundings) (r : Retrieval) (isOrdered : Bool) (records : Trail Record) :
    Trail (List Record) :=
  let ranked := records.mapM fun record => do return (← Expression.values around record r.groups, record)
  if isOrdered then Ordering.groupTrail ranked
  else Ordering.groupTrail (Trail.ofExcept (ranked.all.map (Ordering.sortRanked r.groupKeys)))

/-- The records of each result, in the order of the results. -/
def gathered (around : Surroundings) (r : Retrieval) (records : List Record) : Trail (List Record) :=
  let terms := (r.condition.map (Expression.terms around)).getD []
  let choice := Plan.choose (r.aim around) terms
  let found := (choice.plan.found around records.zipIdx).mapM fun (record, _) => return record
  if !r.groups.isEmpty then
    let groups := groupBy around r choice.isOrdered found
    if r.order.isEmpty || choice.isSorted then groups else sortGroups around r.order groups
  else if r.counts then Trail.ofExcept (found.all.map ([·]))
  else
    let single := found.mapM fun record => return [record]
    if r.order.isEmpty || choice.isOrdered then single else sortGroups around r.order single

/-- The result rows. Nothing is looked at if none are asked for. -/
def rows (around : Surroundings) (r : Retrieval) (records : List Record) : Except ExecutionFault (List Row) := do
  if r.limit = some (.integer 0) then return []
  let limit ← r.limit.mapM rowCount
  let offset ← r.offset.mapM rowCount
  (← page limit ((offset.getD 0).toNat) (r.gathered around records)).mapM (outputRow around r.columns)

end Dossier.Retrieval
