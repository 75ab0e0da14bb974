import Dossier.Storage.Command
import Dossier.Storage.Trail

/-!
Records in the order of keys, and records with the same keys together.
-/

namespace Dossier.Ordering

open Expression (Record)

/-- The order of two values of a key. -/
def keyBefore (key : SortKey) (a b : Scalar) : Ordering :=
  let nullsFirst := key.nullsFirst.getD !key.descending
  match a, b with
  | .null, .null => .eq
  | .null, _ => if nullsFirst then .lt else .gt
  | _, .null => if nullsFirst then .gt else .lt
  | _, _ => if key.descending then b.compare a else a.compare b

def keysBefore : List SortKey → List Scalar → List Scalar → Ordering
  | key :: keys, a :: as, b :: bs => (keyBefore key a b).then (keysBefore keys as bs)
  | _, _, _ => .eq

/-- Sorts items by values of keys; items of one rank keep their order. -/
def sortRanked (keys : List SortKey) (ranked : List (List Scalar × α)) : List (List Scalar × α) :=
  ranked.mergeSort fun a b => keysBefore keys a.1 b.1 != .gt

/-- Sorts items by the values of keys on them. -/
def sortOn (rank : α → Except ExecutionFault (List Scalar)) (keys : List SortKey) (items : List α) :
    Except ExecutionFault (List α) := do
  let ranked ← items.mapM fun item => do return (← rank item, item)
  return (sortRanked keys ranked).map Prod.snd

/-- Whether two lists hold equal values. Nulls are equal to each other here, and numbers by their value. -/
def areSame (as bs : List Scalar) : Bool := (as.zip bs).all fun (a, b) => a.compare b == .eq

/-- Puts together neighbours with the same values. -/
def groupNeighbours : List (List Scalar × α) → List (List Scalar × List α)
  | [] => []
  | (key, item) :: rest =>
    match groupNeighbours rest with
    | (other, items) :: more =>
      if areSame key other then (key, item :: items) :: more else (key, [item]) :: (other, items) :: more
    | [] => [(key, [item])]

/-- The groups of items that are found in order. A group is complete once the next one begins. -/
def groupTrail (trail : Trail (List Scalar × α)) : Trail (List α) :=
  let groups := (groupNeighbours trail.found).map Prod.snd
  match trail.fault with
  | some fault => ⟨groups.dropLast, some fault⟩
  | none => Trail.ofList groups

end Dossier.Ordering
