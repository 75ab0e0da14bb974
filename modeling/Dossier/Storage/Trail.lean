import Dossier.Fault

/-!
What is found one after another until a fault ends the search. Whoever needs only the first few items does not
meet a fault that comes after them.
-/

namespace Dossier

/-- Items in the order in which they are found, and the fault after the last one if there is one. -/
structure Trail (α : Type) where
  found : List α
  fault : Option ExecutionFault
  deriving Repr, Inhabited

namespace Trail

def ofList (items : List α) : Trail α := ⟨items, none⟩

def failed (fault : ExecutionFault) : Trail α := ⟨[], some fault⟩

def ofExcept : Except ExecutionFault (List α) → Trail α
  | .ok items => ofList items
  | .error fault => failed fault

/-- One trail after another; a fault in the first one ends both. -/
def append (first second : Trail α) : Trail α :=
  match first.fault with
  | some fault => ⟨first.found, some fault⟩
  | none => ⟨first.found ++ second.found, second.fault⟩

/-- What a step makes of each item of a list. -/
def walk (step : α → Except ExecutionFault (Option β)) : List α → Trail β
  | [] => ⟨[], none⟩
  | item :: rest =>
    match step item with
    | .error fault => failed fault
    | .ok none => walk step rest
    | .ok (some result) =>
      let trail := walk step rest
      ⟨result :: trail.found, trail.fault⟩

/-- What a step makes of each item that is found. A fault of the step comes before that of the trail. -/
def filterMapM (step : α → Except ExecutionFault (Option β)) (trail : Trail α) : Trail β :=
  let walked := walk step trail.found
  ⟨walked.found, walked.fault.or trail.fault⟩

def filterM (test : α → Except ExecutionFault Bool) (trail : Trail α) : Trail α :=
  trail.filterMapM fun item => do return if ← test item then some item else none

def mapM (step : α → Except ExecutionFault β) (trail : Trail α) : Trail β :=
  trail.filterMapM fun item => do return some (← step item)

/-- Every item, or the fault. -/
def all (trail : Trail α) : Except ExecutionFault (List α) :=
  match trail.fault with
  | some fault => .error fault
  | none => .ok trail.found

/-- The first items, or the fault if it comes before them. -/
def first (count : Nat) (trail : Trail α) : Except ExecutionFault (List α) :=
  if count ≤ trail.found.length then .ok (trail.found.take count) else trail.all

end Trail

end Dossier
