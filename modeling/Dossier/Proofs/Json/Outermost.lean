import Dossier.Proofs.Json.Entities

/-!
Entities that are not inside other entities. Only entities of one identity, that of the document, are entered in the
search for them.
-/

namespace Dossier.Json

mutual

/-- The entities of other identities than `own` that are met first on the way down. -/
def outermost (own : Option String) : Json → List Json
  | .object members =>
    if (Json.object members).identity?.all (own == some ·) then outermostOfMembers own members else [.object members]
  | .array items => outermostOfItems own items
  | .null | .bool _ | .number _ | .string _ => []

def outermostOfItems (own : Option String) : List Json → List Json
  | [] => []
  | value :: rest => outermost own value ++ outermostOfItems own rest

def outermostOfMembers (own : Option String) : Members → List Json
  | [] => []
  | (_, value) :: rest => outermost own value ++ outermostOfMembers own rest

end

variable {own : Option String} {value : Json}

theorem outermostOfItems_eq (items : List Json) : outermostOfItems own items = items.flatMap (outermost own) := by
  induction items with
  | nil => rfl
  | cons value rest ih => rw [outermostOfItems, ih, List.flatMap_cons]

theorem outermostOfMembers_eq (members : Members) :
    outermostOfMembers own members = members.flatMap fun member => member.2.outermost own := by
  induction members with
  | nil => rfl
  | cons member rest ih => rw [outermostOfMembers, ih, List.flatMap_cons]

/-- An entity of another identity is met itself. -/
theorem outermost_of_other {identity : String} (h : value.identity? = some identity) (hother : own ≠ some identity) :
    value.outermost own = [value] := by
  cases value with
  | object members => rw [outermost, h, Option.all_some, beq_false_of_ne hother, if_neg Bool.false_ne_true]
  | _ => cases h

/-- What is met in an object is the object itself, if it has another identity, or is met in a member. -/
theorem mem_outermost_object {members : Members} {x : Json} (h : x ∈ (Json.object members).outermost own) :
    (x = .object members ∧ ∃ identity, x.identity? = some identity ∧ own ≠ some identity) ∨
      ∃ member ∈ members, x ∈ member.2.outermost own := by
  rw [outermost] at h
  split at h
  · rw [outermostOfMembers_eq] at h
    exact .inr (List.mem_flatMap.mp h)
  · rename_i hother
    cases List.mem_singleton.mp h
    cases hidentity : (Json.object members).identity? with
    | none => exact absurd (by rw [hidentity]; rfl) hother
    | some identity =>
        refine .inl ⟨rfl, identity, rfl, ?_⟩
        rintro rfl
        exact hother (by rw [hidentity]; exact beq_self_eq_true _)

theorem mem_outermost_array {items : List Json} {x : Json} :
    x ∈ (Json.array items).outermost own ↔ ∃ value ∈ items, x ∈ value.outermost own := by
  rw [outermost, outermostOfItems_eq, List.mem_flatMap]

theorem outermost_scalar (h : value.isContainer = false) : value.outermost own = [] := by
  cases value <;> first | rfl | cases h

theorem outermost_normal (value : Json) : value.normal.outermost own = (value.outermost own).map normal := by
  induction value using induct with
  | scalar value h => rw [outermost_scalar h, outermost_scalar (value.isContainer_normal.trans h), List.map_nil]
  | array items ih =>
      rw [normal, outermost, outermost, normalItems_eq, outermostOfItems_eq, outermostOfItems_eq, List.flatMap_map,
        List.map_flatMap]
      exact List.flatMap_congr ih
  | object members ih =>
      have hidentity := (Json.object members).identity?_normal
      rw [normal] at hidentity ⊢
      rw [outermost, outermost, hidentity]
      split
      · rw [normalMembers_eq, outermostOfMembers_eq, outermostOfMembers_eq, List.flatMap_map, List.map_flatMap]
        exact List.flatMap_congr ih
      · rfl

end Dossier.Json
