import Dossier.Proofs.Json.Entities

/-!
The compact form of values. An entity in a member of its own name is left out but for its identity, entities
in other places are kept whole, and everything else is collapsed in turn.
-/

namespace Dossier.Json

mutual

/-- The value with the entities inside it left out where their identity says it all. -/
def collapse : Json → Json
  | .object members => .object (collapseMembers members)
  | .array items => .array (collapseItems items)
  | .null => .null
  | .bool b => .bool b
  | .number n => .number n
  | .string s => .string s

def collapseItems : List Json → List Json
  | [] => []
  | value :: rest => (if value.identity?.isSome then value else collapse value) :: collapseItems rest

def collapseMembers : Members → Members
  | [] => []
  | (name, value) :: rest =>
    (name, match value.identity? with
      | some identity => if name = identity then .string identity else value
      | none => collapse value) :: collapseMembers rest

end

/-- What a value becomes as an element. -/
def collapseItem (value : Json) : Json := if value.identity?.isSome then value else value.collapse

/-- What a value becomes as a member. -/
def collapseMember (name : String) (value : Json) : Json :=
  match value.identity? with
  | some identity => if name = identity then .string identity else value
  | none => value.collapse

theorem collapseItems_eq (items : List Json) : collapseItems items = items.map collapseItem := by
  induction items with
  | nil => rfl
  | cons value rest ih => rw [collapseItems, ih, List.map_cons, collapseItem]

theorem collapseMembers_eq (members : Members) :
    collapseMembers members = members.map fun member => (member.1, collapseMember member.1 member.2) := by
  induction members with
  | nil => rfl
  | cons member rest ih =>
      rw [collapseMembers, ih, List.map_cons]
      rfl

theorem names_collapseMembers (members : Members) : (collapseMembers members).names = members.names := by
  rw [collapseMembers_eq]
  simp [Members.names]

theorem get?_collapseMembers (members : Members) (name : String) :
    (collapseMembers members).get? name = (members.get? name).map (collapseMember name) := by
  induction members with
  | nil => rfl
  | cons member rest ih =>
      obtain ⟨key, value⟩ := member
      rw [collapseMembers_eq, List.map_cons, ← collapseMembers_eq]
      by_cases hkey : key = name <;> simp [Members.get?, hkey, ih]

theorem sorted_collapseMembers {members : Members} (h : members.Sorted) : (collapseMembers members).Sorted := by
  rw [Members.Sorted, names_collapseMembers]
  exact h

theorem collapse_scalar {value : Json} (h : value.isContainer = false) : value.collapse = value := by
  cases value <;> first | rfl | cases h

theorem isContainer_collapse (value : Json) : value.collapse.isContainer = value.isContainer := by
  cases value <;> rfl

/-- Collapsing keeps members in order. -/
theorem ordered_collapse {value : Json} (h : value.Ordered) : value.collapse.Ordered := by
  induction value using induct with
  | scalar value hscalar => rwa [collapse_scalar hscalar]
  | array items ih =>
      have hitems := ordered_array.mp h
      rw [collapse, collapseItems_eq, ordered_array, List.forall_mem_map]
      intro value hvalue
      rw [collapseItem]
      split
      · exact hitems value hvalue
      · exact ih value hvalue (hitems value hvalue)
  | object members ih =>
      obtain ⟨hsorted, hmembers⟩ := ordered_object.mp h
      rw [collapse, ordered_object]
      refine ⟨sorted_collapseMembers hsorted, ?_⟩
      rw [collapseMembers_eq, List.forall_mem_map]
      intro member hmember
      dsimp only [collapseMember]
      split
      · split
        · exact ordered_scalar rfl
        · exact hmembers member hmember
      · exact ih member hmember (hmembers member hmember)

/-- Where no entities are inside, nothing is left out. -/
theorem collapse_of_no_entities {value : Json} (h : ∀ part ∈ value.parts, sizeOf part < sizeOf value →
    part.identity? = none) : value.collapse = value := by
  induction value using induct with
  | scalar value hscalar => exact collapse_scalar hscalar
  | array items ih =>
      rw [collapse, collapseItems_eq, List.map_congr_left fun value hvalue => ?_, List.map_id']
      have hinside := parts_of_mem_items hvalue (self_mem_parts value)
      have hlt := sizeOf_item_lt hvalue
      rw [collapseItem, h value hinside hlt, Option.isSome_none, if_neg Bool.false_ne_true]
      exact ih value hvalue fun part hpart hless => h part (mem_parts_trans hinside hpart) (hless.trans hlt)
  | object members ih =>
      rw [collapse, collapseMembers_eq, List.map_congr_left fun member hmember => ?_, List.map_id']
      have hinside := parts_of_mem_members hmember (self_mem_parts member.2)
      have hlt := sizeOf_member_lt hmember
      refine Prod.ext rfl ?_
      rw [collapseMember, h member.2 hinside hlt]
      exact ih member hmember fun part hpart hless => h part (mem_parts_trans hinside hpart) (hless.trans hlt)

end Dossier.Json
