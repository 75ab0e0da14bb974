import Dossier.Proofs.Json.Collapse

/-!
Values with canonical copies in the places of their entities. An entity with a copy gives way to its identity in a
member of that name, and to the copy elsewhere. One without a copy stays, except in a member of its name, where an
object of the bare identity is left.
-/

namespace Dossier.Json

/-- An object of nothing but an identity. -/
def stub (identity : String) : Json := .object [(identityName, .string identity)]

/-- What stands for a value in a member of this name, or in no member; `left` is what the value is if it stays. -/
def placed (copies : Members) (name : Option String) (value left : Json) : Json :=
  match value.identity? with
  | none => left
  | some identity =>
    if name = some identity then if (copies.get? identity).isSome then .string identity else stub identity
    else (copies.get? identity).getD left

mutual

/-- The value with the entities inside it replaced. -/
def externalize (copies : Members) : Json → Json
  | .object members => .object (externalizeMembers copies members)
  | .array items => .array (externalizeItems copies items)
  | .null => .null
  | .bool b => .bool b
  | .number n => .number n
  | .string s => .string s

def externalizeItems (copies : Members) : List Json → List Json
  | [] => []
  | value :: rest => placed copies none value (externalize copies value) :: externalizeItems copies rest

def externalizeMembers (copies : Members) : Members → Members
  | [] => []
  | (name, value) :: rest =>
    (name, placed copies (some name) value (externalize copies value)) :: externalizeMembers copies rest

end

/-- What a value becomes in a member of this name, or in no member. -/
def externalizeAt (copies : Members) (name : Option String) (value : Json) : Json :=
  placed copies name value (value.externalize copies)

/-- An entity, if it is one, has no canonical copy. -/
def Stays (copies : Members) (value : Json) : Prop := ∀ identity, value.identity? = some identity →
  copies.get? identity = none

variable {copies : Members} {value part : Json}

theorem externalizeItems_eq (items : List Json) :
    externalizeItems copies items = items.map (externalizeAt copies none) := by
  induction items with
  | nil => rfl
  | cons value rest ih => rw [externalizeItems, ih, List.map_cons, externalizeAt]

theorem externalizeMembers_eq (members : Members) : externalizeMembers copies members =
    members.map fun member => (member.1, externalizeAt copies (some member.1) member.2) := by
  induction members with
  | nil => rfl
  | cons member rest ih =>
      rw [externalizeMembers, ih, List.map_cons]
      rfl

theorem names_externalizeMembers (members : Members) : (externalizeMembers copies members).names = members.names := by
  rw [externalizeMembers_eq]
  simp [Members.names]

theorem get?_externalizeMembers (members : Members) (name : String) :
    (externalizeMembers copies members).get? name = (members.get? name).map (externalizeAt copies (some name)) := by
  induction members with
  | nil => rfl
  | cons member rest ih =>
      obtain ⟨key, value⟩ := member
      rw [externalizeMembers_eq, List.map_cons, ← externalizeMembers_eq]
      by_cases hkey : key = name <;> simp [Members.get?, hkey, ih]

theorem sorted_externalizeMembers {members : Members} (h : members.Sorted) :
    (externalizeMembers copies members).Sorted := by
  rw [Members.Sorted, names_externalizeMembers]
  exact h

theorem externalize_scalar (h : value.isContainer = false) : value.externalize copies = value := by
  cases value <;> first | rfl | cases h

theorem externalizeAt_of_none (h : value.identity? = none) (name : Option String) :
    externalizeAt copies name value = value.externalize copies := by rw [externalizeAt, placed, h]

theorem externalizeAt_of_copy {identity : String} {copy : Json} (h : value.identity? = some identity)
    (hcopy : copies.get? identity = some copy) (name : Option String) :
    externalizeAt copies name value = if name = some identity then .string identity else copy := by
  rw [externalizeAt, placed, h]
  dsimp only
  rw [hcopy]
  rfl

theorem externalizeAt_of_stays {identity : String} (h : value.identity? = some identity)
    (hcopy : copies.get? identity = none) (name : Option String) :
    externalizeAt copies name value = if name = some identity then stub identity else value.externalize copies := by
  rw [externalizeAt, placed, h]
  dsimp only
  rw [hcopy]
  rfl

/-- The forms that a value can take in a place. -/
inductive Placement (copies : Members) (name : Option String) (value : Json) : Json → Prop
  | left : Stays copies value → Placement copies name value (value.externalize copies)
  | bare (identity : String) (copy : Json) : name = some identity → value.identity? = some identity →
      copies.get? identity = some copy → Placement copies name value (.string identity)
  | copied (identity : String) (copy : Json) : value.identity? = some identity → copies.get? identity = some copy →
      Placement copies name value copy
  | stub (identity : String) : value.identity? = some identity → copies.get? identity = none →
      Placement copies name value (Json.stub identity)

theorem placement_externalizeAt (copies : Members) (name : Option String) (value : Json) :
    Placement copies name value (externalizeAt copies name value) := by
  cases hidentity : value.identity? with
  | none =>
      rw [externalizeAt_of_none hidentity]
      refine .left fun identity hsome => ?_
      cases hidentity.symm.trans hsome
  | some identity =>
      cases hcopy : copies.get? identity with
      | some copy =>
          rw [externalizeAt_of_copy hidentity hcopy]
          split
          · exact .bare identity copy ‹_› hidentity hcopy
          · exact .copied identity copy hidentity hcopy
      | none =>
          rw [externalizeAt_of_stays hidentity hcopy]
          split
          · exact .stub identity hidentity hcopy
          · refine .left fun other hother => ?_
            rw [← Option.some_inj.mp (hidentity.symm.trans hother)]
            exact hcopy

/-- Where the copy of every entity is the entity itself, the value is collapsed. -/
theorem externalize_eq_collapse (h : ∀ inner ∈ value.parts, sizeOf inner < sizeOf value → ∀ identity,
    inner.identity? = some identity → copies.get? identity = some inner) :
    value.externalize copies = value.collapse := by
  induction value using induct with
  | scalar value hscalar => rw [externalize_scalar hscalar, collapse_scalar hscalar]
  | array items ih =>
      rw [externalize, collapse, externalizeItems_eq, collapseItems_eq]
      refine congrArg Json.array (List.map_congr_left fun value hvalue => ?_)
      have hinside := parts_of_mem_items hvalue (self_mem_parts value)
      have hlt := sizeOf_item_lt hvalue
      rw [collapseItem]
      cases hidentity : value.identity? with
      | none =>
          rw [externalizeAt_of_none hidentity]
          exact ih value hvalue fun inner hinner hless => h inner (mem_parts_trans hinside hinner) (hless.trans hlt)
      | some identity =>
          rw [externalizeAt_of_copy hidentity (h value hinside hlt identity hidentity)]
          rfl
  | object members ih =>
      rw [externalize, collapse, externalizeMembers_eq, collapseMembers_eq]
      refine congrArg Json.object (List.map_congr_left fun member hmember => Prod.ext rfl ?_)
      have hinside := parts_of_mem_members hmember (self_mem_parts member.2)
      have hlt := sizeOf_member_lt hmember
      dsimp only
      rw [collapseMember]
      cases hidentity : member.2.identity? with
      | none =>
          rw [externalizeAt_of_none hidentity]
          exact ih member hmember fun inner hinner hless => h inner (mem_parts_trans hinside hinner) (hless.trans hlt)
      | some identity =>
          rw [externalizeAt_of_copy hidentity (h member.2 hinside hlt identity hidentity)]
          simp only [Option.some_inj]

/-! ### Parts -/

/-- Where a part of a value comes from when the entities in the value are replaced. -/
inductive Source (copies : Members) (value part : Json) : Prop
  | left (original : Json) : original ∈ value.parts → Stays copies original → part = original.externalize copies →
      Source copies value part
  | copied (identity : String) (copy : Json) : copies.get? identity = some copy → part ∈ copy.parts →
      Source copies value part
  | bare (identity : String) : part = .string identity → Source copies value part
  | stub (original : Json) (identity : String) : original ∈ value.parts → original.identity? = some identity →
      copies.get? identity = none → part = Json.stub identity → Source copies value part

theorem Source.inside {whole : Json} (h : Source copies value part) (hvalue : value ∈ whole.parts) :
    Source copies whole part := by
  cases h with
  | left original hmem hstays hpart => exact .left original (mem_parts_trans hvalue hmem) hstays hpart
  | copied identity copy hget hpart => exact .copied identity copy hget hpart
  | bare identity hpart => exact .bare identity hpart
  | stub original identity hmem hidentity hget hpart =>
      exact .stub original identity (mem_parts_trans hvalue hmem) hidentity hget hpart

theorem source_externalizeAt {whole : Json}
    (hleft : Stays copies value → part ∈ (value.externalize copies).parts → Source copies value part)
    (hvalue : value ∈ whole.parts) (name : Option String) (hpart : part ∈ (externalizeAt copies name value).parts) :
    Source copies whole part := by
  have hplacement := placement_externalizeAt copies name value
  generalize externalizeAt copies name value = placed at hplacement hpart
  cases hplacement with
  | left hstays => exact (hleft hstays hpart).inside hvalue
  | bare identity _ _ _ _ => exact .bare identity (List.mem_singleton.mp hpart)
  | copied identity copy _ hcopy => exact .copied identity _ hcopy hpart
  | stub identity hidentity hcopy =>
      rcases List.mem_cons.mp hpart with rfl | hinside
      · exact .stub value identity hvalue hidentity hcopy rfl
      · exact .bare identity (List.mem_singleton.mp hinside)

/-- Parts of what is left of a value are left of its parts, come from copies, or stand for entities. -/
theorem source_of_mem_parts (hstays : Stays copies value) (h : part ∈ (value.externalize copies).parts) :
    Source copies value part := by
  induction value using induct generalizing part with
  | scalar value hscalar =>
      rw [externalize_scalar hscalar, parts_scalar hscalar] at h
      exact .left value (self_mem_parts value) hstays
        ((List.mem_singleton.mp h).trans (externalize_scalar hscalar).symm)
  | array items ih =>
      rw [externalize] at h
      rcases List.mem_cons.mp h with rfl | hinside
      · exact .left (.array items) (self_mem_parts _) hstays rfl
      · obtain ⟨placed, hplaced, hpart⟩ := mem_partsOfItems.mp hinside
        rw [externalizeItems_eq] at hplaced
        obtain ⟨value, hvalue, rfl⟩ := List.mem_map.mp hplaced
        exact source_externalizeAt (ih value hvalue) (parts_of_mem_items hvalue (self_mem_parts value)) none
          hpart
  | object members ih =>
      rw [externalize] at h
      rcases List.mem_cons.mp h with rfl | hinside
      · exact .left (.object members) (self_mem_parts _) hstays rfl
      · obtain ⟨placed, hplaced, hpart⟩ := mem_partsOfMembers.mp hinside
        rw [externalizeMembers_eq] at hplaced
        obtain ⟨member, hmember, rfl⟩ := List.mem_map.mp hplaced
        exact source_externalizeAt (ih member hmember)
          (parts_of_mem_members hmember (self_mem_parts member.2)) (some member.1) hpart

end Dossier.Json
