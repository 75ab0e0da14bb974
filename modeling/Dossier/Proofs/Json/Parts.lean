import Dossier.Proofs.Json.Members

/-!
Values up to the sign of zero, and the values inside a value. Two values are the same when they are equal
once every zero is made positive.
-/

namespace Dossier

namespace Number

/-- The number with zero made positive. -/
def normal : Number → Number
  | .int value => .int value
  | .real value => .real (if value.isZero then .zero false else value)

theorem same_iff {a b : Number} : a.same b = true ↔ a.normal = b.normal := by
  cases a with
  | int x => cases b <;> simp [same, normal]
  | real x =>
      cases b with
      | int y => simp [same, normal]
      | real y =>
          have hzero : (Binary64.zero false).isZero = true := rfl
          by_cases hx : x.isZero = true <;> by_cases hy : y.isZero = true <;>
            simp only [same, Binary64.same, normal, hx, hy, if_true, if_false, Bool.true_and, Bool.false_and,
              Bool.true_or, Bool.false_or, beq_iff_eq, Number.real.injEq, Bool.false_eq_true]
          · constructor
            · rintro rfl
              exact absurd hx hy
            · rintro rfl
              exact absurd hzero hy
          · constructor
            · rintro rfl
              exact absurd hy hx
            · rintro rfl
              exact absurd hzero hx

end Number

namespace Json

/-- Induction over values by their elements and members. -/
theorem induct {motive : Json → Prop} (scalar : ∀ value : Json, value.isContainer = false → motive value)
    (array : ∀ items, (∀ value ∈ items, motive value) → motive (.array items))
    (object : ∀ members, (∀ member ∈ members, motive member.2) → motive (.object members)) (value : Json) :
    motive value :=
  match value with
  | .array items => array items fun v _ => induct scalar array object v
  | .object members => object members fun m _ => induct scalar array object m.2
  | .null => scalar .null rfl
  | .bool b => scalar (.bool b) rfl
  | .number n => scalar (.number n) rfl
  | .string s => scalar (.string s) rfl
termination_by sizeOf value
decreasing_by
  · have := List.sizeOf_lt_of_mem ‹v ∈ items›
    simp only [Json.array.sizeOf_spec]
    omega
  · have hmem := List.sizeOf_lt_of_mem ‹m ∈ members›
    cases m
    simp only [Json.object.sizeOf_spec, Prod.mk.sizeOf_spec] at *
    omega

mutual

/-- The value with every zero made positive. -/
def normal : Json → Json
  | .number n => .number n.normal
  | .array items => .array (normalItems items)
  | .object members => .object (normalMembers members)
  | .null => .null
  | .bool b => .bool b
  | .string s => .string s

def normalItems : List Json → List Json
  | [] => []
  | value :: rest => normal value :: normalItems rest

def normalMembers : Members → Members
  | [] => []
  | (name, value) :: rest => (name, normal value) :: normalMembers rest

end

theorem normalItems_eq (items : List Json) : normalItems items = items.map normal := by
  induction items with
  | nil => rfl
  | cons value rest ih => rw [normalItems, ih, List.map_cons]

theorem normalMembers_eq (members : Members) :
    normalMembers members = members.map fun member => (member.1, member.2.normal) := by
  induction members with
  | nil => rfl
  | cons member rest ih => rw [normalMembers, ih, List.map_cons]

theorem names_normalMembers (members : Members) : (normalMembers members).names = members.names := by
  rw [normalMembers_eq]
  simp [Members.names]

theorem get?_normalMembers (members : Members) (name : String) :
    (normalMembers members).get? name = (members.get? name).map normal := by
  induction members with
  | nil => rfl
  | cons member rest ih =>
      obtain ⟨key, value⟩ := member
      by_cases hkey : key = name <;> simp [normalMembers, Members.get?, hkey, ih]

theorem sorted_normalMembers {members : Members} (h : members.Sorted) :
    Members.Sorted (normalMembers members) := by
  rw [Members.Sorted, names_normalMembers]
  exact h

theorem isContainer_normal (value : Json) : value.normal.isContainer = value.isContainer := by
  cases value <;> rfl

mutual

theorem same_iff : ∀ {a b : Json}, a.same b = true ↔ a.normal = b.normal
  | .null, b => by cases b <;> simp [same, normal]
  | .bool x, b => by cases b <;> simp [same, normal]
  | .number x, b => by cases b <;> simp [same, normal, Number.same_iff]
  | .string x, b => by cases b <;> simp [same, normal]
  | .array x, b => by cases b <;> simp [same, normal, sameItems_iff]
  | .object x, b => by cases b <;> simp [same, normal, sameMembers_iff]

theorem sameItems_iff : ∀ {a b : List Json}, sameItems a b = true ↔ normalItems a = normalItems b
  | [], [] => by simp [sameItems]
  | [], _ :: _ => by simp [sameItems, normalItems]
  | _ :: _, [] => by simp [sameItems, normalItems]
  | x :: xs, y :: ys => by simp [sameItems, normalItems, same_iff (a := x), sameItems_iff (a := xs)]

theorem sameMembers_iff : ∀ {a b : Members}, sameMembers a b = true ↔ normalMembers a = normalMembers b
  | [], [] => by simp [sameMembers]
  | [], _ :: _ => by simp [sameMembers, normalMembers]
  | _ :: _, [] => by simp [sameMembers, normalMembers]
  | (k, x) :: xs, (l, y) :: ys => by
      simp [sameMembers, normalMembers, same_iff (a := x), sameMembers_iff (a := xs)]

end

theorem normalMembers_insert (name : String) (value : Json) (members : Members) :
    normalMembers (Members.insert name value members) =
      Members.insert name value.normal (normalMembers members) := by
  induction members with
  | nil => rfl
  | cons member rest ih =>
      obtain ⟨key, old⟩ := member
      by_cases hkey : key = name
      · simp [Members.insert, normalMembers, hkey]
      · by_cases hlt : name < key <;> simp [Members.insert, normalMembers, hkey, hlt, ih]

theorem normal_ofPairs (pairs : List (String × Json)) :
    (ofPairs pairs).normal = ofPairs (pairs.map fun pair => (pair.1, pair.2.normal)) := by
  have hfold : ∀ (pairs : List (String × Json)) (start : Members),
      normalMembers (pairs.foldl (fun members pair => Members.insert pair.1 pair.2 members) start) =
        (pairs.map fun pair => (pair.1, pair.2.normal)).foldl
          (fun members pair => Members.insert pair.1 pair.2 members) (normalMembers start) := by
    intro pairs
    induction pairs with
    | nil => exact fun _ => rfl
    | cons pair rest ih =>
        intro start
        rw [List.foldl_cons, ih, normalMembers_insert, List.map_cons, List.foldl_cons]
  exact congrArg Json.object (hfold pairs [])

/-! ### The values inside a value -/

mutual

/-- The value itself and all values inside it. -/
def parts : Json → List Json
  | .array items => .array items :: partsOfItems items
  | .object members => .object members :: partsOfMembers members
  | .null => [.null]
  | .bool b => [.bool b]
  | .number n => [.number n]
  | .string s => [.string s]

def partsOfItems : List Json → List Json
  | [] => []
  | value :: rest => parts value ++ partsOfItems rest

def partsOfMembers : Members → List Json
  | [] => []
  | (_, value) :: rest => parts value ++ partsOfMembers rest

end

theorem mem_partsOfItems {items : List Json} {part : Json} :
    part ∈ partsOfItems items ↔ ∃ value ∈ items, part ∈ value.parts := by
  induction items with
  | nil => simp [partsOfItems]
  | cons value rest ih => simp [partsOfItems, ih]

theorem mem_partsOfMembers {members : Members} {part : Json} :
    part ∈ partsOfMembers members ↔ ∃ member ∈ members, part ∈ member.2.parts := by
  induction members with
  | nil => simp [partsOfMembers]
  | cons member rest ih => simp [partsOfMembers, ih]

theorem self_mem_parts (value : Json) : value ∈ value.parts := by
  cases value <;> simp [parts]

theorem parts_scalar {value : Json} (h : value.isContainer = false) : value.parts = [value] := by
  cases value <;> first | rfl | cases h

theorem parts_of_mem_items {items : List Json} {value part : Json} (h : value ∈ items)
    (hpart : part ∈ value.parts) : part ∈ (Json.array items).parts :=
  List.mem_cons_of_mem _ (mem_partsOfItems.mpr ⟨value, h, hpart⟩)

theorem parts_of_mem_members {members : Members} {member : String × Json} {part : Json} (h : member ∈ members)
    (hpart : part ∈ member.2.parts) : part ∈ (Json.object members).parts :=
  List.mem_cons_of_mem _ (mem_partsOfMembers.mpr ⟨member, h, hpart⟩)

theorem mem_parts_of_get? {value part : Json} {name : String} (h : value.get? name = some part) :
    part ∈ value.parts := by
  cases value with
  | object members => exact parts_of_mem_members (Members.mem_of_get? h) (self_mem_parts part)
  | _ => cases h

theorem mem_parts_trans {value middle part : Json} (h : middle ∈ value.parts) (hpart : part ∈ middle.parts) :
    part ∈ value.parts := by
  induction value using induct with
  | scalar value hscalar =>
      rw [parts_scalar hscalar] at h
      exact List.mem_singleton.mp h ▸ hpart
  | array items ih =>
      rcases List.mem_cons.mp h with rfl | hinside
      · exact hpart
      · obtain ⟨value, hvalue, hmiddle⟩ := mem_partsOfItems.mp hinside
        exact parts_of_mem_items hvalue (ih value hvalue hmiddle)
  | object members ih =>
      rcases List.mem_cons.mp h with rfl | hinside
      · exact hpart
      · obtain ⟨member, hmember, hmiddle⟩ := mem_partsOfMembers.mp hinside
        exact parts_of_mem_members hmember (ih member hmember hmiddle)

theorem sizeOf_item_lt {items : List Json} {value : Json} (h : value ∈ items) :
    sizeOf value < sizeOf (Json.array items) := by
  have hlt := List.sizeOf_lt_of_mem h
  simp only [Json.array.sizeOf_spec]
  omega

theorem sizeOf_member_lt {members : Members} {member : String × Json} (h : member ∈ members) :
    sizeOf member.2 < sizeOf (Json.object members) := by
  have hlt := List.sizeOf_lt_of_mem h
  obtain ⟨name, value⟩ := member
  simp only [Json.object.sizeOf_spec, Prod.mk.sizeOf_spec] at *
  omega

theorem sizeOf_part_le {value part : Json} (h : part ∈ value.parts) : sizeOf part ≤ sizeOf value := by
  induction value using induct with
  | scalar value hscalar =>
      rw [parts_scalar hscalar] at h
      exact List.mem_singleton.mp h ▸ Nat.le_refl _
  | array items ih =>
      rcases List.mem_cons.mp h with rfl | hinside
      · exact Nat.le_refl _
      · obtain ⟨value, hvalue, hpart⟩ := mem_partsOfItems.mp hinside
        exact ((ih value hvalue hpart).trans_lt (sizeOf_item_lt hvalue)).le
  | object members ih =>
      rcases List.mem_cons.mp h with rfl | hinside
      · exact Nat.le_refl _
      · obtain ⟨member, hmember, hpart⟩ := mem_partsOfMembers.mp hinside
        exact ((ih member hmember hpart).trans_lt (sizeOf_member_lt hmember)).le

end Json

end Dossier
