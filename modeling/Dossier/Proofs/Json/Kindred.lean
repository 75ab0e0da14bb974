import Dossier.Graph.Basic
import Dossier.Proofs.Json.Entities

/-!
Copies of one kind. Copies of an entity may differ in what they tell, but where two of them hold something in fields of
one name, it is an array in both, an object without an identity in both, or neither in both; so it is for the objects
without identities below them. And an entity may hold others, but not itself, not even through others.
-/

namespace Dossier

inductive Form where
  | array
  | object
  | other
  deriving DecidableEq, Repr

namespace Json

/-- Whether the value is an array, an object without an identity, or anything else. -/
def form : Json → Form
  | .array _ => .array
  | .object members => if (Json.object members).identity?.isNone then .object else .other
  | _ => .other

mutual

/-- The values, unless one of them is nothing, have one form, and so do those in fields of one name below them. -/
def akin : Json → Json → Bool
  | .object members, other =>
    !(Slot.value other).truthy || (Json.object members).form == other.form &&
      ((Json.object members).identity?.isSome || akinMembers members other)
  | value, other => !(Slot.value value).truthy || !(Slot.value other).truthy || value.form == other.form

/-- The values in fields of one name are akin. -/
def akinMembers : Members → Json → Bool
  | [], _ => true
  | (name, value) :: rest, other => (other.get? name).all (akin value) && akinMembers rest other

end

/-- Objects inside that have one identity are of one kind. -/
def Kindred (value : Json) : Prop :=
  ∀ x ∈ value.parts, ∀ y ∈ value.parts, x.identity?.isSome → x.identity? = y.identity? → akinMembers x.members y = true

instance (value : Json) : Decidable value.Kindred := inferInstanceAs (Decidable (∀ x ∈ value.parts, _))

/-- An object inside with the one identity holds, somewhere inside of it, an object with the other. -/
def Contains (value : Json) (outer inner : String) : Prop :=
  ∃ whole ∈ value.parts, whole.identity? = some outer ∧
    ∃ member ∈ whole.members, ∃ part ∈ member.2.parts, part.identity? = some inner

/-- No entity inside holds itself, through whatever others. -/
def Stratified (value : Json) : Prop := ∀ identity, ¬Relation.TransGen value.Contains identity identity

theorem akinMembers_iff {members : Members} {other : Json} : akinMembers members other = true ↔
    ∀ member ∈ members, ∀ value, other.get? member.1 = some value → member.2.akin value = true := by
  induction members with
  | nil => simp [akinMembers]
  | cons member rest ih =>
      obtain ⟨name, value⟩ := member
      rw [akinMembers, Bool.and_eq_true, Option.all_eq_true, ih, List.forall_mem_cons]

theorem form_eq_of_akin {v w : Json} (h : v.akin w = true) (hv : (Slot.value v).truthy = true)
    (hw : (Slot.value w).truthy = true) : v.form = w.form := by
  cases v with
  | object members =>
      rw [akin, hw, Bool.not_true, Bool.false_or, Bool.and_eq_true] at h
      exact eq_of_beq h.1
  | _ =>
      rw [akin, hv, hw, Bool.not_true, Bool.false_or, Bool.false_or] at h
      · exact eq_of_beq h
      · exact nofun

theorem akinMembers_of_akin {members : Members} {w : Json} (h : (Json.object members).akin w = true)
    (hw : (Slot.value w).truthy = true) (hinline : (Json.object members).identity? = none) :
    akinMembers members w = true := by
  rw [akin, hw, hinline, Bool.not_true, Bool.false_or, Bool.and_eq_true] at h
  exact h.2

theorem form_eq_array_iff {v : Json} : v.form = .array ↔ ∃ items, v = .array items := by
  refine ⟨fun h => ?_, fun ⟨items, hitems⟩ => hitems ▸ rfl⟩
  cases v with
  | array items => exact ⟨items, rfl⟩
  | object members =>
      rw [form] at h
      split at h <;> cases h
  | _ => cases h

theorem form_eq_object_iff {v : Json} : v.form = .object ↔ ∃ members, v = .object members ∧ v.identity? = none := by
  cases v with
  | object members =>
      cases hidentity : (Json.object members).identity? <;> simp [form, hidentity]
  | _ => exact ⟨nofun, nofun⟩

theorem form_normal (value : Json) : value.normal.form = value.form := by
  cases value with
  | object members =>
      have hidentity : (Json.object (normalMembers members)).identity? = (Json.object members).identity? :=
        (Json.object members).identity?_normal
      rw [normal, form, form, hidentity]
  | _ => rfl

end Json

end Dossier
