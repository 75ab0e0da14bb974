import Dossier.Proofs.Json.Parts
import Dossier.Record.Kind

/-!
Entities inside values, which are objects with an identity, and the conditions under which each of them can
be told by its identity alone.
-/

namespace Dossier.Json

/-- The members of an object; none for every other value. -/
def members : Json → Members
  | .object members => members
  | _ => []

/-- The identity of an object: its `id`, when that is a text and not empty. -/
def identity? (value : Json) : Option String :=
  match value.get? identityName with
  | some (.string text) => if text.isEmpty then none else some text
  | _ => none

theorem isContainer_of_identity? {value : Json} {identity : String} (h : value.identity? = some identity) :
    value.isContainer = true := by
  cases value <;> first | rfl | cases h

theorem identity?_eq_some_iff {value : Json} {identity : String} : value.identity? = some identity ↔
    value.get? identityName = some (.string identity) ∧ identity.isEmpty = false := by
  unfold identity?
  split
  · rename_i text hget
    rw [hget, Option.some_inj, Json.string.injEq]
    split
    · rename_i hempty
      exact ⟨nofun, fun ⟨htext, hidentity⟩ => by rw [htext, hidentity] at hempty; cases hempty⟩
    · rename_i hnonempty
      rw [Option.some_inj, Bool.not_eq_true] at *
      exact ⟨fun htext => ⟨htext, htext ▸ hnonempty⟩, And.left⟩
  · rename_i hother
    exact ⟨nofun, fun ⟨hget, _⟩ => absurd hget (hother identity)⟩

/-- All objects inside have their members in order. -/
def Ordered (value : Json) : Prop := ∀ part ∈ value.parts, part.members.Sorted

/-- No member inside holds the text of its own name. -/
def Echoless (value : Json) : Prop :=
  ∀ part ∈ value.parts, ∀ member ∈ part.members, member.2.string? ≠ some member.1

/-- Objects inside that have one identity are the same. -/
def Agrees (value : Json) : Prop :=
  ∀ x ∈ value.parts, ∀ y ∈ value.parts, x.identity?.isSome → x.identity? = y.identity? → x.same y = true

instance (members : Members) : Decidable members.Sorted := inferInstanceAs (Decidable (List.Pairwise _ _))

instance (value : Json) : Decidable value.Ordered := inferInstanceAs (Decidable (∀ part ∈ value.parts, _))

instance (value : Json) : Decidable value.Echoless := inferInstanceAs (Decidable (∀ part ∈ value.parts, _))

instance (value : Json) : Decidable value.Agrees := inferInstanceAs (Decidable (∀ x ∈ value.parts, _))

theorem Ordered.part {value part : Json} (h : value.Ordered) (hpart : part ∈ value.parts) : part.Ordered :=
  fun inner hinner => h inner (mem_parts_trans hpart hinner)

theorem Echoless.part {value part : Json} (h : value.Echoless) (hpart : part ∈ value.parts) : part.Echoless :=
  fun inner hinner => h inner (mem_parts_trans hpart hinner)

/-- The identity of an object with the name of identities for its identity stands in a member of that name. -/
theorem Echoless.identity?_ne {value part : Json} (h : value.Echoless) (hpart : part ∈ value.parts) :
    part.identity? ≠ some identityName := by
  intro hidentity
  obtain ⟨hget, -⟩ := identity?_eq_some_iff.mp hidentity
  cases part with
  | object members => exact h _ hpart _ (Members.mem_of_get? hget) rfl
  | _ => cases hget

theorem ordered_object {members : Members} :
    (Json.object members).Ordered ↔ members.Sorted ∧ ∀ member ∈ members, member.2.Ordered := by
  constructor
  · intro h
    exact ⟨h _ (self_mem_parts _), fun member hmember => h.part (parts_of_mem_members hmember (self_mem_parts _))⟩
  · rintro ⟨hsorted, hmembers⟩ part hpart
    rcases List.mem_cons.mp hpart with rfl | hinside
    · exact hsorted
    · obtain ⟨member, hmember, hpart⟩ := mem_partsOfMembers.mp hinside
      exact hmembers member hmember part hpart

theorem ordered_array {items : List Json} : (Json.array items).Ordered ↔ ∀ value ∈ items, value.Ordered := by
  constructor
  · intro h value hvalue
    exact h.part (parts_of_mem_items hvalue (self_mem_parts _))
  · intro h part hpart
    rcases List.mem_cons.mp hpart with rfl | hinside
    · exact List.Pairwise.nil
    · obtain ⟨value, hvalue, hpart⟩ := mem_partsOfItems.mp hinside
      exact h value hvalue part hpart

theorem ordered_scalar {value : Json} (h : value.isContainer = false) : value.Ordered := by
  intro part hpart
  rw [parts_scalar h] at hpart
  rw [List.mem_singleton.mp hpart]
  cases value <;> first | exact List.Pairwise.nil | cases h

theorem echoless_scalar {value : Json} (h : value.isContainer = false) : value.Echoless := by
  intro part hpart member hmember
  rw [parts_scalar h] at hpart
  rw [List.mem_singleton.mp hpart] at hmember
  cases value with
  | array _ | object _ => cases h
  | _ => cases hmember

/-! ### Signs of zero -/

theorem parts_normal (value : Json) : value.normal.parts = value.parts.map normal := by
  have hitems : ∀ items : List Json, (∀ value ∈ items, value.normal.parts = value.parts.map normal) →
      partsOfItems (normalItems items) = (partsOfItems items).map normal := by
    intro items
    induction items with
    | nil => exact fun _ => rfl
    | cons value rest ih =>
        intro h
        rw [normalItems, partsOfItems, partsOfItems, List.map_append, h value List.mem_cons_self,
          ih fun other hother => h other (List.mem_cons_of_mem _ hother)]
  have hmembers : ∀ members : Members, (∀ member ∈ members, member.2.normal.parts = member.2.parts.map normal) →
      partsOfMembers (normalMembers members) = (partsOfMembers members).map normal := by
    intro members
    induction members with
    | nil => exact fun _ => rfl
    | cons member rest ih =>
        intro h
        rw [normalMembers, partsOfMembers, partsOfMembers, List.map_append, h member List.mem_cons_self,
          ih fun other hother => h other (List.mem_cons_of_mem _ hother)]
  induction value using induct with
  | scalar value h => cases value <;> first | rfl | cases h
  | array items ih => rw [normal, parts, parts, hitems items ih, List.map_cons, normal]
  | object members ih => rw [normal, parts, parts, hmembers members ih, List.map_cons, normal]

theorem members_normal (value : Json) : value.normal.members = normalMembers value.members := by
  cases value <;> rfl

theorem get?_normal (value : Json) (name : String) : value.normal.get? name = (value.get? name).map normal := by
  cases value with
  | object members => exact get?_normalMembers members name
  | _ => rfl

theorem identity?_normal (value : Json) : value.normal.identity? = value.identity? := by
  rw [identity?, get?_normal, identity?]
  cases value.get? identityName with
  | none => rfl
  | some found => cases found <;> rfl

theorem ordered_normal {value : Json} : value.normal.Ordered ↔ value.Ordered := by
  rw [Ordered, parts_normal, List.forall_mem_map]
  refine forall₂_congr fun part _ => ?_
  rw [members_normal, Members.Sorted, names_normalMembers]
  rfl

theorem Agrees.eq {value : Json} (h : value.Agrees) {x y : Json} (hx : x ∈ value.normal.parts)
    (hy : y ∈ value.normal.parts) {identity : String} (hxi : x.identity? = some identity)
    (hyi : y.identity? = some identity) : x = y := by
  rw [parts_normal] at hx hy
  obtain ⟨x, hxmem, rfl⟩ := List.mem_map.mp hx
  obtain ⟨y, hymem, rfl⟩ := List.mem_map.mp hy
  rw [identity?_normal] at hxi hyi
  exact same_iff.mp (h x hxmem y hymem (by rw [hxi]; rfl) (hxi.trans hyi.symm))

end Dossier.Json
