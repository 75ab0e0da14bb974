import Dossier.Proofs.Graph.Lasting
import Dossier.Proofs.Graph.Level

/-!
Documents whose copies are of one kind, as graphs. What stands at one path of an entity is of one form, since its copies
are akin level by level, and entities that lead to each other hold each other in the document. Main statement:
**`layered_ofJson`**.
-/

namespace Dossier

namespace Json

theorem akinMembers_normal {members : Members}
    (h : ∀ member ∈ members, ∀ other : Json, member.2.normal.akin other.normal = member.2.akin other) (other : Json) :
    akinMembers (normalMembers members) other.normal = akinMembers members other := by
  induction members with
  | nil => rfl
  | cons member rest ih =>
      obtain ⟨name, value⟩ := member
      have hvalue := h (name, value) List.mem_cons_self
      rw [normalMembers, akinMembers, akinMembers, get?_normal,
        ih fun later hlater => h later (List.mem_cons_of_mem _ hlater)]
      cases other.get? name with
      | none => rfl
      | some found => rw [Option.map_some, Option.all_some, Option.all_some, hvalue]

/-- Signs of zeros are of no account. -/
theorem akin_normal (value other : Json) : value.normal.akin other.normal = value.akin other := by
  induction value using induct generalizing other with
  | scalar value h =>
      have htruthy := Graph.truthy_normal value
      have hform := value.form_normal
      cases value with
      | object _ => cases h
      | _ =>
          rw [akin, akin, ← htruthy, ← Graph.truthy_normal other, hform, other.form_normal]
          all_goals
            intro members hmembers
            cases hmembers
  | array items ih =>
      rw [normal, akin, akin, ← Graph.truthy_normal other, other.form_normal]
      · rfl
      all_goals
        intro members hmembers
        cases hmembers
  | object members ih =>
      have hform : (Json.object (normalMembers members)).form = (Json.object members).form :=
        (Json.object members).form_normal
      have hidentity : (Json.object (normalMembers members)).identity? = (Json.object members).identity? :=
        (Json.object members).identity?_normal
      rw [normal, akin, akin, ← Graph.truthy_normal other, hform, other.form_normal, hidentity, akinMembers_normal ih]

theorem Kindred.normal {value : Json} (h : value.Kindred) : value.normal.Kindred := by
  intro x hx y hy hidentity hsame
  rw [parts_normal, List.mem_map] at hx hy
  obtain ⟨x, hx, rfl⟩ := hx
  obtain ⟨y, hy, rfl⟩ := hy
  rw [identity?_normal] at hidentity hsame
  rw [identity?_normal] at hsame
  rw [members_normal, akinMembers_normal fun _ _ => akin_normal _]
  exact h x hx y hy hidentity hsame

theorem contains_of_normal {value : Json} {outer inner : String} (h : value.normal.Contains outer inner) :
    value.Contains outer inner := by
  obtain ⟨whole, hwhole, houter, member, hmember, part, hpart, hinner⟩ := h
  rw [parts_normal, List.mem_map] at hwhole
  obtain ⟨whole, hwhole, rfl⟩ := hwhole
  rw [members_normal, normalMembers_eq, List.mem_map] at hmember
  obtain ⟨member, hmember, rfl⟩ := hmember
  rw [parts_normal, List.mem_map] at hpart
  obtain ⟨part, hpart, rfl⟩ := hpart
  rw [identity?_normal] at houter hinner
  exact ⟨whole, hwhole, houter, member, hmember, part, hpart, hinner⟩

/-- An entity that ranks above all that it holds does not hold itself. -/
theorem Stratified.of_rank {value : Json} (rank : String → Nat) (h : ∀ whole ∈ value.parts, ∀ member ∈ whole.members,
    ∀ part ∈ member.2.parts, ∀ outer ∈ whole.identity?, ∀ inner ∈ part.identity?, rank inner < rank outer) :
    value.Stratified := by
  have hless : ∀ {outer inner}, Relation.TransGen value.Contains outer inner → rank inner < rank outer := by
    have hstep : ∀ {outer inner}, value.Contains outer inner → rank inner < rank outer :=
      fun ⟨whole, hwhole, houter, member, hmember, part, hpart, hinner⟩ =>
        h whole hwhole member hmember part hpart _ houter _ hinner
    intro outer inner hpath
    induction hpath with
    | single hlast => exact hstep hlast
    | tail _ hlast ih => exact (hstep hlast).trans ih
  exact fun identity hcycle => lt_irrefl _ (hless hcycle)

end Json

namespace Graph

variable {document : Json} {identity : String} {copy id : Nat} {path : List String}

/-- A document without containers has no nodes. -/
theorem ofJson_of_value {value : Json} (hroot : (ofJson document).root = .value value) :
    (ofJson document).nodes.length = 0 ∧ value.isContainer = false := by
  cases document with
  | object _ | array _ => cases hroot
  | _ =>
      cases hroot
      exact ⟨rfl, rfl⟩

/-- Every node of the graph of a document shows a part of it. -/
theorem exists_part_ofJson (hordered : document.Ordered) (hid : id < (ofJson document).nodes.length) :
    ∃ v ∈ document.normal.parts, (ofJson document).Shows (.node id) v := by
  have hshows := (ofJson_spec hordered).2.2
  cases hroot : (ofJson document).root with
  | value value => exact absurd hid (by rw [(ofJson_of_value hroot).1]; exact Nat.not_lt_zero id)
  | node root =>
      rw [hroot] at hshows
      obtain ⟨v, hv, hpart⟩ := hshows.of_reaches (reaches_ofJson hordered hroot hid)
      exact ⟨v, hpart, hv⟩

/-- What has fields shows an object of the document. -/
theorem exists_members_ofJson (hordered : document.Ordered) (hobject : (ofJson document).isObject id = true) :
    ∃ members : Members, .object members ∈ document.normal.parts ∧
      (ofJson document).Shows (.node id) (.object members) := by
  obtain ⟨v, hpart, hv⟩ := exists_part_ofJson hordered (List.getElem?_eq_some_iff.mp (isObject_iff.mp hobject)).1
  obtain ⟨members, rfl⟩ := exists_members_of_shows hv hobject
  exact ⟨members, hpart, hv⟩

/-- An entity shows an object with its identity. -/
theorem exists_entity_ofJson (hordered : document.Ordered) (hid : (ofJson document).identity? id = some identity) :
    ∃ members : Members, .object members ∈ document.normal.parts ∧
      (ofJson document).Shows (.node id) (.object members) ∧ (Json.object members).identity? = some identity := by
  have hobject : (ofJson document).isObject id = true := Fence.isObject_of_identity? (by rw [hid]; rfl)
  obtain ⟨members, hpart, hv⟩ := exists_members_ofJson hordered hobject
  exact ⟨members, hpart, hv, hv.identity.trans hid⟩

/-- What an object holds in a field is shown as a member of it. -/
theorem exists_member_ofJson (hordered : document.Ordered) {name : String} {slot : Slot}
    (hfield : (name, slot) ∈ (ofJson document).fields id) : ∃ (members : Members) (value : Json),
      (ofJson document).Shows (.node id) (.object members) ∧ members.get? name = some value ∧
        (ofJson document).Shows slot value := by
  obtain ⟨members, -, hv⟩ := exists_members_ofJson hordered (isObject_of_mem_fields hfield)
  have hslot := hv.field?_of_mem hfield
  obtain ⟨value, hget⟩ := exists_of_isSome_eq (hv.field name).1 hslot
  exact ⟨members, value, hv, hget, (hv.field name).2 _ value hslot hget⟩

/-- An entity that leads to another holds it. -/
theorem contains_of_encloses (hordered : document.Ordered) {outer inner : String}
    (h : (ofJson document).Encloses outer inner) : document.Contains outer inner := by
  obtain ⟨whole, part, houter, hinner, hpath⟩ := h
  obtain ⟨members, hmem, hshows, hidentity⟩ := exists_entity_ofJson hordered houter
  obtain ⟨child, hpoints, hreach⟩ := Relation.TransGen.head'_iff.mp hpath
  refine Json.contains_of_normal ⟨.object members, hmem, hidentity, ?_⟩
  rcases points_iff.mp hpoints with ⟨name, hfield⟩ | hitem
  · have hslot := hshows.field?_of_mem hfield
    obtain ⟨value, hget⟩ := exists_of_isSome_eq (hshows.field name).1 hslot
    obtain ⟨w, hw, hpart⟩ := ((hshows.field name).2 _ value hslot hget).of_reaches hreach
    exact ⟨(name, value), Members.mem_of_get? hget, w, hpart, hw.identity.trans hinner⟩
  · rw [items, isObject_iff.mp (isObject_of_shows hshows)] at hitem
    cases hitem

/-- What is inside of copies of a kind, at one path, is akin. -/
theorem akin_of_inner (hordered : document.Ordered) (hkindred : document.Kindred)
    (h : Inner (ofJson document) identity copy path id) {copy' id' : Nat}
    (h' : Inner (ofJson document) identity copy' path id') {ms ns : Members}
    (hms : (ofJson document).Shows (.node id) (.object ms)) (hns : (ofJson document).Shows (.node id') (.object ns)) :
    Json.akinMembers ms (.object ns) = true := by
  induction h generalizing copy' id' ms ns with
  | top hidentity =>
      obtain rfl := h'.eq_copy
      have hidentity' := h'.copy_identity
      obtain ⟨ms', hmem, hms', -⟩ := exists_entity_ofJson hordered hidentity
      obtain ⟨ns', hmem', hns', -⟩ := exists_entity_ofJson hordered hidentity'
      cases hms.unique hms'
      cases hns.unique hns'
      refine hkindred.normal _ hmem _ hmem' ?_ ?_
      · rw [hms.identity, hidentity]
        rfl
      · rw [hms.identity, hns.identity, hidentity, hidentity']
  | @field path container child name hinner hfield hnone ih =>
      obtain ⟨-, container', hinner', hfield'⟩ := h'.exists_field
      obtain ⟨us, v, hus, hget, hv⟩ := exists_member_ofJson hordered (mem_of_field? hfield)
      obtain ⟨vs, w, hvs, hget', hw⟩ := exists_member_ofJson hordered (mem_of_field? hfield')
      cases hms.unique hv
      cases hns.unique hw
      have hakin := Json.akinMembers_iff.mp (ih hinner' hus hvs) _ (Members.mem_of_get? hget) _ hget'
      exact Json.akinMembers_of_akin hakin rfl (hms.identity.trans hnone)

theorem alike_ofJson (hordered : document.Ordered) (hkindred : document.Kindred) {name : String} {left right : Slot}
    (hleft : Offered (ofJson document) identity path name left)
    (hright : Offered (ofJson document) identity path name right) (hl : left.truthy = true) (hr : right.truthy = true) :
    (ofJson document).formOf left = (ofJson document).formOf right := by
  obtain ⟨copy, id, hinner, hfield⟩ := hleft
  obtain ⟨copy', id', hinner', hfield'⟩ := hright
  obtain ⟨ms, v, hms, hget, hv⟩ := exists_member_ofJson hordered hfield
  obtain ⟨ns, w, hns, hget', hw⟩ := exists_member_ofJson hordered hfield'
  have hmembers := akin_of_inner hordered hkindred hinner hinner' hms hns
  have hakin := Json.akinMembers_iff.mp hmembers _ (Members.mem_of_get? hget) _ hget'
  rw [← hv.form, ← hw.form]
  exact Json.form_eq_of_akin hakin (hv.truthy.symm.trans hl) (hw.truthy.symm.trans hr)

/-- **Documents of one kind make layered graphs.** -/
theorem layered_ofJson (hordered : document.Ordered) (hkindred : document.Kindred) (hstratified : document.Stratified) :
    Layered (ofJson document) where
  source := source_ofJson hordered
  acyclic := acyclic_ofJson hordered
  stratified identity hcycle := hstratified identity
    (Relation.TransGen.mono (fun _ _ => contains_of_encloses hordered) identity identity hcycle)
  alike hleft hright hl hr := alike_ofJson hordered hkindred hleft hright hl hr

end Graph

end Dossier
