import Dossier.Proofs.Graph.References
import Dossier.Proofs.Json.Outermost

/-!
Entities in compact forms. Whatever is not inside another entity shows the one copy that is kept of its identity.
Copies may hold others: they were taken before any entity gave way to its copy. Main statement: all entities of one
identity are the same exactly if those inside the copies are.
-/

namespace Dossier

variable {merged : Json} {copies : Members}

theorem Json.identity?_withCopies (value : Json) : (value.withCopies copies).identity? = value.identity? := by
  cases value with
  | object members =>
      have hget : Members.get? (withRefs copies members) identityName = Members.get? members identityName := by
        rw [withRefs]
        split
        · rfl
        · rw [Members.get?_insert, if_neg (by decide)]
      have hsame : ((Json.object members).withCopies copies).get? identityName =
        (Json.object members).get? identityName := hget
      rw [identity?, hsame, identity?]
  | _ => rfl

namespace Copied

variable (h : Copied merged copies)

include h

/-- Only the identity of the whole has no copy. -/
theorem own_of_get? {part : Json} (hpart : part ∈ merged.parts) {identity : String}
    (hidentity : part.identity? = some identity) (hnone : copies.get? identity = none) :
    merged.identity? = some identity := by
  by_contra hother
  obtain ⟨copy, hcopy⟩ := h.complete part hpart identity hidentity hother
  cases hnone.symm.trans hcopy

theorem own_ne {identity : String} {copy : Json} (hcopy : copies.get? identity = some copy) :
    merged.identity? ≠ some identity := by
  intro hown
  cases (h.own identity hown).symm.trans hcopy

/-- A copy is met itself. -/
theorem get?_of_outermost_copy {kept identity : String} {copy x : Json} (hcopy : copies.get? kept = some copy)
    (hx : x ∈ copy.outermost merged.identity?) (hidentity : x.identity? = some identity) :
    copies.get? identity = some x := by
  have hcopied := (h.part kept copy hcopy).2
  rw [Json.outermost_of_other hcopied (h.own_ne hcopy), List.mem_singleton] at hx
  subst hx
  cases hcopied.symm.trans hidentity
  exact hcopy

/-- The copies together are no entity. -/
theorem identity?_copies : (Json.object copies).identity? = none := by
  refine Option.eq_none_iff_forall_ne_some.mpr fun identity hidentity => ?_
  obtain ⟨hget, -⟩ := Json.identity?_eq_some_iff.mp hidentity
  cases (h.part identityName _ hget).2

section

variable {identity : String}

/-- What is met first in place of a value is a copy, if what is met first in the externalized value is. -/
theorem get?_of_outermost_at {value : Json} (hvalue : value ∈ merged.parts) {name : Option String} {x : Json}
    (hx : x ∈ (Json.externalizeAt copies name value).outermost merged.identity?)
    (hidentity : x.identity? = some identity)
    (hleft : Json.Stays copies value → x ∈ (value.externalize copies).outermost merged.identity? →
      copies.get? identity = some x) : copies.get? identity = some x := by
  have hplacement := Json.placement_externalizeAt copies name value
  generalize Json.externalizeAt copies name value = placed at hplacement hx
  cases hplacement with
  | left hstays => exact hleft hstays hx
  | bare _ _ _ _ _ => cases hx
  | copied kept copy _ hcopy => exact h.get?_of_outermost_copy hcopy hx hidentity
  | stub kept hkept hnone =>
      -- an object of nothing but the identity of the whole is entered, and there is a text in it
      rcases Json.mem_outermost_object hx with ⟨rfl, other, hsome, hother⟩ | ⟨member, hmember, hinside⟩
      · obtain ⟨hget, -⟩ := Json.identity?_eq_some_iff.mp hsome
        cases hget
        exact absurd (h.own_of_get? hvalue hkept hnone) hother
      · cases List.mem_singleton.mp hmember
        cases hinside

theorem get?_of_outermost_member {members : Members} (hwhole : .object members ∈ merged.parts) {x : Json}
    {member : String × Json} (hmember : member ∈ Json.externalizeMembers copies members)
    (hx : x ∈ member.2.outermost merged.identity?) (hidentity : x.identity? = some identity)
    (hleft : ∀ member ∈ members, member.2 ∈ merged.parts → Json.Stays copies member.2 →
      x ∈ (member.2.externalize copies).outermost merged.identity? → copies.get? identity = some x) :
    copies.get? identity = some x := by
  rw [Json.externalizeMembers_eq] at hmember
  obtain ⟨member, hmem, rfl⟩ := List.mem_map.mp hmember
  have hinside := Json.mem_parts_trans hwhole (Json.parts_of_mem_members hmem (Json.self_mem_parts member.2))
  exact h.get?_of_outermost_at hinside hx hidentity (hleft member hmem hinside)

variable (hplain : identity ≠ identityName)

include hplain

/-- The entities met first in what is left of a value are copies. -/
theorem get?_of_outermost_left {value : Json} (hvalue : value ∈ merged.parts) (hstays : Json.Stays copies value)
    {x : Json} (hx : x ∈ (value.externalize copies).outermost merged.identity?)
    (hidentity : x.identity? = some identity) : copies.get? identity = some x := by
  induction value using Json.induct with
  | scalar value hscalar =>
      rw [Json.externalize_scalar hscalar, Json.outermost_scalar hscalar] at hx
      cases hx
  | array items ih =>
      rw [Json.externalize, Json.externalizeItems_eq, Json.mem_outermost_array] at hx
      obtain ⟨_, hitem, hx⟩ := hx
      obtain ⟨value, hmem, rfl⟩ := List.mem_map.mp hitem
      have hinside := Json.mem_parts_trans hvalue (Json.parts_of_mem_items hmem (Json.self_mem_parts value))
      exact h.get?_of_outermost_at hinside hx hidentity (ih value hmem hinside)
  | object members ih =>
      rw [Json.externalize] at hx
      rcases Json.mem_outermost_object hx with ⟨rfl, other, hsome, hother⟩ | ⟨member, hmember, hx⟩
      · cases hsome.symm.trans hidentity
        have hsame : (Json.object members).identity? = some identity :=
          Or.resolve_right (h.identity?_externalize hidentity) hplain
        exact absurd (h.own_of_get? hvalue hsame (hstays identity hsame)) hother
      · exact h.get?_of_outermost_member hvalue hmember hx hidentity ih

/-- The entities met first in the compact form of an object are copies. -/
theorem get?_of_outermost {members : Members} (hmerged : merged = .object members) {x : Json}
    (hx : x ∈ ((merged.externalize copies).withCopies copies).outermost merged.identity?)
    (hidentity : x.identity? = some identity) : copies.get? identity = some x := by
  have hsame : ((merged.externalize copies).withCopies copies).identity? = (merged.externalize copies).identity? :=
    Json.identity?_withCopies _
  have hshape : (merged.externalize copies).withCopies copies =
      .object (withRefs copies (Json.externalizeMembers copies members)) := by
    rw [hmerged, Json.externalize, Json.withCopies]
  rw [hshape] at hx hsame
  rcases Json.mem_outermost_object hx with ⟨rfl, other, hsome, hother⟩ | ⟨member, hmember, hx⟩
  · cases hsome.symm.trans hidentity
    rw [hsame] at hidentity
    exact absurd ((h.identity?_externalize hidentity).resolve_right hplain) hother
  · rcases mem_withRefs hmember with rfl | hmember
    · rcases Json.mem_outermost_object hx with ⟨rfl, -⟩ | ⟨entry, hentry, hx⟩
      · rw [h.identity?_copies] at hidentity
        cases hidentity
      · exact h.get?_of_outermost_copy (Members.get?_of_mem h.sorted hentry) hx hidentity
    · exact h.get?_of_outermost_member (hmerged ▸ merged.self_mem_parts) hmember hx hidentity
        fun member _ hinside hstays hx => h.get?_of_outermost_left hplain hinside hstays hx hidentity

/-- Entities of other identities than the whole are inside copies. -/
theorem exists_copy_of_part (hother : merged.identity? ≠ some identity) {part : Json}
    (hpart : part ∈ ((merged.externalize copies).withCopies copies).parts)
    (hidentity : part.identity? = some identity) :
    ∃ kept copy, copies.get? kept = some copy ∧ part ∈ copy.parts := by
  rcases Json.mem_parts_withCopies hpart with rfl | rfl | ⟨entry, hentry, hinside⟩ | hinside
  · rw [Json.identity?_withCopies] at hidentity
    exact absurd hidentity fun hsome => (h.identity?_externalize hsome).elim hother hplain
  · rw [h.identity?_copies] at hidentity
    cases hidentity
  · exact ⟨entry.1, entry.2, Members.get?_of_mem h.sorted hentry, hinside⟩
  · cases Json.source_of_mem_parts h.own hinside with
    | left original horiginal hstays hleft =>
        subst hleft
        have hsame := (h.identity?_externalize hidentity).resolve_right hplain
        exact absurd (h.own_of_get? horiginal hsame (hstays identity hsame)) hother
    | copied kept copy hget hinside => exact ⟨kept, copy, hget, hinside⟩
    | bare text hbare =>
        subst hbare
        cases hidentity
    | stub original kept horiginal hkept hnone hstub =>
        subst hstub
        obtain ⟨hget, -⟩ := Json.identity?_eq_some_iff.mp hidentity
        cases hget
        exact absurd (h.own_of_get? horiginal hkept hnone) hother

end

end Copied

namespace Graph

/-! ### Documents -/

/-- An identity that is not the document's, and not the name of identities: an object comes by that one if the member
of this name held an entity of this identity and is left with its identity alone. -/
structure Foreign (document : Json) (identity : String) : Prop where
  other : document.identity? ≠ some identity
  plain : identity ≠ identityName

/-- A value is the same as the copy that is kept of an identity. -/
def IsCanonical (compact : Json) (identity : String) (value : Json) : Prop :=
  ∃ copy, canonical? compact identity = some copy ∧ value.same copy = true

theorem mem_parts_of_canonical? {compact copy : Json} {identity : String}
    (h : canonical? compact identity = some copy) : copy ∈ compact.parts := by
  obtain ⟨refs, hrefs, hcopy⟩ := Option.bind_eq_some_iff.mp h
  exact Json.mem_parts_trans (Json.mem_parts_of_get? hrefs) (Json.mem_parts_of_get? hcopy)

namespace Compacts

variable {document compact : Json} (h : Compacts document merged compact copies)
  (hobject : ∃ members, document = .object members)

include h hobject

theorem isCanonical_of_copy {identity : String} {value : Json} (hget : copies.get? identity = some value.normal) :
    IsCanonical compact identity value := by
  obtain ⟨copy, hcopy, hsame⟩ := h.canonical?_of_copy hobject hget
  exact ⟨copy, hcopy, Json.same_iff.mpr hsame.symm⟩

variable {identity : String} (hforeign : Foreign document identity) {part : Json}
  (hidentity : part.identity? = some identity)

include hforeign hidentity

/-- An entity that is not inside another is canonical. -/
theorem isCanonical_of_outermost (hpart : part ∈ compact.outermost document.identity?) :
    IsCanonical compact identity part := by
  obtain ⟨members, hmerged⟩ := h.object.mpr hobject
  have hmet : part.normal ∈ ((merged.externalize copies).withCopies copies).outermost merged.identity? := by
    rw [← h.normal, h.identity, Json.outermost_normal]
    exact List.mem_map_of_mem hpart
  exact h.isCanonical_of_copy hobject
    (h.copied.get?_of_outermost hforeign.plain hmerged hmet (part.identity?_normal.trans hidentity))

/-- Every entity is inside a copy that is kept, and one of its identity is kept. -/
theorem exists_kept (hpart : part ∈ compact.parts) :
    (∃ kept copy inner, canonical? compact kept = some copy ∧ inner ∈ copy.parts ∧ inner.normal = part.normal) ∧
      ∃ copy, canonical? compact identity = some copy ∧ copy.identity? = some identity := by
  have hother : merged.identity? ≠ some identity := h.identity ▸ hforeign.other
  have hnormal := part.identity?_normal.trans hidentity
  obtain ⟨kept, copy, hget, hinside⟩ :=
    h.copied.exists_copy_of_part hforeign.plain hother (h.normal_mem_parts hpart) hnormal
  constructor
  · obtain ⟨shown, hshown, rfl⟩ := h.canonical?_of_copy hobject hget
    rw [Json.parts_normal] at hinside
    obtain ⟨inner, hinner, hsame⟩ := List.mem_map.mp hinside
    exact ⟨kept, shown, inner, hshown, hinner, hsame⟩
  · have hmerged := Json.mem_parts_trans (h.copied.part kept copy hget).1 hinside
    obtain ⟨own, hown⟩ := h.copied.complete _ hmerged identity hnormal hother
    obtain ⟨shown, hshown, rfl⟩ := h.canonical?_of_copy hobject hown
    exact ⟨shown, hshown, shown.identity?_normal.symm.trans (h.copied.part identity _ hown).2⟩

end Compacts

/-- **Occurrences show the canonical copy, except inside copies.** In the compact form of an object, entities that are
not inside others are canonical. All entities of one identity are the same exactly if those inside the copies that
are kept are canonical too. -/
theorem occurrences_canonical {document : Json} (hordered : document.Ordered)
    (hobject : ∃ members, document = .object members) :
    ∃ compact, compactJson document = .ok compact ∧
      (∀ x ∈ compact.outermost document.identity?, ∀ identity, Foreign document identity →
        x.identity? = some identity → IsCanonical compact identity x) ∧
      ((∀ x ∈ compact.parts, ∀ y ∈ compact.parts, ∀ identity, Foreign document identity →
          x.identity? = some identity → y.identity? = some identity → x.same y = true) ↔
        ∀ kept copy, canonical? compact kept = some copy → ∀ part ∈ copy.parts, ∀ identity,
          Foreign document identity → part.identity? = some identity → IsCanonical compact identity part) := by
  obtain ⟨compact, merged, copies, hcompact, h⟩ := exists_compacts hordered
  refine ⟨compact, hcompact, fun x hx identity hforeign hidentity => ?_, fun hsame => ?_, fun hinside => ?_⟩
  · exact h.isCanonical_of_outermost hobject hforeign hidentity hx
  · intro kept copy hkept part hpart identity hforeign hidentity
    have hmem := Json.mem_parts_trans (mem_parts_of_canonical? hkept) hpart
    obtain ⟨-, own, hown, hownIdentity⟩ := h.exists_kept hobject hforeign hidentity hmem
    exact ⟨own, hown, hsame part hmem own (mem_parts_of_canonical? hown) identity hforeign hidentity hownIdentity⟩
  · have hcanonical : ∀ x ∈ compact.parts, ∀ identity, Foreign document identity → x.identity? = some identity →
        IsCanonical compact identity x := by
      intro x hx identity hforeign hidentity
      obtain ⟨⟨kept, copy, inner, hkept, hinner, hnormal⟩, -⟩ := h.exists_kept hobject hforeign hidentity hx
      have hinnerIdentity : inner.identity? = some identity := by
        rw [← inner.identity?_normal, hnormal, x.identity?_normal, hidentity]
      obtain ⟨own, hown, hsame⟩ := hinside kept copy hkept inner hinner identity hforeign hinnerIdentity
      refine ⟨own, hown, Json.same_iff.mpr ?_⟩
      calc x.normal = inner.normal := hnormal.symm
        _ = own.normal := Json.same_iff.mp hsame
    intro x hx y hy identity hforeign hxi hyi
    obtain ⟨copy, hcopy, hxsame⟩ := hcanonical x hx identity hforeign hxi
    obtain ⟨copy', hcopy', hysame⟩ := hcanonical y hy identity hforeign hyi
    cases hcopy.symm.trans hcopy'
    apply Json.same_iff.mpr
    calc x.normal = copy.normal := Json.same_iff.mp hxsame
      _ = y.normal := (Json.same_iff.mp hysame).symm

/-- Two copies that say different things: both occurrences show the first. -/
theorem occurrences_canonical_conflict :
    let told (v : Int) : Json := .object [("id", .string "a"), ("v", .int v)]
    let document : Json := .object [("first", told 1), ("second", told 2)]
    let compact : Json := .object [("$refs", .object [("a", told 1)]), ("first", told 1), ("second", told 1)]
    document.Ordered ∧ compactJson document = .ok compact ∧
      ∀ x ∈ compact.parts, ∀ y ∈ compact.parts, x.identity? = some "a" → y.identity? = some "a" → x.same y = true := by
  intro told document compact
  have hordered : document.Ordered := by decide
  have hvalue : compactJson document = .ok compact := by cbv
  obtain ⟨compact', hcompact, hmet, hsame⟩ := occurrences_canonical hordered ⟨_, rfl⟩
  cases hvalue.symm.trans hcompact
  refine ⟨hordered, hvalue, fun x hx y hy => hsame.mpr ?_ x hx y hy "a" ⟨(fun heq => by cases heq), by decide⟩⟩
  intro kept copy hkept part hpart identity hforeign hidentity
  have hcopy : copy = told 1 := by
    simp only [canonical?, compact, Json.get?, Members.get?, refsName, if_pos, Option.bind_some] at hkept
    split at hkept
    · exact (Option.some_inj.mp hkept).symm
    · cases hkept
  have hparts : (told 1).parts = [told 1, .string "a", .int 1] := by rfl
  have htop : compact.outermost document.identity? = [told 1, told 1, told 1] := by rfl
  rw [hcopy, hparts] at hpart
  rcases List.mem_cons.mp hpart with rfl | hscalar
  · exact hmet (told 1) (htop ▸ List.mem_cons_self) identity hforeign hidentity
  · rcases List.mem_cons.mp hscalar with rfl | hscalar
    · cases hidentity
    · cases List.mem_singleton.mp hscalar
      cases hidentity

/-- Without the condition on the copies, not all occurrences are the same: the copy of the second entity was taken
with what it held of the first. No entity is inside another of its identity. -/
theorem occurrence_inside_copy :
    let told (v : Int) : Json := .object [("id", .string "a"), ("v", .int v)]
    let document : Json := .object [("first", told 1), ("second", .object [("id", .string "b"), ("x", told 2)])]
    let other : Json := .object [("id", .string "b"), ("x", told 2)]
    let compact : Json := .object [("$refs", .object [("a", told 1), ("b", other)]), ("first", told 1),
      ("second", other)]
    document.Ordered ∧ (∀ outer ∈ document.parts, outer.identity?.isSome → ∀ inner ∈ Json.partsOfMembers outer.members,
        inner.identity? ≠ outer.identity?) ∧ compactJson document = .ok compact ∧
      ∃ x ∈ compact.parts, ∃ y ∈ compact.parts, ∃ identity, Foreign document identity ∧
        x.identity? = some identity ∧ y.identity? = some identity ∧ x.same y = false := by
  intro told document other compact
  refine ⟨by decide, by decide, by cbv, told 1, ?_, told 2, ?_, "a", ⟨nofun, by decide⟩, by rfl, by rfl, by rfl⟩
  · exact mem_parts_of_canonical? (by rfl : canonical? compact "a" = some (told 1))
  · have hx : other.get? "x" = some (told 2) := by rfl
    exact Json.mem_parts_trans (mem_parts_of_canonical? (by rfl : canonical? compact "b" = some other))
      (Json.mem_parts_of_get? hx)

/-- An object comes by the name of identities for its identity, and is not the copy of it. -/
theorem occurrence_by_name :
    let document : Json := .object [("x", .object [("id", .object [("id", .string "id")]), ("w", .int 5)])]
    let compact : Json := .object [("$refs", .object [("id", .object [("id", .string "id")])]),
      ("x", .object [("id", .string "id"), ("w", .int 5)])]
    document.Ordered ∧ compactJson document = .ok compact ∧ ∃ x ∈ compact.outermost document.identity?,
      x.identity? = some identityName ∧ ¬IsCanonical compact identityName x := by
  intro document compact
  refine ⟨by decide, by cbv, .object [("id", .string "id"), ("w", .int 5)], ?_, by rfl, ?_⟩
  · have hmet : compact.outermost document.identity? =
        [.object [("id", .string "id")], .object [("id", .string "id"), ("w", .int 5)]] := by rfl
    rw [hmet]
    exact List.mem_cons_of_mem _ List.mem_cons_self
  · rintro ⟨copy, hcopy, hsame⟩
    cases hcopy
    cases hsame

end Graph

end Dossier
