import Dossier.Proofs.Graph.Acyclic
import Dossier.Proofs.Graph.Externalize
import Mathlib

/-!
Compact forms of documents, and the bare identities in them. The compact form of a document is its merged form with
canonical copies in the places of entities and, if it is an object, under it. Main statement: what compacting leaves
of entities by their identity alone is kept under the root of objects, and of no other documents.
-/

namespace Dossier

variable {merged : Json} {copies : Members}

/-! ### Parts of a value with copies under it -/

theorem mem_withRefs {members : Members} {member : String × Json} (h : member ∈ withRefs copies members) :
    member = (Graph.refsName, .object copies) ∨ member ∈ members := by
  rw [withRefs] at h
  split at h
  · exact .inr h
  · exact Members.mem_of_mem_insert h

theorem Json.members_withCopies {value : Json} {member : String × Json}
    (h : member ∈ (value.withCopies copies).members) :
    member = (Graph.refsName, .object copies) ∨ member ∈ value.members := by
  cases value with
  | object members => exact mem_withRefs h
  | _ => cases h

/-- Whatever is inside a value with copies under it is inside the value, or inside a copy. -/
theorem Json.mem_parts_withCopies {value part : Json} (h : part ∈ (value.withCopies copies).parts) :
    part = value.withCopies copies ∨ part = .object copies ∨ (∃ entry ∈ copies, part ∈ entry.2.parts) ∨
      part ∈ value.parts := by
  cases value with
  | object members =>
      rcases List.mem_cons.mp h with rfl | hinside
      · exact .inl rfl
      · obtain ⟨member, hmember, hpart⟩ := mem_partsOfMembers.mp hinside
        rcases mem_withRefs hmember with rfl | hmember
        · rcases List.mem_cons.mp hpart with rfl | hinside
          · exact .inr (.inl rfl)
          · exact .inr (.inr (.inl (mem_partsOfMembers.mp hinside)))
        · exact .inr (.inr (.inr (parts_of_mem_members hmember hpart)))
  | _ => exact .inr (.inr (.inr h))

/-! ### Texts that stand for entities -/

namespace Copied

variable (h : Copied merged copies)

include h

/-- A member that becomes a text was that text, or has the name of an entity with a copy. -/
theorem text_externalizeAt {name text : String} {value : Json}
    (heq : Json.externalizeAt copies (some name) value = .string text) :
    value = .string text ∨ text = name ∧ ∃ copy, copies.get? name = some copy := by
  have hplacement := Json.placement_externalizeAt copies (some name) value
  generalize Json.externalizeAt copies (some name) value = placed at hplacement heq
  cases hplacement with
  | left _ =>
      refine .inl ?_
      cases value <;> first | exact heq | cases heq
  | bare identity copy hname _ hcopy =>
      cases hname
      cases heq
      exact .inr ⟨rfl, copy, hcopy⟩
  | copied identity copy _ hcopy =>
      have hcontainer := Json.isContainer_of_identity? (h.part identity _ hcopy).2
      rw [heq] at hcontainer
      cases hcontainer
  | stub identity _ _ => cases heq

/-- Externalizing gives no other identity than that of the value, or the name of identities. -/
theorem identity?_externalize {value : Json} {identity : String}
    (hidentity : (value.externalize copies).identity? = some identity) :
    value.identity? = some identity ∨ identity = identityName := by
  obtain ⟨hget, hnonempty⟩ := Json.identity?_eq_some_iff.mp hidentity
  cases value with
  | object members =>
      rw [Json.externalize, Json.get?, Json.get?_externalizeMembers] at hget
      obtain ⟨original, horiginal, htext⟩ := Option.map_eq_some_iff.mp hget
      rcases h.text_externalizeAt htext with rfl | ⟨rfl, -⟩
      · exact .inl (Json.identity?_eq_some_iff.mpr ⟨horiginal, hnonempty⟩)
      · exact .inr rfl
  | _ => cases hget

/-- A copy is a part of the value, in which no member holds its own name. -/
theorem not_echo_of_copy (hecho : merged.Echoless) {identity : String} {copy part : Json}
    (hget : copies.get? identity = some copy) (hpart : part ∈ copy.parts) (name : String) :
    (name, .string name) ∉ part.members :=
  fun hmember => hecho part (Json.mem_parts_trans (h.part identity copy hget).1 hpart) _ hmember rfl

/-- A member of the externalized value that holds its own name stands for an entity with a copy. -/
theorem get?_of_echo_externalize (hecho : merged.Echoless) {part : Json}
    (hpart : part ∈ (merged.externalize copies).parts) {name : String}
    (hmember : (name, .string name) ∈ part.members) : ∃ copy, copies.get? name = some copy := by
  cases Json.source_of_mem_parts h.own hpart with
  | left original horiginal _ hleft =>
      subst hleft
      cases original with
      | object members =>
          rw [Json.externalize, Json.members, Json.externalizeMembers_eq] at hmember
          obtain ⟨member, hinside, heq⟩ := List.mem_map.mp hmember
          obtain ⟨rfl, htext⟩ := Prod.mk.inj heq
          rcases h.text_externalizeAt htext with hsame | ⟨-, hcopy⟩
          · exact absurd (congrArg Json.string? hsame) (hecho _ horiginal member hinside)
          · exact hcopy
      | _ => cases hmember
  | copied identity copy hget hinside => exact absurd hmember (h.not_echo_of_copy hecho hget hinside name)
  | bare identity hbare =>
      subst hbare
      cases hmember
  | stub original identity horiginal hidentity _ hstub =>
      subst hstub
      cases List.mem_singleton.mp hmember
      exact absurd hidentity (hecho.identity?_ne horiginal)

/-- A member of the compact form that holds its own name stands for an entity with a copy. -/
theorem get?_of_echo (hecho : merged.Echoless) {part : Json}
    (hpart : part ∈ ((merged.externalize copies).withCopies copies).parts) {name : String}
    (hmember : (name, .string name) ∈ part.members) : ∃ copy, copies.get? name = some copy := by
  rcases Json.mem_parts_withCopies hpart with rfl | rfl | ⟨entry, hentry, hinside⟩ | hinside
  · rcases Json.members_withCopies hmember with heq | hmember
    · cases heq
    · exact h.get?_of_echo_externalize hecho (Json.self_mem_parts _) hmember
  · exact ⟨_, Members.get?_of_mem h.sorted hmember⟩
  · exact absurd hmember (h.not_echo_of_copy hecho (Members.get?_of_mem h.sorted hentry) hinside name)
  · exact h.get?_of_echo_externalize hecho hinside hmember

end Copied

namespace Graph

/-! ### Documents -/

/-- The copy that is kept under the root for an identity. -/
def canonical? (compact : Json) (identity : String) : Option Json := (compact.get? refsName).bind (·.get? identity)

/-- A compact form shows the merged form of its document with canonical copies in the places of entities. -/
structure Compacts (document merged compact : Json) (copies : Members) : Prop where
  ordered : merged.Ordered
  echoless : document.Echoless → merged.Echoless
  identity : merged.identity? = document.identity?
  object : (∃ members, merged = .object members) ↔ ∃ members, document = .object members
  copied : Copied merged copies
  normal : compact.normal = (merged.externalize copies).withCopies copies

/-- Every document has a compact form. -/
theorem exists_compacts {document : Json} (hordered : document.Ordered) : ∃ compact merged copies,
    compactJson document = .ok compact ∧ Compacts document merged compact copies := by
  obtain ⟨hg, hnative, -⟩ := ofJson_spec hordered
  have hregroups := regroups_unified (ofJson document)
  have hmergedNative := hregroups.native hnative
  obtain ⟨merged, hmerged, hidentity, hobject⟩ := exists_shows_unified hordered
  have hscalar : ∀ value, (ofJson document).unified.root = .value value → value.isContainer = false := by
    intro value hvalue
    rw [hregroups.root] at hvalue
    cases document <;> cases hvalue <;> rfl
  have hshowing : Showing (ofJson document).unified merged :=
    ⟨hregroups.wellFormed hg, fun _ _ _ => hmergedNative.plain, hscalar, hmerged⟩
  obtain ⟨copies, hcopied, hcompacted⟩ := hshowing.exists_copied rfl
  obtain ⟨compact, hcompact, hnormal⟩ := hcompacted.toJson?
  have hmembers : merged.Ordered ∧ (document.Echoless → merged.Echoless) := by
    cases hroot : (ofJson document).unified.root with
    | value value =>
        rw [hroot] at hmerged
        have hplain := value.isContainer_normal.trans (hscalar value hroot)
        rw [hmerged.unique (.value value)]
        exact ⟨Json.ordered_scalar hplain, fun _ => Json.echoless_scalar hplain⟩
    | node root =>
        rw [hroot] at hmerged
        exact ⟨ordered_of_shows hmergedNative hmerged, echoless_of_shows hmergedNative hmerged⟩
  exact ⟨compact, merged, copies, hcompact, hmembers.1, hmembers.2, hidentity, hobject, hcopied, hnormal⟩

theorem canonical?_normal (compact : Json) (identity : String) :
    canonical? compact.normal identity = (canonical? compact identity).map Json.normal := by
  rw [canonical?, canonical?, Json.get?_normal]
  cases compact.get? refsName with
  | none => rfl
  | some refs => exact refs.get?_normal identity

namespace Compacts

variable {document compact : Json} (h : Compacts document merged compact copies)

include h

theorem normal_mem_parts {part : Json} (hpart : part ∈ compact.parts) :
    part.normal ∈ ((merged.externalize copies).withCopies copies).parts := by
  rw [← h.normal, Json.parts_normal]
  exact List.mem_map_of_mem hpart

/-- Under the root of an object all copies are kept. -/
theorem canonical?_of_copy (hobject : ∃ members, document = .object members) {identity : String} {copy : Json}
    (hcopy : copies.get? identity = some copy) :
    ∃ kept, canonical? compact identity = some kept ∧ kept.normal = copy := by
  obtain ⟨members, rfl⟩ := h.object.mpr hobject
  have hsome : copies.isEmpty = false := by
    cases copies with
    | nil => cases hcopy
    | cons _ _ => rfl
  have hkept : canonical? compact.normal identity = some copy := by
    rw [h.normal, canonical?, Json.externalize, Json.withCopies, withRefs, hsome, if_neg Bool.false_ne_true, Json.get?,
      Members.get?_insert, if_pos rfl]
    exact hcopy
  rw [canonical?_normal] at hkept
  exact Option.map_eq_some_iff.mp hkept

/-- Nothing is kept under a root that is no object. -/
theorem object_of_canonical? {identity : String} {copy : Json} (hcopy : canonical? compact identity = some copy) :
    ∃ members, document = .object members := by
  have hkept := canonical?_normal compact identity
  rw [hcopy, h.normal] at hkept
  refine h.object.mp ?_
  cases merged with
  | object members => exact ⟨members, rfl⟩
  | _ => cases hkept

end Compacts

/-- **Bare identities resolve in objects only.** Where no member of a document holds its own name, a member of the
compact form that does has a copy of that identity under the root if the document is an object, and none otherwise. -/
theorem echo_resolves_iff {document : Json} (hordered : document.Ordered) (hecho : document.Echoless) :
    ∃ compact, compactJson document = .ok compact ∧
      ∀ part ∈ compact.parts, ∀ member ∈ part.members, member.2.string? = some member.1 →
        ((∃ copy, canonical? compact member.1 = some copy ∧ copy.identity? = some member.1) ↔
          ∃ members, document = .object members) := by
  obtain ⟨compact, merged, copies, hcompact, h⟩ := exists_compacts hordered
  refine ⟨compact, hcompact, fun part hpart member hmember htext => ?_⟩
  have hnormal : (member.1, .string member.1) ∈ part.normal.members := by
    rw [Json.members_normal, Json.normalMembers_eq]
    refine List.mem_map.mpr ⟨member, hmember, Prod.ext rfl ?_⟩
    obtain ⟨name, value⟩ := member
    cases value with
    | string text => exact congrArg Json.string (Option.some_inj.mp htext)
    | _ => cases htext
  obtain ⟨copy, hcopy⟩ := h.copied.get?_of_echo (h.echoless hecho) (h.normal_mem_parts hpart) hnormal
  constructor
  · rintro ⟨kept, hkept, -⟩
    exact h.object_of_canonical? hkept
  · intro hobject
    obtain ⟨kept, hkept, rfl⟩ := h.canonical?_of_copy hobject hcopy
    refine ⟨kept, hkept, ?_⟩
    rw [← kept.identity?_normal]
    exact (h.copied.part member.1 _ hcopy).2

/-- A nested user that is left by its identity alone. -/
theorem echo_resolves_user :
    let user : Json := .object [("id", .string "u"), ("n", .int 1)]
    let document : Json := .object [("id", .string "d"), ("list", .array [.object [("u", user)]])]
    let compact : Json := .object [("$refs", .object [("u", user)]), ("id", .string "d"),
      ("list", .array [.object [("u", .string "u")]])]
    document.Ordered ∧ document.Echoless ∧ compactJson document = .ok compact ∧
      ∃ copy, canonical? compact "u" = some copy ∧ copy.identity? = some "u" := by
  intro user document compact
  have hordered : document.Ordered := by decide
  have hecho : document.Echoless := by decide
  have hvalue : compactJson document = .ok compact := by cbv
  obtain ⟨compact', hcompact, hresolves⟩ := echo_resolves_iff hordered hecho
  cases hvalue.symm.trans hcompact
  refine ⟨hordered, hecho, hvalue, ?_⟩
  have hpart : .object [("u", .string "u")] ∈ compact.parts := by
    simp [compact, Json.parts, Json.partsOfItems, Json.partsOfMembers]
  exact (hresolves _ hpart ("u", .string "u") List.mem_cons_self rfl).mpr ⟨_, rfl⟩

/-- In an array the same is left of the user, and no copy is kept. -/
theorem echo_unresolved_in_array :
    let document : Json := .array [.object [("u", .object [("id", .string "u")])]]
    let compact : Json := .array [.object [("u", .string "u")]]
    document.Ordered ∧ document.Echoless ∧ compactJson document = .ok compact ∧
      ∃ part ∈ compact.parts, ("u", .string "u") ∈ part.members ∧ canonical? compact "u" = none := by
  intro document compact
  refine ⟨by decide, by decide, by cbv, .object [("u", .string "u")], ?_, List.mem_cons_self, rfl⟩
  exact Json.parts_of_mem_items List.mem_cons_self (Json.self_mem_parts _)

end Graph

end Dossier
