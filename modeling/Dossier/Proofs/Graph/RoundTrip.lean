import Dossier.Proofs.Graph.Externalize

/-!
Expanding what was compacted. The compact form of a document shows its expanded form collapsed, with a copy of
each entity under the root, from which the expanded form is told again.
-/

namespace Dossier.Graph

/-- A well-formed graph whose root shows an object with one content for each identity. -/
structure Agreeing (g : Graph) (root : Nat) (members : Members) : Prop where
  wellFormed : g.WellFormed
  plain : ∀ id position value, g.slotAt? id position = some (.value value) → value.isContainer = false
  shows_it : g.Shows (.node root) (.object members)
  root : g.root = .node root
  agrees : ∀ x ∈ (Json.object members).parts, ∀ y ∈ (Json.object members).parts, ∀ identity,
    x.identity? = some identity → y.identity? = some identity → x = y

namespace Agreeing

variable {g : Graph} {root : Nat} {members : Members} (h : Agreeing g root members)

include h

theorem showing : Showing g (.object members) := by
  refine ⟨h.wellFormed, h.plain, fun value hvalue => ?_, h.root ▸ h.shows_it⟩
  cases h.root.symm.trans hvalue

/-- Every entity inside is its own canonical copy: it has another identity than the root, which is larger. -/
theorem complete {copies : Members} (hcopied : Copied (.object members) copies) {part : Json}
    (hpart : part ∈ (Json.object members).parts) (hlt : sizeOf part < sizeOf (Json.object members))
    {identity : String} (hidentity : part.identity? = some identity) : copies.get? identity = some part := by
  have hother : (Json.object members).identity? ≠ some identity := by
    intro hown
    rw [h.agrees part hpart _ (Json.self_mem_parts _) identity hidentity hown] at hlt
    exact absurd hlt (lt_irrefl _)
  obtain ⟨copy, hcopy⟩ := hcopied.complete part hpart identity hidentity hother
  obtain ⟨hcopyPart, hcopyIdentity⟩ := hcopied.part identity copy hcopy
  rwa [h.agrees part hpart copy hcopyPart identity hidentity hcopyIdentity]

/-- Compacting leaves a digest of what the root showed. -/
theorem exists_digest {unmerged : Graph} (hunified : unmerged.unified = g) (hordered : (Json.object members).Ordered)
    (hecho : (Json.object members).Echoless) (hfree : members.get? refsName = none) :
    ∃ refs, Digest members refs ∧ unmerged.compacted.Shows unmerged.compacted.root
      (.object (withRefs refs (Json.collapseMembers members))) := by
  obtain ⟨refs, hcopied, hcompacted⟩ := h.showing.exists_copied hunified
  have hcomplete : ∀ part ∈ (Json.object members).parts, sizeOf part < sizeOf (Json.object members) → ∀ identity,
      part.identity? = some identity → refs.get? identity = some part :=
    fun part hpart hlt identity => h.complete hcopied hpart hlt
  refine ⟨refs, ⟨hordered, hecho, h.agrees, hfree, hcopied.sorted, hcopied.part, hcomplete⟩, ?_⟩
  rw [Json.externalize_eq_collapse hcomplete] at hcompacted
  exact hcompacted

end Agreeing

/-! ### Documents -/

/-- Without copies to put back, the expanded document is what the merged graph shows. -/
theorem exists_agreeing {document expanded : Json} (hordered : document.Ordered)
    (hobject : ∃ members, document = .object members) (hrefs : document.get? refsName = none)
    (hexpanded : expandJson document = .ok expanded) (hagrees : expanded.Agrees) :
    ∃ root, ∃ members : Members, expanded.normal = .object members ∧
      Agreeing (ofJson document).unified root members := by
  obtain ⟨loaded, rfl⟩ := hobject
  obtain ⟨hg, hnative, hshows⟩ := ofJson_spec hordered
  obtain ⟨root, hroot⟩ := exists_root (rfl : (Json.object loaded).normal = _)
  have hregroups := regroups_unified (ofJson (.object loaded))
  have hunifiedRoot := hregroups.root.trans hroot
  rw [hroot] at hshows
  have hnone : (ofJson (.object loaded)).field? root refsName = none := by
    have hget : Members.get? loaded refsName = none := hrefs
    have hsome := (hshows.field refsName).1
    rwa [Json.get?_normalMembers, hget, Option.map_none, Option.isSome_none, Option.isSome_eq_false_iff,
      Option.isNone_iff_eq_none] at hsome
  rw [expandJson, Graph.expanded, inlineRefs_of_none hroot hnone] at hexpanded
  have hvalue := hunifiedRoot ▸ shows_of_slotJson (hregroups.wellFormed hg) hexpanded
  obtain ⟨members, hmembers⟩ := exists_members_of_shows hvalue
    ((hregroups.isObject root).trans (isObject_of_shows hshows))
  refine ⟨root, members, hmembers, hregroups.wellFormed hg, fun _ _ _ => (hregroups.native hnative).plain,
    hmembers ▸ hvalue, hunifiedRoot, fun x hx y hy identity hxi hyi => ?_⟩
  rw [← hmembers] at hx hy
  exact hagrees.eq hx hy hxi hyi

/-- Expanding the compact form of a document gives the expanded form, if its entities agree and it has no field
of the name that is kept for copies under the root. -/
theorem expand_compact {document expanded : Json} (hordered : document.Ordered)
    (hobject : ∃ members, document = .object members) (hrefs : document.get? refsName = none)
    (hecho : document.Echoless) (hexpanded : expandJson document = .ok expanded) (hagrees : expanded.Agrees)
    (hfree : expanded.get? refsName = none) :
    ∃ compact back, compactJson document = .ok compact ∧ expandJson compact = .ok back ∧
      back.same expanded = true := by
  obtain ⟨root, members, hmembers, hagreeing⟩ := exists_agreeing hordered hobject hrefs hexpanded hagrees
  have hnative := (regroups_unified (ofJson document)).native (ofJson_spec hordered).2.1
  have hfreeMembers : members.get? refsName = none := by
    have hget := expanded.get?_normal refsName
    rw [hfree, hmembers] at hget
    exact hget
  obtain ⟨refs, hdigest, hcompacted⟩ := hagreeing.exists_digest rfl (ordered_of_shows hnative hagreeing.shows_it)
    (echoless_of_shows hnative hagreeing.shows_it hecho) hfreeMembers
  obtain ⟨compact, hcompact, hnormal⟩ := hcompacted.toJson?
  obtain ⟨back, hback, hsame⟩ := expand_digest hdigest hnormal
  exact ⟨compact, back, hcompact, hback, Json.same_iff.mpr (hsame.trans hmembers.symm)⟩

/-- An entity in a field of its own name, told in full elsewhere. -/
theorem expand_compact_shared :
    let document : Json := .object [("id", .string "d"),
      ("list", .array [.object [("id", .string "u"), ("n", .int 1)]]), ("u", .object [("id", .string "u")])]
    ∃ expanded, expandJson document = .ok expanded ∧ ∃ compact back, compactJson document = .ok compact ∧
      expandJson compact = .ok back ∧ back.same expanded = true := by
  dsimp only
  refine ⟨.object [("id", .string "d"), ("list", .array [.object [("id", .string "u"), ("n", .int 1)]]),
    ("u", .object [("id", .string "u"), ("n", .int 1)])], by rfl, ?_⟩
  exact expand_compact (by decide) ⟨_, rfl⟩ (by rfl) (by decide) (by rfl) (by decide) (by rfl)

/-- Without the last condition the two differ. A copy of the root inside gives it a field of the reserved name
when the two are merged, and the copies take the place of what that field holds. -/
theorem expand_compact_reserved_field :
    let document : Json := .object [("id", .string "r"),
      ("x", .object [("arr", .array [.object [("id", .string "i")]]), ("id", .string "j")]),
      ("y", .object [("arr", .array [.object [("c", .object [("$refs", .int 5), ("id", .string "r")]),
        ("id", .string "i")]]), ("id", .string "j")])]
    document.Ordered ∧ document.get? refsName = none ∧ document.Echoless ∧
      ∃ expanded, expandJson document = .ok expanded ∧ expanded.Agrees ∧
        ∃ compact back, compactJson document = .ok compact ∧ expandJson compact = .ok back ∧
          back.same expanded = false := by
  dsimp only
  refine ⟨by decide, by rfl, by decide, .object [("$refs", .int 5), ("id", .string "r"),
      ("x", .object [("arr", .array [.object [("id", .string "i")]]), ("id", .string "j")]),
      ("y", .object [("arr", .array [.object [("id", .string "i")]]), ("id", .string "j")])], by rfl, by decide, ?_⟩
  refine ⟨.object [("$refs", .object [("i", .object [("id", .string "i")]),
        ("j", .object [("arr", .array [.object [("id", .string "i")]]), ("id", .string "j")])]),
      ("id", .string "r"),
      ("x", .object [("arr", .array [.object [("id", .string "i")]]), ("id", .string "j")]),
      ("y", .object [("arr", .array [.object [("id", .string "i")]]), ("id", .string "j")])],
    .object [("id", .string "r"),
      ("x", .object [("arr", .array [.object [("id", .string "i")]]), ("id", .string "j")]),
      ("y", .object [("arr", .array [.object [("id", .string "i")]]), ("id", .string "j")])], by rfl, by rfl, by rfl⟩

end Dossier.Graph
