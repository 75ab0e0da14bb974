import Dossier.Proofs.Graph.Kinship

/-!
Expanding what was expanded. Once all copies of all entities are reconciled, a document shows each of them as another
merge would leave it. So an expanded document is loaded into a graph that no merge changes, and **`expand_idempotent`**:
expanding it again gives the same document.
-/

namespace Dossier.Graph

variable {document : Json}

theorem expanded_ofJson (hordered : document.Ordered) (hfree : document.get? refsName = none) :
    (ofJson document).expanded = (ofJson document).unified := by
  rw [expanded, inlineRefs_ofJson_of_none hordered hfree]

theorem reached_ofJson (hordered : document.Ordered) {id : Nat} (hid : id < (ofJson document).nodes.length) :
    (ofJson document).Reached id := by
  cases hroot : (ofJson document).root with
  | value value => exact absurd hid (by rw [(ofJson_of_value hroot).1]; exact Nat.not_lt_zero id)
  | node root => exact ⟨root, hroot, reaches_ofJson hordered hroot hid⟩

/-- The copies of all entities are reconciled when they have been merged. -/
theorem reconciled_ofJson (hordered : document.Ordered) (hlayered : Layered (ofJson document)) :
    Unifying (ofJson document) (ofJson document).unified ∧
      ∀ identity id, (ofJson document).identity? id = some identity → id ∈ (ofJson document).copiesOf identity ∧
        Reconciled (ofJson document) identity ((ofJson document).copiesOf identity) (ofJson document).unified := by
  have hg := (ofJson_spec hordered).1
  obtain ⟨hunifying, hreconciled, -⟩ := reconciled_mergeGroups hlayered
    (identities_spec ((ofJson document).scan false)).1 fun identity _ =>
      ⟨nodup_copiesOf _ identity, fun id hid => ((mem_copiesOf_iff hg).mp hid).2⟩
  rw [← unified_eq] at hunifying hreconciled
  refine ⟨hunifying, fun identity id hidentity => ?_⟩
  obtain ⟨_, _, hnode, -⟩ := exists_entity_ofJson hordered hidentity
  have hreached := reached_ofJson hordered hnode.lt
  exact ⟨(mem_copiesOf_iff hg).mpr ⟨hreached, hidentity⟩,
    hreconciled identity (mem_identities hg hreached hidentity)⟩

section

variable (hordered : document.Ordered) {v : Json}
  (hshows : (ofJson document).unified.Shows (ofJson document).unified.root v)

include hordered hshows

/-- Every object in what is shown in the end is shown by a node. -/
theorem exists_node_unified {members : Members} (hpart : .object members ∈ v.parts) :
    ∃ id, (ofJson document).unified.Shows (.node id) (.object members) := by
  have hnative := (regroups_unified _).native (ofJson_spec hordered).2.1
  rw [(regroups_unified (ofJson document)).root] at hshows
  cases hroot : (ofJson document).root with
  | node root => exact exists_node_of_part hnative (hroot ▸ hshows) hpart rfl
  | value value =>
      rw [hroot] at hshows
      cases hshows
      have hscalar := value.isContainer_normal.trans (ofJson_of_value hroot).2
      rw [Json.parts_scalar hscalar] at hpart
      rw [← List.mem_singleton.mp hpart] at hscalar
      cases hscalar

theorem ordered_unified : v.Ordered := by
  intro part hpart
  cases part with
  | object members =>
      obtain ⟨id, hid⟩ := exists_node_unified hordered hshows hpart
      exact hid.sorted
  | _ => exact List.Pairwise.nil

/-- No field comes to be that was none before. -/
theorem get?_unified {name : String} (hfree : ∀ part ∈ document.parts, part.get? name = none) :
    ∀ part ∈ v.parts, part.get? name = none := by
  intro part hpart
  cases part with
  | object members =>
      obtain ⟨id, hid⟩ := exists_node_unified hordered hshows hpart
      by_contra hsome
      obtain ⟨value, hvalue⟩ := Option.ne_none_iff_exists'.mp hsome
      obtain ⟨slot, hslot⟩ := exists_of_isSome_eq (hid.field name).1.symm hvalue
      obtain ⟨source, hsource⟩ := (regroups_unified (ofJson document)).fields id _ (mem_of_field? hslot)
      have hobject := isObject_of_mem_fields hsource
      obtain ⟨w, hw, hshown⟩ := exists_part_ofJson hordered (List.getElem?_eq_some_iff.mp (isObject_iff.mp hobject)).1
      obtain ⟨ns, rfl⟩ := exists_members_of_shows hshown hobject
      obtain ⟨found, hfound⟩ := exists_of_isSome_eq (hshown.field name).1 (hshown.field?_of_mem hsource)
      rw [document.parts_normal, List.mem_map] at hw
      obtain ⟨whole, hwhole, hnormal⟩ := hw
      have hget : (Json.object ns).get? name = none := by
        rw [← hnormal, whole.get?_normal, hfree whole hwhole]
        rfl
      cases hget.symm.trans hfound
  | _ => rfl

/-- Copies of an entity in what is shown in the end are level. -/
theorem levelled_unified (hlayered : Layered (ofJson document)) {ms ns : Members} (hms : Json.object ms ∈ v.parts)
    (hns : Json.object ns ∈ v.parts) (hentity : (Json.object ms).identity?.isSome = true)
    (hsame : (Json.object ms).identity? = (Json.object ns).identity?) : Levelled ms ns := by
  obtain ⟨hunifying, hreconciled⟩ := reconciled_ofJson hordered hlayered
  obtain ⟨identity, hidentity⟩ := Option.isSome_iff_exists.mp hentity
  have hnode : ∀ {members : Members}, Json.object members ∈ v.parts → (Json.object members).identity? = some identity →
      ∃ id, (ofJson document).unified.Shows (.node id) (.object members) ∧
        (ofJson document).identity? id = some identity := by
    intro members hpart hmembers
    obtain ⟨id, hid⟩ := exists_node_unified hordered hshows hpart
    exact ⟨id, hid, by rw [← hunifying.identity?_eq hlayered, ← hid.identity, hmembers]⟩
  obtain ⟨a, ha, haidentity⟩ := hnode hms hidentity
  obtain ⟨b, hb, hbidentity⟩ := hnode hns (hsame.symm.trans hidentity)
  obtain ⟨hamem, hall⟩ := hreconciled identity a haidentity
  obtain ⟨hbmem, -⟩ := hreconciled identity b hbidentity
  have hg := (ofJson_spec hordered).1
  exact hall.levelled hunifying hlayered (fun id hid => ((mem_copiesOf_iff hg).mp hid).2) hamem hbmem ha hb

end

/-- **Expanding an expanded document changes nothing.** That holds of every document without canonical copies in which
no entity stands inside of itself, whatever other entities are between, and the copies of each entity are of one
kind. -/
theorem expand_idempotent (hordered : document.Ordered) (hfree : ∀ part ∈ document.parts, part.get? refsName = none)
    (hkindred : document.Kindred) (hstratified : document.Stratified) :
    ∃ expanded again, expandJson document = .ok expanded ∧ expandJson expanded = .ok again ∧
      again.same expanded = true := by
  have hlayered := layered_ofJson hordered hkindred hstratified
  obtain ⟨once, honce, hshows⟩ := exists_expanded hordered
  rw [expanded_ofJson hordered (hfree document document.self_mem_parts)] at hshows
  have hordered' : once.Ordered := Json.ordered_normal.mp (ordered_unified hordered hshows)
  have hfree' : once.get? refsName = none := by
    have hnone := get?_unified hordered hshows hfree once.normal once.normal.self_mem_parts
    rw [once.get?_normal, Option.map_eq_none_iff] at hnone
    exact hnone
  obtain ⟨hg, hnative, hroot⟩ := ofJson_spec hordered'
  have hkeeps : Keeps (ofJson once) (ofJson once).unified :=
    keeps_unified_of_unmoved hg hnative.items hroot fun ms ns hms hns hentity hsame =>
      (levelled_unified hordered hshows hlayered hms hns hentity hsame).unmoved
  obtain ⟨again, hagain, hnormal⟩ := (hkeeps.root ▸ hkeeps.shown _ _ hroot).toJson?
  refine ⟨once, again, honce, ?_, Json.same_iff.mpr hnormal⟩
  rw [expandJson, expanded_ofJson hordered' hfree', hagain]

/-- Two copies of `x` hold one of `u` each, which a third copy of `u` adds to, and join what they list. -/
theorem expand_idempotent_told :
    let document : Json := .object [
      ("a", .object [("id", .string "x"), ("list", .array [.int 1]),
        ("p", .object [("id", .string "u"), ("n", .int 1)]), ("s", .object [("k", .int 1)])]),
      ("b", .object [("id", .string "x"), ("list", .array [.object [("id", .string "v")]]),
        ("p", .object [("id", .string "u")]), ("s", .object [("l", .int 2)])]),
      ("c", .object [("id", .string "u"), ("m", .int 2)])]
    document.Ordered ∧ (∀ part ∈ document.parts, part.get? refsName = none) ∧ document.Kindred ∧ document.Stratified ∧
      ∃ expanded again, expandJson document = .ok expanded ∧ expandJson expanded = .ok again ∧
        again.same expanded = true := by
  intro document
  have hordered : document.Ordered := by decide
  have hfree : ∀ part ∈ document.parts, part.get? refsName = none := by decide
  have hkindred : document.Kindred := by decide
  have hstratified : document.Stratified := .of_rank (fun identity => if identity = "x" then 1 else 0) (by decide)
  exact ⟨hordered, hfree, hkindred, hstratified, expand_idempotent hordered hfree hkindred hstratified⟩

/-- Not every document stays as it is when it is expanded again. In the first `d` stands inside of a copy of itself,
which takes a copy of its own with each expansion. In the second two copies of `x` hold in one field an entity and an
object without an identity, which has been given to the other by the time that the entity is told more of. In the third
the first copy of `x` holds a number where two others hold arrays, which are not joined until another copy comes
first. -/
theorem expand_not_idempotent :
    let nested : Json := .object [("a", .object [("id", .string "d")]),
      ("b", .object [("id", .string "d"), ("p", .object [("id", .string "d")])])]
    let mixed : Json := .object [("a", .object [("id", .string "x"), ("p", .object [("id", .string "u")])]),
      ("b", .object [("id", .string "x"), ("p", .object [("w", .int 2)])]),
      ("c", .object [("id", .string "u"), ("z", .int 3)])]
    let parted : Json := .object [("a", .object [("id", .string "y")]),
      ("b", .object [("id", .string "x"), ("p", .int 5)]),
      ("c", .object [("f", .object [("id", .string "x"), ("p", .array [.int 1])]), ("id", .string "y")]),
      ("d", .object [("id", .string "x"), ("p", .array [.int 2])])]
    (nested.Ordered ∧ (∀ part ∈ nested.parts, part.get? refsName = none) ∧ nested.Kindred ∧
      ∃ expanded again, expandJson nested = .ok expanded ∧ expandJson expanded = .ok again ∧
        again.same expanded = false) ∧
    (mixed.Ordered ∧ (∀ part ∈ mixed.parts, part.get? refsName = none) ∧ mixed.Stratified ∧
      ∃ expanded again, expandJson mixed = .ok expanded ∧ expandJson expanded = .ok again ∧
        again.same expanded = false) ∧
    parted.Ordered ∧ (∀ part ∈ parted.parts, part.get? refsName = none) ∧ parted.Stratified ∧
      ∃ expanded again, expandJson parted = .ok expanded ∧ expandJson expanded = .ok again ∧
        again.same expanded = false := by
  intro nested mixed parted
  let copy : Json := .object [("id", .string "d"), ("p", .object [("id", .string "d")])]
  have hnested : expandJson nested = .ok (.object [("a", copy), ("b", copy)]) := by
    unfold nested copy
    rfl
  have hnested' : expandJson (.object [("a", copy), ("b", copy)]) =
      .ok (.object [("a", copy), ("b", .object [("id", .string "d"), ("p", copy)])]) := by
    unfold copy
    rfl
  let told (p : Members) : Json := .object [
    ("a", .object [("id", .string "x"), ("p", .object [("id", .string "u"), ("w", .int 2), ("z", .int 3)])]),
    ("b", .object [("id", .string "x"), ("p", .object p)]),
    ("c", .object [("id", .string "u"), ("w", .int 2), ("z", .int 3)])]
  have hmixed : expandJson mixed = .ok (told [("id", .string "u"), ("w", .int 2)]) := by
    unfold mixed told
    rfl
  have hmixed' : expandJson (told [("id", .string "u"), ("w", .int 2)]) =
      .ok (told [("id", .string "u"), ("w", .int 2), ("z", .int 3)]) := by
    unfold told
    rfl
  let listed (first last : List Json) : Json := .object [
    ("a", .object [("f", .object [("id", .string "x"), ("p", .array first)]), ("id", .string "y")]),
    ("b", .object [("id", .string "x"), ("p", .int 5)]),
    ("c", .object [("f", .object [("id", .string "x"), ("p", .array first)]), ("id", .string "y")]),
    ("d", .object [("id", .string "x"), ("p", .array last)])]
  have hparted : expandJson parted = .ok (listed [.int 1] [.int 2]) := by
    unfold parted listed
    rfl
  have hparted' : expandJson (listed [.int 1] [.int 2]) = .ok (listed [.int 1, .int 2] [.int 1, .int 2]) := by
    unfold listed
    rfl
  refine ⟨⟨by decide, by decide, by decide, _, _, hnested, hnested', by decide⟩,
    ⟨by decide, by decide, ?_, _, _, hmixed, hmixed', by decide⟩,
    by decide, by decide, ?_, _, _, hparted, hparted', by decide⟩
  · exact .of_rank (fun identity => if identity = "x" then 1 else 0) (by decide)
  · exact .of_rank (fun identity => if identity = "y" then 1 else 0) (by decide)

end Dossier.Graph
