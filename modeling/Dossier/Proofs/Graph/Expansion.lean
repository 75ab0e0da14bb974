import Dossier.Proofs.Graph.Idempotent
import Dossier.Proofs.Graph.Recall

/-!
Expansion of any document. Canonical copies are inlined without a look at where they lead. In the graph of a document
that is safe, because it is a tree: without the field that holds the copies the root does not lead to them, so none of
them recalls another. **`merge_acyclic_and_expanded`**: a merge closes no cycle, so every list
of values can be merged and every document expanded.
-/

namespace Dossier.Graph

variable {g : Graph} {root refs : Nat}

/-! ### Taking the copies off the root -/

/-- Removing a field changes that position alone. -/
theorem slotAt?_removeField (hg : g.WellFormed) (hobject : g.isObject root = true) (name : String) (id : Nat)
    (position : Position) : (g.removeField root name).slotAt? id position =
      if id = root ∧ position = .field name then none else g.slotAt? id position := by
  have hget := getElem?_removeField hobject name id
  by_cases hid : id = root
  · subst hid
    rw [if_pos rfl] at hget
    cases position with
    | index k => rw [slotAt?, hget, slotAt?, isObject_iff.mp hobject, if_neg (by simp)]; rfl
    | field key =>
        rw [slotAt?_object hget, find?_remove ((wellFormed_iff.mp hg).2.1 id), slotAt?_field]
        simp [field?]
  · rw [if_neg hid] at hget
    rw [slotAt?, hget, if_neg (fun h => hid h.1), slotAt?]

/-- The graph of a document: a tree below its root. -/
structure Rooted (g : Graph) (root : Nat) : Prop where
  wellFormed : g.WellFormed
  unshared : g.Unshared
  free : ∀ id, ¬g.Points id root

theorem rooted_ofJson {document : Json} (hordered : document.Ordered) (hroot : (ofJson document).root = .node root) :
    (ofJson document).Rooted root :=
  ⟨(ofJson_spec hordered).1, unshared_ofJson document, not_points_root hordered hroot⟩

namespace Rooted

variable (h : g.Rooted root) (hfield : g.field? root refsName = some (.node refs))

include h

/-- A node that the root leads to is led to from there through all that point to it. -/
theorem reaches_of_points {a b : Nat} (hpoints : g.Points a b) (hreach : g.Reaches root b) : g.Reaches root a := by
  rcases Relation.ReflTransGen.cases_tail hreach with rfl | ⟨c, hc, hlast⟩
  · exact absurd hpoints (h.free a)
  · obtain ⟨p, hp⟩ := h.wellFormed.exists_slotAt? hpoints
    obtain ⟨q, hq⟩ := h.wellFormed.exists_slotAt? hlast
    exact (h.unshared a c p q b hp hq).1 ▸ hc

include hfield

/-- Without the copies the root has a tree below it still. -/
theorem removeField : (g.removeField root refsName).Rooted root := by
  have hobject := isObject_of_mem_fields (mem_of_field? hfield)
  have hslot : ∀ {id : Nat} {position : Position} {slot : Slot},
      (g.removeField root refsName).slotAt? id position = some slot → g.slotAt? id position = some slot := by
    intro id position slot hat
    rw [slotAt?_removeField h.wellFormed hobject] at hat
    split at hat
    · cases hat
    · exact hat
  exact ⟨(regroups_removeField g root refsName).wellFormed h.wellFormed,
    fun a b p q id ha hb => h.unshared a b p q id (hslot ha) (hslot hb),
    fun id hpoints => h.free id (points_of_points_removeField hobject hpoints)⟩

/-- Nothing else held the copies. -/
theorem not_reaches_refs : ¬(g.removeField root refsName).Reaches root refs := by
  have hobject := isObject_of_mem_fields (mem_of_field? hfield)
  have hself : g.slotAt? root (.field refsName) = some (.node refs) := by rw [slotAt?_field, hfield]
  intro hreach
  rcases Relation.ReflTransGen.cases_tail hreach with rfl | ⟨a, -, hlast⟩
  · exact h.free refs (points_of_slotAt? hself)
  · obtain ⟨p, hp⟩ := (h.removeField hfield).wellFormed.exists_slotAt? hlast
    rw [slotAt?_removeField h.wellFormed hobject] at hp
    split at hp
    · cases hp
    · rename_i hother
      exact hother (h.unshared a root p (.field refsName) refs hp hself)

end Rooted

/-- A tree's copies recall nothing: what they lead to, the root does not lead to without them. -/
theorem Rooted.untangled (h : g.Rooted root) (hroot : g.root = .node root) : ¬g.Tangled Points := by
  rintro ⟨top, refs, name, htop, hfield, hcircle⟩
  cases hroot.symm.trans htop
  have hbare := h.removeField hfield
  obtain ⟨_, ⟨copy, id, hcopy, hreach, hid, -⟩, -⟩ := Relation.TransGen.head'_iff.mp hcircle
  have hback : (g.removeField root refsName).Reaches root copy := by
    induction hreach with
    | refl => exact hid
    | tail _ hpoints ih => exact ih (hbare.reaches_of_points hpoints hid)
  exact h.not_reaches_refs hfield
    (hbare.reaches_of_points (points_iff.mpr (.inl ⟨name, mem_of_field? hcopy⟩)) hback)

/-- Inlining the copies kept in a document moves slots only, and closes no cycle. -/
theorem inlineRefs_ofJson {document : Json} (hordered : document.Ordered) :
    Regroups (ofJson document) (ofJson document).inlineRefs ∧ (ofJson document).inlineRefs.Acyclic := by
  have hwell := (ofJson_spec hordered).1
  refine ⟨regroups_inlineRefs hwell, ((acyclic_ofJson hordered).inlineRefs_iff hwell).mpr fun htangled => ?_⟩
  have ⟨root, _, _, hroot, _⟩ := htangled
  exact (rooted_ofJson hordered hroot).untangled hroot htangled

/-! ### Merging and expanding -/

/-- Every document expands, to the value that the expanded graph shows. -/
theorem exists_expanded {document : Json} (hordered : document.Ordered) :
    ∃ expanded, expandJson document = .ok expanded ∧
      (ofJson document).expanded.Shows (ofJson document).expanded.root expanded.normal := by
  obtain ⟨hregroups, hacyclic⟩ := inlineRefs_ofJson hordered
  have hwell := (regroups_unified _).wellFormed (hregroups.wellFormed (ofJson_spec hordered).1)
  obtain ⟨v, hv⟩ := hacyclic.unified.exists_shows hwell
  obtain ⟨expanded, hwritten, rfl⟩ := hv.toJson?
  exact ⟨expanded, hwritten, hv⟩

/-- **No merge closes a cycle.** A graph without one has none after any of its nodes are merged. So every list of
values can be merged, and every document expanded, with canonical copies under its root or without. -/
theorem merge_acyclic_and_expanded :
    (∀ g : Graph, g.WellFormed → g.Acyclic → ∀ ids, (∀ id ∈ ids, id < g.nodes.length) →
      (g.merge ids).WellFormed ∧ (g.merge ids).Acyclic) ∧
    (∀ values : List Json, (∀ value ∈ values, value.Ordered) → ∃ merged, mergeValues values = .ok merged) ∧
    ∀ document : Json, document.Ordered → ∃ expanded, expandJson document = .ok expanded := by
  refine ⟨fun g hg hacyclic ids _ => ?_, fun values hordered => ?_, fun document hordered => ?_⟩
  · exact ⟨(regroups_merge g ids).wellFormed hg, hacyclic.merge ids⟩
  · obtain ⟨merged, hmerged, -⟩ := exists_merged hordered
    exact ⟨merged, hmerged⟩
  · obtain ⟨expanded, hexpanded, -⟩ := exists_expanded hordered
    exact ⟨expanded, hexpanded⟩

/-- An object takes what it lacks, but not from itself: a copy inside of the other copy is merged with it and no cycle
comes of it, and neither does of a canonical copy that names the root. -/
theorem merge_acyclic_and_expanded_nested :
    let nested : Json := .object [("id", .string "a"), ("next", .object [("id", .string "a"), ("n", .int 1)])]
    let other : Json := .object [("id", .string "a"), ("m", .int 2)]
    let merged : Json := .object [("id", .string "a"), ("m", .int 2), ("next", .object [("id", .string "a"),
      ("n", .int 1)])]
    let compact : Json := .object [("$refs", .object [("b", .object [("a", .string "a"), ("id", .string "b")])]),
      ("b", .string "b"), ("id", .string "a")]
    let told : Json := .object [("b", .object [("a", .string "a"), ("id", .string "b")]), ("id", .string "a")]
    (ofJson nested).Acyclic ∧ ((ofJson nested).merge [0, 1]).Acyclic ∧
      mergeValues [nested, other] = .ok [merged, merged] ∧ expandJson compact = .ok told := by
  intro nested other merged compact told
  obtain ⟨hmerge, hvalues, hexpand⟩ := merge_acyclic_and_expanded
  have hnested : nested.Ordered := by decide
  have hacyclic : (ofJson nested).Acyclic := acyclic_ofJson hnested
  obtain ⟨-, hmerged⟩ := hmerge (ofJson nested) (ofJson_spec hnested).1 hacyclic [0, 1] (by decide)
  obtain ⟨both, hboth⟩ := hvalues [nested, other] (by decide)
  obtain ⟨expanded, hexpanded⟩ := hexpand compact (by decide)
  have hsame : mergeValues [nested, other] = .ok [merged, merged] := by rfl
  have htold : expandJson compact = .ok told := by
    unfold compact told
    rfl
  cases hsame.symm.trans hboth
  cases htold.symm.trans hexpanded
  exact ⟨hacyclic, hmerged, hsame, htold⟩

end Dossier.Graph
