import Dossier.Proofs.Graph.Agreement
import Dossier.Proofs.Graph.Inline

/-!
Expansion of compact documents. A document that is collapsed, and holds a copy of every entity inside under
the root, expands to the value that was collapsed.
-/

namespace Dossier

/-- The members with copies of entities added, if there are any. -/
def withRefs (refs members : Members) : Members :=
  if refs.isEmpty then members else members.insert Graph.refsName (.object refs)

/-- What has to hold of a value and of copies of its entities for the one to be told from the other. -/
structure Digest (members refs : Members) : Prop where
  ordered : (Json.object members).Ordered
  echoless : (Json.object members).Echoless
  agrees : ∀ x ∈ (Json.object members).parts, ∀ y ∈ (Json.object members).parts, ∀ identity,
    x.identity? = some identity → y.identity? = some identity → x = y
  free : members.get? Graph.refsName = none
  sorted : refs.Sorted
  entity : ∀ identity copy, refs.get? identity = some copy →
    copy ∈ (Json.object members).parts ∧ copy.identity? = some identity
  complete : ∀ part ∈ (Json.object members).parts, sizeOf part < sizeOf (Json.object members) →
    ∀ identity, part.identity? = some identity → refs.get? identity = some part

namespace Digest

variable {members refs : Members} (h : Digest members refs)

include h

/-- The compact form is in order. -/
theorem ordered_compact : (Json.object (withRefs refs (Json.collapseMembers members))).Ordered := by
  have hcollapsed : (Json.object (Json.collapseMembers members)).Ordered := Json.ordered_collapse h.ordered
  unfold withRefs
  split
  · exact hcollapsed
  · obtain ⟨hsorted, hmembers⟩ := Json.ordered_object.mp hcollapsed
    have hinserted := Members.sorted_insert hsorted Graph.refsName (.object refs)
    refine Json.ordered_object.mpr ⟨hinserted, fun ⟨name, value⟩ hmember => ?_⟩
    have hget := Members.get?_of_mem hinserted hmember
    rw [Members.get?_insert] at hget
    split at hget
    · cases hget
      refine Json.ordered_object.mpr ⟨h.sorted, fun ⟨identity, copy⟩ hcopy => ?_⟩
      exact h.ordered.part (h.entity identity copy (Members.get?_of_mem h.sorted hcopy)).1
    · exact hmembers _ (Members.mem_of_get? hget)

end Digest

namespace Graph

/-! ### Taking the copies off the root -/

theorem mem_remove {fields : List (String × Slot)} {name : String} {field : String × Slot}
    (h : field ∈ Node.remove name fields) : field ∈ fields := by
  induction fields with
  | nil => exact h
  | cons first rest ih =>
      obtain ⟨key, slot⟩ := first
      rw [Node.remove] at h
      split at h
      · exact List.mem_cons_of_mem _ h
      · rcases List.mem_cons.mp h with rfl | hrest
        · exact List.mem_cons_self
        · exact List.mem_cons_of_mem _ (ih hrest)

theorem sublist_remove (name : String) (fields : List (String × Slot)) :
    (Node.remove name fields).Sublist fields := by
  induction fields with
  | nil => exact List.Sublist.refl _
  | cons first rest ih =>
      obtain ⟨key, slot⟩ := first
      rw [Node.remove]
      split
      · exact List.sublist_cons_self _ _
      · exact ih.cons_cons _

theorem find?_remove {fields : List (String × Slot)} (hdistinct : (fields.map Prod.fst).Nodup)
    (name other : String) :
    Node.find? (Node.remove name fields) other = if other = name then none else Node.find? fields other := by
  induction fields with
  | nil => simp [Node.remove, Node.find?]
  | cons first rest ih =>
      obtain ⟨key, slot⟩ := first
      obtain ⟨hnew, hrest⟩ := List.nodup_cons.mp hdistinct
      rw [Node.remove]
      by_cases hkey : key = name
      · by_cases hother : other = name
        · have hnone : Node.find? rest name = none := by
            rw [← Option.not_isSome_iff_eq_none, Node.find?_isSome_iff]
            exact hkey ▸ hnew
          simp [hkey, hother, hnone]
        · simp [hkey, hother, Node.find?, Ne.symm hother]
      · by_cases hfound : key = other
        · simp [Node.find?, hfound, hfound ▸ hkey]
        · simp [hkey, Node.find?, hfound, ih hrest]

theorem getElem?_removeField {g : Graph} {id : Nat} (hobject : g.isObject id = true) (name : String)
    (other : Nat) : (g.removeField id name).nodes[other]? =
      if other = id then some (.object (Node.remove name (g.fields id))) else g.nodes[other]? := by
  rw [removeField, if_pos hobject]
  exact getElem?_setNode (isObject_iff.mp hobject) _ _

theorem regroups_removeField (g : Graph) (id : Nat) (name : String) : Regroups g (g.removeField id name) := by
  by_cases hobject : g.isObject id = true
  · have hget := getElem?_removeField hobject name
    have hfields : ∀ other, (g.removeField id name).fields other =
        if other = id then Node.remove name (g.fields id) else g.fields other := by
      intro other
      rw [fields, hget]
      by_cases hother : other = id
      · simp [hother]
      · simp [hother, fields]
    refine ⟨?_, ?_, fun other => ?_, fun other field hfield => ?_, fun other slot hslot => ?_, fun hnames other => ?_⟩
    · rw [removeField, if_pos hobject]
      rfl
    · rw [removeField, if_pos hobject]
      exact List.length_set ..
    · rw [isObject, hget]
      by_cases hother : other = id
      · simp [hother, hobject]
      · simp [hother, isObject]
    · rw [hfields] at hfield
      split at hfield
      · exact ⟨id, mem_remove hfield⟩
      · exact ⟨other, hfield⟩
    · rw [items, hget] at hslot
      by_cases hother : other = id
      · simp [hother] at hslot
      · exact ⟨other, by simpa [hother, items] using hslot⟩
    · rw [hfields]
      split
      · exact (hnames id).sublist ((sublist_remove name _).map Prod.fst)
      · exact hnames other
  · rw [removeField, if_neg hobject]
    exact .refl g

/-- Without one of its fields an object shows what it did, but for that member. -/
theorem shows_removeField {g : Graph} {id : Nat} {members shown : Members}
    (hshows : g.Shows (.node id) (.object shown)) (name : String) (hsorted : members.Sorted)
    (hmembers : ∀ other, members.get? other = if other = name then none else shown.get? other) :
    (g.removeField id name).Shows (.node id) (.object members) := by
  have hfields := fun other => hshows.field other
  cases hshows with
  | @object _ fields _ hnode hdistinct hsorted' hnames hshown =>
      have hobject : g.isObject id = true := by rw [isObject, hnode]
      have hget := getElem?_removeField hobject name
      have hself : g.Shows (.node id) (.object shown) := .object hnode hdistinct hsorted' hnames hshown
      have hfields : g.fields id = fields := by rw [Graph.fields, hnode]
      refine .object ((hget id).trans (if_pos rfl)) ?_ hsorted (fun other => ?_) fun other slot value hslot hvalue => ?_
      · rw [hfields]
        exact hdistinct.sublist ((sublist_remove name _).map Prod.fst)
      · rw [hfields, find?_remove hdistinct, hmembers]
        split
        · rfl
        · exact hnames other
      · rw [hfields, find?_remove hdistinct] at hslot
        rw [hmembers] at hvalue
        split at hslot
        · cases hslot
        · rename_i hother
          rw [if_neg hother] at hvalue
          refine hself.beside (fun node hnode => ?_) (hshown other slot value hslot hvalue)
            (Json.sizeOf_member_lt (Members.mem_of_get? hvalue))
          rw [hget, if_neg hnode]

/-! ### Expanding compact documents -/

/-- A graph that shows a value whose entities agree is written out as that value once it is merged. -/
theorem toJson?_unified {g : Graph} (hg : g.WellFormed) (hplain : g.Plain) {members refs : Members}
    (h : Digest members refs) (hroot : g.Shows g.root (.object members)) :
    ∃ back, g.unified.toJson? = .ok back ∧ back.normal = .object members := by
  have hkeeps := keeps_unified hg hplain hroot h.agrees
  have hshown := hkeeps.shown _ _ hroot
  rw [← hkeeps.root] at hshown
  exact hshown.toJson?

theorem exists_root {document : Json} {members : Members} (h : document.normal = .object members) :
    ∃ root, (ofJson document).root = .node root := by
  cases document with
  | object members => exact ⟨_, rfl⟩
  | _ => cases h

theorem inlineRefs_of_none {g : Graph} {root : Nat} (hroot : g.root = .node root)
    (hfield : g.field? root refsName = none) : g.inlineRefs = g := by
  rw [inlineRefs, hroot]
  dsimp only
  rw [hfield]

theorem inlineRefs_of_node {g : Graph} {root refs : Nat} (hroot : g.root = .node root)
    (hfield : g.field? root refsName = some (.node refs)) (hobject : g.isObject refs = true) :
    g.inlineRefs = (g.removeField root refsName).inlineAll refs root := by
  rw [inlineRefs, hroot]
  dsimp only
  rw [hfield]
  exact if_pos hobject

/-- Without copies there are no entities inside, and nothing was collapsed. -/
theorem withRefs_of_isEmpty {members refs : Members} (h : Digest members refs) (hempty : refs.isEmpty = true) :
    Json.object (withRefs refs (Json.collapseMembers members)) = .object members := by
  have hnone : ∀ part ∈ (Json.object members).parts, sizeOf part < sizeOf (Json.object members) →
      part.identity? = none := by
    intro part hpart hlt
    cases hidentity : part.identity? with
    | none => rfl
    | some identity =>
        have hcopy := h.complete part hpart hlt identity hidentity
        rw [List.isEmpty_iff.mp hempty] at hcopy
        cases hcopy
  rw [withRefs, if_pos hempty]
  exact Json.collapse_of_no_entities hnone

/-- With the copies taken off the root and inlined, the root shows the value that was collapsed. -/
theorem shows_inlineRefs {g : Graph} {whole : Json} (hg : g.WellFormed) (hnative : g.Native whole)
    {members refs : Members} (h : Digest members refs) {root : Nat} (hroot : g.root = .node root)
    (hshows : g.Shows (.node root) (.object ((Json.collapseMembers members).insert refsName (.object refs)))) :
    Regroups g g.inlineRefs ∧ g.inlineRefs.Shows (.node root) (.object members) := by
  obtain ⟨hsome, hshown⟩ := hshows.field refsName
  have hget : (Members.insert refsName (.object refs) (Json.collapseMembers members)).get? refsName =
      some (.object refs) := by rw [Members.get?_insert, if_pos rfl]
  obtain ⟨slot, hslot⟩ := exists_of_isSome_eq hsome.symm hget
  have hslotShows := hshown slot _ hslot hget
  obtain ⟨copies, rfl⟩ := exists_node_of_shows (fun w hw => by
    subst hw
    exact (hnative.fields root refsName w (mem_of_field? hslot)).1) hslotShows rfl
  rw [inlineRefs_of_node hroot hslot (isObject_of_shows hslotShows)]
  generalize hbare : g.removeField root refsName = bare
  have hregroups : Regroups g bare := hbare ▸ regroups_removeField _ root refsName
  have hbareNative := hregroups.native hnative
  have hbareWell := hregroups.wellFormed hg
  have hcopiesShow : bare.Shows (.node copies) (.object refs) := by
    refine hshows.beside (fun id hid => ?_) hslotShows (Json.sizeOf_member_lt (Members.mem_of_get? hget))
    rw [← hbare, getElem?_removeField (isObject_of_shows hshows), if_neg hid]
  have hrootShows : bare.Shows (.node root) (Json.object members).collapse := by
    rw [← hbare]
    refine shows_removeField hshows refsName
      (Json.sorted_collapseMembers (Json.ordered_object.mp h.ordered).1) fun other => ?_
    rw [Members.get?_insert]
    by_cases hother : other = refsName
    · rw [if_pos hother, hother, Json.get?_collapseMembers, h.free]
      rfl
    · rw [if_neg hother, if_neg hother]
  obtain ⟨hinlines, hinlined⟩ := inlines_all hbareWell root
  refine ⟨hregroups.trans hinlines.regroups, hinlines.restores hbareWell hbareNative hinlined h.ordered h.echoless
    (fun part hpart hlt identity hidentity => ?_) .refl hrootShows⟩
  obtain ⟨hsome, hcopy⟩ := hcopiesShow.field identity
  have hget := h.complete part hpart hlt identity hidentity
  obtain ⟨canonical, hcanonical⟩ := exists_of_isSome_eq hsome.symm hget
  exact ⟨canonical, hcanonical, hcopy canonical part hcanonical hget⟩

/-- A compact document expands to the value that was collapsed. -/
theorem expand_digest {members refs : Members} (h : Digest members refs) {document : Json}
    (hdocument : document.normal = .object (withRefs refs (Json.collapseMembers members))) :
    ∃ back, expandJson document = .ok back ∧ back.normal = .object members := by
  have hordered : document.Ordered := Json.ordered_normal.mp (hdocument ▸ h.ordered_compact)
  obtain ⟨hg, hnative, hshows⟩ := ofJson_spec hordered
  obtain ⟨root, hroot⟩ := exists_root hdocument
  rw [hdocument, hroot] at hshows
  obtain ⟨hregroups, hrestored⟩ : Regroups (ofJson document) (ofJson document).inlineRefs ∧
      (ofJson document).inlineRefs.Shows (.node root) (.object members) := by
    by_cases hempty : refs.isEmpty = true
    · rw [withRefs_of_isEmpty h hempty] at hshows
      have hfield := (hshows.field refsName).1
      rw [h.free, Option.isSome_none, Option.isSome_eq_false_iff, Option.isNone_iff_eq_none] at hfield
      rw [inlineRefs_of_none hroot hfield]
      exact ⟨.refl _, hshows⟩
    · rw [withRefs, if_neg hempty] at hshows
      exact shows_inlineRefs hg hnative h hroot hshows
  rw [expandJson, expanded]
  exact toJson?_unified (hregroups.wellFormed hg) (hregroups.native hnative).items h
    ((hregroups.root.trans hroot) ▸ hrestored)

end Graph

end Dossier
