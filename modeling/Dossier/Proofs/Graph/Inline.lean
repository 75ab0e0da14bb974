import Dossier.Proofs.Graph.Load
import Dossier.Proofs.Json.Collapse

/-!
Inlining. A text equal to the name of its own field makes way for the canonical copy of that name, and
nothing else changes: what has no such text inside is shown as before, and what was collapsed is shown whole.
-/

namespace Dossier.Graph

theorem isObject_of_mem_fields {g : Graph} {id : Nat} {field : String × Slot} (h : field ∈ g.fields id) :
    g.isObject id = true := by
  rw [fields] at h
  rw [isObject]
  split at h
  · rfl
  · cases h

variable {g : Graph} {refs : Nat}

/-- Some texts were replaced by the canonical copies of their names. -/
structure Inlines (g : Graph) (refs : Nat) (next : Graph) : Prop where
  regroups : Regroups g next
  items : ∀ id, next.items id = g.items id
  field : ∀ id name, next.field? id name = g.field? id name ∨
    ∃ canonical, g.field? id name = some (.text name) ∧ g.field? refs name = some canonical ∧
      next.field? id name = some canonical

/-- The field was replaced, if it has to be. -/
def Inlined (g : Graph) (refs : Nat) (next : Graph) (id : Nat) (name : String) : Prop :=
  ∀ canonical, g.field? id name = some (.text name) → g.field? refs name = some canonical →
    next.field? id name = some canonical

theorem Inlines.refl (g : Graph) (refs : Nat) : Inlines g refs g :=
  ⟨.refl g, fun _ => rfl, fun _ _ => .inl rfl⟩

/-- Canonical copies stay where they are: a text among them makes way for itself. -/
theorem Inlines.field_refs {next : Graph} (h : Inlines g refs next) (name : String) :
    next.field? refs name = g.field? refs name := by
  rcases h.field refs name with heq | ⟨_, -, hcanonical, hnow⟩
  · exact heq
  · rw [hnow, hcanonical]

/-- One field is inlined: the others stay, and what was replaced stays replaced. -/
theorem Inlines.step {next : Graph} (h : Inlines g refs next) {id : Nat}
    {field : String × Slot} (hfield : field.2 = .text field.1 → g.field? id field.1 = some field.2) :
    Inlines g refs (next.inlineField refs id field) ∧
      (∀ other key, Inlined g refs next other key → Inlined g refs (next.inlineField refs id field) other key) ∧
      (field.2 = .text field.1 → Inlined g refs (next.inlineField refs id field) id field.1) := by
  obtain ⟨name, slot⟩ := field
  by_cases htext : slot = .text name
  · subst htext
    have hat := hfield rfl
    have hat' : next.field? refs name = g.field? refs name := h.field_refs name
    cases hfound : g.field? refs name with
    | none =>
        have hstep : next.inlineField refs id (name, .text name) = next := by
          simp only [inlineField, Slot.text, if_true, hat', hfound]
        rw [hstep]
        exact ⟨h, fun _ _ hold => hold, fun _ canonical _ hsome => by rw [hfound] at hsome; cases hsome⟩
    | some canonical =>
        have hstep : next.inlineField refs id (name, .text name) = next.setField id name canonical := by
          simp only [inlineField, Slot.text, if_true, hat', hfound]
        rw [hstep]
        have hobject : next.isObject id = true := by
          rw [h.regroups.isObject]
          exact isObject_of_mem_fields (mem_of_field? hat)
        have hget := field?_setField hobject name canonical
        refine ⟨⟨h.regroups.setField (mem_of_field? hfound) id, fun other => ?_, fun other key => ?_⟩,
          fun other key hold canonical' htext' hcanonical' => ?_, fun _ canonical' _ hsome => ?_⟩
        · rw [items_setField hobject, h.items]
        · rw [hget]
          by_cases hself : other = id ∧ key = name
          · obtain ⟨rfl, rfl⟩ := hself
            exact .inr ⟨canonical, hat, hfound, if_pos ⟨rfl, rfl⟩⟩
          · rw [if_neg hself]
            exact h.field other key
        · rw [hget]
          by_cases hself : other = id ∧ key = name
          · obtain ⟨rfl, rfl⟩ := hself
            rw [if_pos ⟨rfl, rfl⟩, ← hcanonical', hfound]
          · rw [if_neg hself]
            exact hold canonical' htext' hcanonical'
        · rw [hget, if_pos ⟨rfl, rfl⟩, ← hsome, hfound]
  · have hstep : next.inlineField refs id (name, slot) = next := by
      unfold inlineField
      split
      · rename_i identity hvalue
        dsimp only at hvalue
        rw [if_neg fun heq : name = identity => htext (heq ▸ hvalue)]
      · rfl
    rw [hstep]
    exact ⟨h, fun _ _ hold => hold, fun heq => absurd heq htext⟩

theorem Inlines.fields {id : Nat} {fields : List (String × Slot)}
    (hfields : ∀ field ∈ fields, field.2 = .text field.1 → g.field? id field.1 = some field.2) {next : Graph}
    (h : Inlines g refs next) :
    Inlines g refs (fields.foldl (inlineField refs id) next) ∧
      (∀ other key, Inlined g refs next other key →
        Inlined g refs (fields.foldl (inlineField refs id) next) other key) ∧
      ∀ field ∈ fields, field.2 = .text field.1 →
        Inlined g refs (fields.foldl (inlineField refs id) next) id field.1 := by
  induction fields generalizing next with
  | nil => exact ⟨h, fun _ _ hold => hold, fun _ hmem => absurd hmem List.not_mem_nil⟩
  | cons field fields ih =>
      obtain ⟨hone, hkept, hself⟩ := h.step (hfields field List.mem_cons_self)
      obtain ⟨hall, hkept', hrest⟩ := ih (fun other hother => hfields other (List.mem_cons_of_mem _ hother)) hone
      refine ⟨hall, fun other key hold => hkept' other key (hkept other key hold), fun other hother htext => ?_⟩
      rcases List.mem_cons.mp hother with rfl | hmem
      · exact hkept' id other.1 (hself htext)
      · exact hrest other hmem htext

/-- All fields of the visited nodes are inlined. -/
theorem inlines_all (hg : g.WellFormed) (root : Nat) :
    Inlines g refs (g.inlineAll refs root) ∧
      ∀ id, g.Reaches root id → ∀ name, Inlined g refs (g.inlineAll refs root) id name := by
  have hfold : ∀ (ids : List Nat) (next : Graph), Inlines g refs next →
      let result := ids.foldl (fun g id => (g.fields id).foldl (inlineField refs id) g) next
      Inlines g refs result ∧ (∀ id name, Inlined g refs next id name → Inlined g refs result id name) ∧
        ∀ id ∈ ids, ∀ name, Inlined g refs result id name := by
    intro ids
    induction ids with
    | nil => exact fun next h => ⟨h, fun _ _ hold => hold, fun _ hmem => absurd hmem List.not_mem_nil⟩
    | cons id ids ih =>
        intro next h
        have hnames : ((next.fields id).map Prod.fst).Nodup :=
          h.regroups.names (wellFormed_iff.mp hg).2.1 id
        -- a text that is still there was there from the start, or made way for itself
        have hfields : ∀ field ∈ next.fields id, field.2 = .text field.1 → g.field? id field.1 = some field.2 := by
          intro field hfield htext
          have hfound : next.field? id field.1 = some field.2 := Node.find?_of_mem hnames hfield
          rcases h.field id field.1 with heq | ⟨canonical, hbefore, -, -⟩
          · rw [← heq, hfound]
          · rw [hbefore, htext]
        obtain ⟨hone, hkept, hself⟩ := h.fields hfields
        obtain ⟨hall, hkept', hrest⟩ := ih _ hone
        refine ⟨hall, fun other name hold => hkept' other name (hkept other name hold), fun other hother name => ?_⟩
        rcases List.mem_cons.mp hother with rfl | hmem
        · refine hkept' other name ?_
          intro canonical htext hrefs
          rcases h.field other name with heq | ⟨canonical', -, hrefs', hnow⟩
          · exact hself (name, .text name) (mem_of_field? (heq.trans htext)) rfl canonical htext hrefs
          · rw [hrefs] at hrefs'
            cases hrefs'
            exact hkept other name (fun _ _ hsome => by rw [hnow, ← hsome, hrefs]) canonical htext hrefs
        · exact hrest other hmem name
  obtain ⟨hall, -, hinlined⟩ := hfold (g.reachable root) g (.refl g refs)
  exact ⟨hall, fun id hid => hinlined id (mem_reachable_iff.mpr hid)⟩

/-! ### What is shown -/

section

variable {next : Graph} (h : Inlines g refs next)

include h

theorem Inlines.object {id : Nat} {fields : List (String × Slot)} (hnode : g.nodes[id]? = some (.object fields)) :
    next.nodes[id]? = some (.object (next.fields id)) := by
  refine isObject_iff.mp ((h.regroups.isObject id).trans ?_)
  rw [isObject, hnode]

theorem Inlines.array {id : Nat} {slots : List Slot} (hnode : g.nodes[id]? = some (.array slots)) :
    next.nodes[id]? = some (.array slots) := by
  have harray : g.isArray id = true := by rw [isArray, hnode]
  have hslots : g.items id = slots := by rw [Graph.items, hnode]
  rw [isArray_iff.mp ((h.regroups.isArray id).trans harray), h.items, hslots]

theorem Inlines.isSome_field (id : Nat) (name : String) :
    (next.field? id name).isSome = (g.field? id name).isSome := by
  rcases h.field id name with heq | ⟨canonical, htext, -, hnow⟩
  · rw [heq]
  · rw [htext, hnow]
    rfl

variable (hg : g.WellFormed)

include hg

/-- An object is shown whose members are shown by the fields as they are now. -/
theorem Inlines.shows_object {id : Nat} {members shown : Members}
    (hshows : g.Shows (.node id) (.object shown)) (hsorted : members.Sorted) (hnames : shown.names = members.names)
    (hfields : ∀ name slot value, next.field? id name = some slot → members.get? name = some value →
      next.Shows slot value) : next.Shows (.node id) (.object members) := by
  have hsome := fun name => (hshows.field name).1
  cases hshows with
  | object hnode _ _ _ _ =>
      refine .object (h.object hnode) (h.regroups.names (wellFormed_iff.mp hg).2.1 id) hsorted (fun name => ?_) hfields
      refine (h.isSome_field id name).trans ((hsome name).trans ?_)
      rw [Bool.eq_iff_iff, Members.isSome_get?_iff, Members.isSome_get?_iff, hnames]

/-- What has no text in a field of its name is shown as before. -/
theorem Inlines.keeps {slot : Slot} {v : Json} (hshows : g.Shows slot v) (hecho : v.Echoless) :
    next.Shows slot v := by
  induction hshows with
  | value value => exact .value value
  | @object id fields members hnode hdistinct hsorted hnames hfields ih =>
      have hself : g.Shows (.node id) (.object members) := .object hnode hdistinct hsorted hnames hfields
      refine h.shows_object hg hself hsorted rfl fun name slot value hslot hvalue => ?_
      have hmember := Members.mem_of_get? hvalue
      have hfield : g.field? id name = Node.find? fields name := by rw [field?, Graph.fields, hnode]
      rcases h.field id name with heq | ⟨canonical, htext, -, -⟩
      · refine ih name slot value ?_ hvalue (hecho.part (Json.parts_of_mem_members hmember (Json.self_mem_parts _)))
        rw [← hfield, ← heq, hslot]
      · have hstring := (hfields name _ value (hfield ▸ htext) hvalue).unique (Shows.text.mpr rfl)
        exact absurd (congrArg Json.string? hstring) (hecho _ (Json.self_mem_parts _) _ hmember)
  | @array id items values hnode hlength hitems ih =>
      refine .array (h.array hnode) hlength fun k slot value hk hvalue => ih k slot value hk hvalue ?_
      exact hecho.part (Json.parts_of_mem_items (List.mem_of_getElem? hvalue) (Json.self_mem_parts value))

omit h hg in
/-- A plain slot that shows a collapsed value shows the value: it is no container. -/
theorem shows_of_collapse {slot : Slot} {value : Json} (hplain : ∀ w, slot = .value w → w.isContainer = false)
    (hshows : g.Shows slot value.collapse) (hnode : ∀ child, slot = .node child → next.Shows (.node child) value) :
    next.Shows slot value := by
  cases slot with
  | node child => exact hnode child rfl
  | value w =>
      have hscalar := hplain w rfl
      rw [← Json.isContainer_normal] at hscalar
      generalize hcollapse : value.collapse = collapsed at hshows
      cases hshows
      rw [← hcollapse, Json.isContainer_collapse] at hscalar
      rw [Json.collapse_scalar hscalar] at hcollapse
      exact hcollapse ▸ .value w

/-- A member is shown whole as soon as what the nodes in its field show is. -/
theorem Inlines.restores_member {whole : Json} (hnative : g.Native whole) {id : Nat} {name : String}
    (hinlined : Inlined g refs next id name) {value : Json} (hecho : value.Echoless) (hnotecho : value ≠ .string name)
    (hcopies : ∀ identity, value.identity? = some identity →
      ∃ canonical, g.field? refs identity = some canonical ∧ g.Shows canonical value)
    {old slot : Slot} (hold : g.field? id name = some old) (hshown : g.Shows old (Json.collapseMember name value))
    (hslot : next.field? id name = some slot)
    (hinner : ∀ child, g.Points id child → g.Shows (.node child) value.collapse → next.Shows (.node child) value) :
    next.Shows slot value := by
  -- a field that shows anything but the text of its own name is as it was
  have hkept : ∀ w, g.Shows old w → w ≠ .string name → slot = old := by
    intro w hw hne
    rcases h.field id name with heq | ⟨_, htext, -, -⟩
    · rw [hslot, hold] at heq
      exact Option.some_inj.mp heq
    · rw [hold] at htext
      cases htext
      exact absurd (hw.unique (Shows.text.mpr rfl)) hne
  rw [Json.collapseMember] at hshown
  split at hshown
  · rename_i identity hidentity
    split at hshown
    · rename_i hname
      subst hname
      obtain ⟨canonical, hcanonical, hcopy⟩ := hcopies name hidentity
      have hnow := hinlined canonical (hold.trans (congrArg some (Shows.text.mp hshown))) hcanonical
      rw [hslot] at hnow
      cases hnow
      exact h.keeps hg hcopy hecho
    · rw [hkept value hshown hnotecho]
      exact h.keeps hg hshown hecho
  · have hne : value.collapse ≠ .string name := by
      intro heq
      have hscalar := Json.isContainer_collapse value
      rw [heq] at hscalar
      rw [Json.collapse_scalar hscalar.symm] at heq
      exact hnotecho heq
    rw [hkept _ hshown hne]
    have hfield := mem_of_field? hold
    refine shows_of_collapse (fun w hw => (hnative.fields id name w (hw ▸ hfield)).1) hshown fun child hchild => ?_
    subst hchild
    exact hinner child (points_of_slotAt? ((g.slotAt?_field id name).trans hold)) hshown

/-- What was collapsed is shown whole, if there is a canonical copy of every entity inside. -/
theorem Inlines.restores {whole : Json} (hnative : g.Native whole) {root : Nat}
    (hinlined : ∀ id, g.Reaches root id → ∀ name, Inlined g refs next id name) {v : Json} (hordered : v.Ordered)
    (hecho : v.Echoless)
    (hcopies : ∀ part ∈ v.parts, sizeOf part < sizeOf v → ∀ identity, part.identity? = some identity →
      ∃ canonical, g.field? refs identity = some canonical ∧ g.Shows canonical part)
    {id : Nat} (hreach : g.Reaches root id) (hshows : g.Shows (.node id) v.collapse) : next.Shows (.node id) v := by
  induction v using Json.induct generalizing id with
  | scalar v hscalar =>
      rw [Json.collapse_scalar hscalar] at hshows
      cases hshows <;> cases hscalar
  | array items ih =>
      rw [Json.collapse, Json.collapseItems_eq] at hshows
      cases hshows with
      | @array _ slots _ hnode hlength hitems =>
          rw [List.length_map] at hlength
          refine .array (h.array hnode) hlength fun k slot value hk hvalue => ?_
          have hmem := List.mem_of_getElem? hvalue
          have hinside := Json.parts_of_mem_items hmem (Json.self_mem_parts value)
          have hshown := hitems k slot _ hk (by rw [List.getElem?_map, hvalue]; rfl)
          have hat : g.slotAt? id (.index k) = some slot := (slotAt?_array hnode k).trans hk
          rw [Json.collapseItem] at hshown
          split at hshown
          · exact h.keeps hg hshown (hecho.part hinside)
          · refine shows_of_collapse (fun w hw => hnative.plain (hw ▸ hat)) hshown fun child hchild => ?_
            subst hchild
            refine ih value hmem (hordered.part hinside) (hecho.part hinside) (fun part hpart hlt => ?_)
              (hreach.tail (points_of_slotAt? hat)) hshown
            exact hcopies part (Json.mem_parts_trans hinside hpart) (hlt.trans (Json.sizeOf_item_lt hmem))
  | object members ih =>
      rw [Json.collapse] at hshows
      obtain ⟨hsorted, -⟩ := Json.ordered_object.mp hordered
      refine h.shows_object hg hshows hsorted (Json.names_collapseMembers members)
        fun name slot value hslot hvalue => ?_
      have hmem := Members.mem_of_get? hvalue
      have hinside := Json.parts_of_mem_members hmem (Json.self_mem_parts value)
      have hlt := Json.sizeOf_member_lt hmem
      obtain ⟨hsome, hfields⟩ := hshows.field name
      have hcollapsed : (Json.collapseMembers members).get? name = some (Json.collapseMember name value) := by
        rw [Json.get?_collapseMembers, hvalue]
        rfl
      obtain ⟨old, hold⟩ := exists_of_isSome_eq hsome.symm hcollapsed
      refine h.restores_member hg hnative (hinlined id hreach name) (hecho.part hinside)
        (fun heq => hecho _ (Json.self_mem_parts _) _ hmem (congrArg Json.string? heq)) (hcopies value hinside hlt)
        hold (hfields old _ hold hcollapsed) hslot fun child hpoints hchild => ?_
      refine ih _ hmem (hordered.part hinside) (hecho.part hinside) (fun part hpart hless => ?_)
        (hreach.tail hpoints) hchild
      exact hcopies part (Json.mem_parts_trans hinside hpart) (hless.trans hlt)

end

end Dossier.Graph
