import Dossier.Proofs.Graph.Compact
import Dossier.Proofs.Graph.Frame

/-!
Merging nodes that show the same. No object changes, and an array that changes takes over elements that show
what its own did, so everything that was shown still is.
-/

namespace Dossier.Graph

/-- No element of an array is a container in a plain slot. -/
def Plain (g : Graph) : Prop := ∀ id value, Slot.value value ∈ g.items id → value.isContainer = false

/-- The other graph shows all that the first does, with the same objects and no new elements. -/
structure Keeps (g next : Graph) : Prop where
  root : next.root = g.root
  shown : ∀ slot v, g.Shows slot v → next.Shows slot v
  fields : ∀ id, next.fields id = g.fields id
  plain : g.Plain → next.Plain

theorem Keeps.refl (g : Graph) : Keeps g g := ⟨rfl, fun _ _ h => h, fun _ => rfl, id⟩

theorem Keeps.trans {g middle next : Graph} (h : Keeps g middle) (h' : Keeps middle next) : Keeps g next where
  root := h'.root.trans h.root
  shown slot v hv := h'.shown slot v (h.shown slot v hv)
  fields id := (h'.fields id).trans (h.fields id)
  plain hplain := h'.plain (h.plain hplain)

theorem Keeps.foldl {α : Type} {step : Graph → α → Graph} {g next : Graph} {l : List α}
    (hstep : ∀ a ∈ l, ∀ middle, Keeps g middle → Keeps middle (step middle a)) (h : Keeps g next) :
    Keeps g (l.foldl step next) := by
  induction l generalizing next with
  | nil => exact h
  | cons a l ih =>
      exact ih (fun b hb => hstep b (List.mem_cons_of_mem _ hb)) (h.trans (hstep a List.mem_cons_self next h))

variable {g : Graph}

/-! ### Arrays -/

/-- Slots that show the same count as one element. -/
theorem sameElement_of_shows {x y : Slot} {v : Json} (hx : g.Shows x v) (hy : g.Shows y v)
    (hplain : ∀ w, x = .value w ∨ y = .value w → w.isContainer = false) : g.sameElement x y = true := by
  cases x with
  | value a =>
      cases hx
      cases y with
      | value b =>
          generalize hb : a.normal = v at hy
          cases hy
          exact Json.same_iff.mpr hb
      | node b =>
          have hscalar := hplain a (.inl rfl)
          rw [← Json.isContainer_normal] at hscalar
          generalize a.normal = v at hy hscalar
          cases hy <;> cases hscalar
  | node a =>
      cases y with
      | value b =>
          cases hy
          have hscalar := hplain b (.inr rfl)
          rw [← Json.isContainer_normal] at hscalar
          generalize b.normal = v at hx hscalar
          cases hx <;> cases hscalar
      | node b =>
          have hidentity : g.identity? a = g.identity? b := hx.identity.symm.trans hy.identity
          obtain ⟨v', hv', hnormal⟩ := hx.nodeJson?
          obtain ⟨w', hw', hnormal'⟩ := hy.nodeJson?
          have hsame : v'.same w' = true := Json.same_iff.mpr (hnormal.trans hnormal'.symm)
          rw [sameElement, hidentity]
          cases g.identity? b with
          | none => simp [hv', hw', hsame]
          | some identity => simp

/-- Joining with elements that are there already adds nothing. -/
theorem joinedItems_of_shows (hplain : g.Plain) {x y : Nat} {v : Json} (hx : g.Shows (.node x) v)
    (hy : g.Shows (.node y) v) : g.joinedItems x y = g.items x := by
  refine joinedItems_of_any fun item hitem => ?_
  cases hy with
  | object hnode _ _ _ _ => rw [items, hnode] at hitem; cases hitem
  | @array _ yItems values hynode hylength hyitems =>
      cases hx with
      | @array _ xItems _ hxnode hxlength hxitems =>
          have hitemsx : g.items x = xItems := by rw [items, hxnode]
          have hitemsy : g.items y = yItems := by rw [items, hynode]
          rw [hitemsy] at hitem
          obtain ⟨k, hk, rfl⟩ := List.mem_iff_getElem.mp hitem
          have hkv := hylength ▸ hk
          have hkx := hxlength.symm ▸ hkv
          rw [hitemsx]
          refine List.any_eq_true.mpr ⟨xItems[k], List.getElem_mem hkx, sameElement_of_shows
            (hxitems k _ _ (List.getElem?_eq_getElem hkx) (List.getElem?_eq_getElem hkv))
            (hyitems k _ _ (List.getElem?_eq_getElem hk) (List.getElem?_eq_getElem hkv)) ?_⟩
          rintro w (hw | hw)
          · exact hplain x w (by rw [hitemsx, ← hw]; exact List.getElem_mem hkx)
          · exact hplain y w (by rw [hitemsy, ← hw]; exact List.getElem_mem hk)

/-- An array that is offered its own elements stays as it is. -/
theorem adoptItems_own {x : Nat} (harray : g.isArray x = true) : g.adoptItems x (g.items x) = g := by
  have hkept : (g.items x).filter (fun item =>
      (g.items x).any (·.same item) || !g.leadsTo item x) = g.items x := by
    refine List.filter_eq_self.mpr fun item hitem => Bool.or_eq_true_iff.mpr (.inl ?_)
    exact List.any_eq_true.mpr ⟨item, hitem, slot_same_refl item⟩
  have hnode := isArray_iff.mp harray
  obtain ⟨hlt, hget⟩ := List.getElem?_eq_some_iff.mp hnode
  unfold adoptItems
  dsimp only
  rw [hkept, setNode, ← hget, List.set_getElem_self]

/-- An array takes over all elements of an array that shows the same: none of them leads to it. -/
theorem adoptItems_of_shows {x y : Nat} (hxarray : g.isArray x = true) {v : Json} (hx : g.Shows (.node x) v)
    (hy : g.Shows (.node y) v) : g.adoptItems y (g.items x) = g.setNode y (.array (g.items x)) := by
  have hapart : ∀ item ∈ g.items x, g.leadsTo item y = false := by
    intro item hitem
    refine Bool.eq_false_iff.mpr fun hleads => ?_
    obtain ⟨id, rfl, hreach⟩ := leadsTo_iff.mp hleads
    have hpoints : g.Points x id := by
      rw [Points, targets, isArray_iff.mp hxarray]
      exact List.mem_filterMap.mpr ⟨.node id, hitem, rfl⟩
    obtain ⟨w, hw, -, hlt⟩ := hx.of_points hpoints
    obtain ⟨u, hu, hpart⟩ := hw.of_reaches hreach
    rw [hy.unique hu] at hlt
    exact absurd (Json.sizeOf_part_le hpart) (Nat.not_le_of_lt hlt)
  have hkept : (g.items x).filter (fun item =>
      (g.items y).any (·.same item) || !g.leadsTo item y) = g.items x := by
    refine List.filter_eq_self.mpr fun item hitem => ?_
    rw [hapart item hitem]
    exact Bool.or_true _
  unfold adoptItems
  dsimp only
  rw [hkept]

theorem keeps_arrays (hplain : g.Plain) {x y : Nat} {v : Json} (hx : g.Shows (.node x) v)
    (hy : g.Shows (.node y) v) (hxarray : g.isArray x = true) (hyarray : g.isArray y = true) :
    Keeps g ((g.adoptItems x (g.joinedItems x y)).adoptItems y (g.joinedItems x y)) := by
  rw [joinedItems_of_shows hplain hx hy, adoptItems_own hxarray, adoptItems_of_shows hxarray hx hy]
  have hget := getElem?_setNode (isArray_iff.mp hyarray) (.array (g.items x))
  refine ⟨rfl, fun slot w hw => ?_, fun id => fields_setArray hyarray _ id, fun _ id value hvalue => ?_⟩
  · refine hw.swap (isArray_iff.mp hxarray) (fun u hu => hu.unique hy ▸ hx) (fun _ _ => ?_) fun id hid => ?_
    · rw [hget, if_pos rfl]
    · rw [hget, if_neg hid]
  · rw [items_setArray hyarray] at hvalue
    split at hvalue
    · exact hplain x value hvalue
    · exact hplain id value hvalue

/-! ### Objects -/

/-- Values, in fields of one name, that a merge of their objects leaves as they are. -/
inductive Stable : Json → Json → Prop
  | same (v : Json) : Stable v v
  | nothing {v w : Json} : (Slot.value v).truthy = false → (Slot.value w).truthy = false → Stable v w
  | apart {v w : Json} : (Slot.value v).truthy = true → (Slot.value w).truthy = true →
      (∀ vs ws, v = .array vs → w ≠ .array ws) →
      (∀ ms ns, v = .object ms → w = .object ns → v.identity? ≠ none ∧ w.identity? ≠ none) → Stable v w
  | objects {ms ns : Members} : (∀ name, (ms.get? name).isSome = (ns.get? name).isSome) →
      (∀ name v w, ms.get? name = some v → ns.get? name = some w → Stable v w) →
      Stable (.object ms) (.object ns)

/-- Members of two objects that a merge of the two leaves as they are. -/
structure Unmoved (ms ns : Members) : Prop where
  names : ∀ name, (ms.get? name).isSome = (ns.get? name).isSome
  members : ∀ name v w, ms.get? name = some v → ns.get? name = some w → Stable v w

theorem Unmoved.refl (ms : Members) : Unmoved ms ms := by
  refine ⟨fun _ => rfl, fun name v w hv hw => ?_⟩
  cases hv.symm.trans hw
  exact .same v

namespace Stable

variable {v w : Json}

theorem truthy (h : Stable v w) : (Slot.value v).truthy = (Slot.value w).truthy := by
  cases h with
  | same => rfl
  | nothing hv hw => exact hv.trans hw.symm
  | apart hv hw _ _ => exact hv.trans hw.symm
  | objects _ _ => rfl

theorem eq_of_array {vs ws : List Json} (h : Stable (.array vs) (.array ws)) : vs = ws := by
  cases h with
  | same => rfl
  | nothing hv _ => cases hv
  | apart _ _ harrays _ => exact absurd rfl (harrays vs ws rfl)

theorem unmoved {ms ns : Members} (h : Stable (.object ms) (.object ns))
    (hinline : (Json.object ms).identity? = none ∨ (Json.object ns).identity? = none) : Unmoved ms ns := by
  cases h with
  | same => exact .refl ms
  | nothing hv _ => cases hv
  | apart _ _ _ hobjects =>
      obtain ⟨hv, hw⟩ := hobjects ms ns rfl rfl
      exact (hinline.elim hv hw).elim
  | objects hnames hmembers => exact ⟨hnames, hmembers⟩

end Stable

theorem Shows.truthy {slot : Slot} {v : Json} (h : g.Shows slot v) : slot.truthy = (Slot.value v).truthy := by
  cases h with
  | value w => exact truthy_normal w
  | object _ _ _ _ _ => rfl
  | array _ _ _ => rfl

theorem exists_values_of_shows {id : Nat} {v : Json} (h : g.Shows (.node id) v) (harray : g.isArray id = true) :
    ∃ values : List Json, v = .array values := by
  cases h with
  | array _ _ _ => exact ⟨_, rfl⟩
  | object hnode _ _ _ _ =>
      rw [isArray, hnode] at harray
      cases harray

section

variable (hplain : g.Plain) {unite : Nat → Nat → Graph → Graph}
  (hunite : ∀ x y ms ns, g.Shows (.node x) (.object ms) → g.Shows (.node y) (.object ns) → Unmoved ms ns →
    Keeps g (unite x y g))

include hplain hunite

theorem keeps_settle {left right : Slot} {v w : Json} (hl : g.Shows left v) (hr : g.Shows right w)
    (hstable : Stable v w) (a b : Nat) (name : String) : Keeps g (g.settle unite a b name left right) := by
  have htruthy : left.truthy = right.truthy := hl.truthy.trans (hstable.truthy.trans hr.truthy.symm)
  unfold settle
  split
  · rename_i hleft hright
    rw [hleft, hright] at htruthy
    cases htruthy
  · rename_i hleft hright
    rw [hleft, hright] at htruthy
    cases htruthy
  · exact .refl g
  · split
    · rename_i x y _ _
      split
      · rename_i harrays
        obtain ⟨hx, hy⟩ := Bool.and_eq_true_iff.mp harrays
        obtain ⟨vs, rfl⟩ := exists_values_of_shows hl hx
        obtain ⟨ws, rfl⟩ := exists_values_of_shows hr hy
        obtain rfl := hstable.eq_of_array
        exact keeps_arrays hplain hl hr hx hy
      · split
        · rename_i hobjects
          obtain ⟨hx, hy⟩ := Bool.and_eq_true_iff.mp hobjects
          obtain ⟨ms, rfl⟩ := exists_members_of_shows hl hx
          obtain ⟨ns, rfl⟩ := exists_members_of_shows hr hy
          split
          · rename_i hinline
            rw [Bool.or_eq_true, Option.isNone_iff_eq_none, Option.isNone_iff_eq_none, ← hl.identity,
              ← hr.identity] at hinline
            exact hunite x y ms ns hl hr (hstable.unmoved hinline)
          · exact .refl g
        · exact .refl g
    · exact .refl g

theorem keeps_offer {a b : Nat} {ms ns : Members} (ha : g.Shows (.node a) (.object ms))
    (hb : g.Shows (.node b) (.object ns)) (hunmoved : Unmoved ms ns) {field : String × Slot}
    (hfield : g.field? b field.1 = some field.2) : Keeps g (g.offer unite a b field) := by
  obtain ⟨hasome, hashows⟩ := ha.field field.1
  obtain ⟨hbsome, hbshows⟩ := hb.field field.1
  obtain ⟨w, hw⟩ := exists_of_isSome_eq hbsome hfield
  obtain ⟨v, hv⟩ := exists_of_isSome_eq (hunmoved.names field.1).symm hw
  obtain ⟨existing, hexisting⟩ := exists_of_isSome_eq hasome.symm hv
  rw [offer, hexisting]
  dsimp only
  split
  · exact .refl g
  · exact keeps_settle hplain hunite (hashows existing v hexisting hv) (hbshows _ w hfield hw)
      (hunmoved.members _ v w hv hw) a b field.1

end

theorem keeps_complete {a b : Nat} {ms ns : Members} (ha : g.Shows (.node a) (.object ms))
    (hb : g.Shows (.node b) (.object ns)) (hunmoved : Unmoved ms ns) {field : String × Slot}
    (hfield : g.field? a field.1 = some field.2) : Keeps g (complete b g field) := by
  obtain ⟨v, hv⟩ := exists_of_isSome_eq (ha.field field.1).1 hfield
  obtain ⟨w, hw⟩ := exists_of_isSome_eq (hunmoved.names field.1) hv
  obtain ⟨existing, hexisting⟩ := exists_of_isSome_eq (hb.field field.1).1.symm hw
  rw [complete, hexisting]
  exact .refl g

/-- A union of objects that leaves their members as they are keeps all that is shown. -/
theorem keeps_unite (depth : Nat) (active : List (Nat × Nat)) {g : Graph} (hplain : g.Plain) {a b : Nat}
    {v w : Json} (ha : g.Shows (.node a) v) (hb : g.Shows (.node b) w)
    (hunmoved : ∀ ms ns, v = .object ms → w = .object ns → Unmoved ms ns) :
    Keeps g (unite depth active a b g) := by
  induction depth generalizing active g a b v w with
  | zero => exact .refl g
  | succ depth ih =>
      rw [unite]
      split
      · exact .refl g
      · rename_i hstart
        simp only [Bool.or_eq_true, Bool.not_eq_true', not_or, Bool.not_eq_false] at hstart
        obtain ⟨⟨⟨-, haobject⟩, hbobject⟩, -⟩ := hstart
        obtain ⟨ms, rfl⟩ := exists_members_of_shows ha haobject
        obtain ⟨ns, rfl⟩ := exists_members_of_shows hb hbobject
        have hunmoved := hunmoved ms ns rfl rfl
        have hoffered : Keeps g ((g.fields b).foldl (offer (unite depth ((a, b) :: active)) a b) g) := by
          refine .foldl (fun field hfield middle hmiddle => ?_) (.refl g)
          have hslot : middle.field? b field.1 = some field.2 := by
            rw [field?, hmiddle.fields b]
            exact hb.field?_of_mem hfield
          have hplain' := hmiddle.plain hplain
          refine keeps_offer hplain' (fun x y ms ns hx hy h => ih _ hplain' hx hy fun _ _ hms hns => ?_)
            (hmiddle.shown _ _ ha) (hmiddle.shown _ _ hb) hunmoved hslot
          cases hms
          cases hns
          exact h
        refine hoffered.trans (.foldl (fun field hfield middle hmiddle => ?_) (.refl _))
        have ha' := hoffered.shown _ _ ha
        have hslot : middle.field? a field.1 = some field.2 := by
          rw [field?, hmiddle.fields a]
          exact ha'.field?_of_mem hfield
        exact keeps_complete (hmiddle.shown _ _ ha') (hmiddle.shown _ _ (hoffered.shown _ _ hb)) hunmoved hslot

/-- A merge keeps all that is shown if no union with the first of the group has anything to do. -/
theorem keeps_merge {g : Graph} (hplain : g.Plain) {first : Nat} {others : List Nat} {v : Json}
    (hfirst : g.Shows (.node first) v) (hothers : ∀ other ∈ others, ∃ w, g.Shows (.node other) w ∧
      ∀ ms ns, v = .object ms → w = .object ns → Unmoved ms ns) : Keeps g (g.merge (first :: others)) := by
  have hpass : ∀ {next : Graph}, Keeps g next → Keeps next (mergePass first others next) := fun hnext =>
    .foldl (fun other hother middle hmiddle => by
      obtain ⟨w, hw, hunmoved⟩ := hothers other hother
      have hkeeps := hnext.trans hmiddle
      exact keeps_unite _ _ (hkeeps.plain hplain) (hkeeps.shown _ _ hfirst) (hkeeps.shown _ _ hw) hunmoved) (.refl _)
  have hone := hpass (.refl g)
  exact hone.trans (hpass hone)

/-- The nodes of a group are reached and have one identity. -/
theorem exists_identity_of_group (hg : g.WellFormed) {group : List Nat} (hgroup : group ∈ (g.scan false).groups) :
    ∃ identity, ∀ id ∈ group, g.Reached id ∧ g.identity? id = some identity := by
  obtain ⟨identity, -, rfl⟩ := List.mem_map.mp hgroup
  refine ⟨identity, fun id hid => ?_⟩
  obtain ⟨cursor, hcursor, rfl⟩ := List.mem_map.mp hid
  obtain ⟨hmem, hidentity⟩ := List.mem_filter.mp hcursor
  obtain ⟨tracked, htracked, rfl⟩ := List.mem_map.mp hmem
  have hfiled := (g.filed_scan.1 tracked htracked).1
  have hreached : g.Reached tracked.node := reached_of_cursor hg htracked
  exact ⟨hreached, hfiled.symm.trans (beq_iff_eq.mp hidentity)⟩

/-- A graph whose entities a merge leaves as they are shows the same once they are merged. -/
theorem keeps_unified_of_unmoved (hg : g.WellFormed) (hplain : g.Plain) {v : Json} (hroot : g.Shows g.root v)
    (hunmoved : ∀ ms ns, Json.object ms ∈ v.parts → Json.object ns ∈ v.parts →
      (Json.object ms).identity?.isSome = true → (Json.object ms).identity? = (Json.object ns).identity? →
      Unmoved ms ns) : Keeps g g.unified := by
  refine .foldl (fun group hgroup middle hmiddle => ?_) (.refl g)
  obtain ⟨identity, hentity⟩ := exists_identity_of_group hg hgroup
  have hpart : ∀ id ∈ group, ∃ w ∈ v.parts, middle.Shows (.node id) w ∧ w.identity? = some identity := by
    intro id hid
    obtain ⟨⟨root, hrootNode, hreach⟩, hidentity⟩ := hentity id hid
    rw [hrootNode] at hroot
    obtain ⟨w, hw, hmem⟩ := hroot.of_reaches hreach
    exact ⟨w, hmem, hmiddle.shown _ _ hw, hw.identity.trans hidentity⟩
  cases group with
  | nil => exact .refl middle
  | cons first others =>
      obtain ⟨w, hmem, hfirst, hidentity⟩ := hpart first List.mem_cons_self
      refine keeps_merge (hmiddle.plain hplain) hfirst fun other hother => ?_
      obtain ⟨u, hmem', hshows, hidentity'⟩ := hpart other (List.mem_cons_of_mem _ hother)
      refine ⟨u, hshows, ?_⟩
      rintro ms ns rfl rfl
      exact hunmoved ms ns hmem hmem' (by rw [hidentity]; rfl) (hidentity.trans hidentity'.symm)

/-- A graph whose entities agree shows the same once they are merged. -/
theorem keeps_unified (hg : g.WellFormed) (hplain : g.Plain) {v : Json} (hroot : g.Shows g.root v)
    (hagree : ∀ x ∈ v.parts, ∀ y ∈ v.parts, ∀ identity, x.identity? = some identity →
      y.identity? = some identity → x = y) : Keeps g g.unified := by
  refine keeps_unified_of_unmoved hg hplain hroot fun ms ns hms hns hentity hsame => ?_
  obtain ⟨identity, hidentity⟩ := Option.isSome_iff_exists.mp hentity
  cases hagree _ hms _ hns identity hidentity (hsame.symm.trans hidentity)
  exact .refl ms

end Dossier.Graph
