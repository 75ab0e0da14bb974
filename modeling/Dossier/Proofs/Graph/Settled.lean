import Dossier.Proofs.Graph.Layout
import Dossier.Proofs.Graph.Value

/-!
Pairs of objects with which a union is done. Two objects are settled when a union of them would leave both as
they are, and one covers another when it would not change. Main statements: settled objects stay settled where the
nodes below them stay, and a covered object stays covered while its cover grows.
-/

namespace Dossier.Graph

variable {layout : Layout} {first copy : Nat} {path : List String} {g next : Graph}

/-- Two slots of one name that a union leaves as they are. -/
inductive Agree (g : Graph) (left right : Slot) : Prop
  | same : left.same right = true → Agree g left right
  | nothing : left.truthy = false → right.truthy = false → Agree g left right
  | something : left.truthy = true → right.truthy = true →
      (∀ x y, left = .node x → right = .node y → g.isArray x = true → g.isArray y = true → g.items x = g.items y) →
      Agree g left right

/-- A slot that takes nothing from another of its name. -/
inductive Outdoes (g : Graph) (left right : Slot) : Prop
  | same : left.same right = true → Outdoes g left right
  | nothing : right.truthy = false → Outdoes g left right
  | something : left.truthy = true →
      (∀ x y, left = .node x → right = .node y → g.isArray x = true → g.isArray y = true →
        ∀ item ∈ g.items y, (g.items x).any (g.sameElement · item) = true) → Outdoes g left right

/-- The objects `x` and `y`, in fields of one name, are united with `a` and `b`. -/
structure United (g : Graph) (a b : Nat) (name : String) (x y : Nat) : Prop where
  left : g.field? a name = some (.node x)
  right : g.field? b name = some (.node y)
  isObject_left : g.isObject x = true
  isObject_right : g.isObject y = true
  inline : g.identity? x = none ∨ g.identity? y = none

/-- A union of the two objects leaves both as they are. -/
inductive Settled (g : Graph) : Nat → Nat → Prop
  | self (a : Nat) : Settled g a a
  | fields {a b : Nat} : (∀ name, (g.field? a name).isSome = (g.field? b name).isSome) →
      (∀ name left right, g.field? a name = some left → g.field? b name = some right → g.Agree left right) →
      (∀ name x y, g.United a b name x y → Settled g x y) → Settled g a b

/-- A union of the two objects leaves the first as it is. -/
inductive Covers (g : Graph) : Nat → Nat → Prop
  | self (a : Nat) : Covers g a a
  | fields {a b : Nat} : (∀ name right, g.field? b name = some right →
        ∃ left, g.field? a name = some left ∧ g.Outdoes left right) →
      (∀ name x y, g.United a b name x y → Covers g x y) → Covers g a b

theorem eq_of_same {x y : Nat} (h : (Slot.node x).same (.node y) = true) : x = y := beq_iff_eq.mp h

theorem Agree.outdoes {left right : Slot} (h : g.Agree left right) : g.Outdoes left right := by
  cases h with
  | same hsame => exact .same hsame
  | nothing _ hright => exact .nothing hright
  | something hleft _ hitems =>
      refine .something hleft fun x y hx hy hxarray hyarray item hitem => List.any_eq_true.mpr ⟨item, ?_, ?_⟩
      · rw [hitems x y hx hy hxarray hyarray]
        exact hitem
      · exact g.sameElement_self item

theorem Settled.covers {a b : Nat} (h : g.Settled a b) : g.Covers a b := by
  induction h with
  | self a => exact .self a
  | fields hnames hagree _ ih =>
      refine .fields (fun name right hright => ?_) ih
      obtain ⟨left, hleft⟩ := Option.isSome_iff_exists.mp ((hnames name).trans (by rw [hright]; rfl))
      exact ⟨left, hleft, (hagree name left right hleft hright).outdoes⟩

/-! ### What stays where nodes stay -/

theorem isObject_congr {id : Nat} (h : next.nodes[id]? = g.nodes[id]?) : next.isObject id = g.isObject id := by
  rw [isObject, h, isObject]

theorem isArray_congr {id : Nat} (h : next.nodes[id]? = g.nodes[id]?) : next.isArray id = g.isArray id := by
  rw [isArray, h, isArray]

theorem identity?_congr {id : Nat} (h : next.nodes[id]? = g.nodes[id]?) : next.identity? id = g.identity? id := by
  rw [identity?, field?_congr h, identity?]

/-- What a slot is written out as depends on the nodes below it. -/
theorem slotJson_congr {inside : Nat → Prop} (hclosed : ∀ a, inside a → ∀ b, g.Points a b → inside b)
    (hkept : ∀ id, inside id → next.nodes[id]? = g.nodes[id]?) (depth : Nat) (above : List Nat) {slot : Slot}
    (hslot : ∀ id, slot = .node id → inside id) : next.slotJson depth above slot = g.slotJson depth above slot := by
  induction depth generalizing above slot with
  | zero => cases slot <;> rfl
  | succ depth ih =>
      cases slot with
      | value value => rfl
      | node id =>
          have hid := hslot id rfl
          have hbelow : ∀ node, g.nodes[id]? = some node → ∀ slot ∈ node.slots, ∀ target, slot = .node target →
              inside target := by
            rintro node hnode _ hmem target rfl
            refine hclosed id hid target ?_
            rw [Points, targets, hnode]
            exact List.mem_filterMap.mpr ⟨.node target, hmem, rfl⟩
          rw [slotJson, slotJson, hkept id hid]
          cases hnode : g.nodes[id]? with
          | none => rfl
          | some node =>
              cases node with
              | object fields =>
                  dsimp only
                  rw [mapM_congr fun field hfield => ?_]
                  rw [ih (id :: above) (hbelow _ hnode field.2 (List.mem_map_of_mem (f := Prod.snd) hfield))]
              | array items =>
                  have hitems : items.mapM (next.slotJson depth (id :: above)) =
                      items.mapM (g.slotJson depth (id :: above)) :=
                    mapM_congr fun item hitem => ih (id :: above) (hbelow _ hnode item hitem)
                  dsimp only
                  rw [hitems]

/-- Elements of arrays count as one as long as what stands nowhere stays as it is. -/
theorem sameElement_congr (hlaid : Laid layout first g) (hsize : next.nodes.length = g.nodes.length)
    (hkept : ∀ id, layout.place id = none → next.nodes[id]? = g.nodes[id]?) {x y : Nat} {left right : Slot}
    (hleft : left ∈ g.items x) (hright : right ∈ g.items y) :
    next.sameElement left right = g.sameElement left right := by
  have hclosed : ∀ a, layout.place a = none → ∀ b, g.Points a b → layout.place b = none :=
    fun a ha b hpoints => hlaid.place_of_reaches_none (.single hpoints) ha
  have hjson : ∀ {id}, layout.place id = none → next.nodeJson? id = g.nodeJson? id := by
    intro id hid
    rw [nodeJson?, hsize]
    refine slotJson_congr hclosed hkept _ _ fun other hother => ?_
    cases hother
    exact hid
  cases left with
  | value a => cases right <;> rfl
  | node a =>
      cases right with
      | value b => rfl
      | node b =>
          have ha := hlaid.item hleft
          have hb := hlaid.item hright
          rw [sameElement, sameElement, identity?_congr (hkept a ha), identity?_congr (hkept b hb), hjson ha, hjson hb]

theorem Agree.frame {inside : Nat → Prop} (hkept : ∀ id, inside id → next.nodes[id]? = g.nodes[id]?)
    {left right : Slot} (h : g.Agree left right) (hleft : ∀ id, left = .node id → inside id)
    (hright : ∀ id, right = .node id → inside id) : next.Agree left right := by
  cases h with
  | same hsame => exact .same hsame
  | nothing hl hr => exact .nothing hl hr
  | something hl hr hitems =>
      refine .something hl hr fun x y hx hy hxarray hyarray => ?_
      have hxkept := hkept x (hleft x hx)
      have hykept := hkept y (hright y hy)
      rw [isArray_congr hxkept] at hxarray
      rw [isArray_congr hykept] at hyarray
      rw [items_congr hxkept, items_congr hykept, hitems x y hx hy hxarray hyarray]

section

variable {inside : Nat → Prop} (hkept : ∀ id, inside id → next.nodes[id]? = g.nodes[id]?)

include hkept

/-- Objects that are united were united before, if the fields they stand in and they themselves stay. -/
theorem united_congr {a b x y : Nat} {name : String} (hleft : next.field? a name = g.field? a name)
    (hright : next.field? b name = g.field? b name) (ha : ∀ id, g.field? a name = some (.node id) → inside id)
    (hb : ∀ id, g.field? b name = some (.node id) → inside id) (h : next.United a b name x y) :
    g.United a b name x y ∧ inside x ∧ inside y := by
  have hxfield := hleft ▸ h.left
  have hyfield := hright ▸ h.right
  have hx := ha x hxfield
  have hy := hb y hyfield
  refine ⟨⟨hxfield, hyfield, isObject_congr (hkept x hx) ▸ h.isObject_left,
    isObject_congr (hkept y hy) ▸ h.isObject_right, ?_⟩, hx, hy⟩
  rw [← identity?_congr (hkept x hx), ← identity?_congr (hkept y hy)]
  exact h.inline

theorem Settled.frame
    (hclosed : ∀ id, inside id → ∀ name target, (name, .node target) ∈ g.fields id → inside target) {a b : Nat}
    (h : g.Settled a b) (ha : inside a) (hb : inside b) : next.Settled a b := by
  induction h with
  | self a => exact .self a
  | @fields a b hnames hagree _ ih =>
      have hafield := field?_congr (hkept a ha)
      have hbfield := field?_congr (hkept b hb)
      have hbelow : ∀ {id}, inside id → ∀ {name target}, g.field? id name = some (.node target) → inside target :=
        fun hid _ _ hslot => hclosed _ hid _ _ (mem_of_field? hslot)
      refine .fields (fun name => ?_) (fun name left right hleft hright => ?_) fun name x y hunited => ?_
      · rw [hafield, hbfield, hnames]
      · rw [hafield] at hleft
        rw [hbfield] at hright
        exact (hagree name left right hleft hright).frame hkept (fun id hid => hbelow ha (hid ▸ hleft))
          fun id hid => hbelow hb (hid ▸ hright)
      · obtain ⟨hunited, hx, hy⟩ := united_congr hkept (hafield name) (hbfield name)
          (fun _ => hbelow ha) (fun _ => hbelow hb) hunited
        exact ih name x y hunited hx hy

end

/-! ### What grows -/

theorem Grown.identity? {id : Nat} (h : Grown g next id) {identity : String} (hid : g.identity? id = some identity) :
    next.identity? id = some identity := by
  rw [Graph.identity?] at hid ⊢
  split at hid
  · rename_i text hslot
    split at hid
    · cases hid
    · rename_i hnonempty
      obtain ⟨kept, hkept, hsame⟩ := h.field _ _ hslot
      have htruthy : (Slot.value (.string text)).truthy = true := by
        rw [Slot.truthy, Bool.eq_false_iff.mpr hnonempty]
        rfl
      rw [hkept, hsame htruthy]
      dsimp only
      rw [if_neg hnonempty]
      exact hid
  · cases hid

/-- A slot that holds something goes on to outdo another while its elements grow and those of the other stay. -/
theorem Outdoes.grow (hregroups : Regroups g next)
    (hcount : ∀ x y, ∀ left ∈ g.items x, ∀ right ∈ g.items y, next.sameElement left right = g.sameElement left right)
    {left kept right : Slot} (hsame : left.truthy = true → kept = left)
    (hitems : ∀ x y, left = .node x → right = .node y →
      x = y ∨ g.items x <+: next.items x ∧ next.items y = g.items y)
    (h : g.Outdoes left right) : next.Outdoes kept right := by
  cases h with
  | same hslots =>
      cases htruthy : left.truthy with
      | true =>
          obtain rfl := hsame htruthy
          exact .same hslots
      | false => exact .nothing ((truthy_of_same hslots).symm.trans htruthy)
  | nothing hnothing => exact .nothing hnothing
  | something htruthy hall =>
      obtain rfl := hsame htruthy
      refine .something htruthy fun x y hx hy hxarray hyarray item hitem => ?_
      rw [hregroups.isArray] at hxarray hyarray
      rcases hitems x y hx hy with rfl | ⟨hgrown, hstays⟩
      · exact List.any_eq_true.mpr ⟨item, hitem, next.sameElement_self item⟩
      · rw [hstays] at hitem
        obtain ⟨existing, hexisting, hcounts⟩ := List.any_eq_true.mp (hall x y hx hy hxarray hyarray item hitem)
        exact List.any_eq_true.mpr ⟨existing, hgrown.subset hexisting,
          (hcount x y existing hexisting item hitem).trans hcounts⟩

/-- Covered objects stay covered while the front, which covers them, grows. -/
theorem Covers.grow (hlaid : Laid layout first g) (hregroups : Regroups g next)
    (hinert : ∀ id, layout.place id = none → next.nodes[id]? = g.nodes[id]?)
    (hgrown : ∀ id, g.Front first id → Grown g next id) {own : Nat → Prop}
    (hclosed : ∀ id, own id → ∀ name target, (name, .node target) ∈ g.fields id → own target ∨ g.Front first target)
    (hkept : ∀ id, own id → ¬g.Front first id → next.nodes[id]? = g.nodes[id]?) {a b : Nat} (h : g.Covers a b)
    (ha : g.Front first a) (hplace : layout.place a = layout.place b) (hb : own b ∨ g.Front first b) :
    next.Covers a b := by
  induction h with
  | self a => exact .self a
  | @fields a b hfields hunited ih =>
      by_cases heq : a = b
      · subst heq
        exact .self a
      have hapart : ¬g.Front first b := fun hfront => heq (ha.eq_of_place hlaid hfront hplace)
      have hbown : own b := hb.resolve_right hapart
      have hbfield := field?_congr (hkept b hbown hapart)
      -- what stands in front at one place is one node
      have hunique : ∀ {name : String} {x y : Nat}, g.field? a name = some (.node x) →
          g.field? b name = some (.node y) → g.Front first x ∧ layout.place x = layout.place y ∧
            (own y ∨ g.Front first y) ∧ (x ≠ y → own y ∧ ¬g.Front first y) := by
        intro name x y hx hy
        have hxplace := hlaid.field (mem_of_field? hx)
        have hyplace := hlaid.field (mem_of_field? hy)
        have hfront : g.Front first x := .field ha (mem_of_field? hx)
        have hsame : layout.place x = layout.place y := by rw [hxplace, hyplace, hplace]
        have hyown := hclosed b hbown name y (mem_of_field? hy)
        refine ⟨hfront, hsame, hyown, fun hne => ?_⟩
        have hyapart : ¬g.Front first y := fun hyfront => hne (hfront.eq_of_place hlaid hyfront hsame)
        exact ⟨hyown.resolve_right hyapart, hyapart⟩
      refine .fields (fun name right hright => ?_) fun name x y hnext => ?_
      · rw [hbfield] at hright
        obtain ⟨left, hleft, houtdoes⟩ := hfields name right hright
        obtain ⟨kept, hkeptField, hsame⟩ := (hgrown a ha).field name left hleft
        refine ⟨kept, hkeptField, houtdoes.grow hregroups
          (fun _ _ _ hl _ hr => sameElement_congr hlaid hregroups.size hinert hl hr) hsame fun x y hx hy => ?_⟩
        subst hx hy
        obtain ⟨hxfront, -, -, hother⟩ := hunique hleft hright
        refine or_iff_not_imp_left.mpr fun hxy => ⟨(hgrown x hxfront).items, ?_⟩
        obtain ⟨hyown, hyapart⟩ := hother hxy
        exact items_congr (hkept y hyown hyapart)
      · have hy := hbfield name ▸ hnext.right
        obtain ⟨left, hleft, houtdoes⟩ := hfields name _ hy
        have htruthy : left.truthy = true := by
          cases houtdoes with
          | same hslots => exact truthy_of_same hslots
          | nothing hnothing => cases hnothing
          | something htruthy _ => exact htruthy
        obtain ⟨kept, hkeptField, hsame⟩ := (hgrown a ha).field name left hleft
        obtain rfl := hsame htruthy
        cases hkeptField.symm.trans hnext.left
        obtain ⟨hxfront, hxy, hyown, hother⟩ := hunique hleft hy
        have hygrown : Grown g next y := by
          by_cases hyfront : g.Front first y
          · exact hgrown y hyfront
          · exact .of_eq (hkept y (hyown.resolve_right hyfront) hyfront)
        have hnone : ∀ {id}, Grown g next id → next.identity? id = none → g.identity? id = none := by
          intro id hid hnext
          cases hidentity : g.identity? id with
          | none => rfl
          | some identity => cases hnext.symm.trans (hid.identity? hidentity)
        refine ih name x y ⟨hleft, hy, hregroups.isObject x ▸ hnext.isObject_left,
          hregroups.isObject y ▸ hnext.isObject_right, ?_⟩ hxfront hxy hyown
        exact hnext.inline.imp (hnone (hgrown x hxfront)) (hnone hygrown)

end Dossier.Graph
