import Dossier.Proofs.Graph.Unification

/-!
What reconciled copies show. In fields of one name they hold the same, or both nothing, or both something that no union
goes into, or objects without identities of which this holds in turn. Unlike being left as they are by a union this is
an equivalence, since it tells the forms apart; so it holds of any two copies once it holds of each with the first.
-/

namespace Dossier.Graph

/-- Values in fields of one name in two copies that have been reconciled. -/
inductive Level : Json → Json → Prop
  | same (v : Json) : Level v v
  | nothing {v w : Json} : (Slot.value v).truthy = false → (Slot.value w).truthy = false → Level v w
  | others {v w : Json} : (Slot.value v).truthy = true → (Slot.value w).truthy = true → v.form = .other →
      w.form = .other → Level v w
  | objects {ms ns : Members} : (Json.object ms).form = .object → (Json.object ns).form = .object →
      (∀ name, (ms.get? name).isSome = (ns.get? name).isSome) →
      (∀ name v w, ms.get? name = some v → ns.get? name = some w → Level v w) → Level (.object ms) (.object ns)

/-- Members of two copies that have been reconciled. -/
structure Levelled (ms ns : Members) : Prop where
  names : ∀ name, (ms.get? name).isSome = (ns.get? name).isSome
  members : ∀ name v w, ms.get? name = some v → ns.get? name = some w → Level v w

namespace Level

variable {u v w : Json}

theorem symm (h : Level v w) : Level w v := by
  induction h with
  | same v => exact .same v
  | nothing hv hw => exact .nothing hw hv
  | others hv hw hvform hwform => exact .others hw hv hwform hvform
  | objects hv hw hnames _ ih =>
      exact .objects hw hv (fun name => (hnames name).symm) fun name v w hget hget' => ih name w v hget' hget

theorem truthy (h : Level v w) : (Slot.value v).truthy = (Slot.value w).truthy := by
  cases h with
  | same => rfl
  | nothing hv hw => exact hv.trans hw.symm
  | others hv hw _ _ => exact hv.trans hw.symm
  | objects _ _ _ _ => rfl

theorem form (h : Level v w) (hv : (Slot.value v).truthy = true) : v.form = w.form := by
  cases h with
  | same => rfl
  | nothing hnothing _ => cases hnothing.symm.trans hv
  | others _ _ hvform hwform => exact hvform.trans hwform.symm
  | objects hvform hwform _ _ => exact hvform.trans hwform.symm

theorem trans (h : Level u v) (h' : Level v w) : Level u w := by
  induction h generalizing w with
  | same v => exact h'
  | nothing hu hv => exact .nothing hu (h'.truthy.symm.trans hv)
  | others hu hv huform hvform =>
      exact .others hu (h'.truthy.symm.trans hv) huform ((h'.form hv).symm.trans hvform)
  | @objects ms ns hu hv hnames hmembers ih =>
      cases h' with
      | same => exact .objects hu hv hnames hmembers
      | nothing hnothing _ => cases hnothing
      | others _ _ hother _ => cases hv.symm.trans hother
      | @objects _ os _ hw hnames' hmembers' =>
          refine .objects hu hw (fun name => (hnames name).trans (hnames' name)) fun name u w hget hget' => ?_
          obtain ⟨v, hmiddle⟩ := exists_of_isSome_eq (hnames name) hget
          exact ih name u v hget hmiddle (hmembers' name v w hmiddle hget')

/-- A union leaves them as they are. -/
theorem stable (h : Level v w) : Stable v w := by
  induction h with
  | same v => exact .same v
  | nothing hv hw => exact .nothing hv hw
  | @others v w hv hw hvform hwform =>
      have hentity : ∀ members : Members,
          (Json.object members).form = .other → (Json.object members).identity? ≠ none := by
        intro members hform hnone
        rw [Json.form, hnone] at hform
        cases hform
      refine .apart hv hw (fun vs ws hvs _ => ?_) fun ms ns hms hns => ?_
      · subst hvs
        cases hvform
      · subst hms hns
        exact ⟨hentity ms hvform, hentity ns hwform⟩
  | objects _ _ hnames _ ih => exact .objects hnames ih

end Level

namespace Levelled

variable {ms ns os : Members}

theorem refl (ms : Members) : Levelled ms ms := by
  refine ⟨fun _ => rfl, fun name v w hv hw => ?_⟩
  cases hv.symm.trans hw
  exact .same v

theorem symm (h : Levelled ms ns) : Levelled ns ms :=
  ⟨fun name => (h.names name).symm, fun name v w hv hw => (h.members name w v hw hv).symm⟩

theorem trans (h : Levelled ms ns) (h' : Levelled ns os) : Levelled ms os := by
  refine ⟨fun name => (h.names name).trans (h'.names name), fun name u w hu hw => ?_⟩
  obtain ⟨v, hv⟩ := exists_of_isSome_eq (h.names name) hu
  exact (h.members name u v hu hv).trans (h'.members name v w hv hw)

theorem unmoved (h : Levelled ms ns) : Unmoved ms ns :=
  ⟨h.names, fun name v w hv hw => (h.members name v w hv hw).stable⟩

end Levelled

variable {origin g : Graph} {identity : String} {fence : Fence} {path : List String}

/-- Values have the forms of the slots that show them. -/
theorem Shows.form {slot : Slot} {v : Json} (h : g.Shows slot v) : v.form = g.formOf slot := by
  cases h with
  | value w => exact w.form_normal
  | @object id fields members hnode hdistinct hsorted hnames hfields =>
      have hshows : g.Shows (.node id) (.object members) := .object hnode hdistinct hsorted hnames hfields
      have harray : g.isArray id = false := by rw [isArray, hnode]
      rw [Json.form, hshows.identity, formOf, harray]
      rfl
  | @array id items values hnode _ _ =>
      have harray : g.isArray id = true := by rw [isArray, hnode]
      rw [Json.form, formOf, harray]
      rfl

theorem Agree.truthy {left right : Slot} (h : g.Agree left right) : left.truthy = right.truthy := by
  cases h with
  | same hsame => exact truthy_of_same hsame
  | nothing hleft hright => exact hleft.trans hright.symm
  | something hleft hright _ => exact hleft.trans hright.symm

section

variable (h : Unifying origin g) (horigin : Layered origin) (hfence : fence.Surrounds origin identity)

include h horigin hfence

/-- What is shown as an array or as an object without an identity is a node inside. -/
theorem exists_inside {name : String} {slot : Slot} {v : Json} (hoffered : Offered origin identity path name slot)
    (hshows : g.Shows slot v) (hv : v.form ≠ .other) : ∃ id, slot = .node id ∧ fence.Inside id := by
  have hcontainer : v.isContainer = true := by cases v <;> first | rfl | exact absurd rfl hv
  obtain ⟨whole, hnative⟩ := horigin.source.native
  have hplain : ∀ w, slot = .value w → w.isContainer = false := by
    rintro w rfl
    obtain ⟨copy, container, -, hfield⟩ := hoffered
    exact (hnative.fields container name w hfield).1
  obtain ⟨id, rfl⟩ := exists_node_of_shows hplain hshows hcontainer
  refine ⟨id, rfl, (hfence.inside_iff_of_offered horigin hoffered).mpr ?_⟩
  rwa [hshows.form, h.formOf_eq horigin, ne_eq, formOf_eq_other_iff, Bool.not_eq_true,
    Option.isSome_eq_false_iff, Option.isNone_iff_eq_none] at hv

omit h horigin hfence in
/-- Arrays that agree behind the fence show the same. -/
theorem level_of_arrays {x y : Nat} (hx : fence.Inside x) (hy : fence.Inside y)
    (hagree : (fence.enclosed g).Agree (.node x) (.node y)) {vs ws : List Json} (hv : g.Shows (.node x) (.array vs))
    (hw : g.Shows (.node y) (.array ws)) : Level (.array vs) (.array ws) := by
  have hxarray := isArray_of_shows hv
  have hyarray := isArray_of_shows hw
  have hitems : g.items x = g.items y := by
    cases hagree with
    | same hsame => rw [eq_of_same hsame]
    | nothing hnothing _ => cases hnothing
    | something _ _ hitems =>
        have hall := hitems x y rfl rfl ((Fence.isArray_enclosed hx g).trans hxarray)
          ((Fence.isArray_enclosed hy g).trans hyarray)
        rwa [Fence.items_enclosed hx, Fence.items_enclosed hy] at hall
  have hnode : g.nodes[x]? = g.nodes[y]? := by rw [isArray_iff.mp hxarray, isArray_iff.mp hyarray, hitems]
  rw [hv.unique (hw.of_node hnode)]
  exact .same _

/-- Slots that agree behind the fence show values that are level, if that holds of the objects below. -/
theorem level_of_agree {name : String} {left right : Slot} (hleft : Offered origin identity path name left)
    (hright : Offered origin identity path name right) {v w : Json} (hv : g.Shows left v) (hw : g.Shows right w)
    (hagree : (fence.enclosed g).Agree (fence.screen left) (fence.screen right))
    (hobjects : ∀ x y ms ns, left = .node x → right = .node y → fence.Inside x → fence.Inside y →
      v = .object ms → w = .object ns → v.identity? = none → Levelled ms ns) : Level v w := by
  have htruthy := hagree.truthy
  rw [Fence.truthy_screen, Fence.truthy_screen] at htruthy
  cases hsomething : left.truthy with
  | false => exact .nothing (hv.truthy.symm.trans hsomething) (hw.truthy.symm.trans (htruthy.symm.trans hsomething))
  | true =>
      have hsomething' := htruthy.symm.trans hsomething
      have hform : v.form = w.form := by
        rw [hv.form, hw.form, h.formOf_eq horigin, h.formOf_eq horigin]
        exact horigin.alike hleft hright hsomething hsomething'
      by_cases hother : v.form = .other
      · exact .others (hv.truthy.symm.trans hsomething) (hw.truthy.symm.trans hsomething') hother
          (hform.symm.trans hother)
      · obtain ⟨x, rfl, hx⟩ := exists_inside h horigin hfence hleft hv hother
        obtain ⟨y, rfl, hy⟩ := exists_inside h horigin hfence hright hw (hform ▸ hother)
        rw [Fence.screen_of_inside hx, Fence.screen_of_inside hy] at hagree
        cases hcase : v.form with
        | other => exact absurd hcase hother
        | array =>
            obtain ⟨vs, rfl⟩ := Json.form_eq_array_iff.mp hcase
            obtain ⟨ws, rfl⟩ := Json.form_eq_array_iff.mp (hform.symm.trans hcase)
            exact level_of_arrays hx hy hagree hv hw
        | object =>
            obtain ⟨ms, rfl, hinline⟩ := Json.form_eq_object_iff.mp hcase
            obtain ⟨ns, rfl, -⟩ := Json.form_eq_object_iff.mp (hform.symm.trans hcase)
            obtain ⟨hnames, hmembers⟩ := hobjects x y ms ns rfl rfl hx hy rfl rfl hinline
            exact .objects hcase (hform.symm.trans hcase) hnames hmembers

/-- **Objects that are settled behind the fence show members that are level.** -/
theorem levelled_of_settled {a b : Nat} (hsettled : (fence.enclosed g).Settled a b) (ha : fence.place a = some path)
    (hb : fence.place b = some path) {ms ns : Members} (hms : g.Shows (.node a) (.object ms))
    (hns : g.Shows (.node b) (.object ns)) : Levelled ms ns := by
  induction hsettled generalizing path ms ns with
  | self a =>
      cases hms.unique hns
      exact .refl ms
  | @fields a b hnames hagree _ ih =>
      have hainside := Fence.inside_of_place ha
      have hbinside := Fence.inside_of_place hb
      refine ⟨fun name => ?_, fun name v w hget hget' => ?_⟩
      · have hname := hnames name
        rw [Fence.field?_enclosed hainside, Fence.field?_enclosed hbinside, Option.isSome_map,
          Option.isSome_map] at hname
        rw [← (hms.field name).1, ← (hns.field name).1, hname]
      · obtain ⟨hasome, hashows⟩ := hms.field name
        obtain ⟨hbsome, hbshows⟩ := hns.field name
        obtain ⟨left, hleft⟩ := exists_of_isSome_eq hasome.symm hget
        obtain ⟨right, hright⟩ := exists_of_isSome_eq hbsome.symm hget'
        have hl := h.offered hfence ⟨a, ha, mem_of_field? hleft⟩
        have hr := h.offered hfence ⟨b, hb, mem_of_field? hright⟩
        have hv := hashows left v hleft hget
        have hw := hbshows right w hright hget'
        have hleft' : (fence.enclosed g).field? a name = some (fence.screen left) := by
          rw [Fence.field?_enclosed hainside, hleft]
          rfl
        have hright' : (fence.enclosed g).field? b name = some (fence.screen right) := by
          rw [Fence.field?_enclosed hbinside, hright]
          rfl
        refine level_of_agree h horigin hfence hl hr hv hw (hagree name _ _ hleft' hright') ?_
        rintro x y ms ns rfl rfl hx hy rfl rfl hinline
        rw [Fence.screen_of_inside hx] at hleft'
        rw [Fence.screen_of_inside hy] at hright'
        have hplace : ∀ {id}, Offered origin identity path name (.node id) → fence.Inside id →
            fence.place id = some (path ++ [name]) := fun hoffered hinside =>
          hfence.place_of_offered horigin hoffered ((hfence.inside_iff_of_offered horigin hoffered).mp hinside)
        refine ih name x y ⟨hleft', hright', ?_, ?_, .inl ?_⟩ (hplace hl hx) (hplace hr hy) hv hw
        · exact (Fence.isObject_enclosed hx g).trans (isObject_of_shows hv)
        · exact (Fence.isObject_enclosed hy g).trans (isObject_of_shows hw)
        · rw [Fence.identity?_enclosed hx, ← hv.identity, hinline]

omit hfence in
/-- Copies that have been reconciled show members that are level, any two of them. -/
theorem Reconciled.levelled {group : List Nat} (hreconciled : Reconciled origin identity group g)
    (hgroup : ∀ id ∈ group, origin.identity? id = some identity) {a b : Nat} (ha : a ∈ group) (hb : b ∈ group)
    {ms ns : Members} (hms : g.Shows (.node a) (.object ms)) (hns : g.Shows (.node b) (.object ns)) :
    Levelled ms ns := by
  obtain ⟨fence, hfence, hsettled⟩ := hreconciled
  cases group with
  | nil => cases ha
  | cons first others =>
      have hplace : ∀ id ∈ first :: others, fence.place id = some [] := fun id hid =>
        (hfence id []).mpr ⟨id, .top (hgroup id hid)⟩
      have hfirst := hplace first List.mem_cons_self
      obtain ⟨os, hos⟩ : ∃ os : Members, g.Shows (.node first) (.object os) := by
        have hentity : (g.identity? first).isSome = true := by
          rw [h.identity?_eq horigin, hgroup first List.mem_cons_self]
          rfl
        have hobject := Fence.isObject_of_identity? hentity
        obtain ⟨v, hv⟩ := h.endowed.acyclic.exists_shows_node (h.endowed.wellFormed horigin.source)
          (List.getElem?_eq_some_iff.mp (isObject_iff.mp hobject)).1
        obtain ⟨os, rfl⟩ := exists_members_of_shows hv hobject
        exact ⟨os, hv⟩
      have hwith : ∀ id ∈ first :: others, ∀ ms, g.Shows (.node id) (.object ms) → Levelled os ms := by
        intro id hid ms hms
        have hid' : (fence.enclosed g).Settled first id := by
          rcases List.mem_cons.mp hid with rfl | hother
          · exact .self id
          · exact hsettled first others rfl id hother
        exact levelled_of_settled h horigin hfence hid' hfirst (hplace id hid) hos hms
      exact (hwith a ha ms hms).symm.trans (hwith b hb ns hns)

end

end Dossier.Graph
