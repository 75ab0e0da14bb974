import Dossier.Proofs.Graph.Acyclic

/-!
What a merge changes. Slots are read before a union goes down and written after it, but only over what held nothing
to begin with: so a field that held something holds it to the end, whatever is written meanwhile. Main statement:
**`merge_fills`**, by which a merge changes nothing else, and nothing that the merged nodes do not lead to.
-/

namespace Dossier.Graph

variable {g middle next : Graph} {inside : Nat → Prop} {target : Nat} {name : String} {slot : Slot}

/-! ### Adopting -/

/-- Adopting changes one field at most, and no elements. -/
theorem field?_adopt (g : Graph) (target : Nat) (name : String) (slot : Slot) (id : Nat) (key : String) :
    (g.adopt target name slot).field? id key = g.field? id key ∨
      id = target ∧ key = name ∧ (g.adopt target name slot).field? id key = some slot := by
  unfold adopt
  split
  · exact .inl rfl
  · by_cases hobject : g.isObject target = true
    · rw [field?_setField hobject]
      split
      · rename_i hself
        exact .inr ⟨hself.1, hself.2, rfl⟩
      · exact .inl rfl
    · rw [setField_of_not_isObject hobject]
      exact .inl rfl

theorem items_adopt (g : Graph) (target : Nat) (name : String) (slot : Slot) (id : Nat) :
    (g.adopt target name slot).items id = g.items id := by
  unfold adopt
  split
  · rfl
  · by_cases hobject : g.isObject target = true
    · rw [items_setField hobject]
    · rw [setField_of_not_isObject hobject]

theorem getElem?_adopt (g : Graph) {target id : Nat} (name : String) (slot : Slot) (hid : id ≠ target) :
    (g.adopt target name slot).nodes[id]? = g.nodes[id]? := by
  unfold adopt
  split
  · rfl
  · by_cases hobject : g.isObject target = true
    · rw [getElem?_setField hobject, if_neg hid]
    · rw [setField_of_not_isObject hobject]

/-- Fields keep their names and their order. -/
theorem names_adopt (g : Graph) (target : Nat) (name : String) (slot : Slot) (id : Nat) :
    (g.fields id).map Prod.fst <+: ((g.adopt target name slot).fields id).map Prod.fst := by
  have hassign : ∀ fields : List (String × Slot),
      fields.map Prod.fst <+: (Node.assign name slot fields).map Prod.fst := by
    intro fields
    induction fields with
    | nil => exact List.nil_prefix
    | cons field rest ih =>
        obtain ⟨key, old⟩ := field
        rw [Node.assign]
        split
        · exact List.prefix_rfl
        · exact List.prefix_cons_inj key |>.mpr ih
  unfold adopt
  split
  · exact List.prefix_rfl
  · by_cases hobject : g.isObject target = true
    · rw [fields_setField hobject]
      split
      · rename_i hself
        exact hself ▸ hassign _
      · exact List.prefix_rfl
    · rw [setField_of_not_isObject hobject]

/-! ### Filling -/

/-- The other graph has the same containers. Those inside, which lead to no others, may have got fields at the end, and
something in fields that held nothing, and other elements; those outside are as they were. -/
structure Fills (g : Graph) (inside : Nat → Prop) (next : Graph) : Prop where
  regroups : Regroups g next
  outside : ∀ id, ¬inside id → next.nodes[id]? = g.nodes[id]?
  closed : ∀ a b, inside a → next.Points a b → inside b
  names : ∀ id, (g.fields id).map Prod.fst <+: (next.fields id).map Prod.fst
  fields : ∀ id name old, g.field? id name = some old →
    ∃ new, next.field? id name = some new ∧ (new = old ∨ old.truthy = false ∧ new.truthy = true)

namespace Fills

theorem refl (hclosed : ∀ a b, inside a → g.Points a b → inside b) : Fills g inside g :=
  ⟨.refl g, fun _ _ => rfl, hclosed, fun _ => List.prefix_rfl, fun _ _ old hold => ⟨old, hold, .inl rfl⟩⟩

/-- What holds nothing on the way held nothing to begin with. -/
theorem falsy (h : Fills g inside next) (hg : g.WellFormed) {old held : Slot}
    (hheld : (name, held) ∈ next.fields target) (hnothing : held.truthy = false)
    (hold : g.field? target name = some old) : old.truthy = false := by
  obtain ⟨new, hnew, hfills⟩ := h.fields target name old hold
  have hnames := h.regroups.names (wellFormed_iff.mp hg).2.1 target
  obtain rfl : new = held := Option.some.inj (hnew.symm.trans (Node.find?_of_mem hnames hheld))
  rcases hfills with rfl | ⟨hfalsy, -⟩
  · exact hnothing
  · exact hfalsy

theorem adopt (h : Fills g inside next) (htarget : inside target) (hclosed : ∀ id, slot = .node id → inside id)
    (hsource : ∃ source, (name, slot) ∈ g.fields source)
    (hlacks : ∀ old, g.field? target name = some old → old.truthy = false ∧ slot.truthy = true) :
    Fills g inside (next.adopt target name slot) where
  regroups := hsource.elim fun _ hfield => h.regroups.adopt hfield target
  outside id hid := by
    have hne : id ≠ target := fun heq => hid (heq ▸ htarget)
    rw [getElem?_adopt next name slot hne, h.outside id hid]
  closed a b ha hpoints := by
    rcases points_adopt hpoints with hold | ⟨-, hslot, -⟩
    · exact h.closed a b ha hold
    · exact hclosed b hslot
  names id := (h.names id).trans (names_adopt next target name slot id)
  fields id key old hold := by
    rcases next.field?_adopt target name slot id key with hsame | ⟨rfl, rfl, hnew⟩
    · rw [hsame]
      exact h.fields id key old hold
    · exact ⟨slot, hnew, .inr (hlacks old hold)⟩

theorem adoptItems (h : Fills g inside next) (htarget : inside target) (harray : next.isArray target = true)
    {joined : List Slot} (hclosed : ∀ id, Slot.node id ∈ joined → inside id)
    (hsource : ∀ slot ∈ joined, ∃ source, slot ∈ g.items source) : Fills g inside (next.adoptItems target joined) where
  regroups := h.regroups.adoptItems harray hsource
  outside id hid := by
    have hne : id ≠ target := fun heq => hid (heq ▸ htarget)
    rw [Graph.adoptItems, getElem?_setNode (isArray_iff.mp harray), if_neg hne, h.outside id hid]
  closed a b ha hpoints := by
    rcases points_adoptItems harray hpoints with hold | ⟨-, hslot, -⟩
    · exact h.closed a b ha hold
    · exact hclosed b hslot
  names id := by
    rw [Graph.adoptItems, fields_setArray harray]
    exact h.names id
  fields id key old hold := by
    rw [Graph.adoptItems, field?, fields_setArray harray]
    exact h.fields id key old hold

end Fills

theorem survives_fills (hg : g.WellFormed) (inside : Nat → Prop) : Survives g inside (Fills g inside) where
  below _ a b _ h := h.closed a b
  adopt middle target name slot h htarget := by
    rintro ⟨before, source, hbefore, hsource, hslot⟩ hlacks
    refine h.adopt htarget (fun id hid => ?_) (hbefore.regroups.fields source _ hslot) fun old hold => ?_
    · subst hid
      exact hbefore.closed source id hsource (points_iff.mpr (.inl ⟨name, hslot⟩))
    · rcases hlacks with hnone | ⟨htruthy, before, held, hbefore, hheld, hnothing⟩
      · obtain ⟨new, hnew, -⟩ := h.fields target name old hold
        cases hnone.symm.trans hnew
      · exact ⟨hbefore.falsy hg hheld hnothing hold, htruthy⟩
  adoptItems middle target joined h htarget harray hjoined := by
    refine h.adoptItems htarget harray (fun id hid => ?_) fun slot hslot => ?_
    · obtain ⟨before, source, hbefore, hsource, hitem⟩ := hjoined _ hid
      exact hbefore.closed source id hsource (points_iff.mpr (.inr hitem))
    · obtain ⟨before, source, hbefore, -, hitem⟩ := hjoined slot hslot
      exact hbefore.regroups.items source slot hitem

/-- **The effect of a merge.** The merged graph is well formed, has the nodes and the root it had, and what the merged
nodes do not lead to is as it was. Every object is one still: its fields come first, under their names and in their
order, and each holds what it held, unless that was nothing and something has taken its place. -/
theorem merge_fills {g : Graph} (hg : g.WellFormed) (ids : List Nat) :
    (g.merge ids).WellFormed ∧ (g.merge ids).nodes.length = g.nodes.length ∧ (g.merge ids).root = g.root ∧
      (∀ id, (∀ start ∈ ids, ¬g.Reaches start id) → (g.merge ids).nodes[id]? = g.nodes[id]?) ∧
      ∀ id, (g.merge ids).isObject id = g.isObject id ∧
        (g.fields id).map Prod.fst <+: ((g.merge ids).fields id).map Prod.fst ∧
        ∀ name old, g.field? id name = some old →
          ∃ new, (g.merge ids).field? id name = some new ∧ (new = old ∨ old.truthy = false ∧ new.truthy = true) := by
  let inside (id : Nat) : Prop := ∃ start ∈ ids, g.Reaches start id
  have hclosed : ∀ a b, inside a → g.Points a b → inside b := fun a b ⟨start, hstart, hreach⟩ hpoints =>
    ⟨start, hstart, hreach.tail hpoints⟩
  have hself : ∀ id ∈ ids, inside id := fun id hid => ⟨id, hid, .refl⟩
  have hfills := (survives_fills hg inside).merge hself (.refl g) (.refl hclosed)
  refine ⟨hfills.regroups.wellFormed hg, hfills.regroups.size, hfills.regroups.root, fun id hid => ?_, fun id => ?_⟩
  · exact hfills.outside id fun ⟨start, hstart, hreach⟩ => hid start hstart hreach
  · exact ⟨hfills.regroups.isObject id, hfills.names id, hfills.fields id⟩

/-- The first of the merged objects holds itself, and neither leads to the third. -/
theorem merge_fills_cycle :
    let copies : Graph := ⟨[.object [("self", .node 0), ("n", .null), ("s", .text "a")],
      .object [("n", .value (.int 1)), ("s", .text "")], .object [("n", .null)]], .node 2⟩
    copies.WellFormed ∧ (copies.merge [0, 1]).nodes.length = 3 ∧ (copies.merge [0, 1]).nodes[2]? = copies.nodes[2]? ∧
      (copies.merge [0, 1]).field? 0 "self" = some (.node 0) := by
  intro copies
  have hg : copies.WellFormed := by decide
  obtain ⟨-, hsize, -, houtside, hobjects⟩ := merge_fills hg [0, 1]
  have hself : ∀ a b, copies.Points a b → b = 0 := by
    intro a b hpoints
    match a, hpoints with
    | 0, hpoints => exact List.mem_singleton.mp hpoints
    | 1, hpoints | 2, hpoints | _ + 3, hpoints => cases hpoints
  have hapart : ∀ start ∈ [0, 1], ¬copies.Reaches start 2 := by
    intro start hstart hreach
    rcases Relation.ReflTransGen.cases_tail hreach with hsame | ⟨last, -, hpoints⟩
    · rw [← hsame] at hstart
      exact absurd hstart (by decide)
    · cases hself last 2 hpoints
  obtain ⟨-, -, hfields⟩ := hobjects 0
  obtain ⟨new, hnew, hkept | ⟨hnothing, -⟩⟩ := hfields "self" (.node 0) rfl
  · exact ⟨hg, hsize, houtside 2 hapart, hkept ▸ hnew⟩
  · cases hnothing

end Dossier.Graph
