import Dossier.Proofs.Graph.Regroup

/-!
Copies of one entity, while they are merged. Every container that fields lead to from a copy stands at one path
of names, whichever copies hold it by now; the front is what fields lead to from the first copy. Main statements:
nothing that is handed over leads back to whom it is given, and each change of a union grows the front, changes
the other copy at will and leaves the rest of the other copies alone.
-/

namespace Dossier.Graph

/-- Where nodes stand in their copies, and in which copies they were loaded. Elements of arrays, and all that
is below them, stand nowhere. -/
structure Layout where
  place : Nat → Option (List String)
  copy : Nat → Nat

/-- The nodes that fields lead to from the first copy. -/
inductive Front (g : Graph) (first : Nat) : Nat → Prop
  | first : Front g first first
  | field {id target : Nat} {name : String} :
      Front g first id → (name, .node target) ∈ g.fields id → Front g first target

/-- The nodes of the graph stand where the layout has them, and what a copy holds is its own or in front. -/
structure Laid (layout : Layout) (first : Nat) (g : Graph) : Prop where
  names : ∀ id, ((g.fields id).map Prod.fst).Nodup
  root : layout.place first = some []
  field : ∀ {id target : Nat} {name : String}, (name, .node target) ∈ g.fields id →
    layout.place target = (layout.place id).map (· ++ [name])
  item : ∀ {id target : Nat}, .node target ∈ g.items id → layout.place target = none
  kin : ∀ {id target : Nat} {name : String}, (name, .node target) ∈ g.fields id →
    layout.copy target = layout.copy id ∨ g.Front first target

variable {layout : Layout} {first copy : Nat} {path : List String} {g middle next : Graph}

theorem mem_fields_iff (hnames : ∀ id, ((g.fields id).map Prod.fst).Nodup) {id : Nat} {name : String}
    {slot : Slot} : (name, slot) ∈ g.fields id ↔ g.field? id name = some slot :=
  ⟨Node.find?_of_mem (hnames id), mem_of_field?⟩

theorem Front.exists_place (hlaid : Laid layout first g) {id : Nat} (h : g.Front first id) :
    ∃ path, layout.place id = some path := by
  induction h with
  | first => exact ⟨[], hlaid.root⟩
  | field _ hfield ih =>
      obtain ⟨path, hpath⟩ := ih
      exact ⟨_, (hlaid.field hfield).trans (by rw [hpath]; rfl)⟩

/-- The nodes in front are told apart by where they stand. -/
theorem Front.eq_of_place (hlaid : Laid layout first g) {a b : Nat} (ha : g.Front first a)
    (hb : g.Front first b) (h : layout.place a = layout.place b) : a = b := by
  have hdeep : ∀ {id target : Nat} {name : String}, g.Front first id → (name, .node target) ∈ g.fields id →
      layout.place target ≠ layout.place first := by
    intro id target name hid hfield
    obtain ⟨path, hpath⟩ := hid.exists_place hlaid
    rw [hlaid.field hfield, hpath, hlaid.root]
    simp
  induction ha generalizing b with
  | first =>
      cases hb with
      | first => rfl
      | field hid hfield => exact absurd h.symm (hdeep hid hfield)
  | @field id target name hid hfield ih =>
      cases hb with
      | first => exact absurd h (hdeep hid hfield)
      | @field id' _ name' hid' hfield' =>
          obtain ⟨path, hpath⟩ := hid.exists_place hlaid
          obtain ⟨path', hpath'⟩ := hid'.exists_place hlaid
          rw [hlaid.field hfield, hlaid.field hfield', hpath, hpath', Option.map_some, Option.map_some,
            Option.some_inj] at h
          obtain ⟨rfl, hname⟩ := List.append_inj' h rfl
          obtain rfl := List.singleton_inj.mp hname
          obtain rfl := ih hid' (hpath.trans hpath'.symm)
          rw [mem_fields_iff hlaid.names] at hfield hfield'
          cases hfield.symm.trans hfield'
          rfl

/-! ### Nothing leads back -/

theorem Laid.place_of_points (hlaid : Laid layout first g) {a b : Nat} (h : g.Points a b) :
    layout.place b = none ∨ ∃ name, layout.place b = (layout.place a).map (· ++ [name]) := by
  obtain ⟨node, hnode, hslot⟩ := exists_slot_of_points h
  cases node with
  | object fields =>
      obtain ⟨⟨name, slot⟩, hfield, rfl⟩ := List.mem_map.mp hslot
      have hmem : (name, Slot.node b) ∈ g.fields a := by rw [Graph.fields, hnode]; exact hfield
      exact .inr ⟨name, hlaid.field hmem⟩
  | array items =>
      have hmem : Slot.node b ∈ g.items a := by rw [Graph.items, hnode]; exact hslot
      exact .inl (hlaid.item hmem)

/-- What stands nowhere leads to what stands nowhere. -/
theorem Laid.place_of_reaches_none (hlaid : Laid layout first g) {a b : Nat} (h : g.Reaches a b)
    (hplace : layout.place a = none) : layout.place b = none := by
  induction h with
  | refl => exact hplace
  | tail _ hpoints ih =>
      rcases hlaid.place_of_points hpoints with hnone | ⟨name, hname⟩
      · exact hnone
      · rw [hname, ih]
        rfl

/-- What stands at a path leads to what stands further down. -/
theorem Laid.place_of_reaches (hlaid : Laid layout first g) {a b : Nat} (h : g.Reaches a b)
    (hplace : layout.place a = some path) : layout.place b = none ∨ ∃ rest, layout.place b = some (path ++ rest) := by
  induction h with
  | refl => exact .inr ⟨[], hplace.trans (by rw [List.append_nil])⟩
  | tail _ hpoints ih =>
      rcases hlaid.place_of_points hpoints with hnone | ⟨name, hname⟩
      · exact .inl hnone
      · rcases ih with hbefore | ⟨rest, hbefore⟩ <;> rw [hname, hbefore]
        · exact .inl rfl
        · exact .inr ⟨rest ++ [name], by rw [Option.map_some, List.append_assoc]⟩

theorem deeper_ne {name : String} {rest : List String} : some path ≠ some (path ++ name :: rest) := by
  rw [ne_eq, Option.some_inj, List.self_eq_append_right]
  exact List.cons_ne_nil name rest

/-- What another node at the same path holds is handed over. -/
theorem adopt_eq (hlaid : Laid layout first g) {a b : Nat} {name : String} {slot : Slot}
    (hfield : (name, slot) ∈ g.fields b) (ha : layout.place a = some path) (hb : layout.place b = some path) :
    g.adopt a name slot = g.setField a name slot := by
  have hapart : ¬g.leadsTo slot a = true := by
    intro hleads
    obtain ⟨id, rfl, hreach⟩ := leadsTo_iff.mp hleads
    have hplace : layout.place id = some (path ++ [name]) := (hlaid.field hfield).trans (by rw [hb]; rfl)
    rcases hlaid.place_of_reaches hreach hplace with hnone | ⟨rest, hrest⟩
    · cases ha.symm.trans hnone
    · rw [List.append_assoc] at hrest
      exact deeper_ne (ha.symm.trans hrest)
  rw [adopt, if_neg hapart]

/-- Elements of arrays are handed over to any array that stands somewhere. -/
theorem adoptItems_eq (hlaid : Laid layout first g) {target : Nat} (htarget : layout.place target = some path)
    {joined : List Slot} (hjoined : ∀ slot ∈ joined, ∃ source, slot ∈ g.items source) :
    g.adoptItems target joined = g.setNode target (.array joined) := by
  have hapart : ∀ slot ∈ joined, g.leadsTo slot target = false := by
    intro slot hslot
    refine Bool.eq_false_iff.mpr fun hleads => ?_
    obtain ⟨id, rfl, hreach⟩ := leadsTo_iff.mp hleads
    obtain ⟨source, hsource⟩ := hjoined _ hslot
    cases htarget.symm.trans (hlaid.place_of_reaches_none hreach (hlaid.item hsource))
  have hkept : joined.filter (fun item =>
      (g.items target).any (·.same item) || !g.leadsTo item target) = joined := by
    refine List.filter_eq_self.mpr fun item hitem => ?_
    rw [hapart item hitem]
    exact Bool.or_true _
  unfold adoptItems
  dsimp only
  rw [hkept]

/-! ### Advances -/

/-- What is there of a node stays there, and more may come. -/
structure Grown (g next : Graph) (id : Nat) : Prop where
  field : ∀ name slot, g.field? id name = some slot →
    ∃ kept, next.field? id name = some kept ∧ (slot.truthy = true → kept = slot)
  items : g.items id <+: next.items id

/-- Changes at a path and below, by which the front grows and takes over parts of one copy. Of the other copies
nothing changes but what is in front. -/
structure Advances (layout : Layout) (first copy : Nat) (path : List String) (g next : Graph) : Prop where
  regroups : Regroups g next
  laid : Laid layout first next
  frame : ∀ id, (∀ rest, layout.place id ≠ some (path ++ rest)) → next.nodes[id]? = g.nodes[id]?
  others : ∀ id, ¬g.Front first id → layout.copy id ≠ copy → next.nodes[id]? = g.nodes[id]?
  grown : ∀ id, g.Front first id → Grown g next id
  front : ∀ id, next.Front first id → g.Front first id ∨ layout.copy id = copy

theorem fields_congr {id : Nat} (h : next.nodes[id]? = g.nodes[id]?) : next.fields id = g.fields id := by
  rw [Graph.fields, h, Graph.fields]

theorem items_congr {id : Nat} (h : next.nodes[id]? = g.nodes[id]?) : next.items id = g.items id := by
  rw [Graph.items, h, Graph.items]

theorem field?_congr {id : Nat} (h : next.nodes[id]? = g.nodes[id]?) (name : String) :
    next.field? id name = g.field? id name := by rw [field?, fields_congr h, field?]

theorem Grown.of_eq {id : Nat} (h : next.nodes[id]? = g.nodes[id]?) : Grown g next id :=
  ⟨fun name slot hslot => ⟨slot, (field?_congr h name).trans hslot, fun _ => rfl⟩, items_congr h ▸ List.prefix_rfl⟩

theorem Grown.trans {id : Nat} (h : Grown g middle id) (h' : Grown middle next id) : Grown g next id := by
  refine ⟨fun name slot hslot => ?_, h.items.trans h'.items⟩
  obtain ⟨kept, hkept, hsame⟩ := h.field name slot hslot
  obtain ⟨last, hlast, hsame'⟩ := h'.field name kept hkept
  refine ⟨last, hlast, fun htruthy => ?_⟩
  obtain rfl := hsame htruthy
  exact hsame' htruthy

/-- What is in front stays in front. -/
theorem Front.of_grown (hnames : ∀ id, ((g.fields id).map Prod.fst).Nodup)
    (hgrown : ∀ id, g.Front first id → Grown g next id) {id : Nat} (h : g.Front first id) :
    next.Front first id := by
  induction h with
  | first => exact .first
  | field hid hfield ih =>
      obtain ⟨kept, hkept, hsame⟩ := (hgrown _ hid).field _ _ ((mem_fields_iff hnames).mp hfield)
      obtain rfl := hsame rfl
      exact .field ih (mem_of_field? hkept)

namespace Advances

theorem refl (hlaid : Laid layout first g) : Advances layout first copy path g g :=
  ⟨.refl g, hlaid, fun _ _ => rfl, fun _ _ _ => rfl, fun _ _ => .of_eq rfl, fun _ h => .inl h⟩

theorem front_mono (hlaid : Laid layout first g) (h : Advances layout first copy path g next) {id : Nat}
    (hid : g.Front first id) : next.Front first id := hid.of_grown hlaid.names h.grown

theorem trans (hlaid : Laid layout first g) (h : Advances layout first copy path g middle)
    (h' : Advances layout first copy path middle next) : Advances layout first copy path g next where
  regroups := h.regroups.trans h'.regroups
  laid := h'.laid
  frame id hid := (h'.frame id hid).trans (h.frame id hid)
  others id hid hcopy :=
    (h'.others id (fun hfront => (h.front id hfront).elim hid hcopy) hcopy).trans (h.others id hid hcopy)
  grown id hid := (h.grown id hid).trans (h'.grown id (h.front_mono hlaid hid))
  front id hid := (h'.front id hid).elim (h.front id) .inr

/-- Changes further down are changes at the path. -/
theorem widen {name : String} (h : Advances layout first copy (path ++ [name]) g next) :
    Advances layout first copy path g next where
  regroups := h.regroups
  laid := h.laid
  frame id hid := h.frame id fun rest => by
    rw [List.append_assoc]
    exact hid _
  others := h.others
  grown := h.grown
  front := h.front

/-- What stands nowhere is left alone. -/
theorem inert (h : Advances layout first copy path g next) {id : Nat} (hid : layout.place id = none) :
    next.nodes[id]? = g.nodes[id]? := h.frame id fun rest hrest => by cases hid.symm.trans hrest

/-- Changes further down leave alone what stands at the path. -/
theorem at_path {name : String} (h : Advances layout first copy (path ++ [name]) g next) {id : Nat}
    (hid : layout.place id = some path) : next.nodes[id]? = g.nodes[id]? := by
  refine h.frame id fun rest hrest => ?_
  rw [List.append_assoc] at hrest
  exact deeper_ne (hid.symm.trans hrest)

end Advances

/-! ### Changes of one field -/

theorem getElem?_setField_of_ne {id other : Nat} (hother : other ≠ id) (name : String) (slot : Slot) :
    (g.setField id name slot).nodes[other]? = g.nodes[other]? := by
  by_cases hobject : g.isObject id = true
  · rw [getElem?_setField hobject, if_neg hother]
  · rw [setField_of_not_isObject hobject]

theorem mem_fields_setField {id other : Nat} {name : String} {slot : Slot} {field : String × Slot}
    (h : field ∈ (g.setField id name slot).fields other) :
    (other = id ∧ field = (name, slot)) ∨ field ∈ g.fields other := by
  by_cases hobject : g.isObject id = true
  · rw [fields_setField hobject] at h
    split at h
    · rename_i hother
      rcases Node.mem_assign h with heq | hold
      · exact .inl ⟨hother, heq⟩
      · exact .inr (hother ▸ hold)
    · exact .inr h
  · rw [setField_of_not_isObject hobject] at h
    exact .inr h

/-- The graph is laid out after a node has been given what another one holds at the same path. -/
theorem Laid.setField (hlaid : Laid layout first g) {target source : Nat} {name : String} {slot : Slot}
    (hfield : (name, slot) ∈ g.fields source) (hplace : layout.place target = layout.place source)
    (hmono : ∀ id, g.Front first id → (g.setField target name slot).Front first id)
    (hfront : ∀ id, slot = .node id → (g.setField target name slot).Front first id) :
    Laid layout first (g.setField target name slot) where
  names := ((Regroups.refl g).setField hfield target).names hlaid.names
  root := hlaid.root
  field {id other key} hmem := by
    rcases mem_fields_setField hmem with ⟨rfl, heq⟩ | hold
    · cases heq
      rw [hlaid.field hfield, hplace]
    · exact hlaid.field hold
  item {id other} hitem := by
    obtain ⟨source, hsource⟩ := ((Regroups.refl g).setField hfield target).items id _ hitem
    exact hlaid.item hsource
  kin {id other key} hmem := by
    rcases mem_fields_setField hmem with ⟨rfl, heq⟩ | hold
    · cases heq
      exact .inr (hfront other rfl)
    · exact (hlaid.kin hold).imp_right (hmono other)

/-- A node in front is given what the other copy holds at its place, in the stead of nothing. -/
theorem advances_setField_front (hlaid : Laid layout first g) {a b : Nat} (ha : g.Front first a)
    (hobject : g.isObject a = true) (hplace : layout.place a = some path) (hplace' : layout.place b = some path)
    (hcopy : layout.copy b = copy) {name : String} {slot : Slot} (hfield : (name, slot) ∈ g.fields b)
    (hnothing : ∀ old, g.field? a name = some old → old.truthy = false) :
    Advances layout first copy path g (g.setField a name slot) := by
  have hgrown : ∀ id, g.Front first id → Grown g (g.setField a name slot) id := by
    intro id _
    refine ⟨fun key old hold => ?_, by rw [items_setField hobject]⟩
    rw [field?_setField hobject]
    split
    · rename_i hself
      refine ⟨slot, rfl, fun htruthy => ?_⟩
      rw [hnothing old (hself.1 ▸ hself.2 ▸ hold)] at htruthy
      cases htruthy
    · exact ⟨old, hold, fun _ => rfl⟩
  have hmono : ∀ id, g.Front first id → (g.setField a name slot).Front first id :=
    fun _ => Front.of_grown hlaid.names hgrown
  have hmem : (name, slot) ∈ (g.setField a name slot).fields a :=
    mem_of_field? ((field?_setField hobject name slot a name).trans (if_pos ⟨rfl, rfl⟩))
  refine ⟨(Regroups.refl g).setField hfield a, ?_, fun id hid => ?_, fun id hid _ => ?_, hgrown, fun id hid => ?_⟩
  · exact hlaid.setField hfield (hplace.trans hplace'.symm) hmono fun id hid => by
      subst hid
      exact .field (hmono a ha) hmem
  · refine getElem?_setField_of_ne ?_ name slot
    rintro rfl
    exact hid [] (by rw [hplace, List.append_nil])
  · refine getElem?_setField_of_ne ?_ name slot
    rintro rfl
    exact hid ha
  · -- what comes into front was in front, or it belongs to the other copy
    induction hid with
    | first => exact .inl .first
    | field _ hnew ih =>
        have hkin : ∀ {id target : Nat} {key : String}, (key, .node target) ∈ g.fields id →
            layout.copy id = copy → g.Front first target ∨ layout.copy target = copy :=
          fun hold hid => (hlaid.kin hold).symm.imp_right fun h => h.trans hid
        rcases mem_fields_setField hnew with ⟨-, heq⟩ | hold
        · cases heq
          exact hkin hfield hcopy
        · exact ih.elim (fun hfront => .inl (.field hfront hold)) (hkin hold)

/-- A node of the other copy is given what the front holds at its place. -/
theorem advances_setField_copy (hlaid : Laid layout first g) {a b : Nat} (ha : g.Front first a)
    (hb : ¬g.Front first b) (hplace : layout.place a = some path) (hplace' : layout.place b = some path)
    (hcopy : layout.copy b = copy) {name : String} {slot : Slot} (hfield : (name, slot) ∈ g.fields a) :
    Advances layout first copy path g (g.setField b name slot) := by
  have hother : ∀ id, id ≠ b → (g.setField b name slot).nodes[id]? = g.nodes[id]? :=
    fun id hid => getElem?_setField_of_ne hid name slot
  have hfront : ∀ id, g.Front first id → (g.setField b name slot).nodes[id]? = g.nodes[id]? := by
    intro id hid
    refine hother id ?_
    rintro rfl
    exact hb hid
  have hgrown : ∀ id, g.Front first id → Grown g (g.setField b name slot) id := fun id hid => .of_eq (hfront id hid)
  have hmono : ∀ id, g.Front first id → (g.setField b name slot).Front first id :=
    fun _ => Front.of_grown hlaid.names hgrown
  refine ⟨(Regroups.refl g).setField hfield b, ?_, fun id hid => hother id ?_, fun id _ hid => hother id ?_,
    hgrown, fun id hid => .inl ?_⟩
  · exact hlaid.setField hfield (hplace'.trans hplace.symm) hmono fun id hid => by
      subst hid
      exact hmono id (.field ha hfield)
  · rintro rfl
    exact hid [] (by rw [hplace', List.append_nil])
  · rintro rfl
    exact hid hcopy
  · induction hid with
    | first => exact .first
    | field _ hnew ih =>
        rw [fields_congr (hfront _ ih)] at hnew
        exact .field ih hnew

/-! ### Changes of arrays -/

theorem front_congr (hfields : ∀ id, next.fields id = g.fields id) {id : Nat} :
    next.Front first id ↔ g.Front first id := by
  constructor <;> intro h
  · induction h with
    | first => exact .first
    | field _ hfield ih => exact .field ih (hfields _ ▸ hfield)
  · induction h with
    | first => exact .first
    | field _ hfield ih => exact .field ih ((hfields _).symm ▸ hfield)

/-- The graph stays laid out as long as all its fields stay. -/
theorem Laid.regroup (hlaid : Laid layout first g) (hregroups : Regroups g next)
    (hfields : ∀ id, next.fields id = g.fields id) : Laid layout first next where
  names := hregroups.names hlaid.names
  root := hlaid.root
  field hmem := hlaid.field (hfields _ ▸ hmem)
  item {id target} hitem := by
    obtain ⟨source, hsource⟩ := hregroups.items id _ hitem
    exact hlaid.item hsource
  kin hmem := (hlaid.kin (hfields _ ▸ hmem)).imp_right (front_congr hfields).mpr

/-- The graph with the same elements in both arrays. -/
def join (g : Graph) (x y : Nat) (joined : List Slot) : Graph :=
  (g.setNode x (.array joined)).setNode y (.array joined)

section

variable {x y : Nat} (hx : g.isArray x = true) (hy : g.isArray y = true) (joined : List Slot)

include hx hy

theorem getElem?_join (id : Nat) : (g.join x y joined).nodes[id]? =
    if id = x ∨ id = y then some (.array joined) else g.nodes[id]? := by
  obtain ⟨old, hold⟩ : ∃ old, (g.setNode x (.array joined)).nodes[y]? = some old := by
    rw [getElem?_setNode (isArray_iff.mp hx)]
    split
    · exact ⟨_, rfl⟩
    · exact ⟨_, isArray_iff.mp hy⟩
  rw [join, getElem?_setNode hold, getElem?_setNode (isArray_iff.mp hx)]
  by_cases hidx : id = x <;> by_cases hidy : id = y <;> simp [hidx, hidy]

theorem fields_join (id : Nat) : (g.join x y joined).fields id = g.fields id := by
  rw [fields, getElem?_join hx hy, fields]
  by_cases hid : id = x ∨ id = y
  · have harray : g.isArray id = true := by rcases hid with rfl | rfl <;> assumption
    rw [if_pos hid, isArray_iff.mp harray]
  · rw [if_neg hid]

theorem items_join {id : Nat} (hid : id = x ∨ id = y) : (g.join x y joined).items id = joined := by
  rw [items, getElem?_join hx hy, if_pos hid]

theorem regroups_join {joined : List Slot} (hjoined : ∀ slot ∈ joined, ∃ source, slot ∈ g.items source) :
    Regroups g (g.join x y joined) := by
  have hfirst := (Regroups.refl g).setArray hx hjoined
  exact hfirst.setArray ((hfirst.isArray y).trans hy) hjoined

end

/-- Two arrays that stand somewhere take over all the elements they are offered. -/
theorem adoptItems_both (hlaid : Laid layout first g) {x y : Nat} (hxarray : g.isArray x = true)
    (hplace : layout.place x = some path) (hplace' : layout.place y = some path) {joined : List Slot}
    (hjoined : ∀ slot ∈ joined, ∃ source, slot ∈ g.items source) :
    (g.adoptItems x joined).adoptItems y joined = g.join x y joined := by
  have hlaid' := hlaid.regroup ((Regroups.refl g).setArray hxarray hjoined) fun id => fields_setArray hxarray joined id
  rw [adoptItems_eq hlaid hplace hjoined, adoptItems_eq hlaid' hplace' fun slot hslot => ⟨x, ?_⟩, join]
  rw [items_setArray hxarray, if_pos rfl]
  exact hslot

/-- An array in front and one of the other copy at its place are both given all their elements. -/
theorem advances_join (hlaid : Laid layout first g) {x y : Nat} (hx : g.Front first x) (hy : ¬g.Front first y)
    (hxarray : g.isArray x = true) (hyarray : g.isArray y = true) (hplace : layout.place x = some path)
    (hplace' : layout.place y = some path) (hcopy : layout.copy y = copy) {joined : List Slot}
    (hgrows : g.items x <+: joined) (hjoined : ∀ slot ∈ joined, ∃ source, slot ∈ g.items source) :
    Advances layout first copy path g (g.join x y joined) := by
  have hregroups := regroups_join hxarray hyarray hjoined
  have hfields := fields_join hxarray hyarray joined
  have hother : ∀ id, id ≠ x → id ≠ y → (g.join x y joined).nodes[id]? = g.nodes[id]? := fun id hidx hidy => by
    rw [getElem?_join hxarray hyarray, if_neg (not_or.mpr ⟨hidx, hidy⟩)]
  refine ⟨hregroups, hlaid.regroup hregroups hfields, fun id hid => hother id ?_ ?_,
    fun id hid hidcopy => hother id ?_ ?_, fun id hid => ⟨?_, ?_⟩, fun id hid => .inl ((front_congr hfields).mp hid)⟩
  · rintro rfl
    exact hid [] (by rw [hplace, List.append_nil])
  · rintro rfl
    exact hid [] (by rw [hplace', List.append_nil])
  · rintro rfl
    exact hid hx
  · rintro rfl
    exact hidcopy hcopy
  · intro name slot hslot
    exact ⟨slot, by rw [field?, hfields]; exact hslot, fun _ => rfl⟩
  · by_cases hidx : id = x
    · rw [items_join hxarray hyarray joined (.inl hidx), hidx]
      exact hgrows
    · have hidy : id ≠ y := by
        rintro rfl
        exact hy hid
      rw [items_congr (hother id hidx hidy)]

end Dossier.Graph
