import Dossier.Proofs.Graph.Reach

/-!
Merging moves slots between the containers of a graph and makes none: every field of the merged graph was a
field of that name before, and every element of an array was an element of one. So whatever holds of all
fields and of all elements survives a merge, well-formedness first of all.
-/

namespace Dossier.Graph

/-- The other graph has the same containers, and in them nothing but fields and elements of the first. -/
structure Regroups (g next : Graph) : Prop where
  root : next.root = g.root
  size : next.nodes.length = g.nodes.length
  isObject : ∀ id, next.isObject id = g.isObject id
  fields : ∀ id field, field ∈ next.fields id → ∃ source, field ∈ g.fields source
  items : ∀ id slot, slot ∈ next.items id → ∃ source, slot ∈ g.items source
  names : (∀ id, ((g.fields id).map Prod.fst).Nodup) → ∀ id, ((next.fields id).map Prod.fst).Nodup

theorem Regroups.refl (g : Graph) : Regroups g g :=
  ⟨rfl, rfl, fun _ => rfl, fun id _ h => ⟨id, h⟩, fun id _ h => ⟨id, h⟩, id⟩

theorem Regroups.trans {g middle next : Graph} (h : Regroups g middle) (h' : Regroups middle next) :
    Regroups g next where
  root := h'.root.trans h.root
  size := h'.size.trans h.size
  isObject id := (h'.isObject id).trans (h.isObject id)
  fields id field hfield := by
    obtain ⟨source, hsource⟩ := h'.fields id field hfield
    exact h.fields source field hsource
  items id slot hslot := by
    obtain ⟨source, hsource⟩ := h'.items id slot hslot
    exact h.items source slot hsource
  names hnames := h'.names (h.names hnames)

theorem Regroups.isArray {g next : Graph} (h : Regroups g next) (id : Nat) : next.isArray id = g.isArray id := by
  have hsplit : ∀ g : Graph, g.isArray id = (decide (id < g.nodes.length) && !g.isObject id) := by
    intro g
    rw [Graph.isArray, Graph.isObject]
    by_cases hid : id < g.nodes.length
    · rw [List.getElem?_eq_getElem hid, decide_eq_true hid]
      cases g.nodes[id] <;> rfl
    · rw [List.getElem?_eq_none (Nat.not_lt.mp hid), decide_eq_false hid]
      rfl
  rw [hsplit, hsplit, h.size, h.isObject]

theorem objectCount_eq (g : Graph) : g.objectCount = (List.range g.nodes.length).countP g.isObject := by
  obtain ⟨counts, hcount, hobject, harray⟩ : ∃ counts : Node → Bool, g.objectCount = g.nodes.countP counts ∧
      (∀ fields, counts (.object fields) = true) ∧ ∀ items, counts (.array items) = false :=
    ⟨_, rfl, fun _ => rfl, fun _ => rfl⟩
  have hlist : (List.range g.nodes.length).map (g.nodes[·]?) = g.nodes.map some :=
    List.ext_getElem (by simp) fun k hk hk' => by simp
  have hany : g.isObject = Option.any counts ∘ (g.nodes[·]?) := by
    funext id
    rw [isObject, Function.comp_apply]
    cases g.nodes[id]? with
    | none => rfl
    | some node => cases node <;> simp [hobject, harray]
  rw [hcount, hany, ← List.countP_map, hlist, List.countP_map]
  rfl

theorem Regroups.objectCount {g next : Graph} (h : Regroups g next) : next.objectCount = g.objectCount := by
  rw [objectCount_eq, objectCount_eq, h.size]
  exact List.countP_congr fun id _ => by rw [h.isObject]

theorem wellFormed_iff {g : Graph} : g.WellFormed ↔
    g.root.Within g.nodes.length ∧ (∀ id, ((g.fields id).map Prod.fst).Nodup) ∧
      (∀ id, ∀ field ∈ g.fields id, field.2.Within g.nodes.length) ∧
      ∀ id, ∀ slot ∈ g.items id, slot.Within g.nodes.length := by
  constructor
  · intro hg
    refine ⟨hg.root, fun id => ?_, fun id field hfield => ?_, fun id slot hslot => ?_⟩
    · rw [fields]
      split
      · rename_i fields hnode
        exact (hg.nodes id _ hnode).names
      · exact List.nodup_nil
    · rw [fields] at hfield
      split at hfield
      · rename_i fields hnode
        exact (hg.nodes id _ hnode).slots _ (List.mem_map_of_mem (f := Prod.snd) hfield)
      · cases hfield
    · rw [items] at hslot
      split at hslot
      · rename_i items hnode
        exact (hg.nodes id _ hnode).slots _ hslot
      · cases hslot
  · rintro ⟨hroot, hnames, hfields, hitems⟩
    refine ⟨hroot, fun id node hnode => ?_⟩
    have hnames := hnames id
    have hfields := hfields id
    have hitems := hitems id
    rw [fields, hnode] at hnames hfields
    rw [items, hnode] at hitems
    cases node with
    | object fields =>
        refine ⟨hnames, fun slot hslot => ?_⟩
        obtain ⟨field, hfield, rfl⟩ := List.mem_map.mp hslot
        exact hfields field hfield
    | array items => exact ⟨List.nodup_nil, hitems⟩

theorem Regroups.wellFormed {g next : Graph} (h : Regroups g next) (hg : g.WellFormed) : next.WellFormed := by
  obtain ⟨hroot, hnames, hfields, hitems⟩ := wellFormed_iff.mp hg
  refine wellFormed_iff.mpr ⟨?_, h.names hnames, fun id field hfield => ?_, fun id slot hslot => ?_⟩
  · rw [h.root, h.size]
    exact hroot
  · obtain ⟨source, hsource⟩ := h.fields id field hfield
    rw [h.size]
    exact hfields source field hsource
  · obtain ⟨source, hsource⟩ := h.items id slot hslot
    rw [h.size]
    exact hitems source slot hsource

/-! ### Changes of one container -/

theorem isObject_iff {g : Graph} {id : Nat} :
    g.isObject id = true ↔ g.nodes[id]? = some (.object (g.fields id)) := by
  rw [isObject, fields]
  split <;> simp_all

theorem isArray_iff {g : Graph} {id : Nat} :
    g.isArray id = true ↔ g.nodes[id]? = some (.array (g.items id)) := by
  rw [isArray, items]
  split <;> simp_all

theorem getElem?_setNode {g : Graph} {id : Nat} {old : Node} (hold : g.nodes[id]? = some old) (node : Node)
    (other : Nat) : (g.setNode id node).nodes[other]? = if other = id then some node else g.nodes[other]? := by
  have hlt : id < g.nodes.length := (List.getElem?_eq_some_iff.mp hold).1
  by_cases hother : other = id
  · simp [setNode, hother, hlt]
  · simp [setNode, hother, Ne.symm hother]

theorem getElem?_setField {g : Graph} {id : Nat} (hobject : g.isObject id = true) (name : String) (slot : Slot)
    (other : Nat) : (g.setField id name slot).nodes[other]? =
      if other = id then some (.object (Node.assign name slot (g.fields id))) else g.nodes[other]? := by
  rw [setField, if_pos hobject]
  exact getElem?_setNode (isObject_iff.mp hobject) _ _

theorem setField_of_not_isObject {g : Graph} {id : Nat} (h : ¬g.isObject id = true) (name : String)
    (slot : Slot) : g.setField id name slot = g := if_neg h

theorem fields_setField {g : Graph} {id : Nat} (hobject : g.isObject id = true) (name : String) (slot : Slot)
    (other : Nat) : (g.setField id name slot).fields other =
      if other = id then Node.assign name slot (g.fields id) else g.fields other := by
  rw [fields, getElem?_setField hobject]
  by_cases hother : other = id
  · simp [hother]
  · simp [hother, fields]

theorem field?_setField {g : Graph} {id : Nat} (hobject : g.isObject id = true) (name : String) (slot : Slot)
    (other : Nat) (key : String) : (g.setField id name slot).field? other key =
      if other = id ∧ key = name then some slot else g.field? other key := by
  rw [field?, fields_setField hobject]
  by_cases hother : other = id
  · subst hother
    rw [if_pos rfl, Node.find?_assign]
    by_cases hkey : key = name
    · rw [if_pos hkey, if_pos ⟨rfl, hkey⟩]
    · rw [if_neg hkey, if_neg fun h => hkey h.2, field?]
  · rw [if_neg hother, if_neg fun h => hother h.1, field?]

theorem items_setField {g : Graph} {id : Nat} (hobject : g.isObject id = true) (name : String) (slot : Slot)
    (other : Nat) : (g.setField id name slot).items other = g.items other := by
  rw [items, getElem?_setField hobject]
  by_cases hother : other = id
  · simp [hother, items, isObject_iff.mp hobject]
  · simp [hother, items]

theorem isObject_setField {g : Graph} {id : Nat} (hobject : g.isObject id = true) (name : String) (slot : Slot)
    (other : Nat) : (g.setField id name slot).isObject other = g.isObject other := by
  rw [isObject, getElem?_setField hobject]
  by_cases hother : other = id
  · simp [hother, hobject]
  · simp [hother, isObject]

theorem fields_setArray {g : Graph} {id : Nat} (harray : g.isArray id = true) (slots : List Slot) (other : Nat) :
    (g.setNode id (.array slots)).fields other = g.fields other := by
  rw [fields, getElem?_setNode (isArray_iff.mp harray)]
  by_cases hother : other = id
  · simp [hother, fields, isArray_iff.mp harray]
  · simp [hother, fields]

theorem items_setArray {g : Graph} {id : Nat} (harray : g.isArray id = true) (slots : List Slot) (other : Nat) :
    (g.setNode id (.array slots)).items other = if other = id then slots else g.items other := by
  rw [items, getElem?_setNode (isArray_iff.mp harray)]
  by_cases hother : other = id
  · simp [hother]
  · simp [hother, items]

theorem isObject_setArray {g : Graph} {id : Nat} (harray : g.isArray id = true) (slots : List Slot)
    (other : Nat) : (g.setNode id (.array slots)).isObject other = g.isObject other := by
  rw [isObject, getElem?_setNode (isArray_iff.mp harray)]
  by_cases hother : other = id
  · simp [hother, isObject, isArray_iff.mp harray]
  · simp [hother, isObject]

/-- An object is given a field of the first graph. -/
theorem Regroups.setField {g next : Graph} (h : Regroups g next) {source : Nat} {name : String} {slot : Slot}
    (hfield : (name, slot) ∈ g.fields source) (id : Nat) : Regroups g (next.setField id name slot) := by
  by_cases hobject : next.isObject id = true
  · have hroot : (next.setField id name slot).root = next.root := root_put_slot _ _ (.field name) _
    have hsize : (next.setField id name slot).nodes.length = next.nodes.length :=
      length_put _ (.slot id (.field name)) _
    refine ⟨hroot.trans h.root, hsize.trans h.size, fun other => ?_, fun other field hother => ?_,
      fun other item hitem => ?_, fun hnames other => ?_⟩
    · rw [isObject_setField hobject, h.isObject]
    · rw [fields_setField hobject] at hother
      split at hother
      · rcases Node.mem_assign hother with rfl | hold
        · exact ⟨source, hfield⟩
        · exact h.fields id field hold
      · exact h.fields other field hother
    · rw [items_setField hobject] at hitem
      exact h.items other item hitem
    · rw [fields_setField hobject]
      split
      · exact Node.nodup_assign (h.names hnames id) name slot
      · exact h.names hnames other
  · rw [setField_of_not_isObject hobject]
    exact h

/-- An array is given elements of the first graph. -/
theorem Regroups.setArray {g next : Graph} (h : Regroups g next) {id : Nat} (harray : next.isArray id = true)
    {slots : List Slot} (hslots : ∀ slot ∈ slots, ∃ source, slot ∈ g.items source) :
    Regroups g (next.setNode id (.array slots)) := by
  refine ⟨h.root, (List.length_set ..).trans h.size, fun other => ?_, fun other field hother => ?_,
    fun other item hitem => ?_, fun hnames other => ?_⟩
  · rw [isObject_setArray harray, h.isObject]
  · rw [fields_setArray harray] at hother
    exact h.fields other field hother
  · rw [items_setArray harray] at hitem
    split at hitem
    · exact hslots item hitem
    · exact h.items other item hitem
  · rw [fields_setArray harray]
    exact h.names hnames other

/-! ### Merging -/

theorem Regroups.adopt {g next : Graph} (h : Regroups g next) {source : Nat} {name : String} {slot : Slot}
    (hfield : (name, slot) ∈ g.fields source) (target : Nat) : Regroups g (next.adopt target name slot) := by
  rw [Graph.adopt]
  split
  · exact h
  · exact h.setField hfield target

theorem mem_of_field? {g : Graph} {id : Nat} {name : String} {slot : Slot} (h : g.field? id name = some slot) :
    (name, slot) ∈ g.fields id := Node.mem_of_find? h

theorem mem_joinedItems {g : Graph} {x y : Nat} {slot : Slot} (h : slot ∈ g.joinedItems x y) :
    slot ∈ g.items x ∨ slot ∈ g.items y := by
  have hfold : ∀ (more joined : List Slot), slot ∈ more.foldl
      (fun joined item => if joined.any (g.sameElement · item) then joined else joined ++ [item]) joined →
      slot ∈ joined ∨ slot ∈ more := by
    intro more
    induction more with
    | nil => exact fun _ h => .inl h
    | cons item more ih =>
        intro joined hmem
        rcases ih _ hmem with hjoined | hmore
        · dsimp only at hjoined
          split at hjoined
          · exact .inl hjoined
          · rcases List.mem_append.mp hjoined with hold | hitem
            · exact .inl hold
            · exact .inr (List.mem_singleton.mp hitem ▸ List.mem_cons_self)
        · exact .inr (List.mem_cons_of_mem _ hmore)
  exact hfold _ _ h

theorem prefix_joinedItems (g : Graph) (x y : Nat) : g.items x <+: g.joinedItems x y := by
  have hfold : ∀ more joined : List Slot, joined <+: more.foldl
      (fun joined item => if joined.any (g.sameElement · item) then joined else joined ++ [item]) joined := by
    intro more
    induction more with
    | nil => exact fun _ => List.prefix_rfl
    | cons item more ih =>
        intro joined
        refine .trans ?_ (ih _)
        dsimp only
        split
        · exact List.prefix_rfl
        · exact List.prefix_append _ _
  exact hfold _ _

/-- Joining with elements that are there already adds nothing. -/
theorem joinedItems_of_any {g : Graph} {x y : Nat}
    (h : ∀ item ∈ g.items y, (g.items x).any (g.sameElement · item) = true) : g.joinedItems x y = g.items x := by
  have hfold : ∀ more : List Slot, (∀ item ∈ more, (g.items x).any (g.sameElement · item) = true) →
      more.foldl (fun joined item => if joined.any (g.sameElement · item) then joined else joined ++ [item])
        (g.items x) = g.items x := by
    intro more
    induction more with
    | nil => exact fun _ => rfl
    | cons item more ih =>
        intro hmore
        rw [List.foldl_cons, if_pos (hmore item List.mem_cons_self)]
        exact ih fun other hother => hmore other (List.mem_cons_of_mem _ hother)
  exact hfold _ h

theorem Regroups.adoptItems {g next : Graph} (h : Regroups g next) {target : Nat}
    (harray : next.isArray target = true) {joined : List Slot}
    (hjoined : ∀ slot ∈ joined, ∃ source, slot ∈ g.items source) : Regroups g (next.adoptItems target joined) :=
  h.setArray harray fun slot hslot => hjoined slot (List.mem_of_mem_filter hslot)

theorem isArray_adoptItems {g : Graph} {target : Nat} (harray : g.isArray target = true) (joined : List Slot)
    {other : Nat} (hother : g.isArray other = true) : (g.adoptItems target joined).isArray other = true := by
  rw [adoptItems, isArray, getElem?_setNode (isArray_iff.mp harray)]
  by_cases heq : other = target
  · simp [heq]
  · simpa [heq, isArray] using hother

theorem Regroups.settle {unite : Nat → Nat → Graph → Graph} (hunite : ∀ x y g, Regroups g (unite x y g))
    {g next : Graph} (h : Regroups g next) {a b : Nat} {name : String} {left right : Slot}
    (hleft : ∃ source, (name, left) ∈ g.fields source) (hright : ∃ source, (name, right) ∈ g.fields source) :
    Regroups g (next.settle unite a b name left right) := by
  obtain ⟨l, hleft⟩ := hleft
  obtain ⟨r, hright⟩ := hright
  unfold Graph.settle
  split
  · exact h.adopt hright a
  · exact h.adopt hleft b
  · exact h
  · split
    · rename_i x y _ _
      split
      · rename_i harrays
        obtain ⟨hx, hy⟩ := Bool.and_eq_true_iff.mp harrays
        have hjoined : ∀ slot ∈ next.joinedItems x y, ∃ source, slot ∈ g.items source := fun slot hslot =>
          (mem_joinedItems hslot).elim (h.items x slot) (h.items y slot)
        exact (h.adoptItems hx hjoined).adoptItems (isArray_adoptItems hx _ hy) hjoined
      · split
        · split
          · exact h.trans (hunite x y next)
          · exact h
        · exact h
    · exact h

theorem Regroups.offer {unite : Nat → Nat → Graph → Graph} (hunite : ∀ x y g, Regroups g (unite x y g))
    {g next : Graph} (h : Regroups g next) {a b : Nat} {field : String × Slot}
    (hfield : ∃ source, field ∈ g.fields source) : Regroups g (next.offer unite a b field) := by
  unfold Graph.offer
  split
  · obtain ⟨source, hsource⟩ := hfield
    exact h.adopt hsource a
  · rename_i existing hexisting
    split
    · exact h
    · exact h.settle hunite (h.fields a _ (mem_of_field? hexisting)) hfield

theorem Regroups.complete {g next : Graph} (h : Regroups g next) {field : String × Slot}
    (hfield : ∃ source, field ∈ g.fields source) (b : Nat) : Regroups g (Graph.complete b next field) := by
  unfold Graph.complete
  split
  · obtain ⟨source, hsource⟩ := hfield
    exact h.adopt hsource b
  · exact h

theorem Regroups.foldl {α : Type} {step : Graph → α → Graph} {g next : Graph} {l : List α}
    (hstep : ∀ a ∈ l, ∀ middle, Regroups g middle → Regroups g (step middle a)) (h : Regroups g next) :
    Regroups g (l.foldl step next) := by
  induction l generalizing next with
  | nil => exact h
  | cons a l ih =>
      exact ih (fun b hb => hstep b (List.mem_cons_of_mem _ hb)) (hstep a List.mem_cons_self next h)

theorem regroups_unite (depth : Nat) (active : List (Nat × Nat)) (a b : Nat) (g : Graph) :
    Regroups g (unite depth active a b g) := by
  induction depth generalizing active a b g with
  | zero => exact .refl g
  | succ depth ih =>
      rw [unite]
      split
      · exact .refl g
      · have hoffered : Regroups g ((g.fields b).foldl (offer (unite depth ((a, b) :: active)) a b) g) :=
          .foldl (fun field hfield middle h => h.offer (ih ((a, b) :: active)) ⟨b, hfield⟩) (.refl g)
        exact .foldl (fun field hfield middle h => h.complete (hoffered.fields a field hfield) b) hoffered

theorem regroups_merge (g : Graph) (group : List Nat) : Regroups g (g.merge group) := by
  have hpass : ∀ first others (g : Graph), Regroups g (mergePass first others g) := fun first others g =>
    .foldl (fun other _ middle h => h.trans (regroups_unite _ _ _ _ _)) (.refl g)
  cases group with
  | nil => exact .refl g
  | cons first others => exact (hpass first others g).trans (hpass first others _)

theorem regroups_unified (g : Graph) : Regroups g g.unified :=
  .foldl (fun group _ middle h => h.trans (regroups_merge middle group)) (.refl g)

end Dossier.Graph
