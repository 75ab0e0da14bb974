import Dossier.Proofs.Graph.Owned

/-!
What two joined arrays list. Elements with one identity count as one, and the first of them stands for all; but no array
is given an element that leads to it. So an array can lose its own element to one that it does not get:
**`enlists_joinArrays`**.
-/

namespace Dossier.Graph

variable {g : Graph} {x y : Nat} {identity : String}

/-- An element of the array has the identity. -/
def Enlists (g : Graph) (array : Nat) (identity : String) : Prop :=
  ∃ element, Slot.node element ∈ g.items array ∧ g.identity? element = some identity

/-- The graph with two arrays joined. -/
def joinArrays (g : Graph) (x y : Nat) : Graph :=
  (g.adoptItems x (g.joinedItems x y)).adoptItems y (g.joinedItems x y)

/-! ### Joined elements -/

/-- What counts as one with an object that has an identity is an object with this identity. -/
theorem sameElement_identity_iff {element : Nat} (hidentity : g.identity? element = some identity) {slot : Slot} :
    g.sameElement slot (.node element) = true ↔ ∃ id, slot = .node id ∧ g.identity? id = some identity := by
  cases slot with
  | value value => simp [sameElement]
  | node id =>
      rw [sameElement, hidentity, Bool.or_eq_true_iff, beq_iff_eq]
      constructor
      · rintro (rfl | hsame)
        · exact ⟨id, rfl, hidentity⟩
        · cases hid : g.identity? id with
          | none => rw [hid] at hsame; cases hsame
          | some text =>
              rw [hid] at hsame
              exact ⟨id, rfl, hid.trans (congrArg some (beq_iff_eq.mp hsame))⟩
      · rintro ⟨other, heq, hother⟩
        cases heq
        rw [hother]
        exact .inr (beq_self_eq_true identity)

/-- What is joined stands in the first array, or in the other one and counts as none of the first. -/
theorem mem_joinedItems_cases {slot : Slot} (h : slot ∈ g.joinedItems x y) :
    slot ∈ g.items x ∨ slot ∈ g.items y ∧ (g.items x).any (g.sameElement · slot) = false := by
  have hfold : ∀ more joined : List Slot, (∀ first ∈ g.items x, first ∈ joined) →
      slot ∈ more.foldl (fun joined item => if joined.any (g.sameElement · item) then joined else joined ++ [item])
        joined → slot ∈ joined ∨ slot ∈ more ∧ (g.items x).any (g.sameElement · slot) = false := by
    intro more
    induction more with
    | nil => exact fun _ _ h => .inl h
    | cons item more ih =>
        intro joined hfirst hmem
        rw [List.foldl_cons] at hmem
        split at hmem
        · exact (ih joined hfirst hmem).imp_right fun h => ⟨List.mem_cons_of_mem _ h.1, h.2⟩
        · rename_i hnew
          rcases ih (joined ++ [item]) (fun first h => List.mem_append_left _ (hfirst first h)) hmem with
            hjoined | ⟨hmore, hnone⟩
          · refine (List.mem_append.mp hjoined).imp_right fun hself => ?_
            obtain rfl := List.mem_singleton.mp hself
            refine ⟨List.mem_cons_self, Bool.eq_false_iff.mpr fun hthere => hnew ?_⟩
            obtain ⟨same, hsame, htrue⟩ := List.any_eq_true.mp hthere
            exact List.any_eq_true.mpr ⟨same, hfirst same hsame, htrue⟩
          · exact .inr ⟨List.mem_cons_of_mem _ hmore, hnone⟩
  exact hfold _ _ (fun _ h => h) h

/-- Every element of the second array counts as one that is joined. -/
theorem exists_same_of_mem_items {item : Slot} (h : item ∈ g.items y) :
    ∃ kept ∈ g.joinedItems x y, g.sameElement kept item = true := by
  have hfold : ∀ more joined : List Slot, (∃ kept ∈ joined, g.sameElement kept item = true) ∨ item ∈ more →
      ∃ kept ∈ more.foldl
        (fun joined item => if joined.any (g.sameElement · item) then joined else joined ++ [item]) joined,
        g.sameElement kept item = true := by
    intro more
    induction more with
    | nil => exact fun joined h => h.resolve_right List.not_mem_nil
    | cons first more ih =>
        intro joined h
        refine ih _ ?_
        dsimp only
        rcases h with ⟨kept, hkept, hsame⟩ | hmem
        · refine .inl ⟨kept, ?_, hsame⟩
          split
          · exact hkept
          · exact List.mem_append_left _ hkept
        · rcases List.mem_cons.mp hmem with rfl | hrest
          · refine .inl ?_
            split
            · rename_i hany
              exact List.any_eq_true.mp hany
            · exact ⟨item, List.mem_append_right _ (List.mem_singleton_self item), sameElement_self g item⟩
          · exact .inr hrest
  exact hfold _ _ (.inr h)

/-- An element of the second array with an identity is joined as one that has it. -/
theorem exists_joined (h : g.Enlists y identity) (x : Nat) :
    ∃ element, Slot.node element ∈ g.joinedItems x y ∧ g.identity? element = some identity := by
  obtain ⟨element, hitem, hidentity⟩ := h
  obtain ⟨kept, hkept, hsame⟩ := exists_same_of_mem_items (x := x) hitem
  obtain ⟨id, rfl, hid⟩ := (sameElement_identity_iff hidentity).mp hsame
  exact ⟨id, hkept, hid⟩

/-! ### Adopted elements -/

theorem field?_adoptItems {target : Nat} (harray : g.isArray target = true) (joined : List Slot) (id : Nat)
    (name : String) : (g.adoptItems target joined).field? id name = g.field? id name := by
  rw [adoptItems, field?, fields_setArray harray, field?]

theorem items_adoptItems_of_ne {target other : Nat} (harray : g.isArray target = true) (joined : List Slot)
    (hother : other ≠ target) : (g.adoptItems target joined).items other = g.items other := by
  rw [adoptItems, items_setArray harray, if_neg hother]

/-- An array is given the nodes that are its own or do not lead to it. -/
theorem node_mem_adoptItems_iff {target : Nat} (harray : g.isArray target = true) {joined : List Slot}
    {element : Nat} : Slot.node element ∈ (g.adoptItems target joined).items target ↔
      Slot.node element ∈ joined ∧ (Slot.node element ∈ g.items target ∨ ¬g.Reaches element target) := by
  have hown : (g.items target).any (·.same (.node element)) = true ↔ Slot.node element ∈ g.items target := by
    rw [List.any_eq_true]
    constructor
    · rintro ⟨slot, hslot, hsame⟩
      cases slot with
      | value value => cases hsame
      | node id => exact beq_iff_eq.mp hsame ▸ hslot
    · exact fun hslot => ⟨_, hslot, slot_same_refl _⟩
  have hleads : g.leadsTo (.node element) target = true ↔ g.Reaches element target := by
    rw [leadsTo, List.contains_iff_mem, mem_reachable_iff]
  rw [adoptItems, items_setArray harray, if_pos rfl, List.mem_filter, Bool.or_eq_true_iff, hown, Bool.not_eq_true',
    Bool.eq_false_iff, Ne, hleads]

section

variable (hx : g.isArray x = true) (hy : g.isArray y = true)

include hx

theorem field?_joinArrays (hy : g.isArray y = true) (id : Nat) (name : String) :
    (g.joinArrays x y).field? id name = g.field? id name := by
  rw [joinArrays, field?_adoptItems (isArray_adoptItems hx _ hy), field?_adoptItems hx]

theorem identity?_joinArrays (hy : g.isArray y = true) (id : Nat) :
    (g.joinArrays x y).identity? id = g.identity? id := by
  rw [identity?, field?_joinArrays hx hy, identity?]

include hy

/-- The first array keeps all it lists. -/
theorem node_mem_joinArrays_left (hne : x ≠ y) {element : Nat} (hitem : Slot.node element ∈ g.items x) :
    Slot.node element ∈ (g.joinArrays x y).items x := by
  rw [joinArrays, items_adoptItems_of_ne (isArray_adoptItems hx _ hy) _ hne]
  exact (node_mem_adoptItems_iff hx).mpr ⟨(g.prefix_joinedItems x y).subset hitem, .inl hitem⟩

theorem node_mem_joinArrays_right (hne : x ≠ y) {element : Nat} :
    Slot.node element ∈ (g.joinArrays x y).items y ↔ Slot.node element ∈ g.joinedItems x y ∧
      (Slot.node element ∈ g.items y ∨ ¬(g.adoptItems x (g.joinedItems x y)).Reaches element y) := by
  rw [joinArrays, node_mem_adoptItems_iff (isArray_adoptItems hx _ hy), items_adoptItems_of_ne hx _ hne.symm]

/-- **What a join takes from an array.** Of two arrays the first one keeps every identity that it lists. The other one
loses an identity exactly if the first has it too, in elements all of which are foreign to it and lead to it. -/
theorem enlists_joinArrays (hne : x ≠ y) : (g.Enlists x identity → (g.joinArrays x y).Enlists x identity) ∧
    (g.Enlists y identity → (¬(g.joinArrays x y).Enlists y identity ↔ g.Enlists x identity ∧
      ∀ element, Slot.node element ∈ g.items x → g.identity? element = some identity →
        Slot.node element ∉ g.items y ∧ (g.adoptItems x (g.joinedItems x y)).Reaches element y)) := by
  refine ⟨fun ⟨element, hitem, hidentity⟩ => ⟨element, node_mem_joinArrays_left hx hy hne hitem,
    (identity?_joinArrays hx hy element).trans hidentity⟩, fun hlisted => ⟨fun hlost => ?_, ?_⟩⟩
  · have hgone : ∀ element, Slot.node element ∈ g.joinedItems x y → g.identity? element = some identity →
        Slot.node element ∉ g.items y ∧ (g.adoptItems x (g.joinedItems x y)).Reaches element y := by
      intro element hjoined hidentity
      by_contra hkept
      rw [not_and_or, not_not] at hkept
      exact hlost ⟨element, (node_mem_joinArrays_right hx hy hne).mpr ⟨hjoined, hkept⟩,
        (identity?_joinArrays hx hy element).trans hidentity⟩
    refine ⟨?_, fun element hitem => hgone element ((g.prefix_joinedItems x y).subset hitem)⟩
    obtain ⟨element, hjoined, hidentity⟩ := exists_joined hlisted x
    obtain ⟨hforeign, -⟩ := hgone element hjoined hidentity
    exact ⟨element, (mem_joinedItems hjoined).resolve_right hforeign, hidentity⟩
  · rintro ⟨⟨first, hfirst, hidentity⟩, hall⟩ ⟨element, hitem, helement⟩
    rw [identity?_joinArrays hx hy] at helement
    obtain ⟨hjoined, hkept⟩ := (node_mem_joinArrays_right hx hy hne).mp hitem
    rcases mem_joinedItems_cases hjoined with hfront | ⟨-, hnone⟩
    · obtain ⟨hforeign, hreach⟩ := hall element hfront helement
      exact hkept.elim hforeign fun hapart => hapart hreach
    · rw [List.any_eq_true.mpr ⟨_, hfirst, (sameElement_identity_iff helement).mpr ⟨first, rfl, hidentity⟩⟩] at hnone
      cases hnone

end

end Dossier.Graph
