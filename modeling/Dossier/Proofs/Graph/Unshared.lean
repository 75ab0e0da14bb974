import Dossier.Proofs.Graph.Acyclic

/-!
Loaded graphs are trees. Every container that is loaded is put into one slot, so no node stands in two; and nothing
points to the root.
-/

namespace Dossier

/-- The nodes that the slots of a node point to, each as often as it stands there. -/
def Node.pointers (node : Node) : List Nat := node.slots.filterMap Slot.target?

/-- A node stands at one position, if no two slots point to it. -/
theorem Node.position_unique {node : Node} (hnodup : node.pointers.Nodup) {id : Nat} {p q : Position}
    (hp : node.at? p = some (.node id)) (hq : node.at? q = some (.node id)) : p = q := by
  have hapart : ∀ {i j : Nat}, node.slots[i]? = some (Slot.node id) → node.slots[j]? = some (Slot.node id) →
      i = j := by
    intro i j hi hj
    obtain ⟨hi, hiSlot⟩ := List.getElem?_eq_some_iff.mp hi
    obtain ⟨hj, hjSlot⟩ := List.getElem?_eq_some_iff.mp hj
    have hpairs := List.pairwise_iff_getElem.mp (List.pairwise_filterMap.mp hnodup)
    by_contra hne
    rcases Nat.lt_or_gt_of_ne hne with hlt | hlt
    · exact hpairs i j hi hj hlt id (hiSlot ▸ rfl) id (hjSlot ▸ rfl) rfl
    · exact hpairs j i hj hi hlt id (hjSlot ▸ rfl) id (hiSlot ▸ rfl) rfl
  cases node with
  | object fields =>
      have hindex : ∀ {name : String}, find? fields name = some (.node id) →
          ∃ k, fields[k]? = some (name, Slot.node id) := fun h => List.mem_iff_getElem?.mp (mem_of_find? h)
      cases p with
      | index k => cases hp
      | field name =>
          cases q with
          | index k => cases hq
          | field other =>
              obtain ⟨i, hi⟩ := hindex hp
              obtain ⟨j, hj⟩ := hindex hq
              have hslot : ∀ {k : Nat} {key : String}, fields[k]? = some (key, Slot.node id) →
                  (Node.object fields).slots[k]? = some (.node id) := by
                intro k key hk
                rw [slots, List.getElem?_map, hk]
                rfl
              obtain rfl := hapart (hslot hi) (hslot hj)
              cases hi.symm.trans hj
              rfl
  | array items =>
      cases p with
      | field name => cases hp
      | index i =>
          cases q with
          | field name => cases hq
          | index j => exact congrArg Position.index (hapart hp hq)

namespace Graph

/-- No node stands in two slots. -/
def Unshared (g : Graph) : Prop :=
  ∀ a b p q id, g.slotAt? a p = some (.node id) → g.slotAt? b q = some (.node id) → a = b ∧ p = q

/-- The nodes that slots point to, each as often as it stands in one. -/
def pointers (g : Graph) : List Nat := g.nodes.flatMap Node.pointers

theorem points_iff_mem_pointers {g : Graph} {a b : Nat} :
    g.Points a b ↔ ∃ node, g.nodes[a]? = some node ∧ b ∈ node.pointers := by
  rw [Points, targets]
  cases g.nodes[a]? with
  | none => simp
  | some node => simp [Node.pointers]

theorem mem_pointers_iff {g : Graph} {b : Nat} : b ∈ g.pointers ↔ ∃ a, g.Points a b := by
  simp only [points_iff_mem_pointers]
  rw [pointers, List.mem_flatMap]
  constructor
  · rintro ⟨node, hnode, hmem⟩
    obtain ⟨a, ha⟩ := List.mem_iff_getElem?.mp hnode
    exact ⟨a, node, ha, hmem⟩
  · rintro ⟨a, node, hnode, hmem⟩
    exact ⟨node, List.mem_of_getElem? hnode, hmem⟩

theorem unshared_of_nodup {g : Graph} (hnodup : g.pointers.Nodup) : g.Unshared := by
  obtain ⟨hown, hpairs⟩ := List.nodup_flatMap.mp hnodup
  intro a b p q id hp hq
  obtain ⟨x, hx, hxslot⟩ := Option.bind_eq_some_iff.mp hp
  obtain ⟨y, hy, hyslot⟩ := Option.bind_eq_some_iff.mp hq
  have hmem : ∀ {node : Node} {position : Position}, node.at? position = some (.node id) → id ∈ node.pointers :=
    fun h => List.mem_filterMap.mpr ⟨_, Node.mem_slots_of_at? h, rfl⟩
  have hsame : a = b := by
    obtain ⟨ha, rfl⟩ := List.getElem?_eq_some_iff.mp hx
    obtain ⟨hb, rfl⟩ := List.getElem?_eq_some_iff.mp hy
    have hapart := List.pairwise_iff_getElem.mp hpairs
    by_contra hne
    rcases Nat.lt_or_gt_of_ne hne with hlt | hlt
    · exact hapart a b ha hb hlt (hmem hxslot) (hmem hyslot)
    · exact hapart b a hb ha hlt (hmem hyslot) (hmem hxslot)
  subst hsame
  cases hx.symm.trans hy
  exact ⟨rfl, Node.position_unique (hown x (List.mem_of_getElem? hx)) hxslot hyslot⟩

/-! ### Loading -/

/-- Every node stands in one slot, but for those that wait for theirs. -/
def Housed (g : Graph) (waiting : List Nat) : Prop := (g.pointers ++ waiting).Perm (List.range g.nodes.length)

/-- A new node houses the last that wait, and waits itself. -/
theorem Housed.alloc {g : Graph} {waiting : List Nat} {node : Node} (h : g.Housed (waiting ++ node.pointers)) :
    (g.alloc node).1.Housed (waiting ++ [g.nodes.length]) := by
  have hpointers : (g.alloc node).1.pointers = g.pointers ++ node.pointers := by simp [pointers, Graph.alloc]
  have hlength : (g.alloc node).1.nodes.length = g.nodes.length + 1 := List.length_append
  rw [Housed, hpointers, hlength, List.range_succ]
  have hmoved : (g.pointers ++ node.pointers ++ (waiting ++ [g.nodes.length])).Perm
      (g.pointers ++ (waiting ++ node.pointers) ++ [g.nodes.length]) := by
    simp only [List.append_assoc]
    exact (List.perm_append_comm_assoc _ _ _).append_left _
  exact hmoved.trans (h.append_right _)

/-- What a value is loaded into waits for a slot. -/
def Lodges (value : Json) : Prop := ∀ (g : Graph) (waiting : List Nat), g.Housed waiting →
  (g.load value).1.Housed (waiting ++ (g.load value).2.target?.toList)

theorem filterMap_target?_cons (slot : Slot) (slots : List Slot) :
    (slot :: slots).filterMap Slot.target? = slot.target?.toList ++ slots.filterMap Slot.target? := by
  cases slot <;> rfl

theorem Housed.loadItems {items : List Json} (hitems : ∀ value ∈ items, Lodges value) {g : Graph}
    {waiting : List Nat} (h : g.Housed waiting) :
    (g.loadItems items).1.Housed (waiting ++ (g.loadItems items).2.filterMap Slot.target?) := by
  induction items generalizing g waiting with
  | nil =>
      show g.Housed (waiting ++ [])
      rwa [List.append_nil]
  | cons value rest ih =>
      have hfirst := hitems value List.mem_cons_self g waiting h
      have hrest := ih (fun other hother => hitems other (List.mem_cons_of_mem _ hother)) hfirst
      rw [List.append_assoc, ← filterMap_target?_cons] at hrest
      exact hrest

theorem Housed.loadMembers {members : Members} (hmembers : ∀ member ∈ members, Lodges member.2) {g : Graph}
    {waiting : List Nat} (h : g.Housed waiting) : (g.loadMembers members).1.Housed
      (waiting ++ ((g.loadMembers members).2.map Prod.snd).filterMap Slot.target?) := by
  induction members generalizing g waiting with
  | nil =>
      show g.Housed (waiting ++ [])
      rwa [List.append_nil]
  | cons member rest ih =>
      have hfirst := hmembers member List.mem_cons_self g waiting h
      have hrest := ih (fun other hother => hmembers other (List.mem_cons_of_mem _ hother)) hfirst
      rw [List.append_assoc, ← filterMap_target?_cons] at hrest
      exact hrest

theorem lodges (value : Json) : Lodges value := by
  induction value using Json.induct with
  | scalar value hscalar =>
      intro g waiting h
      have hload : g.load value = (g, .value value) := by cases value <;> first | rfl | cases hscalar
      rw [hload]
      show g.Housed (waiting ++ [])
      rwa [List.append_nil]
  | array items ih =>
      intro g waiting h
      have hinside : (g.loadItems items).1.Housed
          (waiting ++ (Node.array (g.loadItems items).2).pointers) := h.loadItems ih
      exact hinside.alloc
  | object members ih =>
      intro g waiting h
      have hinside : (g.loadMembers members).1.Housed
          (waiting ++ (Node.object (g.loadMembers members).2).pointers) := h.loadMembers ih
      exact hinside.alloc

/-- The nodes of a document stand in one slot each, the root in none. -/
theorem housed_ofJson (document : Json) : (ofJson document).Housed (ofJson document).root.target?.toList := by
  have hempty : empty.Housed [] := List.Perm.refl []
  exact lodges document empty [] hempty

theorem unshared_ofJson (document : Json) : (ofJson document).Unshared := by
  have hnodup := (housed_ofJson document).nodup_iff.mpr List.nodup_range
  exact unshared_of_nodup (List.nodup_append.mp hnodup).1

/-- The root leads to every node: each but the root stands somewhere, in a container that was loaded later. -/
theorem reaches_ofJson {document : Json} (hordered : document.Ordered) {root id : Nat}
    (hroot : (ofJson document).root = .node root) (hid : id < (ofJson document).nodes.length) :
    (ofJson document).Reaches root id := by
  have hhoused := housed_ofJson document
  rw [hroot] at hhoused
  -- by induction on the number of nodes that were loaded later
  induction hlater : (ofJson document).nodes.length - id using Nat.strong_induction_on generalizing id with
  | _ later ih =>
      have hmem : id ∈ (ofJson document).pointers ++ [root] := hhoused.mem_iff.mpr (List.mem_range.mpr hid)
      rcases List.mem_append.mp hmem with hpointed | hself
      · obtain ⟨container, hpoints⟩ := mem_pointers_iff.mp hpointed
        have hlt := (loading_ofJson hordered).lt_of_points hpoints
        obtain ⟨node, hnode, -⟩ := exists_slot_of_points hpoints
        have hcontainer := (List.getElem?_eq_some_iff.mp hnode).1
        exact (ih _ (by omega) hcontainer rfl).tail hpoints
      · obtain rfl := List.mem_singleton.mp hself
        exact .refl

end Graph

end Dossier
