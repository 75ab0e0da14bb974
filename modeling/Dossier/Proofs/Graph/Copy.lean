import Dossier.Proofs.Graph.Reach

/-!
Copies in well-formed graphs. Everything a node leads to has a place of its own behind the nodes of the
graph, and there the copied slots point: the copy is closed, and the nodes of the graph are left alone.
-/

namespace Dossier.Graph

theorem number?_eq_some {order : Numbering Nat} {id k : Nat} (h : order.number? id = some k) :
    order.items[k]? = some id := by
  obtain ⟨hlt, hget, -⟩ := List.findIdx?_eq_some_iff_getElem.mp h
  rw [List.getElem?_eq_getElem hlt]
  exact congrArg some (beq_iff_eq.mp hget)

theorem exists_number? {order : Numbering Nat} {id : Nat} (h : id ∈ order.items) :
    ∃ k, order.number? id = some k := by
  refine Option.isSome_iff_exists.mp ?_
  rw [Numbering.number?, List.findIdx?_isSome]
  exact List.any_eq_true.mpr ⟨id, h, beq_self_eq_true id⟩

theorem prefix_explore (g : Graph) (fuel : Nat) (found waiting : List Nat) :
    found <+: g.explore fuel found waiting := by
  induction fuel generalizing found waiting with
  | zero => exact List.prefix_refl found
  | succ fuel ih =>
      cases waiting with
      | nil => exact List.prefix_refl found
      | cons id waiting =>
          rw [explore]
          split
          · exact ih found waiting
          · exact (List.prefix_append found [id]).trans (ih _ _)

theorem reachable_start (g : Graph) (start : Nat) : [start] <+: g.reachable start := by
  rw [reachable, explore]
  exact prefix_explore g _ _ _

theorem slots_copyNode (first : Nat) (order : Numbering Nat) (node : Node) :
    (copyNode first order node).slots = node.slots.map (copySlot first order) := by
  cases node with
  | object fields => simp [copyNode, Node.slots]
  | array items => rfl

theorem names_copyNode (first : Nat) (order : Numbering Nat) (node : Node) :
    (copyNode first order node).names = node.names := by
  cases node with
  | object fields => simp [copyNode, Node.names]
  | array items => rfl

/-- Where the copy of a node stands. -/
def copyId (g : Graph) (start id : Nat) : Nat :=
  g.nodes.length + ((Numbering.mk (g.reachable start)).number? id).getD 0

theorem copyId_start (g : Graph) (start : Nat) : g.copyId start start = g.nodes.length := by
  obtain ⟨rest, hrest⟩ := g.reachable_start start
  have hfirst : (Numbering.mk (g.reachable start)).number? start = some 0 := by
    rw [Numbering.number?, ← hrest, List.singleton_append, List.findIdx?_cons, if_pos (beq_self_eq_true start)]
  rw [copyId, hfirst]
  rfl

theorem length_le_copyId (g : Graph) (start id : Nat) : g.nodes.length ≤ g.copyId start id :=
  Nat.le_add_right _ _

theorem copySlot_node (g : Graph) (start id : Nat) :
    copySlot g.nodes.length ⟨g.reachable start⟩ (.node id) = .node (g.copyId start id) := rfl

section

variable {g : Graph} (hg : g.WellFormed) {start : Nat} (hstart : start < g.nodes.length)

include hg hstart

theorem deepCopy_eq : g.deepCopy start = (g.layOut ⟨g.reachable start⟩, g.nodes.length) := by
  refine if_pos (List.all_eq_true.mpr fun id hid => ?_)
  exact Bool.or_eq_true_iff.mpr
    (.inl (decide_eq_true (hg.lt_of_reaches (mem_reachable_iff.mp hid) hstart)))

theorem root_deepCopy : (g.deepCopy start).1.root = g.root := by rw [deepCopy_eq hg hstart]; rfl

theorem length_deepCopy :
    (g.deepCopy start).1.nodes.length = g.nodes.length + (g.reachable start).length := by
  rw [deepCopy_eq hg hstart]
  simp [layOut]

theorem getElem?_deepCopy_old {id : Nat} (hid : id < g.nodes.length) :
    (g.deepCopy start).1.nodes[id]? = g.nodes[id]? := by
  rw [deepCopy_eq hg hstart]
  exact List.getElem?_append_left hid

/-- Behind the nodes of the graph stand the copies, in the order in which their nodes were found. -/
theorem getElem?_deepCopy_new (k : Nat) :
    (g.deepCopy start).1.nodes[g.nodes.length + k]? = ((g.reachable start)[k]?).map fun id =>
      copyNode g.nodes.length ⟨g.reachable start⟩ ((g.nodes[id]?).getD (.array [])) := by
  rw [deepCopy_eq hg hstart]
  simp [layOut, List.getElem?_append_right]

theorem getElem?_copyId {id : Nat} (hid : g.Reaches start id) {node : Node} (hnode : g.nodes[id]? = some node) :
    (g.deepCopy start).1.nodes[g.copyId start id]? =
      some (copyNode g.nodes.length ⟨g.reachable start⟩ node) := by
  obtain ⟨k, hk⟩ : ∃ k, (Numbering.mk (g.reachable start)).number? id = some k :=
    exists_number? (mem_reachable_iff.mpr hid)
  have hat : (g.reachable start)[k]? = some id := number?_eq_some hk
  rw [copyId, hk, Option.getD_some, getElem?_deepCopy_new hg hstart, hat, Option.map_some, hnode,
    Option.getD_some]

theorem lt_length_deepCopy : g.nodes.length < (g.deepCopy start).1.nodes.length := by
  have hpos := (g.reachable_start start).length_le
  rw [List.length_singleton] at hpos
  rw [length_deepCopy hg hstart]
  omega

/-- The slots of a copy point into the copy. -/
theorem copySlot_within (slot : Slot) : (copySlot g.nodes.length ⟨g.reachable start⟩ slot).Within
    (g.deepCopy start).1.nodes.length := by
  cases slot with
  | value value => exact Slot.within_value _ value
  | node id =>
      apply Slot.within_node
      have hlt := lt_length_deepCopy hg hstart
      cases hk : (Numbering.mk (g.reachable start)).number? id with
      | none => rwa [Option.getD_none, Nat.add_zero]
      | some k =>
          have hsize := (List.getElem?_eq_some_iff.mp (number?_eq_some hk)).1
          rw [Option.getD_some, length_deepCopy hg hstart]
          exact Nat.add_lt_add_left hsize _

theorem wellFormed_deepCopy : (g.deepCopy start).1.WellFormed := by
  have hle := (lt_length_deepCopy hg hstart).le
  constructor
  · rw [root_deepCopy hg hstart]
    exact hg.root.mono hle
  · intro id node hnode
    rcases Nat.lt_or_ge id g.nodes.length with hlt | hge
    · rw [getElem?_deepCopy_old hg hstart hlt] at hnode
      exact (hg.nodes id node hnode).mono hle
    · obtain ⟨k, rfl⟩ := Nat.exists_eq_add_of_le hge
      rw [getElem?_deepCopy_new hg hstart] at hnode
      obtain ⟨source, -, rfl⟩ := Option.map_eq_some_iff.mp hnode
      constructor
      · rw [names_copyNode]
        cases hsource : g.nodes[source]? with
        | none => exact List.nodup_nil
        | some original => exact (hg.nodes source original hsource).names
      · intro slot hslot
        rw [slots_copyNode] at hslot
        obtain ⟨original, -, rfl⟩ := List.mem_map.mp hslot
        exact copySlot_within hg hstart original

/-- A copy leads to nothing but copies. -/
theorem le_of_points_deepCopy {a b : Nat} (ha : g.nodes.length ≤ a) (h : (g.deepCopy start).1.Points a b) :
    g.nodes.length ≤ b := by
  obtain ⟨node, hnode, hslot⟩ := exists_slot_of_points h
  obtain ⟨k, rfl⟩ := Nat.exists_eq_add_of_le ha
  rw [getElem?_deepCopy_new hg hstart] at hnode
  obtain ⟨source, -, rfl⟩ := Option.map_eq_some_iff.mp hnode
  rw [slots_copyNode] at hslot
  obtain ⟨original, -, heq⟩ := List.mem_map.mp hslot
  cases original with
  | value value => cases heq
  | node id =>
      cases heq
      exact g.length_le_copyId start id

end

end Dossier.Graph
