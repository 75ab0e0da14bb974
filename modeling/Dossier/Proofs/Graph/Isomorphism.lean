import Dossier.Proofs.Graph.InTurn

/-!
Copies look like what was copied. The copy of a node has its names, its order and its plain values, and points to the
copies of what it pointed to; so what a copy leads to is what its node leads to, under other numbers. Main statement:
that holds of every copy in a well-formed graph, whatever it shares and however it leads back to itself.
-/

namespace Dossier

/-- The slot when nodes are given other numbers. -/
def Slot.renamed (f : Nat → Nat) : Slot → Slot
  | .value plain => .value plain
  | .node id => .node (f id)

/-- The node when the nodes that it points to are given other numbers. -/
def Node.renamed (f : Nat → Nat) : Node → Node
  | .object fields => .object (fields.map fun field => (field.1, field.2.renamed f))
  | .array items => .array (items.map (Slot.renamed f))

@[simp] theorem Node.slots_renamed (f : Nat → Nat) (node : Node) :
    (node.renamed f).slots = node.slots.map (Slot.renamed f) := by
  cases node with
  | object fields => simp [renamed, slots]
  | array items => rfl

theorem Node.at?_renamed (f : Nat → Nat) (node : Node) (position : Position) :
    (node.renamed f).at? position = (node.at? position).map (Slot.renamed f) := by
  cases node with
  | object fields =>
      cases position with
      | index index => rfl
      | field name =>
          show find? (fields.map fun field => (field.1, field.2.renamed f)) name =
            (find? fields name).map (Slot.renamed f)
          induction fields with
          | nil => rfl
          | cons field rest ih =>
              rw [List.map_cons, find?, find?, ih]
              split <;> rfl
  | array items =>
      cases position with
      | field name => rfl
      | index index => exact List.getElem?_map

namespace Graph

/-- What a node leads to in one graph is what another leads to in the next graph, under other numbers: a node stands
for one node, and has its names, its order and its plain values. -/
structure Isomorphism (g next : Graph) (start copy : Nat) (f : Nat → Nat) : Prop where
  first : f start = copy
  injective : ∀ a b, g.Reaches start a → g.Reaches start b → f a = f b → a = b
  onto : ∀ c, next.Reaches copy c ↔ ∃ a, g.Reaches start a ∧ f a = c
  nodes : ∀ a, g.Reaches start a → next.nodes[f a]? = (g.nodes[a]?).map (Node.renamed f)

theorem targets_renamed {g next : Graph} {f : Nat → Nat} {a : Nat}
    (hnode : next.nodes[f a]? = (g.nodes[a]?).map (Node.renamed f)) : next.targets (f a) = (g.targets a).map f := by
  have htarget : ∀ slot : Slot, (slot.renamed f).target? = slot.target?.map f := by
    intro slot
    cases slot <;> rfl
  rw [targets, targets, hnode]
  cases g.nodes[a]? with
  | none => rfl
  | some node => simp [List.filterMap_map, List.map_filterMap, htarget]

theorem points_renamed {g next : Graph} {f : Nat → Nat} {a : Nat}
    (hnode : next.nodes[f a]? = (g.nodes[a]?).map (Node.renamed f)) (c : Nat) :
    next.Points (f a) c ↔ ∃ b, g.Points a b ∧ f b = c := by
  rw [Points, targets_renamed hnode, List.mem_map]
  rfl

/-- Where nodes are renamed step by step, whatever is reached is renamed. -/
theorem reaches_renamed {g next : Graph} {f : Nat → Nat} {start : Nat}
    (hnodes : ∀ a, g.Reaches start a → next.nodes[f a]? = (g.nodes[a]?).map (Node.renamed f)) (c : Nat) :
    next.Reaches (f start) c ↔ ∃ a, g.Reaches start a ∧ f a = c := by
  constructor
  · intro hreach
    induction hreach with
    | refl => exact ⟨start, .refl, rfl⟩
    | tail _ hpoints ih =>
        obtain ⟨a, ha, rfl⟩ := ih
        obtain ⟨b, hb, hnext⟩ := (points_renamed (hnodes a ha) _).mp hpoints
        exact ⟨b, ha.tail hb, hnext⟩
  · rintro ⟨a, ha, rfl⟩
    induction ha with
    | refl => exact .refl
    | tail hbefore hpoints ih => exact ih.tail ((points_renamed (hnodes _ hbefore) _).mpr ⟨_, hpoints, rfl⟩)

namespace Isomorphism

variable {g next : Graph} {start copy : Nat} {f : Nat → Nat} (h : Isomorphism g next start copy f)

include h

theorem slotAt? {a : Nat} (ha : g.Reaches start a) (position : Position) :
    next.slotAt? (f a) position = (g.slotAt? a position).map (Slot.renamed f) := by
  rw [Graph.slotAt?, h.nodes a ha, Graph.slotAt?]
  cases g.nodes[a]? with
  | none => rfl
  | some node => exact node.at?_renamed f position

/-- The node in a slot of a copy is the copy of the node in that slot. -/
theorem exists_slotAt? {a : Nat} (ha : g.Reaches start a) {position : Position} {c : Nat}
    (hslot : next.slotAt? (f a) position = some (.node c)) :
    ∃ id, g.slotAt? a position = some (.node id) ∧ g.Reaches start id ∧ f id = c := by
  rw [h.slotAt? ha] at hslot
  obtain ⟨slot, hsource, hrenamed⟩ := Option.map_eq_some_iff.mp hslot
  cases slot with
  | value value => cases hrenamed
  | node id => exact ⟨id, hsource, ha.tail (points_of_slotAt? hsource), Slot.node.inj hrenamed⟩

/-- Two slots hold one node exactly when their copies do. -/
theorem shares {a b : Nat} (ha : g.Reaches start a) (hb : g.Reaches start b) (p q : Position) :
    (∃ c, next.slotAt? (f a) p = some (.node c) ∧ next.slotAt? (f b) q = some (.node c)) ↔
      ∃ id, g.slotAt? a p = some (.node id) ∧ g.slotAt? b q = some (.node id) := by
  constructor
  · rintro ⟨c, hp, hq⟩
    obtain ⟨x, hx, hxreach, rfl⟩ := h.exists_slotAt? ha hp
    obtain ⟨y, hy, hyreach, hsame⟩ := h.exists_slotAt? hb hq
    exact ⟨x, hx, h.injective y x hyreach hxreach hsame ▸ hy⟩
  · rintro ⟨id, hp, hq⟩
    exact ⟨f id, by rw [h.slotAt? ha, hp]; rfl, by rw [h.slotAt? hb, hq]; rfl⟩

end Isomorphism

/-- The copy of a node is the node with the numbers of the copies. -/
theorem copyNode_eq (g : Graph) (start : Nat) (node : Node) :
    copyNode g.nodes.length ⟨g.reachable start⟩ node = node.renamed (g.copyId start) := by
  have hslot : copySlot g.nodes.length ⟨g.reachable start⟩ = Slot.renamed (g.copyId start) := by
    funext slot
    cases slot <;> rfl
  rw [copyNode.eq_def, hslot]
  cases node <;> rfl

section

variable {g : Graph} {start : Nat} (hg : g.WellFormed) (hstart : start < g.nodes.length)

include hg hstart

theorem isomorphism_deepCopy :
    Isomorphism g (g.deepCopy start).1 start (g.deepCopy start).2 (g.copyId start) := by
  have hcopy : (g.deepCopy start).2 = g.copyId start start := by rw [deepCopy_eq hg hstart, copyId_start]
  have hnodes : ∀ a, g.Reaches start a → (g.deepCopy start).1.nodes[g.copyId start a]? =
      (g.nodes[a]?).map (Node.renamed (g.copyId start)) := by
    intro a ha
    have hsource := List.getElem?_eq_getElem (hg.lt_of_reaches ha hstart)
    rw [getElem?_copyId hg hstart ha hsource, hsource, Option.map_some, copyNode_eq]
  refine ⟨hcopy.symm, fun a b ha hb => ?_, fun c => ?_, hnodes⟩
  · exact copyId_injective (mem_reachable_iff.mpr ha) (mem_reachable_iff.mpr hb)
  · rw [hcopy]
    exact reaches_renamed hnodes c

/-- What a copy leads to are the new nodes, all of them. -/
theorem reaches_deepCopy_iff (c : Nat) : (g.deepCopy start).1.Reaches (g.deepCopy start).2 c ↔
    g.nodes.length ≤ c ∧ c < (g.deepCopy start).1.nodes.length := by
  have hisomorphism := isomorphism_deepCopy hg hstart
  rw [hisomorphism.onto c]
  constructor
  · rintro ⟨a, ha, rfl⟩
    have hsource := List.getElem?_eq_getElem (hg.lt_of_reaches ha hstart)
    exact ⟨g.length_le_copyId start a,
      (List.getElem?_eq_some_iff.mp (getElem?_copyId hg hstart ha hsource)).1⟩
  · rintro ⟨hle, hlt⟩
    obtain ⟨k, rfl⟩ := Nat.exists_eq_add_of_le hle
    rw [length_deepCopy hg hstart] at hlt
    have hid := List.getElem?_eq_getElem (Nat.lt_of_add_lt_add_left hlt)
    exact ⟨_, mem_reachable_iff.mp (List.mem_of_getElem? hid),
      copyId_of_getElem? (distinct_reachable hg hstart).nodup hid⟩

end

/-- **A copy is an isomorphic image of what it copies.** The nodes of the graph and its root stay as they are; the copy
leads to the new nodes alone, which stand one for each node that was copied, with its names, its order and its plain
values; and two slots of the copy hold one node exactly when those that were copied do. It is the same copy that is
made in turn, one node after another. -/
theorem deepCopy_isomorphic {g : Graph} {start : Nat} (hg : g.WellFormed) (hstart : start < g.nodes.length) :
    let next := (g.deepCopy start).1
    let copy := (g.deepCopy start).2
    (next.root = g.root ∧ ∀ id < g.nodes.length, next.nodes[id]? = g.nodes[id]?) ∧
    (∀ c, next.Reaches copy c ↔ g.nodes.length ≤ c ∧ c < next.nodes.length) ∧
    (∃ f, Isomorphism g next start copy f ∧ ∀ a b p q, g.Reaches start a → g.Reaches start b →
      ((∃ c, next.slotAt? (f a) p = some (.node c) ∧ next.slotAt? (f b) q = some (.node c)) ↔
        ∃ id, g.slotAt? a p = some (.node id) ∧ g.slotAt? b q = some (.node id))) ∧
    ∃ copies, copyInTurn g.copyDepth (g, []) start = ((next, copies), copy) := by
  have hisomorphism := isomorphism_deepCopy hg hstart
  exact ⟨⟨root_deepCopy hg hstart, fun id hid => getElem?_deepCopy_old hg hstart hid⟩, reaches_deepCopy_iff hg hstart,
    ⟨g.copyId start, hisomorphism, fun a b p q ha hb => hisomorphism.shares ha hb p q⟩, copyInTurn_eq hg hstart⟩

/-- Two slots of an object hold one array, which holds the object. -/
theorem deepCopy_isomorphic_mutual :
    let g : Graph := ⟨[.object [("left", .node 1), ("right", .node 1), ("name", .text "a")], .array [.node 0]], .node 0⟩
    (g.WellFormed ∧ 0 < g.nodes.length) ∧ (g.deepCopy 0).1.Reaches (g.deepCopy 0).2 3 ∧
      (g.deepCopy 0).1.nodes[1]? = some (.array [.node 0]) := by
  intro g
  have hg : g.WellFormed := by decide
  have hstart : 0 < g.nodes.length := by decide
  obtain ⟨⟨-, hold⟩, hnew, -⟩ := deepCopy_isomorphic hg hstart
  exact ⟨⟨hg, hstart⟩, (hnew 3).mpr (by decide), hold 1 (by decide)⟩

end Graph

end Dossier
