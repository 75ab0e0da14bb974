import Dossier.Graph.Compact
import Mathlib.Data.List.Nodup

/-!
Slots by their positions, and graphs that are well formed: every slot points to a node of the graph, and no
object has two slots of one name. Every change of a graph below adds nodes at its end or rewrites one slot,
so well-formedness is checked for these two.
-/

namespace Dossier

/-- A slot points to one of the first `count` nodes, if it points at all. -/
def Slot.Within (count : Nat) (slot : Slot) : Prop := ∀ id, slot = .node id → id < count

theorem Slot.within_value (count : Nat) (value : Json) : (Slot.value value).Within count := by
  intro id h
  cases h

theorem Slot.within_node {count id : Nat} (h : id < count) : (Slot.node id).Within count := by
  intro other hother
  cases hother
  exact h

instance (count : Nat) (slot : Slot) : Decidable (slot.Within count) :=
  match slot with
  | .value value => .isTrue (Slot.within_value count value)
  | .node id => decidable_of_iff (id < count) ⟨Slot.within_node, fun h => h id rfl⟩

theorem Slot.Within.mono {count more : Nat} {slot : Slot} (h : slot.Within count) (hle : count ≤ more) :
    slot.Within more := fun id hid => Nat.lt_of_lt_of_le (h id hid) hle

namespace Node

def names : Node → List String
  | .object fields => fields.map Prod.fst
  | .array _ => []

/-- The slot at a position. -/
def at? : Node → Position → Option Slot
  | .object fields, .field name => find? fields name
  | .array items, .index index => items[index]?
  | _, _ => none

/-- The node with a slot put at a position. -/
def put (position : Position) (slot : Slot) : Node → Node
  | .object fields => match position with
    | .field name => .object (assign name slot fields)
    | .index _ => .object fields
  | .array items => match position with
    | .field _ => .array items
    | .index index => .array (items.set index slot)

/-- Its names are distinct and its slots point to the first `count` nodes. -/
structure Fits (count : Nat) (node : Node) : Prop where
  names : node.names.Nodup
  slots : ∀ slot ∈ node.slots, slot.Within count

theorem fits_iff {count : Nat} {node : Node} :
    node.Fits count ↔ node.names.Nodup ∧ ∀ slot ∈ node.slots, slot.Within count :=
  ⟨fun h => ⟨h.names, h.slots⟩, fun h => ⟨h.1, h.2⟩⟩

instance (count : Nat) (node : Node) : Decidable (node.Fits count) := decidable_of_iff _ fits_iff.symm

theorem Fits.mono {count more : Nat} {node : Node} (h : node.Fits count) (hle : count ≤ more) :
    node.Fits more := ⟨h.names, fun slot hslot => (h.slots slot hslot).mono hle⟩

/-! ### Lists of fields -/

theorem mem_of_find? {fields : List (String × Slot)} {name : String} {slot : Slot}
    (h : find? fields name = some slot) : (name, slot) ∈ fields := by
  induction fields with
  | nil => cases h
  | cons field rest ih =>
      obtain ⟨key, old⟩ := field
      rw [find?] at h
      split at h
      · rename_i hkey
        cases h
        exact hkey ▸ List.mem_cons_self
      · exact List.mem_cons_of_mem _ (ih h)

theorem find?_isSome_iff {fields : List (String × Slot)} {name : String} :
    (find? fields name).isSome ↔ name ∈ fields.map Prod.fst := by
  induction fields with
  | nil => simp [find?]
  | cons field rest ih =>
      obtain ⟨key, old⟩ := field
      by_cases hkey : key = name
      · simp [find?, hkey]
      · simp [find?, hkey, ih, Ne.symm hkey]

theorem find?_of_mem {fields : List (String × Slot)} (hnames : (fields.map Prod.fst).Nodup) {name : String}
    {slot : Slot} (h : (name, slot) ∈ fields) : find? fields name = some slot := by
  induction fields with
  | nil => cases h
  | cons field rest ih =>
      obtain ⟨key, old⟩ := field
      rw [List.map_cons, List.nodup_cons] at hnames
      rcases List.mem_cons.mp h with heq | hrest
      · cases heq
        simp [find?]
      · have hne : key ≠ name := fun heq => hnames.1 (List.mem_map.mpr ⟨(name, slot), hrest, heq.symm⟩)
        rw [find?, if_neg hne, ih hnames.2 hrest]

theorem find?_assign (fields : List (String × Slot)) (name other : String) (slot : Slot) :
    find? (assign name slot fields) other = if other = name then some slot else find? fields other := by
  induction fields with
  | nil => simp [assign, find?, eq_comm]
  | cons field rest ih =>
      obtain ⟨key, old⟩ := field
      by_cases hkey : key = name
      · by_cases hother : other = name
        · simp [assign, find?, hkey, hother]
        · simp [assign, find?, hkey, hother, Ne.symm hother]
      · by_cases hfound : key = other
        · simp [assign, find?, hfound, hfound ▸ hkey]
        · simp [assign, find?, hkey, hfound, ih]

theorem mem_assign {fields : List (String × Slot)} {name : String} {slot : Slot} {field : String × Slot}
    (h : field ∈ assign name slot fields) : field = (name, slot) ∨ field ∈ fields := by
  induction fields with
  | nil => exact .inl (List.mem_singleton.mp h)
  | cons first rest ih =>
      obtain ⟨key, old⟩ := first
      rw [assign] at h
      split at h
      · rename_i hkey
        rcases List.mem_cons.mp h with rfl | hrest
        · exact .inl (by rw [hkey])
        · exact .inr (List.mem_cons_of_mem _ hrest)
      · rcases List.mem_cons.mp h with rfl | hrest
        · exact .inr List.mem_cons_self
        · exact (ih hrest).imp_right (List.mem_cons_of_mem _)

theorem nodup_assign {fields : List (String × Slot)} (hnames : (fields.map Prod.fst).Nodup) (name : String)
    (slot : Slot) : ((assign name slot fields).map Prod.fst).Nodup := by
  induction fields with
  | nil => simp [assign]
  | cons first rest ih =>
      obtain ⟨key, old⟩ := first
      rw [List.map_cons, List.nodup_cons] at hnames
      rw [assign]
      split
      · exact List.nodup_cons.mpr hnames
      · rename_i hkey
        refine List.nodup_cons.mpr ⟨fun hmem => ?_, ih hnames.2⟩
        obtain ⟨field, hfield, heq⟩ := List.mem_map.mp hmem
        rcases mem_assign hfield with rfl | hrest
        · exact hkey heq.symm
        · exact hnames.1 (heq ▸ List.mem_map_of_mem (f := Prod.fst) hrest)

/-! ### Positions -/

theorem mem_children_iff {node : Node} (hnames : node.names.Nodup) {position : Position} {slot : Slot} :
    (position, slot) ∈ node.children ↔ node.at? position = some slot := by
  cases node with
  | object fields =>
      cases position with
      | field name =>
          refine Iff.trans ?_ ⟨find?_of_mem hnames, mem_of_find?⟩
          simp [children]
      | index index => simp [children, at?]
  | array items =>
      cases position with
      | field name => simp [children, at?]
      | index index => simp [children, at?, List.mk_mem_zipIdx_iff_getElem?]

theorem exists_mem_children_iff {node : Node} {slot : Slot} :
    (∃ position, (position, slot) ∈ node.children) ↔ slot ∈ node.slots := by
  cases node with
  | object fields => simp [children, slots]
  | array items => simp [children, slots, List.mem_iff_getElem?]

theorem mem_slots_of_at? {node : Node} {position : Position} {slot : Slot}
    (h : node.at? position = some slot) : slot ∈ node.slots := by
  cases node with
  | object fields =>
      cases position with
      | field name => exact List.mem_map_of_mem (f := Prod.snd) (mem_of_find? h)
      | index index => cases h
  | array items =>
      cases position with
      | field name => cases h
      | index index => exact List.mem_of_getElem? h

/-- Putting a slot where there is one changes that position alone. -/
theorem at?_put {node : Node} {position : Position} (hthere : (node.at? position).isSome) (slot : Slot)
    (other : Position) :
    (node.put position slot).at? other = if other = position then some slot else node.at? other := by
  cases node with
  | object fields =>
      cases position with
      | index index => cases hthere
      | field name =>
          cases other with
          | field key => simp [put, at?, find?_assign]
          | index index => simp [put, at?]
  | array items =>
      cases position with
      | field name => cases hthere
      | index index =>
          have hlt : index < items.length := by simpa [at?] using hthere
          cases other with
          | field key => simp [put, at?]
          | index i => by_cases hi : i = index <;> simp [put, at?, List.getElem?_set, hi, hlt, eq_comm]

theorem mem_slots_put {node : Node} {position : Position} {slot other : Slot}
    (h : other ∈ (node.put position slot).slots) : other = slot ∨ other ∈ node.slots := by
  cases node with
  | object fields =>
      cases position with
      | index index => exact .inr h
      | field name =>
          obtain ⟨field, hfield, rfl⟩ := List.mem_map.mp h
          rcases mem_assign hfield with rfl | hold
          · exact .inl rfl
          · exact .inr (List.mem_map_of_mem (f := Prod.snd) hold)
  | array items =>
      cases position with
      | field name => exact .inr h
      | index index => exact (List.mem_or_eq_of_mem_set h).symm

theorem Fits.put {count : Nat} {node : Node} (h : node.Fits count) (position : Position) {slot : Slot}
    (hslot : slot.Within count) : (node.put position slot).Fits count := by
  constructor
  · cases node with
    | object fields =>
        cases position with
        | field name => exact nodup_assign h.names name slot
        | index index => exact h.names
    | array items => cases position <;> exact List.nodup_nil
  · intro other hother
    rcases mem_slots_put hother with rfl | hold
    · exact hslot
    · exact h.slots other hold

end Node

namespace Graph

structure WellFormed (g : Graph) : Prop where
  root : g.root.Within g.nodes.length
  nodes : ∀ (id : Nat) (node : Node), g.nodes[id]? = some node → node.Fits g.nodes.length

instance (g : Graph) : Decidable g.WellFormed :=
  decidable_of_iff (g.root.Within g.nodes.length ∧ ∀ node ∈ g.nodes, node.Fits g.nodes.length)
    ⟨fun h => ⟨h.1, fun _ node hnode => h.2 node (List.mem_of_getElem? hnode)⟩,
      fun h => ⟨h.root, fun node hnode => by
        obtain ⟨id, hid⟩ := List.mem_iff_getElem?.mp hnode
        exact h.nodes id node hid⟩⟩

/-- The slot at a position of a node. -/
def slotAt? (g : Graph) (parent : Nat) (position : Position) : Option Slot :=
  (g.nodes[parent]?).bind (·.at? position)

theorem slotAt?_object {g : Graph} {id : Nat} {fields : List (String × Slot)}
    (hnode : g.nodes[id]? = some (.object fields)) (name : String) :
    g.slotAt? id (.field name) = Node.find? fields name := by
  rw [slotAt?, hnode]
  rfl

theorem slotAt?_array {g : Graph} {id : Nat} {items : List Slot} (hnode : g.nodes[id]? = some (.array items))
    (k : Nat) : g.slotAt? id (.index k) = items[k]? := by
  rw [slotAt?, hnode]
  rfl

/-- One node has a slot that points to the other. -/
def Points (g : Graph) (a b : Nat) : Prop := b ∈ g.targets a

theorem points_of_slotAt? {g : Graph} {a b : Nat} {position : Position}
    (h : g.slotAt? a position = some (.node b)) : g.Points a b := by
  obtain ⟨node, hnode, hat⟩ := Option.bind_eq_some_iff.mp h
  rw [Points, targets, hnode]
  exact List.mem_filterMap.mpr ⟨.node b, Node.mem_slots_of_at? hat, rfl⟩

theorem exists_slot_of_points {g : Graph} {a b : Nat} (h : g.Points a b) :
    ∃ node, g.nodes[a]? = some node ∧ Slot.node b ∈ node.slots := by
  rw [Points, targets] at h
  split at h
  · rename_i node hnode
    obtain ⟨slot, hslot, htarget⟩ := List.mem_filterMap.mp h
    cases slot with
    | value value => cases htarget
    | node id =>
        cases htarget
        exact ⟨node, hnode, hslot⟩
  · cases h

namespace WellFormed

variable {g : Graph} (hg : g.WellFormed)

include hg

theorem mem_children_iff {id : Nat} {position : Position} {slot : Slot} :
    (position, slot) ∈ g.children id ↔ g.slotAt? id position = some slot := by
  rw [children, slotAt?]
  cases hnode : g.nodes[id]? with
  | none => simp
  | some node => simpa using Node.mem_children_iff (hg.nodes id node hnode).names

theorem exists_slotAt? {a b : Nat} (h : g.Points a b) : ∃ position, g.slotAt? a position = some (.node b) := by
  obtain ⟨node, hnode, hslot⟩ := exists_slot_of_points h
  obtain ⟨position, hposition⟩ := Node.exists_mem_children_iff.mpr hslot
  refine ⟨position, ?_⟩
  rw [slotAt?, hnode]
  exact (Node.mem_children_iff (hg.nodes a node hnode).names).mp hposition

theorem within_slotAt? {id : Nat} {position : Position} {slot : Slot} (h : g.slotAt? id position = some slot) :
    slot.Within g.nodes.length := by
  obtain ⟨node, hnode, hat⟩ := Option.bind_eq_some_iff.mp h
  exact (hg.nodes id node hnode).slots slot (Node.mem_slots_of_at? hat)

theorem lt_of_points {a b : Nat} (h : g.Points a b) : b < g.nodes.length := by
  obtain ⟨position, hposition⟩ := hg.exists_slotAt? h
  exact hg.within_slotAt? hposition b rfl

end WellFormed

/-! ### Changes -/

theorem graph_ext {g next : Graph} (hroot : next.root = g.root) (hnodes : ∀ id : Nat, next.nodes[id]? = g.nodes[id]?) :
    next = g := by
  cases g
  cases next
  cases hroot
  exact congrArg (Graph.mk · _) (List.ext_getElem? hnodes)

theorem getElem?_alloc (g : Graph) (node : Node) (id : Nat) :
    (g.alloc node).1.nodes[id]? = if id = g.nodes.length then some node else g.nodes[id]? := by
  change (g.nodes ++ [node])[id]? = _
  rcases Nat.lt_or_ge id g.nodes.length with hlt | hge
  · rw [List.getElem?_append_left hlt, if_neg (Nat.ne_of_lt hlt)]
  · rw [List.getElem?_append_right hge, List.getElem?_eq_none hge, List.getElem?_singleton]
    simp only [Nat.sub_eq_zero_iff_le]
    split <;> split <;> first | rfl | omega

theorem put_slot (g : Graph) (parent : Nat) (position : Position) (slot : Slot) :
    g.put (.slot parent position) slot = { g with nodes := g.nodes.modify parent (Node.put position slot) } := by
  have hset : ∀ node, g.nodes[parent]? = some node →
      g.nodes.modify parent (Node.put position slot) = g.nodes.set parent (node.put position slot) := by
    intro node hnode
    obtain ⟨hlt, rfl⟩ := List.getElem?_eq_some_iff.mp hnode
    rw [List.modify_eq_set, hnode]
    rfl
  cases hnode : g.nodes[parent]? with
  | none =>
      rw [List.modify_eq_self (List.getElem?_eq_none_iff.mp hnode)]
      cases position <;> simp [put, setField, isObject, isArray, hnode]
  | some node =>
      rw [hset node hnode]
      have hself : g.nodes.set parent node = g.nodes := by
        obtain ⟨hlt, rfl⟩ := List.getElem?_eq_some_iff.mp hnode
        exact List.set_getElem_self hlt
      cases node <;> cases position <;>
        simp [put, setField, isObject, isArray, fields, items, setNode, Node.put, hnode, hself]

theorem root_put_slot (g : Graph) (parent : Nat) (position : Position) (slot : Slot) :
    (g.put (.slot parent position) slot).root = g.root := by rw [put_slot]

theorem getElem?_put_slot (g : Graph) (parent : Nat) (position : Position) (slot : Slot) (id : Nat) :
    (g.put (.slot parent position) slot).nodes[id]? =
      if id = parent then (g.nodes[id]?).map (Node.put position slot) else g.nodes[id]? := by
  rw [put_slot, List.getElem?_modify]
  by_cases hid : id = parent
  · simp [hid]
  · simp [hid, Ne.symm hid]

theorem length_put (g : Graph) (location : Location) (slot : Slot) :
    (g.put location slot).nodes.length = g.nodes.length := by
  cases location with
  | root => rfl
  | slot parent position => rw [put_slot, List.length_modify]

/-- Putting a slot where there is one changes that place alone. -/
theorem slotAt?_put {g : Graph} {parent : Nat} {position : Position}
    (hthere : (g.slotAt? parent position).isSome) (slot : Slot) (id : Nat) (other : Position) :
    (g.put (.slot parent position) slot).slotAt? id other =
      if id = parent ∧ other = position then some slot else g.slotAt? id other := by
  rw [slotAt?, getElem?_put_slot]
  by_cases hid : id = parent
  · subst hid
    cases hnode : g.nodes[id]? with
    | none => simp [slotAt?, hnode] at hthere
    | some node =>
        rw [slotAt?, hnode] at hthere
        simp [slotAt?, hnode, Node.at?_put hthere]
  · simp [slotAt?, hid]

namespace WellFormed

variable {g : Graph} (hg : g.WellFormed)

include hg

theorem put (location : Location) {slot : Slot} (hslot : slot.Within g.nodes.length) :
    (g.put location slot).WellFormed := by
  cases location with
  | root => exact ⟨hslot, hg.nodes⟩
  | slot parent position =>
      constructor
      · rw [length_put, root_put_slot]
        exact hg.root
      · intro id node hnode
        rw [length_put]
        rw [getElem?_put_slot] at hnode
        split at hnode
        · obtain ⟨old, hold, rfl⟩ := Option.map_eq_some_iff.mp hnode
          exact (hg.nodes id old hold).put position hslot
        · exact hg.nodes id node hnode

theorem alloc {node : Node} (hnode : node.Fits (g.nodes.length + 1)) : (g.alloc node).1.WellFormed := by
  have hlength : (g.alloc node).1.nodes.length = g.nodes.length + 1 := List.length_append
  constructor
  · rw [hlength]
    exact hg.root.mono (Nat.le_succ _)
  · intro id other hother
    rw [hlength]
    rw [getElem?_alloc] at hother
    split at hother
    · cases hother
      exact hnode
    · exact (hg.nodes id other hother).mono (Nat.le_succ _)

end WellFormed

end Graph

end Dossier
