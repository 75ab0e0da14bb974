import Dossier.Proofs.Graph.Agreement
import Dossier.Proofs.Graph.Owned
import Dossier.Proofs.Graph.Passes

/-!
The copies of one entity, fenced off. A merge of the copies of an entity goes through their fields level by level, but
it neither enters other entities nor the elements of arrays; so it does the same when all that is left of these is what
they show; `Fence.follows_merge`, in the next module, says so of copies that no other node leads back into. There, what
stands at a path leads to what stands further down, and unions of copies settle them.
-/

namespace Dossier.Graph

/-- Where nodes stand in the copies of one entity, and what the nodes show that stand in none. -/
structure Fence where
  place : Nat → Option (List String)
  shown : Nat → Json

namespace Fence

variable (fence : Fence)

def Inside (id : Nat) : Prop := (fence.place id).isSome = true

instance (id : Nat) : Decidable (fence.Inside id) := inferInstanceAs (Decidable (_ = true))

/-- A slot from which nothing outside is seen but that it is there. -/
def screen : Slot → Slot
  | .value value => .value value
  | .node id => if fence.Inside id then .node id else .value (.array [])

def screenField (field : String × Slot) : String × Slot := (field.1, fence.screen field.2)

/-- A container with the value in plain slots. -/
def leaf : Json → Node
  | .object members => .object (members.map fun member => (member.1, .value member.2))
  | .array items => .array (items.map .value)
  | _ => .array []

def screenNode (id : Nat) (node : Node) : Node :=
  if fence.Inside id then
    match node with
    | .object fields => .object (fields.map fence.screenField)
    | .array items => .array items
  else leaf (fence.shown id)

/-- The graph in which nodes outside are leaves and stand in arrays only. -/
def enclosed (g : Graph) : Graph := { g with nodes := g.nodes.mapIdx fence.screenNode }

variable {fence} {base g : Graph} {path : List String}

theorem getElem?_enclosed (g : Graph) (id : Nat) :
    (fence.enclosed g).nodes[id]? = (g.nodes[id]?).map (fence.screenNode id) := List.getElem?_mapIdx

theorem screenNode_of_inside {id : Nat} (h : fence.Inside id) (node : Node) : fence.screenNode id node =
    match node with
    | .object fields => .object (fields.map fence.screenField)
    | .array items => .array items := if_pos h

theorem screenNode_of_outside {id : Nat} (h : ¬fence.Inside id) (node : Node) :
    fence.screenNode id node = leaf (fence.shown id) := if_neg h

theorem screen_node_iff {slot : Slot} {id : Nat} :
    fence.screen slot = .node id ↔ slot = .node id ∧ fence.Inside id := by
  cases slot with
  | value value => simp [screen]
  | node other =>
      by_cases hother : fence.Inside other
      · rw [screen, if_pos hother]
        refine ⟨fun heq => ?_, And.left⟩
        cases heq
        exact ⟨rfl, hother⟩
      · rw [screen, if_neg hother]
        refine ⟨nofun, fun ⟨heq, hid⟩ => ?_⟩
        cases heq
        exact absurd hid hother

theorem screen_of_inside {id : Nat} (h : fence.Inside id) : fence.screen (.node id) = .node id := if_pos h

theorem truthy_screen (slot : Slot) : (fence.screen slot).truthy = slot.truthy := by
  cases slot with
  | value value => rfl
  | node id =>
      rw [screen]
      split <;> rfl

/-! ### What is inside -/

section

variable {id : Nat} (hid : fence.Inside id)

include hid

theorem fields_enclosed (g : Graph) : (fence.enclosed g).fields id = (g.fields id).map fence.screenField := by
  rw [fields, getElem?_enclosed, fields]
  cases g.nodes[id]? with
  | none => rfl
  | some node =>
      rw [Option.map_some, screenNode_of_inside hid]
      cases node <;> rfl

theorem items_enclosed (g : Graph) : (fence.enclosed g).items id = g.items id := by
  rw [items, getElem?_enclosed, items]
  cases g.nodes[id]? with
  | none => rfl
  | some node =>
      rw [Option.map_some, screenNode_of_inside hid]
      cases node <;> rfl

theorem isObject_enclosed (g : Graph) : (fence.enclosed g).isObject id = g.isObject id := by
  rw [isObject, getElem?_enclosed, isObject]
  cases g.nodes[id]? with
  | none => rfl
  | some node =>
      rw [Option.map_some, screenNode_of_inside hid]
      cases node <;> rfl

theorem isArray_enclosed (g : Graph) : (fence.enclosed g).isArray id = g.isArray id := by
  rw [isArray, getElem?_enclosed, isArray]
  cases g.nodes[id]? with
  | none => rfl
  | some node =>
      rw [Option.map_some, screenNode_of_inside hid]
      cases node <;> rfl

theorem field?_enclosed (g : Graph) (name : String) :
    (fence.enclosed g).field? id name = (g.field? id name).map fence.screen := by
  rw [field?, fields_enclosed hid, field?]
  induction g.fields id with
  | nil => rfl
  | cons field rest ih =>
      rw [List.map_cons, screenField, Node.find?, Node.find?]
      split
      · rfl
      · exact ih

theorem identity?_enclosed (g : Graph) : (fence.enclosed g).identity? id = g.identity? id := by
  rw [identity?, field?_enclosed hid, identity?]
  rcases g.field? id identityName with _ | slot
  · rfl
  · cases slot with
    | value value => rfl
    | node child =>
        by_cases hchild : fence.Inside child
        · rw [Option.map_some, screen_of_inside hchild]
        · rw [Option.map_some, screen, if_neg hchild]

end

/-! ### Nothing leads back inside -/

/-- A slot that stands under the name in a node at the path. -/
def Offers (fence : Fence) (base : Graph) (path : List String) (name : String) (slot : Slot) : Prop :=
  ∃ id, fence.place id = some path ∧ (name, slot) ∈ base.fields id

/-- An element of an array inside. -/
def Lists (fence : Fence) (base : Graph) (slot : Slot) : Prop := ∃ id, fence.Inside id ∧ slot ∈ base.items id

/-- A node that leads to nothing inside. -/
def Beyond (fence : Fence) (base : Graph) (id : Nat) : Prop := ∀ other, base.Reaches id other → ¬fence.Inside other

/-- The fence is where it should be: what a node inside holds in a field is inside too and further down, or it is
another entity, and in fields of one name at one path it is of one kind; elements of arrays are outside; and what is
outside does not lead back. -/
structure Closes (fence : Fence) (base : Graph) : Prop where
  wellFormed : base.WellFormed
  shows_it : ∀ id < base.nodes.length, base.Shows (.node id) (fence.shown id).normal
  field : ∀ {path name id}, fence.Offers base path name (.node id) →
    fence.place id = some (path ++ [name]) ∨ fence.Beyond base id ∧ (base.identity? id).isSome = true
  item : ∀ {id}, fence.Lists base (.node id) → fence.Beyond base id
  alike : ∀ {path name x y}, fence.Offers base path name (.node x) → fence.Offers base path name (.node y) →
    fence.Inside x → fence.Inside y

/-- The graph on the way of a merge of the copies: only what is inside has changed, and slots have stayed at their
paths. -/
structure Guards (fence : Fence) (base g : Graph) : Prop where
  regroups : Regroups base g
  outside : ∀ id, ¬fence.Inside id → g.nodes[id]? = base.nodes[id]?
  field : ∀ {id path name slot}, fence.place id = some path → (name, slot) ∈ g.fields id →
    fence.Offers base path name slot
  item : ∀ {id slot}, fence.Inside id → slot ∈ g.items id → fence.Lists base slot

theorem Guards.refl (fence : Fence) (base : Graph) : fence.Guards base base :=
  ⟨.refl base, fun _ _ => rfl, fun hid hfield => ⟨_, hid, hfield⟩, fun hid hitem => ⟨_, hid, hitem⟩⟩

theorem inside_of_place {id : Nat} (h : fence.place id = some path) : fence.Inside id := by rw [Inside, h]; rfl

theorem Beyond.outside {id : Nat} (h : fence.Beyond base id) : ¬fence.Inside id := h id .refl

theorem Beyond.tail {id other : Nat} (h : fence.Beyond base id) (hreach : base.Reaches id other) :
    fence.Beyond base other := fun last hlast => h last (hreach.trans hlast)

theorem not_points_of_leaf {id target : Nat} (hid : ¬fence.Inside id) : ¬(fence.enclosed g).Points id target := by
  intro hpoints
  obtain ⟨node, hnode, hslot⟩ := exists_slot_of_points hpoints
  rw [getElem?_enclosed, Option.map_eq_some_iff] at hnode
  obtain ⟨old, -, rfl⟩ := hnode
  rw [screenNode_of_outside hid] at hslot
  cases hshown : fence.shown id with
  | object members =>
      rw [hshown, leaf, Node.slots, List.map_map] at hslot
      obtain ⟨member, -, heq⟩ := List.mem_map.mp hslot
      cases heq
  | array items =>
      rw [hshown, leaf, Node.slots] at hslot
      obtain ⟨value, -, heq⟩ := List.mem_map.mp hslot
      cases heq
  | _ =>
      rw [hshown] at hslot
      cases hslot

/-- The fence takes ways away and adds none. -/
theorem points_of_enclosed {a b : Nat} (h : (fence.enclosed g).Points a b) : g.Points a b := by
  by_cases ha : fence.Inside a
  · rw [points_iff, fields_enclosed ha, items_enclosed ha] at h
    rcases h with ⟨name, hfield⟩ | hitem
    · obtain ⟨⟨key, slot⟩, hmem, heq⟩ := List.mem_map.mp hfield
      obtain ⟨rfl, hscreen⟩ := Prod.mk.inj heq
      obtain rfl := (screen_node_iff.mp hscreen).1
      exact points_iff.mpr (.inl ⟨_, hmem⟩)
    · exact points_iff.mpr (.inr hitem)
  · exact absurd h (not_points_of_leaf ha)

theorem leadsTo_of_enclosed {slot : Slot} {target : Nat} (h : g.leadsTo slot target = false) :
    (fence.enclosed g).leadsTo (fence.screen slot) target = false := by
  refine Bool.eq_false_iff.mpr fun hleads => Bool.eq_false_iff.mp h ?_
  obtain ⟨id, hid, hreach⟩ := leadsTo_iff.mp hleads
  refine leadsTo_iff.mpr ⟨id, (screen_node_iff.mp hid).1, ?_⟩
  exact Relation.ReflTransGen.mono (fun _ _ => points_of_enclosed) id target hreach

namespace Guards

variable (h : fence.Guards base g)

include h

theorem points_iff_of_outside {a b : Nat} (ha : ¬fence.Inside a) : g.Points a b ↔ base.Points a b := by
  rw [Points, targets, h.outside a ha, Points, targets]

/-- Beyond the fence nothing has changed. -/
theorem beyond_of_reaches {a b : Nat} (ha : fence.Beyond base a) (hreach : g.Reaches a b) :
    base.Reaches a b ∧ fence.Beyond base b := by
  induction hreach with
  | refl => exact ⟨.refl, ha⟩
  | tail _ hpoints ih =>
      have hnext := ih.1.tail ((h.points_iff_of_outside ih.2.outside).mp hpoints)
      exact ⟨hnext, ha.tail hnext⟩

variable (hcloses : fence.Closes base)

include hcloses

/-- What stands at a path leads further down or out. -/
theorem place_of_reaches {a b : Nat} (hreach : g.Reaches a b) (ha : fence.place a = some path) :
    fence.Beyond base b ∨ ∃ rest, fence.place b = some (path ++ rest) := by
  induction hreach with
  | refl => exact .inr ⟨[], by rw [ha, List.append_nil]⟩
  | @tail b c _ hpoints ih =>
      rcases ih with hbeyond | ⟨rest, hb⟩
      · exact .inl (h.beyond_of_reaches hbeyond (.single hpoints)).2
      · rcases points_iff.mp hpoints with ⟨name, hfield⟩ | hitem
        · rcases hcloses.field (h.field hb hfield) with hc | ⟨hbeyond, -⟩
          · exact .inr ⟨rest ++ [name], by rw [hc, List.append_assoc]⟩
          · exact .inl hbeyond
        · exact .inl (hcloses.item (h.item (inside_of_place hb) hitem))

theorem leadsTo_offered {target : Nat} {name : String} {slot : Slot} (htarget : fence.place target = some path)
    (hslot : fence.Offers base path name slot) : g.leadsTo slot target = false := by
  refine Bool.eq_false_iff.mpr fun hleads => ?_
  obtain ⟨id, rfl, hreach⟩ := leadsTo_iff.mp hleads
  rcases hcloses.field hslot with hid | ⟨hbeyond, -⟩
  · rcases h.place_of_reaches hcloses hreach hid with hbeyond | ⟨rest, hrest⟩
    · exact hbeyond.outside (inside_of_place htarget)
    · rw [List.append_assoc] at hrest
      exact deeper_ne (htarget.symm.trans hrest)
  · exact (h.beyond_of_reaches hbeyond hreach).2.outside (inside_of_place htarget)

theorem leadsTo_listed {target : Nat} {slot : Slot} (htarget : fence.Inside target) (hslot : fence.Lists base slot) :
    g.leadsTo slot target = false := by
  refine Bool.eq_false_iff.mpr fun hleads => ?_
  obtain ⟨id, rfl, hreach⟩ := leadsTo_iff.mp hleads
  exact (h.beyond_of_reaches (hcloses.item hslot) hreach).2.outside htarget

end Guards

/-! ### Steps -/

theorem screenField_assign (name : String) (slot : Slot) (fields : List (String × Slot)) :
    (Node.assign name slot fields).map fence.screenField =
      Node.assign name (fence.screen slot) (fields.map fence.screenField) := by
  induction fields with
  | nil => rfl
  | cons field rest ih =>
      obtain ⟨key, old⟩ := field
      rw [List.map_cons, screenField, Node.assign, Node.assign]
      split
      · rfl
      · rw [List.map_cons, ih, screenField]

/-- What is enclosed depends on what is inside only. -/
theorem enclosed_congr {next : Graph} (hroot : next.root = g.root) (hsize : next.nodes.length = g.nodes.length)
    (hinside : ∀ id, fence.Inside id → next.nodes[id]? = g.nodes[id]?) : fence.enclosed next = fence.enclosed g := by
  refine graph_ext hroot fun id => ?_
  rw [getElem?_enclosed, getElem?_enclosed]
  by_cases hid : fence.Inside id
  · rw [hinside id hid]
  · have hleaf : ∀ g : Graph, (g.nodes[id]?).map (fence.screenNode id) =
        if id < g.nodes.length then some (leaf (fence.shown id)) else none := by
      intro g
      split
      · rename_i hlt
        rw [List.getElem?_eq_getElem hlt, Option.map_some, screenNode_of_outside hid]
      · rename_i hge
        rw [List.getElem?_eq_none (Nat.not_lt.mp hge), Option.map_none]
    rw [hleaf, hleaf, hsize]

theorem enclosed_setField {target : Nat} (htarget : fence.Inside target) (name : String) (slot : Slot) :
    fence.enclosed (g.setField target name slot) = (fence.enclosed g).setField target name (fence.screen slot) := by
  by_cases hobject : g.isObject target = true
  · have hobject' : (fence.enclosed g).isObject target = true := (isObject_enclosed htarget g).trans hobject
    refine graph_ext ?_ fun id => ?_
    · rw [setField, if_pos hobject, setField, if_pos hobject']
      rfl
    · rw [getElem?_enclosed, getElem?_setField hobject, getElem?_setField hobject', getElem?_enclosed]
      split
      · rename_i hid
        subst hid
        rw [Option.map_some, screenNode_of_inside htarget, fields_enclosed htarget, ← screenField_assign]
      · rfl
  · have hobject' : ¬(fence.enclosed g).isObject target = true := by rwa [isObject_enclosed htarget]
    rw [setField_of_not_isObject hobject, setField_of_not_isObject hobject']

theorem enclosed_setArray {target : Nat} (htarget : fence.Inside target) (harray : g.isArray target = true)
    (slots : List Slot) :
    fence.enclosed (g.setNode target (.array slots)) = (fence.enclosed g).setNode target (.array slots) := by
  have harray' : (fence.enclosed g).isArray target = true := (isArray_enclosed htarget g).trans harray
  refine graph_ext rfl fun id => ?_
  rw [getElem?_enclosed, getElem?_setNode (isArray_iff.mp harray), getElem?_setNode (isArray_iff.mp harray'),
    getElem?_enclosed]
  split
  · rename_i hid
    subst hid
    rw [Option.map_some, screenNode_of_inside htarget]
  · rfl

/-- The step leaves the graph guarded, and it is the other step on the enclosed graph. -/
def Follows (fence : Fence) (base next image : Graph) : Prop := fence.Guards base next ∧ fence.enclosed next = image

section

variable (hcloses : fence.Closes base) (h : fence.Guards base g)

include hcloses h

theorem follows_adopt {target : Nat} (htarget : fence.place target = some path) {name : String} {slot : Slot}
    (hslot : fence.Offers base path name slot) : fence.Follows base (g.adopt target name slot)
      ((fence.enclosed g).adopt target name (fence.screen slot)) := by
  have hleads := h.leadsTo_offered hcloses htarget hslot
  have hinside := inside_of_place htarget
  have hadopt : ∀ {g : Graph} {slot : Slot}, g.leadsTo slot target = false →
      g.adopt target name slot = g.setField target name slot := fun hleads => by
    rw [adopt, if_neg (Bool.eq_false_iff.mp hleads)]
  rw [hadopt hleads, hadopt (leadsTo_of_enclosed hleads)]
  obtain ⟨source, -, hsource⟩ := id hslot
  refine ⟨⟨h.regroups.setField hsource target, fun id hid => ?_, fun {id below key held} hid hheld => ?_,
    fun {id item} hid hitem => ?_⟩, enclosed_setField hinside name slot⟩
  · have hne : id ≠ target := fun heq => hid (heq ▸ hinside)
    rw [getElem?_setField_of_ne hne name slot]
    exact h.outside id hid
  · rcases mem_fields_setField hheld with ⟨rfl, heq⟩ | hold
    · cases heq
      cases hid.symm.trans htarget
      exact hslot
    · exact h.field hid hold
  · by_cases hobject : g.isObject target = true
    · rw [items_setField hobject] at hitem
      exact h.item hid hitem
    · rw [setField_of_not_isObject hobject] at hitem
      exact h.item hid hitem

theorem follows_adoptItems {target : Nat} (htarget : fence.Inside target) (harray : g.isArray target = true)
    {joined : List Slot} (hjoined : ∀ slot ∈ joined, fence.Lists base slot) :
    fence.Follows base (g.adoptItems target joined) ((fence.enclosed g).adoptItems target joined) := by
  have hkept : ∀ {g : Graph}, (∀ slot ∈ joined, g.leadsTo slot target = false) →
      g.adoptItems target joined = g.setNode target (.array joined) := by
    intro g hleads
    unfold adoptItems
    dsimp only
    rw [List.filter_eq_self.mpr fun slot hslot => by rw [hleads slot hslot]; exact Bool.or_true _]
  have hleads : ∀ slot ∈ joined, g.leadsTo slot target = false := fun slot hslot =>
    h.leadsTo_listed hcloses htarget (hjoined slot hslot)
  have hleads' : ∀ slot ∈ joined, (fence.enclosed g).leadsTo slot target = false := by
    intro slot hslot
    refine Bool.eq_false_iff.mpr fun hback => Bool.eq_false_iff.mp (hleads slot hslot) ?_
    obtain ⟨id, rfl, hreach⟩ := leadsTo_iff.mp hback
    exact leadsTo_iff.mpr ⟨id, rfl, Relation.ReflTransGen.mono (fun _ _ => points_of_enclosed) id target hreach⟩
  rw [hkept hleads, hkept hleads']
  refine ⟨⟨h.regroups.setArray harray fun slot hslot => ?_, fun id hid => ?_, fun {id below key held} hid hheld => ?_,
    fun {id item} hid hitem => ?_⟩, enclosed_setArray htarget harray joined⟩
  · obtain ⟨source, -, hsource⟩ := hjoined slot hslot
    exact ⟨source, hsource⟩
  · have hne : id ≠ target := fun heq => hid (heq ▸ htarget)
    rw [getElem?_setNode (isArray_iff.mp harray), if_neg hne]
    exact h.outside id hid
  · rw [fields_setArray harray] at hheld
    exact h.field hid hheld
  · rw [items_setArray harray] at hitem
    split at hitem
    · exact hjoined item hitem
    · exact h.item hid hitem

end

/-! ### What is shown outside -/

theorem find?_plain (members : Members) (name : String) :
    Node.find? (members.map fun member => (member.1, Slot.value member.2)) name =
      (members.get? name).map Slot.value := by
  induction members with
  | nil => rfl
  | cons member rest ih =>
      rw [List.map_cons, Node.find?, Members.get?]
      split
      · rfl
      · exact ih

theorem shows_leaf {id other : Nat} {value : Json} (hshown : base.Shows (.node other) value.normal)
    (hnode : g.nodes[id]? = some (leaf value)) : g.Shows (.node id) value.normal := by
  cases value with
  | object members =>
      rw [Json.normal] at hshown ⊢
      have hsorted := hshown.sorted
      refine .object hnode ?_ hsorted (fun name => ?_) fun name slot shown hslot hget => ?_
      · rw [Members.Sorted, Json.names_normalMembers] at hsorted
        rw [List.map_map]
        exact hsorted.imp fun hlt => ne_of_lt hlt
      · rw [find?_plain, Json.get?_normalMembers, Option.isSome_map, Option.isSome_map]
      · rw [find?_plain] at hslot
        rw [Json.get?_normalMembers] at hget
        obtain ⟨value, hvalue, rfl⟩ := Option.map_eq_some_iff.mp hslot
        rw [hvalue] at hget
        cases hget
        exact .value value
  | array items =>
      rw [Json.normal, Json.normalItems_eq]
      refine .array hnode (by rw [List.length_map, List.length_map]) fun k slot shown hslot hget => ?_
      rw [List.getElem?_map] at hslot hget
      obtain ⟨value, hvalue, rfl⟩ := Option.map_eq_some_iff.mp hslot
      rw [hvalue] at hget
      cases hget
      exact .value value
  | _ =>
      have hcontainer := hshown.isContainer
      cases hcontainer

/-- Nodes count as one element or not by their identities and by what they show. -/
theorem sameElement_of_both {next : Graph} {a b : Nat} {v w : Json} (hv : g.Shows (.node a) v)
    (hw : g.Shows (.node b) w) (hv' : next.Shows (.node a) v) (hw' : next.Shows (.node b) w) :
    next.sameElement (.node a) (.node b) = g.sameElement (.node a) (.node b) := by
  obtain ⟨x, hx, hxnormal⟩ := hv.nodeJson?
  obtain ⟨y, hy, hynormal⟩ := hw.nodeJson?
  obtain ⟨x', hx', hxnormal'⟩ := hv'.nodeJson?
  obtain ⟨y', hy', hynormal'⟩ := hw'.nodeJson?
  have hsame : x'.same y' = x.same y := by
    rw [Bool.eq_iff_iff, Json.same_iff, Json.same_iff, hxnormal, hynormal, hxnormal', hynormal']
  rw [sameElement, sameElement, ← hv'.identity, ← hw'.identity, ← hv.identity, ← hw.identity, hx, hy, hx', hy']
  dsimp only
  rw [hsame]

section

variable (hcloses : fence.Closes base) (h : fence.Guards base g)

include hcloses h

/-- What is beyond the fence goes on showing what it did, also when it is made a leaf. -/
theorem shows_beyond {id : Nat} (hid : fence.Beyond base id) (hlt : id < base.nodes.length) :
    g.Shows (.node id) (fence.shown id).normal ∧ (fence.enclosed g).Shows (.node id) (fence.shown id).normal := by
  have hshown := hcloses.shows_it id hlt
  refine ⟨hshown.frame (fun a (ha : base.Reaches id a) b hpoints => ha.tail hpoints)
    (fun other hother node hnode => (h.outside other (hid other hother)).trans hnode) fun other heq => ?_, ?_⟩
  · cases heq
    exact .refl
  · refine shows_leaf hshown ?_
    rw [getElem?_enclosed, List.getElem?_eq_getElem (h.regroups.size.symm ▸ hlt), Option.map_some,
      screenNode_of_outside hid.outside]

theorem sameElement_enclosed {left right : Slot} (hleft : fence.Lists base left) (hright : fence.Lists base right) :
    (fence.enclosed g).sameElement left right = g.sameElement left right := by
  have hlt : ∀ {id : Nat}, fence.Lists base (.node id) → id < base.nodes.length := fun ⟨source, _, hitem⟩ =>
    hcloses.wellFormed.lt_of_points (points_iff.mpr (.inr hitem))
  cases left with
  | value a => cases right <;> rfl
  | node a =>
      cases right with
      | value b => rfl
      | node b =>
          obtain ⟨ha, ha'⟩ := shows_beyond hcloses h (hcloses.item hleft) (hlt hleft)
          obtain ⟨hb, hb'⟩ := shows_beyond hcloses h (hcloses.item hright) (hlt hright)
          exact sameElement_of_both ha hb ha' hb'

theorem joinedItems_enclosed {x y : Nat} (hx : fence.Inside x) (hy : fence.Inside y) :
    (fence.enclosed g).joinedItems x y = g.joinedItems x y := by
  rw [joinedItems, joinedItems, items_enclosed hx, items_enclosed hy]
  -- all along, what was joined so far stands in arrays inside
  suffices hall : ∀ more joined : List Slot, (∀ item ∈ more, fence.Lists base item) →
      (∀ item ∈ joined, fence.Lists base item) →
      more.foldl (fun joined item =>
          if joined.any ((fence.enclosed g).sameElement · item) then joined else joined ++ [item]) joined =
        more.foldl (fun joined item =>
          if joined.any (g.sameElement · item) then joined else joined ++ [item]) joined from
    hall _ _ (fun _ hitem => h.item hy hitem) fun _ hitem => h.item hx hitem
  intro more
  induction more with
  | nil => exact fun _ _ _ => rfl
  | cons item rest ih =>
      intro joined hmore hjoined
      have hitem := hmore item List.mem_cons_self
      have hany : joined.any ((fence.enclosed g).sameElement · item) = joined.any (g.sameElement · item) := by
        rw [Bool.eq_iff_iff, List.any_eq_true, List.any_eq_true]
        exact exists_congr fun other => and_congr_right fun hother => by
          rw [sameElement_enclosed hcloses h (hjoined other hother) hitem]
      rw [List.foldl_cons, List.foldl_cons, hany]
      refine ih _ (fun other hother => hmore other (List.mem_cons_of_mem _ hother)) fun other hother => ?_
      split at hother
      · exact hjoined other hother
      · rcases List.mem_append.mp hother with hold | hnew
        · exact hjoined other hold
        · exact List.mem_singleton.mp hnew ▸ hitem

/-- The objects stay the same in number, so unions go equally deep. -/
theorem objectCount_enclosed : (fence.enclosed g).objectCount = g.objectCount := by
  have hsize : (fence.enclosed g).nodes.length = g.nodes.length := List.length_mapIdx
  rw [objectCount_eq, objectCount_eq, hsize]
  refine List.countP_congr fun id hid => ?_
  by_cases hinside : fence.Inside id
  · rw [isObject_enclosed hinside]
  · have hlt : id < base.nodes.length := h.regroups.size ▸ List.mem_range.mp hid
    have hshown := hcloses.shows_it id hlt
    have hleaf : (fence.enclosed g).Shows (.node id) (fence.shown id).normal := by
      refine shows_leaf hshown ?_
      rw [getElem?_enclosed, List.getElem?_eq_getElem (List.mem_range.mp hid), Option.map_some,
        screenNode_of_outside hinside]
    rw [h.regroups.isObject]
    constructor <;> intro hobject
    · obtain ⟨members, hmembers⟩ := exists_members_of_shows hleaf hobject
      exact isObject_of_shows (hmembers ▸ hshown)
    · obtain ⟨members, hmembers⟩ := exists_members_of_shows hshown hobject
      exact isObject_of_shows (hmembers ▸ hleaf)

end

end Fence

end Dossier.Graph
