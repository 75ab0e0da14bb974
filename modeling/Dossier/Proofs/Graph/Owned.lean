import Dossier.Proofs.Graph.Filling
import Dossier.Proofs.Graph.Unshared

/-!
What belongs to entities. A merge changes nothing but entities and what is held in their fields, level by level; an
element of an array belongs to an entity only if it is one itself. What it changes, it adds to: a field that holds
something holds it from then on.
-/

namespace Dossier.Graph

variable {origin g next : Graph}

/-- What belongs to entities: they do, and so does what the fields of anything that does hold. -/
inductive Owned (g : Graph) : Nat → Prop
  | entity {id : Nat} : (g.identity? id).isSome = true → Owned g id
  | field {id child : Nat} {name : String} : Owned g id → g.field? id name = some (.node child) → Owned g child

/-- A field of one node holds the other. -/
def Carries (g : Graph) (a b : Nat) : Prop := ∃ name, g.field? a name = some (.node b)

/-- Fields that hold something go on holding it. -/
def Retains (g next : Graph) : Prop :=
  ∀ id name slot, slot.truthy = true → g.field? id name = some slot → next.field? id name = some slot

theorem Carries.points {a b : Nat} (h : g.Carries a b) : g.Points a b := by
  obtain ⟨name, hfield⟩ := h
  exact points_iff.mpr (.inl ⟨name, mem_of_field? hfield⟩)

theorem Retains.refl (g : Graph) : Retains g g := fun _ _ _ _ h => h

theorem Retains.trans {middle : Graph} (h : Retains g middle) (h' : Retains middle next) : Retains g next :=
  fun id name slot htruthy hfield => h' id name slot htruthy (h id name slot htruthy hfield)

theorem Retains.carries (h : Retains g next) {a b : Nat} (hcarries : g.Carries a b) : next.Carries a b := by
  obtain ⟨name, hfield⟩ := hcarries
  exact ⟨name, h a name _ rfl hfield⟩

/-- An identity is a text in a field, which is not empty. -/
theorem identity?_eq_some_iff {id : Nat} {identity : String} : g.identity? id = some identity ↔
    g.field? id identityName = some (.text identity) ∧ (Slot.text identity).truthy = true := by
  have htruthy : (Slot.text identity).truthy = !identity.isEmpty := rfl
  rw [identity?, htruthy, Bool.not_eq_true']
  split
  · rename_i text htext
    rw [htext]
    by_cases hempty : text.isEmpty = true
    · rw [if_pos hempty]
      constructor
      · intro h
        cases h
      · rintro ⟨heq, hfull⟩
        cases heq
        exact absurd hempty (Bool.eq_false_iff.mp hfull)
    · rw [if_neg hempty]
      constructor
      · intro heq
        cases heq
        exact ⟨rfl, Bool.eq_false_iff.mpr hempty⟩
      · rintro ⟨heq, -⟩
        cases heq
        rfl
  · rename_i hother
    constructor
    · intro h
      cases h
    · rintro ⟨heq, -⟩
      exact absurd heq (hother identity)

theorem Retains.identity? (h : Retains g next) {id : Nat} {identity : String}
    (hidentity : g.identity? id = some identity) : next.identity? id = some identity := by
  obtain ⟨hfield, htruthy⟩ := identity?_eq_some_iff.mp hidentity
  exact identity?_eq_some_iff.mpr ⟨h id _ _ htruthy hfield, htruthy⟩

/-! ### Elements by position -/

theorem exists_index_of_mem_items {id : Nat} {slot : Slot} (h : slot ∈ g.items id) :
    ∃ k, g.slotAt? id (.index k) = some slot := by
  obtain ⟨k, hk⟩ := List.mem_iff_getElem?.mp h
  refine ⟨k, ?_⟩
  rw [items] at hk
  split at hk
  · rename_i items hnode
    rw [slotAt?_array hnode]
    exact hk
  · cases hk

theorem mem_items_of_slotAt? {id k : Nat} {slot : Slot} (h : g.slotAt? id (.index k) = some slot) :
    slot ∈ g.items id := by
  obtain ⟨node, hnode, hat⟩ := Option.bind_eq_some_iff.mp h
  cases node with
  | object fields => cases hat
  | array items =>
      rw [Graph.items, hnode]
      exact List.mem_of_getElem? hat

theorem isArray_of_mem_items {id : Nat} {slot : Slot} (h : slot ∈ g.items id) : g.isArray id = true := by
  rw [items] at h
  rw [isArray]
  split at h
  · rfl
  · cases h

/-! ### Retaining -/

/-- What held nothing may be given something. -/
theorem Retains.adopt (h : Retains g next) {target : Nat} {name : String}
    (hlacks : ∀ old, g.field? target name = some old → old.truthy = false) (slot : Slot) :
    Retains g (next.adopt target name slot) := by
  intro id key held htruthy hheld
  rcases next.field?_adopt target name slot id key with hsame | ⟨rfl, rfl, -⟩
  · rw [hsame]
    exact h id key held htruthy hheld
  · rw [hlacks held hheld] at htruthy
    cases htruthy

theorem Fills.retains {inside : Nat → Prop} (h : Fills g inside next) : Retains g next := by
  intro id name slot htruthy hfield
  obtain ⟨new, hnew, rfl | ⟨hfalsy, -⟩⟩ := h.fields id name slot hfield
  · exact hnew
  · rw [htruthy] at hfalsy
    cases hfalsy

theorem retains_unified (hg : g.WellFormed) : Retains g g.unified :=
  Fills.retains ((survives_fills hg fun _ => True).unified (fun _ _ => trivial) (.refl fun _ _ _ _ => trivial))

/-! ### What a merge makes of a graph -/

/-- A graph on the way of a merge: its containers have slots of their own kind, entities and what belongs to them have
got more of them, and the rest is as it was. -/
structure Endowed (origin g : Graph) : Prop where
  regroups : Regroups origin g
  acyclic : g.Acyclic
  retains : Retains origin g
  apart : ∀ id, ¬origin.Owned id → g.nodes[id]? = origin.nodes[id]?
  closed : ∀ id child, origin.Owned id → g.Carries id child → origin.Owned child
  listed : ∀ id slot, origin.Owned id → slot ∈ g.items id → ∃ array, origin.Owned array ∧ slot ∈ origin.items array

theorem Endowed.refl (h : g.Acyclic) : Endowed g g :=
  ⟨.refl g, h, .refl g, fun _ _ => rfl, fun _ _ howned ⟨_, hfield⟩ => howned.field hfield,
    fun id _ howned hitem => ⟨id, howned, hitem⟩⟩

namespace Endowed

variable (h : Endowed origin g)

include h

theorem adopt {target : Nat} {name : String} {slot : Slot} (htarget : origin.Owned target)
    (hsource : ∃ source, (name, slot) ∈ origin.fields source) (hslot : ∀ child, slot = .node child → origin.Owned child)
    (hlacks : ∀ old, origin.field? target name = some old → old.truthy = false) :
    Endowed origin (g.adopt target name slot) := by
  obtain ⟨source, hsource⟩ := hsource
  refine ⟨h.regroups.adopt hsource target, h.acyclic.adopt target name slot, h.retains.adopt hlacks slot,
    fun id hid => ?_, fun id child howned ⟨key, hfield⟩ => ?_, fun id item howned hitem => ?_⟩
  · have hne : id ≠ target := fun heq => hid (heq ▸ htarget)
    rw [getElem?_adopt g name slot hne, h.apart id hid]
  · rcases g.field?_adopt target name slot id key with hsame | ⟨-, -, hnew⟩
    · exact h.closed id child howned ⟨key, hsame ▸ hfield⟩
    · exact hslot child (Option.some_inj.mp (hnew.symm.trans hfield))
  · rw [items_adopt] at hitem
    exact h.listed id item howned hitem

theorem adoptItems {target : Nat} (htarget : origin.Owned target) (harray : g.isArray target = true)
    {joined : List Slot} (hjoined : ∀ slot ∈ joined, ∃ array, origin.Owned array ∧ slot ∈ origin.items array) :
    Endowed origin (g.adoptItems target joined) := by
  have hfields : ∀ id name, (g.adoptItems target joined).field? id name = g.field? id name := fun id name => by
    rw [Graph.adoptItems, field?, fields_setArray harray, field?]
  have hsources : ∀ slot ∈ joined, ∃ source, slot ∈ origin.items source := fun slot hslot =>
    (hjoined slot hslot).imp fun _ => And.right
  refine ⟨h.regroups.adoptItems harray hsources, h.acyclic.adoptItems harray joined,
    fun id name slot htruthy hfield => ?_, fun id hid => ?_, fun id child howned hfield => ?_,
    fun id item howned hitem => ?_⟩
  · rw [hfields]
    exact h.retains id name slot htruthy hfield
  · have hne : id ≠ target := fun heq => hid (heq ▸ htarget)
    rw [Graph.adoptItems, getElem?_setNode (isArray_iff.mp harray), if_neg hne, h.apart id hid]
  · obtain ⟨name, hfield⟩ := hfield
    exact h.closed id child howned ⟨name, hfields id name ▸ hfield⟩
  · rw [Graph.adoptItems, items_setArray harray] at hitem
    split at hitem
    · exact hjoined item (List.mem_of_mem_filter hitem)
    · exact h.listed id item howned hitem

/-! ### Who belongs to an entity -/

section

variable {child : Nat} (hfree : ∀ id name, origin.Owned id → origin.field? id name ≠ some (.node child))

include hfree

/-- What no field of an entity's held at first has the identity it had then. -/
theorem identity?_eq : g.identity? child = origin.identity? child := by
  by_cases howned : origin.Owned child
  · cases howned with
    | entity hidentity =>
        obtain ⟨identity, hidentity⟩ := Option.isSome_iff_exists.mp hidentity
        rw [hidentity, h.retains.identity? hidentity]
    | @field id _ name howned hfield => exact absurd hfield (hfree id name howned)
  · rw [identity?, field?, fields, h.apart child howned, identity?, field?, fields]

/-- It belongs to an entity if it is one. -/
theorem owned_iff : origin.Owned child ↔ (g.identity? child).isSome = true := by
  rw [h.identity?_eq hfree]
  refine ⟨fun howned => ?_, .entity⟩
  cases howned with
  | entity hidentity => exact hidentity
  | @field id _ name howned hfield => exact absurd hfield (hfree id name howned)

end

variable (hunshared : origin.Unshared)

include hunshared

theorem not_field_of_item {id child : Nat} (hitem : Slot.node child ∈ g.items id) (owner : Nat) (name : String) :
    origin.field? owner name ≠ some (.node child) := by
  intro hfield
  obtain ⟨source, hsource⟩ := h.regroups.items id _ hitem
  obtain ⟨k, hk⟩ := exists_index_of_mem_items hsource
  rw [← slotAt?_field] at hfield
  cases (hunshared owner source (.field name) (.index k) child hfield hk).2

theorem owned_item_iff {id child : Nat} (hitem : Slot.node child ∈ g.items id) :
    origin.Owned child ↔ (g.identity? child).isSome = true :=
  h.owned_iff fun owner name _ => h.not_field_of_item hunshared hitem owner name

theorem identity?_item {id child : Nat} (hitem : Slot.node child ∈ g.items id) :
    g.identity? child = origin.identity? child :=
  h.identity?_eq fun owner name _ => h.not_field_of_item hunshared hitem owner name

theorem owned_field_iff {id child : Nat} (hid : ¬origin.Owned id) (hcarries : g.Carries id child) :
    origin.Owned child ↔ (g.identity? child).isSome = true := by
  obtain ⟨key, hkey⟩ := hcarries
  have hfirst : origin.field? id key = some (.node child) := by
    rw [field?, fields, ← h.apart id hid]
    exact hkey
  refine h.owned_iff fun owner name howner hfield => hid ?_
  rw [← slotAt?_field] at hfield hfirst
  exact (hunshared owner id (.field name) (.field key) child hfield hfirst).1 ▸ howner

end Endowed

end Dossier.Graph
