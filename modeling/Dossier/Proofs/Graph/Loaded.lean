import Dossier.Proofs.Graph.Layout
import Dossier.Proofs.Graph.Load

/-!
The layout of values that were loaded. Every value has nodes of its own, so each container stands at one path of
one copy, which is known by the node at its top. Main statement: `loadNodes_planted`.
-/

namespace Dossier.Graph

/-- Every node stands below its container and in the same copy. -/
structure Planted (layout : Layout) (g : Graph) : Prop where
  field : ∀ {id target : Nat} {name : String}, (name, .node target) ∈ g.fields id →
    layout.place target = (layout.place id).map (· ++ [name]) ∧ layout.copy target = layout.copy id
  item : ∀ {id target : Nat}, .node target ∈ g.items id → layout.place target = none

theorem Planted.laid {layout : Layout} {g : Graph} (h : Planted layout g) (hg : g.WellFormed) {first : Nat}
    (hfirst : layout.place first = some []) : Laid layout first g where
  names := (wellFormed_iff.mp hg).2.1
  root := hfirst
  field hfield := (h.field hfield).1
  item hitem := h.item hitem
  kin hfield := .inl (h.field hfield).2

/-- The node of the slot, if it has one, stands there. -/
def StandsAt (layout : Layout) (place : Option (List String)) (copy : Nat) (slot : Slot) : Prop :=
  ∀ id, slot = .node id → layout.place id = place ∧ layout.copy id = copy

/-- The other layout tells the same of the first nodes. -/
def Layout.Extends (layout more : Layout) (size : Nat) : Prop :=
  ∀ id < size, more.place id = layout.place id ∧ more.copy id = layout.copy id

theorem Layout.Extends.trans {layout middle more : Layout} {size large : Nat} (h : layout.Extends middle size)
    (h' : middle.Extends more large) (hle : size ≤ large) : layout.Extends more size := fun id hid =>
  ⟨(h' id (hid.trans_le hle)).1.trans (h id hid).1, (h' id (hid.trans_le hle)).2.trans (h id hid).2⟩

theorem StandsAt.extend {layout more : Layout} {place : Option (List String)} {copy size : Nat} {slot : Slot}
    (h : StandsAt layout place copy slot) (hmore : layout.Extends more size) (hwithin : slot.Within size) :
    StandsAt more place copy slot := fun id hid => by
  obtain ⟨hplace, hcopy⟩ := h id hid
  obtain ⟨hplace', hcopy'⟩ := hmore id (hwithin id hid)
  exact ⟨hplace'.trans hplace, hcopy'.trans hcopy⟩

/-- The layout with one more node. -/
def Layout.put (layout : Layout) (id : Nat) (place : Option (List String)) (copy : Nat) : Layout :=
  ⟨fun other => if other = id then place else layout.place other,
    fun other => if other = id then copy else layout.copy other⟩

theorem Layout.extends_put (layout : Layout) (id : Nat) (place : Option (List String)) (copy : Nat) :
    layout.Extends (layout.put id place copy) id := fun _ hother =>
  ⟨if_neg (Nat.ne_of_lt hother), if_neg (Nat.ne_of_lt hother)⟩

theorem Layout.stands_put (layout : Layout) (id : Nat) (place : Option (List String)) (copy : Nat) :
    StandsAt (layout.put id place copy) place copy (.node id) := by
  intro other hother
  cases hother
  exact ⟨if_pos rfl, if_pos rfl⟩

variable {whole : Json} {layout : Layout} {g : Graph}

theorem Loading.within_field (hg : g.Loading whole) {id : Nat} {field : String × Slot} (h : field ∈ g.fields id) :
    id < g.nodes.length ∧ field.2.Within g.nodes.length := by
  rw [fields] at h
  split at h
  · rename_i fields hnode
    exact ⟨(List.getElem?_eq_some_iff.mp hnode).1,
      (hg.nodes id _ hnode).slots _ (List.mem_map_of_mem (f := Prod.snd) h)⟩
  · cases h

theorem Loading.within_item (hg : g.Loading whole) {id : Nat} {slot : Slot} (h : slot ∈ g.items id) :
    slot.Within g.nodes.length := by
  rw [items] at h
  split at h
  · rename_i items hnode
    exact (hg.nodes id _ hnode).slots _ h
  · cases h

/-- A container is added that stands above all it holds. -/
theorem Planted.alloc (hg : g.Loading whole) (h : Planted layout g) {node : Node}
    (hwithin : ∀ slot ∈ node.slots, slot.Within g.nodes.length) {place : Option (List String)} {copy : Nat}
    (hobject : ∀ fields, node = .object fields → ∀ field ∈ fields,
      StandsAt layout (place.map (· ++ [field.1])) copy field.2)
    (harray : ∀ items, node = .array items → ∀ slot ∈ items, StandsAt layout none copy slot) :
    Planted (layout.put g.nodes.length place copy) (g.alloc node).1 := by
  have hold := layout.extends_put g.nodes.length place copy
  obtain ⟨hplace, hcopy⟩ := layout.stands_put g.nodes.length place copy g.nodes.length rfl
  constructor
  · intro id target name hfield
    by_cases hid : id = g.nodes.length
    · rw [fields, getElem?_alloc, if_pos hid] at hfield
      rw [hid, hplace, hcopy]
      cases node with
      | object fields =>
          have hslot := hwithin _ (List.mem_map_of_mem (f := Prod.snd) hfield)
          exact (hobject fields rfl _ hfield).extend hold hslot target rfl
      | array items => cases hfield
    · rw [fields, getElem?_alloc, if_neg hid] at hfield
      obtain ⟨hlt, hslot⟩ := hg.within_field hfield
      obtain ⟨htarget, htargetCopy⟩ := hold target (hslot target rfl)
      obtain ⟨hidPlace, hidCopy⟩ := hold id hlt
      obtain ⟨hbelow, hkin⟩ := h.field hfield
      rw [htarget, htargetCopy, hidPlace, hidCopy]
      exact ⟨hbelow, hkin⟩
  · intro id target hitem
    by_cases hid : id = g.nodes.length
    · rw [items, getElem?_alloc, if_pos hid] at hitem
      cases node with
      | object fields => cases hitem
      | array items =>
          exact ((harray items rfl _ hitem).extend hold (hwithin _ hitem) target rfl).1
    · rw [items, getElem?_alloc, if_neg hid] at hitem
      rw [(hold target (hg.within_item hitem target rfl)).1]
      exact h.item hitem

/-- Wherever a value is to stand, loading it extends the layout so that it does; its nodes are new. -/
def Plants (whole value : Json) : Prop :=
  ∀ (g : Graph) (layout : Layout), g.Loading whole → Planted layout g → ∀ place copy, ∃ more : Layout,
    layout.Extends more g.nodes.length ∧ Planted more (g.load value).1 ∧ StandsAt more place copy (g.load value).2 ∧
      ∀ id, (g.load value).2 = .node id → g.nodes.length ≤ id

theorem plants_items {items : List Json} (hitems : ∀ value ∈ items, LoadsInto whole value ∧ Plants whole value)
    (hg : g.Loading whole) (h : Planted layout g) (copy : Nat) : ∃ more : Layout,
      layout.Extends more g.nodes.length ∧ Planted more (g.loadItems items).1 ∧
        ∀ slot ∈ (g.loadItems items).2, StandsAt more none copy slot := by
  induction items generalizing g layout with
  | nil => exact ⟨layout, fun _ _ => ⟨rfl, rfl⟩, h, nofun⟩
  | cons value rest ih =>
      obtain ⟨hloads, hplants⟩ := hitems value List.mem_cons_self
      obtain ⟨hgrown, hloading, hholds⟩ := hloads g hg
      obtain ⟨middle, hmiddle, hplanted, hstands, -⟩ := hplants g layout hg h none copy
      obtain ⟨more, hmore, hplanted', hrest⟩ :=
        ih (fun other hother => hitems other (List.mem_cons_of_mem _ hother)) hloading hplanted
      refine ⟨more, hmiddle.trans hmore hgrown.size, hplanted', fun slot hslot => ?_⟩
      rcases List.mem_cons.mp hslot with rfl | hslot
      · exact hstands.extend hmore hholds.within
      · exact hrest slot hslot

theorem plants_members {members : Members}
    (hmembers : ∀ member ∈ members, LoadsInto whole member.2 ∧ Plants whole member.2) (hg : g.Loading whole)
    (h : Planted layout g) (place : Option (List String)) (copy : Nat) : ∃ more : Layout,
      layout.Extends more g.nodes.length ∧ Planted more (g.loadMembers members).1 ∧
        ∀ field ∈ (g.loadMembers members).2, StandsAt more (place.map (· ++ [field.1])) copy field.2 := by
  induction members generalizing g layout with
  | nil => exact ⟨layout, fun _ _ => ⟨rfl, rfl⟩, h, nofun⟩
  | cons member rest ih =>
      obtain ⟨hloads, hplants⟩ := hmembers member List.mem_cons_self
      obtain ⟨hgrown, hloading, hholds⟩ := hloads g hg
      obtain ⟨middle, hmiddle, hplanted, hstands, -⟩ :=
        hplants g layout hg h (place.map (· ++ [member.1])) copy
      obtain ⟨more, hmore, hplanted', hrest⟩ :=
        ih (fun other hother => hmembers other (List.mem_cons_of_mem _ hother)) hloading hplanted
      refine ⟨more, hmiddle.trans hmore hgrown.size, hplanted', fun field hfield => ?_⟩
      rcases List.mem_cons.mp hfield with rfl | hfield
      · exact hstands.extend hmore hholds.within
      · exact hrest field hfield

theorem plants {value : Json} (hordered : value.Ordered) (hpart : value ∈ whole.parts) : Plants whole value := by
  induction value using Json.induct with
  | scalar value hscalar =>
      intro g layout hg h place copy
      have hload : g.load value = (g, .value value) := by cases value <;> first | rfl | cases hscalar
      rw [hload]
      exact ⟨layout, fun _ _ => ⟨rfl, rfl⟩, h, nofun, nofun⟩
  | array items ih =>
      intro g layout hg h place copy
      have hitems : ∀ value ∈ items, LoadsInto whole value ∧ Plants whole value := by
        intro value hvalue
        have hinner := Json.ordered_array.mp hordered value hvalue
        have hinside := Json.mem_parts_trans hpart (Json.parts_of_mem_items hvalue (Json.self_mem_parts value))
        exact ⟨loadsInto hinner hinside, ih value hvalue hinner hinside⟩
      obtain ⟨hgrown, hloading, hholds⟩ := loadItems_spec (fun value hvalue => (hitems value hvalue).1) hg
      obtain ⟨more, hmore, hplanted, hstands⟩ := plants_items hitems hg h copy
      have hwithin : ∀ slot ∈ (Node.array (g.loadItems items).2).slots,
          slot.Within (g.loadItems items).1.nodes.length := by
        intro slot hslot
        obtain ⟨value, -, hvalue⟩ := exists_of_mem_forall₂ hholds hslot
        exact hvalue.within
      refine ⟨more.put (g.loadItems items).1.nodes.length place copy, hmore.trans (more.extends_put _ _ _) hgrown.size,
        hplanted.alloc hloading hwithin nofun fun _ heq => ?_, more.stands_put _ _ _, fun id hid => ?_⟩
      · cases heq
        exact hstands
      · cases hid
        exact hgrown.size
  | object members ih =>
      intro g layout hg h place copy
      have hmembers : ∀ member ∈ members, LoadsInto whole member.2 ∧ Plants whole member.2 := by
        intro member hmember
        have hinner := (Json.ordered_object.mp hordered).2 member hmember
        have hinside := Json.mem_parts_trans hpart (Json.parts_of_mem_members hmember (Json.self_mem_parts _))
        exact ⟨loadsInto hinner hinside, ih member hmember hinner hinside⟩
      obtain ⟨hgrown, hloading, hholds⟩ := loadMembers_spec (fun member hmember => (hmembers member hmember).1) hg
      obtain ⟨more, hmore, hplanted, hstands⟩ := plants_members hmembers hg h place copy
      have hwithin : ∀ slot ∈ (Node.object (g.loadMembers members).2).slots,
          slot.Within (g.loadMembers members).1.nodes.length := by
        intro slot hslot
        obtain ⟨field, hfield, rfl⟩ := List.mem_map.mp hslot
        obtain ⟨member, -, -, hvalue⟩ := exists_of_mem_forall₂ hholds hfield
        exact hvalue.within
      refine ⟨more.put (g.loadMembers members).1.nodes.length place copy,
        hmore.trans (more.extends_put _ _ _) hgrown.size, hplanted.alloc hloading hwithin (fun _ heq => ?_) nofun,
        more.stands_put _ _ _, fun id hid => ?_⟩
      · cases heq
        exact hstands
      · cases hid
        exact hgrown.size

/-- **Values that were loaded one after another are laid out as copies**, each known by the node at its top. -/
theorem loadNodes_planted {values : List Json} (hordered : ∀ value ∈ values, value.Ordered)
    (hparts : ∀ value ∈ values, value ∈ whole.parts) (hg : g.Loading whole) (h : Planted layout g) :
    ∃ more : Layout, layout.Extends more g.nodes.length ∧ Planted more (loadNodes g values).1 ∧
      (loadNodes g values).2.Nodup ∧
      ∀ id ∈ (loadNodes g values).2, g.nodes.length ≤ id ∧ more.place id = some [] ∧ more.copy id = id := by
  induction values generalizing g layout with
  | nil => exact ⟨layout, fun _ _ => ⟨rfl, rfl⟩, h, List.nodup_nil, nofun⟩
  | cons value rest ih =>
      have hvalue := hordered value List.mem_cons_self
      have hpart := hparts value List.mem_cons_self
      obtain ⟨hgrown, hloading, hholds⟩ := loadsInto hvalue hpart g hg
      obtain ⟨middle, hmiddle, hplanted, hstands, hnew⟩ :=
        plants hvalue hpart g layout hg h (some []) (((g.load value).2.target?).getD 0)
      obtain ⟨more, hmore, hplanted', hdistinct, hrest⟩ := ih
        (fun other hother => hordered other (List.mem_cons_of_mem _ hother))
        (fun other hother => hparts other (List.mem_cons_of_mem _ hother)) hloading hplanted
      have hstands := hstands.extend hmore hholds.within
      refine ⟨more, hmiddle.trans hmore hgrown.size, hplanted', ?_⟩
      have hrest' : ∀ id ∈ (loadNodes (g.load value).1 rest).2,
          g.nodes.length ≤ id ∧ more.place id = some [] ∧ more.copy id = id := fun id hid =>
        ⟨hgrown.size.trans (hrest id hid).1, (hrest id hid).2⟩
      rw [loadNodes_cons]
      cases hslot : (g.load value).2 with
      | value w => exact ⟨hdistinct, hrest'⟩
      | node id =>
          rw [hslot] at hstands
          obtain ⟨hplace, hcopy⟩ := hstands id rfl
          refine ⟨List.nodup_cons.mpr ⟨fun hmem => ?_, hdistinct⟩, fun other hother => ?_⟩
          · exact absurd (hholds.within id hslot) (Nat.not_lt.mpr (hrest id hmem).1)
          · rcases List.mem_cons.mp hother with rfl | hmem
            · exact ⟨hnew other hslot, hplace, hcopy⟩
            · exact hrest' other hmem

end Dossier.Graph
