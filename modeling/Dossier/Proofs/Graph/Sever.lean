import Dossier.Proofs.Graph.Index
import Dossier.Proofs.Graph.Value

/-!
Cutting the slots that lead back. Every one of them is sighted as such, and the slots that are left point
from each finished node to nodes finished before it; so the nodes unfold to values, one after another.
-/

namespace Dossier.Graph

/-- What is left of a node where a slot that led back to it is cut. -/
def remnant (g : Graph) (id : Nat) : Slot := ((g.identity? id).map Slot.text).getD .null

/-- What is left at a location. -/
def remnantAt (g : Graph) : Location → Slot
  | .root => .null
  | .slot parent position => match g.slotAt? parent position with
    | some (.node id) => g.remnant id
    | _ => .null

theorem remnant_ne_node (g : Graph) (id other : Nat) : g.remnant id ≠ .node other := by
  rw [remnant]
  cases g.identity? id <;> exact nofun

theorem remnantAt_ne_node (g : Graph) (location : Location) (other : Nat) : g.remnantAt location ≠ .node other := by
  unfold remnantAt
  split
  · exact nofun
  · split
    · exact g.remnant_ne_node _ other
    · exact nofun

/-- Slots put where there are slots change these places alone. -/
theorem slotAt?_foldl_put {f : Location → Slot} {locations : List Location} {g : Graph}
    (hthere : ∀ location ∈ locations,
      ∃ parent position, location = .slot parent position ∧ (g.slotAt? parent position).isSome)
    (id : Nat) (position : Position) :
    (locations.foldl (fun g location => g.put location (f location)) g).slotAt? id position =
      if .slot id position ∈ locations then some (f (.slot id position)) else g.slotAt? id position := by
  induction locations generalizing g with
  | nil => simp
  | cons location rest ih =>
      obtain ⟨parent, place, rfl, hsome⟩ := hthere location List.mem_cons_self
      have hput := slotAt?_put hsome (f (.slot parent place))
      rw [List.foldl_cons, ih fun other hother => ?_]
      · rw [hput]
        by_cases hrest : Location.slot id position ∈ rest
        · simp [hrest]
        · by_cases hself : id = parent ∧ position = place
          · simp [hself]
          · simp [hrest, hself]
      · obtain ⟨parent', place', rfl, hsome'⟩ := hthere other (List.mem_cons_of_mem _ hother)
        refine ⟨parent', place', rfl, ?_⟩
        rw [hput]
        split
        · rfl
        · exact hsome'

/-- Slots that hold plain values, put below the root, leave the root and the number of nodes as they were. -/
theorem frame_foldl_put {f : Location → Slot} (hplain : ∀ location id, f location ≠ .node id)
    {locations : List Location} (hslots : ∀ location ∈ locations, location ≠ .root) {g : Graph} (hg : g.WellFormed) :
    let cut := locations.foldl (fun g location => g.put location (f location)) g
    cut.WellFormed ∧ cut.root = g.root ∧ cut.nodes.length = g.nodes.length := by
  induction locations generalizing g with
  | nil => exact ⟨hg, rfl, rfl⟩
  | cons location rest ih =>
      have hput := hg.put location fun id hid => absurd hid (hplain location id)
      obtain ⟨hcut, hroot, hlength⟩ := ih (fun other hother => hslots other (List.mem_cons_of_mem _ hother)) hput
      refine ⟨hcut, hroot.trans ?_, hlength.trans (length_put _ _ _)⟩
      cases location with
      | root => exact absurd rfl (hslots .root List.mem_cons_self)
      | slot parent position => exact root_put_slot _ _ _ _

theorem mem_circular_locations {g : Graph} {location : Location} :
    location ∈ (g.scan true).circular.flatMap (·.locations) ↔ ∃ id, ⟨id, location, true⟩ ∈ g.sightings := by
  rw [List.mem_flatMap]
  constructor
  · rintro ⟨cursor, hcursor, hlocation⟩
    exact ⟨cursor.node, (lists_circular g _ _).mp ⟨cursor, hcursor, rfl, hlocation⟩⟩
  · rintro ⟨id, h⟩
    obtain ⟨cursor, hcursor, -, hlocation⟩ := (lists_circular g _ _).mpr h
    exact ⟨cursor, hcursor, hlocation⟩

variable {g : Graph} (hg : g.WellFormed)

include hg

/-- A slot that was sighted as leading back holds a node that leads to its container. -/
theorem slotAt?_of_circular {id : Nat} {location : Location} (h : ⟨id, location, true⟩ ∈ g.sightings) :
    ∃ parent position, location = .slot parent position ∧ g.slotAt? parent position = some (.node id) ∧
      g.Reached parent ∧ g.Reaches id parent := by
  obtain ⟨_, _, _, hfaithful⟩ := exists_finished hg
  have htrue := hfaithful _ h
  cases location with
  | root => exact absurd htrue.2 nofun
  | slot parent position =>
      exact ⟨parent, position, rfl, hg.mem_children_iff.mp htrue.2.1, htrue.1, htrue.2.2 rfl⟩

/-- At every location that was sighted as leading back there is a slot. -/
theorem isSome_slotAt?_of_circular : ∀ location ∈ (g.scan true).circular.flatMap (·.locations),
    ∃ parent position, location = .slot parent position ∧ (g.slotAt? parent position).isSome := by
  intro location hlocation
  obtain ⟨node, hnode⟩ := mem_circular_locations.mp hlocation
  obtain ⟨parent, place, rfl, hslot, -⟩ := slotAt?_of_circular hg hnode
  exact ⟨parent, place, rfl, by rw [hslot]; rfl⟩

theorem severed_eq : g.severed = ((g.scan true).circular.flatMap (·.locations)).foldl
    (fun h location => h.put location (g.remnantAt location)) g := by
  rw [List.foldl_flatMap]
  refine List.foldl_ext _ _ _ fun h cursor hcursor => List.foldl_ext _ _ _ fun h' location hlocation => ?_
  obtain ⟨parent, position, rfl, hslot, -⟩ :=
    slotAt?_of_circular hg ((lists_circular g cursor.node location).mp ⟨cursor, hcursor, rfl, hlocation⟩)
  rw [remnantAt, hslot, (g.filed_scan.2 cursor hcursor).1]
  rfl

/-- A cut replaces the slots that were sighted as leading back, and nothing else. -/
theorem slotAt?_severed (id : Nat) (position : Position) :
    (∃ ancestor, ⟨ancestor, .slot id position, true⟩ ∈ g.sightings ∧
        g.severed.slotAt? id position = some (g.remnant ancestor)) ∨
      (∀ ancestor, ⟨ancestor, .slot id position, true⟩ ∉ g.sightings) ∧
        g.severed.slotAt? id position = g.slotAt? id position := by
  have hput := slotAt?_foldl_put (f := g.remnantAt) (isSome_slotAt?_of_circular hg) id position
  rw [severed_eq hg, hput]
  by_cases hcut : Location.slot id position ∈ (g.scan true).circular.flatMap (·.locations)
  · obtain ⟨ancestor, hancestor⟩ := mem_circular_locations.mp hcut
    obtain ⟨parent, place, heq, hslot, -⟩ := slotAt?_of_circular hg hancestor
    cases heq
    refine .inl ⟨ancestor, hancestor, ?_⟩
    rw [if_pos hcut, remnantAt, hslot]
  · refine .inr ⟨fun ancestor hancestor => hcut (mem_circular_locations.mpr ⟨ancestor, hancestor⟩), ?_⟩
    rw [if_neg hcut]

theorem severed_frame : g.severed.WellFormed ∧ g.severed.root = g.root ∧
    g.severed.nodes.length = g.nodes.length := by
  rw [severed_eq hg]
  refine frame_foldl_put g.remnantAt_ne_node (fun location hlocation => ?_) hg
  obtain ⟨id, hid⟩ := mem_circular_locations.mp hlocation
  obtain ⟨parent, position, rfl, -⟩ := slotAt?_of_circular hg hid
  exact nofun

/-- In the cut graph every finished node shows a value: its slots point to nodes finished before it. -/
theorem exists_shows_finished {finished : List Nat} (h : Finished g g.sightings finished) {id : Nat}
    (hid : id ∈ finished) (hlt : id < g.nodes.length) : ∃ v, g.severed.Shows (.node id) v := by
  obtain ⟨hsevered, -, hlength⟩ := severed_frame hg
  induction h generalizing id with
  | nil => cases hid
  | cons hnoted _ ih =>
      rcases List.mem_cons.mp hid with rfl | hrest
      · refine exists_shows hsevered (hlength ▸ hlt) fun position slot hslot => ?_
        cases slot with
        | value value => exact ⟨_, .value value⟩
        | node target =>
            rcases slotAt?_severed hg id position with ⟨ancestor, -, hcut⟩ | ⟨huncut, hkept⟩
            · rw [hslot, Option.some_inj] at hcut
              exact absurd hcut.symm (g.remnant_ne_node ancestor target)
            · rw [hslot] at hkept
              rcases hnoted _ (hg.mem_children_iff.mpr hkept.symm) target rfl with hback | ⟨-, hbefore⟩
              · exact absurd hback (huncut target)
              · exact ih hbefore (hg.within_slotAt? hkept.symm target rfl)
      · exact ih hrest hlt

theorem exists_shows_severed : ∃ v, g.severed.Shows g.severed.root v := by
  obtain ⟨finished, hfinished, hnoted, hfaithful⟩ := exists_finished hg
  rw [(severed_frame hg).2.1]
  cases hroot : g.root with
  | value value => exact ⟨_, .value value⟩
  | node root =>
      rcases hnoted root hroot with hback | ⟨-, hroot'⟩
      · exact absurd (hfaithful _ hback).2 nofun
      · exact exists_shows_finished hg hfinished hroot' (hg.root root hroot)

end Dossier.Graph
