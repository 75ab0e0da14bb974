import Dossier.Proofs.Graph.Compact
import Dossier.Proofs.Graph.Load

/-!
The canonical copies of a graph without cycles. A copy shows what its node shows, out of reach of the nodes
that were there before; and the index of such a graph lists every slot that holds an entity.
-/

namespace Dossier.Graph

/-! ### Copies -/

theorem find?_map (f : Slot → Slot) (fields : List (String × Slot)) (name : String) :
    Node.find? (fields.map fun field => (field.1, f field.2)) name = (Node.find? fields name).map f := by
  induction fields with
  | nil => rfl
  | cons field rest ih =>
      obtain ⟨key, slot⟩ := field
      by_cases hkey : key = name <;> simp [Node.find?, hkey, ih]

/-- A copy shows what its node shows. -/
theorem shows_deepCopy {g : Graph} (hg : g.WellFormed) {start : Nat} {v : Json} (h : g.Shows (.node start) v) :
    (g.deepCopy start).1.Shows (.node (g.deepCopy start).2) v := by
  have hstart := h.lt
  have hslots : ∀ {slot : Slot} {v : Json}, g.Shows slot v → (∀ id, slot = .node id → g.Reaches start id) →
      (g.deepCopy start).1.Shows (copySlot g.nodes.length ⟨g.reachable start⟩ slot) v := by
    intro slot v hslot hreach
    induction hslot with
    | value value => exact .value value
    | @object id fields members hnode hdistinct hsorted hnames hfields ih =>
        have hid := hreach id rfl
        have hcopy : (g.deepCopy start).1.nodes[g.copyId start id]? = some (.object (fields.map fun field =>
            (field.1, copySlot g.nodes.length ⟨g.reachable start⟩ field.2))) :=
          getElem?_copyId hg hstart hid hnode
        refine .object hcopy ?_ hsorted (fun name => ?_) fun name slot value hslot hvalue => ?_
        · rw [List.map_map]
          exact hdistinct
        · rw [find?_map, Option.isSome_map]
          exact hnames name
        · rw [find?_map] at hslot
          obtain ⟨old, hold, rfl⟩ := Option.map_eq_some_iff.mp hslot
          refine ih name old value hold hvalue fun child hchild => hid.tail ?_
          subst hchild
          exact points_of_slotAt? ((slotAt?_object hnode name).trans hold)
    | @array id items values hnode hlength hitems ih =>
        have hid := hreach id rfl
        have hcopy := getElem?_copyId hg hstart hid hnode
        refine .array hcopy ((List.length_map _).trans hlength) fun k slot value hk hvalue => ?_
        rw [List.getElem?_map] at hk
        obtain ⟨old, hold, rfl⟩ := Option.map_eq_some_iff.mp hk
        refine ih k old value hold hvalue fun child hchild => hid.tail ?_
        subst hchild
        exact points_of_slotAt? ((slotAt?_array hnode k).trans hold)
  have hcopied := hslots h fun id hid => by cases hid; exact .refl
  rw [copySlot_node, copyId_start] at hcopied
  rw [deepCopy_eq hg hstart] at hcopied ⊢
  exact hcopied

theorem continued_deepCopy {g : Graph} (hg : g.WellFormed) {start : Nat} (hstart : start < g.nodes.length) :
    Continued g (g.deepCopy start).1 := by
  refine ⟨root_deepCopy hg hstart, fun id node hnode => ?_, (lt_length_deepCopy hg hstart).le⟩
  rw [getElem?_deepCopy_old hg hstart (List.getElem?_eq_some_iff.mp hnode).1]
  exact hnode

/-- The nodes behind the first `count` lead to each other only. -/
def Closed (count : Nat) (g : Graph) : Prop := ∀ a, count ≤ a → ∀ b, g.Points a b → count ≤ b

theorem closed_deepCopy {g : Graph} (hg : g.WellFormed) {start count : Nat} (hstart : start < g.nodes.length)
    (hcount : count ≤ g.nodes.length) (h : Closed count g) : Closed count (g.deepCopy start).1 := by
  intro a ha b hpoints
  rcases Nat.lt_or_ge a g.nodes.length with hlt | hge
  · refine h a ha b ?_
    rw [Points, targets, getElem?_deepCopy_old hg hstart hlt] at hpoints
    exact hpoints
  · exact hcount.trans (le_of_points_deepCopy hg hstart hge hpoints)

theorem closed_alloc {g : Graph} {count : Nat} (hclosed : Closed count g) {node : Node}
    (hnode : ∀ id, Slot.node id ∈ node.slots → count ≤ id) : Closed count (g.alloc node).1 := by
  intro a ha b hpoints
  by_cases hnew : a = g.nodes.length
  · obtain ⟨other, hother, hslot⟩ := exists_slot_of_points hpoints
    rw [getElem?_alloc, if_pos hnew] at hother
    cases hother
    exact hnode b hslot
  · rw [Points, targets, getElem?_alloc, if_neg hnew] at hpoints
    exact hclosed a ha b hpoints

/-- The snapshots of a graph: its nodes are as they were, and the copies show what nodes of their identities
show. -/
structure Snapshots (g next : Graph) (canonical : List (String × Nat)) : Prop where
  outgrows : Outgrows g next
  continued : Continued g next
  closed : Closed g.nodes.length next
  copies : ∀ entry ∈ canonical, g.nodes.length ≤ entry.2 ∧ ∃ id, g.Reached id ∧
    g.identity? id = some entry.1 ∧ ∀ v, g.Shows (.node id) v → next.Shows (.node entry.2) v

theorem snapshots_spec {g : Graph} (hg : g.WellFormed) :
    Snapshots g (g.snapshots (g.scan true)).1 (g.snapshots (g.scan true)).2 := by
  refine snapshots_induct (motive := fun state => Snapshots g state.1 state.2) ?_ ?_
  · refine ⟨⟨hg, rfl, Nat.le_refl _⟩, .refl g, fun a ha b hpoints => ?_, fun _ h => absurd h List.not_mem_nil⟩
    obtain ⟨node, hnode, -⟩ := exists_slot_of_points hpoints
    exact absurd (List.getElem?_eq_some_iff.mp hnode).1 (Nat.not_lt_of_le ha)
  · intro state identity cursor h hcursor
    obtain ⟨hentity, hidentity⟩ := List.mem_filter.mp hcursor
    have hreached := reached_of_cursor hg hentity
    have hlt := (hg.lt_of_reached hreached).trans_le h.outgrows.size
    have hmore := continued_deepCopy h.outgrows.wellFormed hlt
    refine ⟨h.outgrows.trans (outgrows_deepCopy h.outgrows.wellFormed hlt).1, h.continued.trans hmore,
      closed_deepCopy h.outgrows.wellFormed hlt h.outgrows.size h.closed, fun entry hentry => ?_⟩
    rcases List.mem_append.mp hentry with hold | hnew
    · obtain ⟨hle, id, hid, hsame, hshows⟩ := h.copies entry hold
      exact ⟨hle, id, hid, hsame, fun v hv => (hshows v hv).extend hmore.kept⟩
    · rw [List.mem_singleton.mp hnew]
      refine ⟨?_, cursor.node, hreached, ?_, fun v hv => ?_⟩
      · rw [deepCopy_eq h.outgrows.wellFormed hlt]
        exact h.outgrows.size
      · exact (g.filed_scan.1 cursor hentity).1.symm.trans (beq_iff_eq.mp hidentity)
      · exact shows_deepCopy h.outgrows.wellFormed (hv.extend h.continued.kept)

/-! ### Graphs without cycles -/

section

variable {g : Graph} (hg : g.WellFormed) {v : Json} (hroot : g.Shows g.root v)

include hroot

theorem exists_shows_of_reached {id : Nat} (hid : g.Reached id) :
    ∃ w, g.Shows (.node id) w ∧ w ∈ v.parts := by
  obtain ⟨root, hnode, hreach⟩ := hid
  rw [hnode] at hroot
  exact hroot.of_reaches hreach

include hg

theorem not_circular {sighting : Sighting} (h : sighting ∈ g.sightings) : sighting.circular = false := by
  refine Bool.eq_false_iff.mpr fun hback => ?_
  obtain ⟨id, location, circular⟩ := sighting
  cases hback
  obtain ⟨parent, position, -, hslot, hparent, hreach⟩ := slotAt?_of_circular hg h
  obtain ⟨w, hw, -⟩ := exists_shows_of_reached hroot hparent
  exact hw.not_cyclic (Relation.TransGen.head' (points_of_slotAt? hslot) hreach)

/-- Every slot that the root leads to is sighted, and none leads back. -/
theorem sighted_of_reached {parent id : Nat} {position : Position} (hparent : g.Reached parent)
    (hslot : g.slotAt? parent position = some (.node id)) : ⟨id, .slot parent position, false⟩ ∈ g.sightings := by
  obtain ⟨finished, hfinished, hnoted, -⟩ := exists_finished hg
  have hforth : ∀ {location : Location} {slot : Slot}, Noted g.sightings finished location slot →
      ∀ id, slot = .node id → ⟨id, location, false⟩ ∈ g.sightings ∧ id ∈ finished := by
    intro location slot hnoted id hid
    refine (hnoted id hid).resolve_left fun hback => ?_
    cases not_circular hg hroot hback
  obtain ⟨root, hrootNode, hreach⟩ := hparent
  have hmem : ∀ {a : Nat}, g.Reaches root a → a ∈ finished := by
    intro a ha
    induction ha with
    | refl => exact (hforth hnoted root hrootNode).2
    | tail _ hpoints ih =>
        obtain ⟨place, hplace⟩ := hg.exists_slotAt? hpoints
        exact (hforth (hfinished.noted ih _ (hg.mem_children_iff.mpr hplace)) _ rfl).2
  exact (hforth (hfinished.noted (hmem hreach) _ (hg.mem_children_iff.mpr hslot)) id rfl).1

theorem severed_self : g.severed = g := by
  have hnone : (g.scan true).circular = [] := by
    refine List.eq_nil_iff_forall_not_mem.mpr fun cursor hcursor => ?_
    obtain ⟨location, hlocation⟩ := List.exists_mem_of_ne_nil _ (g.filed_scan.2 cursor hcursor).2
    cases not_circular hg hroot ((lists_circular g _ _).mp ⟨cursor, hcursor, rfl, hlocation⟩)
  rw [severed, hnone]
  rfl

end

end Dossier.Graph
