import Dossier.Proofs.Graph.Reach

/-!
The depth-first visit of a well-formed graph. Its nodes are finished one after another, each when all its
slots are sighted: a slot either points to a node finished before, or is sighted as leading back. So the
order in which nodes are finished is an order of the graph without the slots that lead back.
-/

namespace Dossier.Graph

/-- The root leads to the node. -/
def Reached (g : Graph) (id : Nat) : Prop := ∃ root, g.root = .node root ∧ g.Reaches root id

theorem Reached.step {g : Graph} {a b : Nat} (ha : g.Reached a) (h : g.Points a b) : g.Reached b := by
  obtain ⟨root, hroot, hreach⟩ := ha
  exact ⟨root, hroot, hreach.tail h⟩

theorem WellFormed.lt_of_reached {g : Graph} (hg : g.WellFormed) {id : Nat} (h : g.Reached id) :
    id < g.nodes.length := by
  obtain ⟨root, hroot, hreach⟩ := h
  exact hg.lt_of_reaches hreach (hg.root root hroot)

/-- A node in the slot at a location was sighted: as leading back, or as one that is finished. -/
def Noted (made : List Sighting) (finished : List Nat) (location : Location) (slot : Slot) : Prop :=
  ∀ id, slot = .node id →
    ⟨id, location, true⟩ ∈ made ∨ ⟨id, location, false⟩ ∈ made ∧ id ∈ finished

theorem Noted.mono {made more : List Sighting} {finished later : List Nat} {location : Location} {slot : Slot}
    (h : Noted made finished location slot) (hmade : made ⊆ more) (hfinished : finished ⊆ later) :
    Noted more later location slot := fun id hid =>
  (h id hid).imp (fun hback => hmade hback) fun ⟨hforth, hid⟩ => ⟨hmade hforth, hfinished hid⟩

/-- Nodes in the order in which they were finished, the last first. -/
inductive Finished (g : Graph) (made : List Sighting) : List Nat → Prop
  | nil : Finished g made []
  | cons {id : Nat} {rest : List Nat} :
      (∀ entry ∈ g.children id, Noted made rest (.slot id entry.1) entry.2) → Finished g made rest →
        Finished g made (id :: rest)

theorem Finished.mono {g : Graph} {made more : List Sighting} {finished : List Nat}
    (h : Finished g made finished) (hmade : made ⊆ more) : Finished g more finished := by
  induction h with
  | nil => exact .nil
  | cons hnoted _ ih => exact .cons (fun entry hentry => (hnoted entry hentry).mono hmade (List.Subset.refl _)) ih

theorem Finished.noted {g : Graph} {made : List Sighting} {finished : List Nat} (h : Finished g made finished)
    {id : Nat} (hid : id ∈ finished) : ∀ entry ∈ g.children id, Noted made finished (.slot id entry.1) entry.2 := by
  induction h with
  | nil => cases hid
  | cons hnoted _ ih =>
      intro entry hentry
      rcases List.mem_cons.mp hid with rfl | hrest
      · exact (hnoted entry hentry).mono (List.Subset.refl _) (List.subset_cons_self _ _)
      · exact (ih hrest entry hentry).mono (List.Subset.refl _) (List.subset_cons_self _ _)

/-- A sighting tells the truth: the slot stands there, below the root, and leads back if it says so. -/
def Faithful (g : Graph) (sighting : Sighting) : Prop :=
  match sighting.location with
  | .root => g.root = .node sighting.node ∧ sighting.circular = false
  | .slot parent position =>
    g.Reached parent ∧ (position, .node sighting.node) ∈ g.children parent ∧
      (sighting.circular = true → g.Reaches sighting.node parent)

/-- The slot stands at the location, and each of the nodes above leads to it. -/
def Stands (g : Graph) (above : List Nat) (location : Location) (slot : Slot) : Prop :=
  match location with
  | .root => g.root = slot ∧ above = []
  | .slot parent position =>
    g.Reached parent ∧ (position, slot) ∈ g.children parent ∧ ∀ id ∈ above, g.Reaches id parent

/-- The state of a visit below the nodes above. -/
structure Visiting (g : Graph) (above : List Nat) (state : List Nat × List Sighting) (finished : List Nat) :
    Prop where
  visited : ∀ id, id ∈ state.1 ↔ id ∈ above ∨ id ∈ finished
  order : Finished g state.2 finished
  nodup : above.Nodup
  known : ∀ id ∈ above, id < g.nodes.length ∧ id ∉ finished
  faithful : ∀ sighting ∈ state.2, Faithful g sighting

/-- The visit went on: more nodes are finished, and every one of these slots is noted. -/
structure Advance (g : Graph) (above : List Nat) (state : List Nat × List Sighting) (finished : List Nat)
    (entries : List (Location × Slot)) (next : List Nat × List Sighting) (later : List Nat) : Prop where
  visiting : Visiting g above next later
  made : state.2 ⊆ next.2
  finished : finished ⊆ later
  noted : ∀ entry ∈ entries, Noted next.2 later entry.1 entry.2

theorem advance_foldl {g : Graph} {above : List Nat} {entries : List (Location × Slot)}
    {step : List Nat × List Sighting → Location × Slot → List Nat × List Sighting}
    (hstep : ∀ entry ∈ entries, ∀ state finished, Visiting g above state finished →
      ∃ later, Advance g above state finished [entry] (step state entry) later)
    {state : List Nat × List Sighting} {finished : List Nat} (hstate : Visiting g above state finished) :
    ∃ later, Advance g above state finished entries (entries.foldl step state) later := by
  induction entries generalizing state finished with
  | nil =>
      exact ⟨finished, hstate, List.Subset.refl _, List.Subset.refl _, fun _ h => absurd h List.not_mem_nil⟩
  | cons entry entries ih =>
      obtain ⟨middle, hmiddle⟩ := hstep entry List.mem_cons_self state finished hstate
      obtain ⟨later, hlater⟩ :=
        ih (fun entry hentry => hstep entry (List.mem_cons_of_mem _ hentry)) hmiddle.visiting
      refine ⟨later, hlater.visiting, List.Subset.trans hmiddle.made hlater.made,
        List.Subset.trans hmiddle.finished hlater.finished, fun other hother => ?_⟩
      rcases List.mem_cons.mp hother with rfl | hrest
      · exact (hmiddle.noted other (List.mem_singleton_self _)).mono hlater.made hlater.finished
      · exact hlater.noted other hrest

/-- A sighting is added to the state. -/
theorem Visiting.sighted {g : Graph} {above visited : List Nat} {made : List Sighting} {finished : List Nat}
    (h : Visiting g above (visited, made) finished) {sighting : Sighting} (hfaithful : Faithful g sighting) :
    Visiting g above (visited, made ++ [sighting]) finished where
  visited := h.visited
  order := h.order.mono (List.subset_append_left _ _)
  nodup := h.nodup
  known := h.known
  faithful other hother := by
    rcases List.mem_append.mp hother with hold | hnew
    · exact h.faithful other hold
    · rwa [List.mem_singleton.mp hnew]

/-- A node that was not visited is entered. -/
theorem Visiting.enter {g : Graph} {above visited : List Nat} {made : List Sighting} {finished : List Nat}
    (h : Visiting g above (visited, made) finished) {id : Nat} (hid : id < g.nodes.length)
    (hnew : id ∉ visited) : Visiting g (id :: above) (id :: visited, made) finished := by
  have hneither : ¬(id ∈ above ∨ id ∈ finished) := fun hmem => hnew ((h.visited id).mpr hmem)
  refine ⟨fun other => ?_, h.order, ?_, fun other hother => ?_, h.faithful⟩
  · rw [List.mem_cons, List.mem_cons, h.visited other, or_assoc]
  · exact List.nodup_cons.mpr ⟨fun hmem => hneither (.inl hmem), h.nodup⟩
  · rcases List.mem_cons.mp hother with rfl | hrest
    · exact ⟨hid, fun hmem => hneither (.inr hmem)⟩
    · exact h.known other hrest

/-- A node is finished when all its slots are noted. -/
theorem Visiting.leave {g : Graph} {above : List Nat} {state : List Nat × List Sighting} {finished : List Nat}
    {id : Nat} (h : Visiting g (id :: above) state finished)
    (hnoted : ∀ entry ∈ g.children id, Noted state.2 finished (.slot id entry.1) entry.2) :
    Visiting g above state (id :: finished) := by
  obtain ⟨hid, hnodup⟩ := List.nodup_cons.mp h.nodup
  refine ⟨fun other => ?_, .cons hnoted h.order, hnodup, fun other hother => ?_, h.faithful⟩
  · rw [h.visited other, List.mem_cons, List.mem_cons, or_assoc, or_left_comm]
  · obtain ⟨hlt, hnew⟩ := h.known other (List.mem_cons_of_mem _ hother)
    refine ⟨hlt, fun hmem => ?_⟩
    rcases List.mem_cons.mp hmem with rfl | hrest
    · exact hid hother
    · exact hnew hrest

theorem faithful_of_stands {g : Graph} {above : List Nat} {location : Location} {id : Nat}
    (h : Stands g above location (.node id)) (circular : Bool) (hback : circular = true → id ∈ above) :
    Faithful g ⟨id, location, circular⟩ := by
  cases location with
  | root =>
      refine ⟨h.1, Bool.eq_false_iff.mpr fun htrue => ?_⟩
      have hmem := hback htrue
      rw [h.2] at hmem
      cases hmem
  | slot parent position => exact ⟨h.1, h.2.1, fun htrue => h.2.2 id (hback htrue)⟩

theorem reached_of_stands {g : Graph} (hg : g.WellFormed) {above : List Nat} {location : Location} {id : Nat}
    (h : Stands g above location (.node id)) : g.Reached id ∧ ∀ a ∈ above, g.Reaches a id := by
  cases location with
  | root =>
      refine ⟨⟨id, h.1, .refl⟩, fun a ha => ?_⟩
      rw [h.2] at ha
      cases ha
  | slot parent position =>
      have hpoints := points_of_slotAt? (hg.mem_children_iff.mp h.2.1)
      exact ⟨h.1.step hpoints, fun a ha => (h.2.2 a ha).tail hpoints⟩

theorem advance_sight {g : Graph} (hg : g.WellFormed) (depth : Nat) {above : List Nat}
    (hdepth : g.nodes.length < depth + above.length) {location : Location} {slot : Slot}
    (hstands : Stands g above location slot) {state : List Nat × List Sighting} {finished : List Nat}
    (hstate : Visiting g above state finished) :
    ∃ later, Advance g above state finished [(location, slot)] (g.sight depth above state (location, slot)) later := by
  induction depth generalizing above location slot state finished with
  | zero =>
      -- the nodes above are distinct nodes of the graph, so there are not that many
      have hle := length_le_of_nodup hstate.nodup fun id hid => (hstate.known id hid).1
      omega
  | succ depth ih =>
      obtain ⟨visited, made⟩ := state
      cases slot with
      | value value =>
          refine ⟨finished, hstate, List.Subset.refl _, List.Subset.refl _, fun entry hentry id hid => ?_⟩
          rw [List.mem_singleton.mp hentry] at hid
          cases hid
      | node id =>
          obtain ⟨hreached, hleads⟩ := reached_of_stands hg hstands
          rw [sight]
          split
          · rename_i hback
            have hback : id ∈ above := List.contains_iff_mem.mp hback
            refine ⟨finished, hstate.sighted (faithful_of_stands hstands true fun _ => hback),
              List.subset_append_left _ _, List.Subset.refl _, fun entry hentry other hother => ?_⟩
            rw [List.mem_singleton.mp hentry] at hother ⊢
            cases hother
            exact .inl (List.mem_append_right _ (List.mem_singleton_self _))
          · rename_i hforth
            have hforth : id ∉ above := fun h => hforth (List.contains_iff_mem.mpr h)
            have hsighted := hstate.sighted (faithful_of_stands hstands false fun h => by cases h)
            dsimp only
            split
            · rename_i hvisited
              have hfinished : id ∈ finished :=
                ((hstate.visited id).mp (List.contains_iff_mem.mp hvisited)).resolve_left hforth
              refine ⟨finished, hsighted, List.subset_append_left _ _, List.Subset.refl _,
                fun entry hentry other hother => ?_⟩
              rw [List.mem_singleton.mp hentry] at hother ⊢
              cases hother
              exact .inr ⟨List.mem_append_right _ (List.mem_singleton_self _), hfinished⟩
            · rename_i hnew
              have hnew : id ∉ visited := fun h => hnew (List.contains_iff_mem.mpr h)
              have hentered := hsighted.enter (hg.lt_of_reached hreached) hnew
              -- the children of the node stand below it and below all that stands above it
              have hstandsChild : ∀ entry ∈ g.children id,
                  Stands g (id :: above) (.slot id entry.1) entry.2 := fun entry hentry =>
                ⟨hreached, hentry, fun a ha => (List.mem_cons.mp ha).elim (fun h => h ▸ .refl) (hleads a)⟩
              have hchildren : ∀ entry ∈ (g.children id).map fun entry => (Location.slot id entry.1, entry.2),
                  ∀ state finished, Visiting g (id :: above) state finished →
                    ∃ later, Advance g (id :: above) state finished [entry] (g.sight depth (id :: above) state entry)
                      later := by
                intro entry hentry state finished hstate
                obtain ⟨child, hchild, rfl⟩ := List.mem_map.mp hentry
                exact ih (by rw [List.length_cons]; omega) (hstandsChild child hchild) hstate
              obtain ⟨later, hlater⟩ := advance_foldl hchildren hentered
              rw [List.foldl_map] at hlater
              have hleft := hlater.visiting.leave fun entry hentry =>
                hlater.noted _ (List.mem_map_of_mem (f := fun entry => (Location.slot id entry.1, entry.2)) hentry)
              refine ⟨id :: later, hleft, List.Subset.trans (List.subset_append_left _ _) hlater.made,
                List.Subset.trans hlater.finished (List.subset_cons_self _ _), fun entry hentry other hother => ?_⟩
              rw [List.mem_singleton.mp hentry] at hother ⊢
              cases hother
              exact .inr ⟨hlater.made (List.mem_append_right _ (List.mem_singleton_self _)), List.mem_cons_self⟩

/-- The whole visit ends with no node above, and the root is noted. -/
theorem exists_visiting {g : Graph} (hg : g.WellFormed) :
    ∃ finished, Visiting g [] (g.sight (g.nodes.length + 2) [] ([], []) (.root, g.root)) finished ∧
      Noted g.sightings finished .root g.root := by
  have hstart : Visiting g [] ([], []) [] :=
    ⟨fun _ => by simp, .nil, List.nodup_nil, fun _ h => absurd h List.not_mem_nil,
      fun _ h => absurd h List.not_mem_nil⟩
  have hstands : Stands g [] .root g.root := ⟨rfl, rfl⟩
  obtain ⟨finished, hfinished⟩ := advance_sight hg (g.nodes.length + 2) (by simp) hstands hstart
  exact ⟨finished, hfinished.visiting, hfinished.noted _ (List.mem_singleton_self _)⟩

/-- The whole visit: every sighting tells the truth, and there is an order of finishing that notes the root. -/
theorem exists_finished {g : Graph} (hg : g.WellFormed) :
    ∃ finished, Finished g g.sightings finished ∧ Noted g.sightings finished .root g.root ∧
      ∀ sighting ∈ g.sightings, Faithful g sighting := by
  obtain ⟨finished, hvisiting, hnoted⟩ := exists_visiting hg
  exact ⟨finished, hvisiting.order, hnoted, hvisiting.faithful⟩

end Dossier.Graph
