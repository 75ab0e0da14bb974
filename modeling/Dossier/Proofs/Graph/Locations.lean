import Dossier.Proofs.Graph.Compact

/-!
The locations that an index lists. A visit enters a node once, where it first meets it, and sights its slots from there;
so every slot that the root leads to is sighted at one time, as leading back or not. Main statement: an index lists
each identified node once, and each slot that holds one once, and the slots that lead back are those that it takes to
cut all cycles.
-/

namespace Dossier.Graph

/-- The node stands in the slot at a location, which is the root or a slot of a node that the root leads to. -/
def Occupies (g : Graph) (location : Location) (id : Nat) : Prop :=
  match location with
  | .root => g.root = .node id
  | .slot parent position => g.Reached parent ∧ g.slotAt? parent position = some (.node id)

/-- The graph with nothing left in the slots at these locations. -/
def without (g : Graph) (locations : List Location) : Graph :=
  locations.foldl (fun g location => g.put location .null) g

theorem Occupies.reached {g : Graph} {location : Location} {id : Nat} (h : g.Occupies location id) :
    g.Reached id := by
  cases location with
  | root => exact ⟨id, h, .refl⟩
  | slot parent position => exact h.1.step (points_of_slotAt? h.2)

/-! ### A visit sights no location twice -/

/-- The location is of a slot of a node that was entered between two states of a visit. -/
def Between (before after : List Nat) (location : Location) : Prop :=
  ∃ parent position, location = .slot parent position ∧ parent ∈ after ∧ parent ∉ before

/-- What a visit of the slots at some locations adds to the sightings: each of them is of another location, which is one
of these or that of a slot of a node entered on the way, and of a node that is visited by then. A node that is entered
is sighted where that is done. -/
structure Sights (entries : List Location) (state next : List Nat × List Sighting) : Prop where
  visited : state.1 ⊆ next.1
  made : ∃ new, next.2 = state.2 ++ new ∧ (new.map (·.location)).Nodup ∧ ∀ sighting ∈ new,
    sighting.node ∈ next.1 ∧ (sighting.location ∈ entries ∨ Between state.1 next.1 sighting.location)
  met : ∀ id ∈ next.1, id ∈ state.1 ∨ ∃ location, ⟨id, location, false⟩ ∈ next.2

/-- The slots at these locations are of nodes that were visited. -/
def Known (visited : List Nat) (entries : List Location) : Prop :=
  ∀ parent position, Location.slot parent position ∈ entries → parent ∈ visited

theorem Known.mono {visited later : List Nat} {entries : List Location} (h : Known visited entries)
    (hvisited : visited ⊆ later) : Known later entries :=
  fun parent position hentry => hvisited (h parent position hentry)

theorem Sights.refl (entries : List Location) (state : List Nat × List Sighting) : Sights entries state state :=
  ⟨List.Subset.refl _, ⟨[], by simp⟩, fun _ hid => .inl hid⟩

/-- Visits of other locations sight other slots: no node is entered twice. -/
theorem Sights.trans {first rest : List Location} {state middle next : List Nat × List Sighting}
    (h : Sights first state middle) (h' : Sights rest middle next) (hdisjoint : first.Disjoint rest)
    (hfirst : Known state.1 first) (hrest : Known state.1 rest) : Sights (first ++ rest) state next := by
  obtain ⟨new, hnew, hnodup, hplaced⟩ := h.made
  obtain ⟨new', hnew', hnodup', hplaced'⟩ := h'.made
  refine ⟨List.Subset.trans h.visited h'.visited, ⟨new ++ new', ?_, ?_, ?_⟩, fun id hid => ?_⟩
  · rw [hnew', hnew, List.append_assoc]
  · rw [List.map_append, List.nodup_append']
    refine ⟨hnodup, hnodup', fun location hleft hright => ?_⟩
    obtain ⟨sighting, hsighting, rfl⟩ := List.mem_map.mp hleft
    obtain ⟨sighting', hsighting', heq⟩ := List.mem_map.mp hright
    rcases (hplaced sighting hsighting).2 with hentry | ⟨parent, position, hslot, hentered, hnew⟩ <;>
      rcases (hplaced' sighting' hsighting').2 with hentry' | ⟨parent', position', hslot', hentered', hnew'⟩
    · exact hdisjoint hentry (heq ▸ hentry')
    · rw [← heq, hslot'] at hentry
      exact hnew' (h.visited (hfirst parent' position' hentry))
    · rw [heq, hslot] at hentry'
      exact hnew (hrest parent position hentry')
    · rw [← heq, hslot'] at hslot
      cases hslot
      exact hnew' hentered
  · intro sighting hsighting
    rcases List.mem_append.mp hsighting with hold | hlater
    · obtain ⟨hnode, hplace⟩ := hplaced sighting hold
      refine ⟨h'.visited hnode, ?_⟩
      rcases hplace with hentry | ⟨parent, position, hslot, hentered, hnew⟩
      · exact .inl (List.mem_append_left rest hentry)
      · exact .inr ⟨parent, position, hslot, h'.visited hentered, hnew⟩
    · obtain ⟨hnode, hplace⟩ := hplaced' sighting hlater
      refine ⟨hnode, ?_⟩
      rcases hplace with hentry | ⟨parent, position, hslot, hentered, hnew⟩
      · exact .inl (List.mem_append_right first hentry)
      · exact .inr ⟨parent, position, hslot, hentered, fun hold => hnew (h.visited hold)⟩
  · rcases h'.met id hid with hmiddle | hlater
    · refine (h.met id hmiddle).imp_right fun ⟨location, hmem⟩ => ⟨location, ?_⟩
      rw [hnew']
      exact List.mem_append_left new' hmem
    · exact .inr hlater

theorem sights_foldl {step : List Nat × List Sighting → Location × Slot → List Nat × List Sighting}
    {entries : List (Location × Slot)} (hdistinct : (entries.map Prod.fst).Nodup) {state : List Nat × List Sighting}
    (hknown : Known state.1 (entries.map Prod.fst))
    (hstep : ∀ entry ∈ entries, ∀ next : List Nat × List Sighting, state.1 ⊆ next.1 →
      Sights [entry.1] next (step next entry)) :
    Sights (entries.map Prod.fst) state (entries.foldl step state) := by
  induction entries generalizing state with
  | nil => exact .refl [] state
  | cons entry rest ih =>
      rw [List.map_cons] at hdistinct hknown
      obtain ⟨hnew, hdistinct⟩ := List.nodup_cons.mp hdistinct
      have hfirst := hstep entry List.mem_cons_self state (List.Subset.refl _)
      have hrest : Known state.1 (rest.map Prod.fst) := fun parent position hentry =>
        hknown parent position (List.mem_cons_of_mem _ hentry)
      have hlater := ih hdistinct (hrest.mono hfirst.visited) fun other hother next hnext =>
        hstep other (List.mem_cons_of_mem _ hother) next (List.Subset.trans hfirst.visited hnext)
      refine hfirst.trans hlater (by simpa using hnew) (fun parent position hentry => ?_) hrest
      exact hknown parent position (List.mem_singleton.mp hentry ▸ List.mem_cons_self)

theorem Node.nodup_positions {node : Node} (hnames : node.names.Nodup) : (node.children.map Prod.fst).Nodup := by
  cases node with
  | object fields =>
      have hpositions : (Node.object fields).children.map Prod.fst = (fields.map Prod.fst).map Position.field := by
        simp [Node.children]
      rw [hpositions]
      exact List.Nodup.map (fun _ _ h => Position.field.inj h) hnames
  | array items =>
      have hpositions : (Node.array items).children.map Prod.fst = (items.zipIdx.map Prod.snd).map Position.index := by
        rw [Node.children, List.map_map, List.map_map]
        rfl
      rw [hpositions, List.zipIdx_map_snd]
      exact List.Nodup.map (fun _ _ h => Position.index.inj h) List.nodup_range'

/-- A node that was not visited is entered and its slots are visited. -/
theorem Sights.enter {id : Nat} {location : Location} {visited : List Nat} {made : List Sighting}
    {entries : List Location} {next : List Nat × List Sighting} (hnew : id ∉ visited)
    (hknown : Known visited [location]) (hentries : ∀ entry ∈ entries, ∃ position, entry = .slot id position)
    (h : Sights entries (id :: visited, made ++ [⟨id, location, false⟩]) next) :
    Sights [location] (visited, made) next := by
  obtain ⟨later, hlater, hnodup, hplaced⟩ := h.made
  have hentered : id ∈ next.1 := h.visited List.mem_cons_self
  -- whatever is sighted below the node is a slot of a node entered from here on
  have hbelow : ∀ sighting ∈ later, Between visited next.1 sighting.location := by
    intro sighting hsighting
    rcases (hplaced sighting hsighting).2 with hentry | ⟨parent, position, hslot, hparent, hother⟩
    · obtain ⟨position, hslot⟩ := hentries _ hentry
      exact ⟨id, position, hslot, hentered, hnew⟩
    · exact ⟨parent, position, hslot, hparent, fun hold => hother (List.mem_cons_of_mem _ hold)⟩
  refine ⟨List.Subset.trans (List.subset_cons_self _ _) h.visited, ⟨⟨id, location, false⟩ :: later, ?_, ?_, ?_⟩, ?_⟩
  · rw [hlater, List.append_assoc, List.singleton_append]
  · rw [List.map_cons, List.nodup_cons]
    refine ⟨fun hmem => ?_, hnodup⟩
    obtain ⟨sighting, hsighting, heq⟩ := List.mem_map.mp hmem
    obtain ⟨parent, position, hslot, -, hunknown⟩ := hbelow sighting hsighting
    exact hunknown (hknown parent position (List.mem_singleton.mpr (hslot.symm.trans heq)))
  · intro sighting hsighting
    rcases List.mem_cons.mp hsighting with rfl | hrest
    · exact ⟨hentered, .inl (List.mem_singleton_self location)⟩
    · exact ⟨(hplaced sighting hrest).1, .inr (hbelow sighting hrest)⟩
  · intro other hother
    rcases h.met other hother with hstate | hsighted
    · rcases List.mem_cons.mp hstate with rfl | hold
      · refine .inr ⟨location, ?_⟩
        rw [hlater]
        exact List.mem_append_left later (List.mem_append_right made (List.mem_singleton_self _))
      · exact .inl hold
    · exact .inr hsighted

/-- A node that was visited is sighted once more. -/
theorem sights_again {id : Nat} {visited : List Nat} (hid : id ∈ visited) (made : List Sighting) (location : Location)
    (circular : Bool) : Sights [location] (visited, made) (visited, made ++ [⟨id, location, circular⟩]) := by
  refine ⟨List.Subset.refl _, ⟨[⟨id, location, circular⟩], rfl, List.nodup_singleton _, ?_⟩, fun _ h => .inl h⟩
  intro sighting hsighting
  rw [List.mem_singleton.mp hsighting]
  exact ⟨hid, .inl (List.mem_singleton_self location)⟩

/-- The slots of a node with their locations. -/
def entriesOf (g : Graph) (id : Nat) : List (Location × Slot) :=
  (g.children id).map fun entry => (.slot id entry.1, entry.2)

theorem fst_entriesOf (g : Graph) (id : Nat) :
    (g.entriesOf id).map Prod.fst = ((g.children id).map Prod.fst).map (Location.slot id) := by
  rw [entriesOf, List.map_map, List.map_map]
  rfl

theorem exists_position_of_entriesOf {g : Graph} {id : Nat} {location : Location}
    (h : location ∈ (g.entriesOf id).map Prod.fst) : ∃ position, location = .slot id position := by
  rw [fst_entriesOf] at h
  obtain ⟨position, -, rfl⟩ := List.mem_map.mp h
  exact ⟨position, rfl⟩

section

variable {g : Graph} (hg : g.WellFormed)

include hg

theorem nodup_entriesOf (id : Nat) : ((g.entriesOf id).map Prod.fst).Nodup := by
  rw [fst_entriesOf]
  refine List.Nodup.map (fun _ _ h => (Location.slot.inj h).2) ?_
  rw [children]
  split
  · rename_i node hnode
    exact Node.nodup_positions (hg.nodes id node hnode).names
  · exact List.nodup_nil

theorem sights_sight (depth : Nat) {above : List Nat} {state : List Nat × List Sighting} (habove : above ⊆ state.1)
    {location : Location} (hknown : Known state.1 [location]) (slot : Slot) :
    Sights [location] state (g.sight depth above state (location, slot)) := by
  induction depth generalizing above state location slot with
  | zero => exact .refl [location] state
  | succ depth ih =>
      obtain ⟨visited, made⟩ := state
      cases slot with
      | value value => exact .refl [location] (visited, made)
      | node id =>
          rw [sight]
          split
          · rename_i hback
            exact sights_again (habove (List.contains_iff_mem.mp hback)) made location true
          · dsimp only
            split
            · rename_i hvisited
              exact sights_again (List.contains_iff_mem.mp hvisited) made location false
            · rename_i hnew
              have hnew : id ∉ visited := fun h => hnew (List.contains_iff_mem.mpr h)
              have hbelow : Known (id :: visited) ((g.entriesOf id).map Prod.fst) := by
                intro parent position hentry
                obtain ⟨_, heq⟩ := exists_position_of_entriesOf hentry
                cases heq
                exact List.mem_cons_self
              have hfold : Sights ((g.entriesOf id).map Prod.fst) (id :: visited, made ++ [⟨id, location, false⟩])
                  ((g.entriesOf id).foldl (g.sight depth (id :: above))
                    (id :: visited, made ++ [⟨id, location, false⟩])) := by
                refine sights_foldl (nodup_entriesOf hg id) hbelow fun entry hentry next hnext => ?_
                have hknown : Known (id :: visited) [entry.1] := fun parent position hslot =>
                  hbelow parent position (List.mem_singleton.mp hslot ▸ List.mem_map_of_mem (f := Prod.fst) hentry)
                exact ih (List.Subset.trans (List.cons_subset_cons id habove) hnext) (hknown.mono hnext) entry.2
              rw [entriesOf, List.foldl_map] at hfold
              exact hfold.enter hnew hknown fun _ => exists_position_of_entriesOf

/-- The whole visit. -/
theorem sights_whole : Sights [.root] ([], []) (g.sight (g.nodes.length + 2) [] ([], []) (.root, g.root)) :=
  sights_sight hg _ (List.Subset.refl _) (fun _ _ h => by cases List.mem_singleton.mp h) g.root

/-- No location is sighted twice. -/
theorem nodup_sightings : (g.sightings.map (·.location)).Nodup := by
  obtain ⟨new, hnew, hnodup, -⟩ := (sights_whole hg).made
  rw [sightings, hnew]
  exact hnodup

/-- All that the root leads to is finished in the end. -/
theorem exists_covering : ∃ finished, Finished g g.sightings finished ∧ Noted g.sightings finished .root g.root ∧
    (∀ id ∈ finished, ∃ location, ⟨id, location, false⟩ ∈ g.sightings) ∧ ∀ id, g.Reached id → id ∈ finished := by
  obtain ⟨finished, hvisiting, hnoted⟩ := exists_visiting hg
  have hwhole := sights_whole hg
  obtain ⟨new, hnew, -, hplaced⟩ := hwhole.made
  have hvisited : ∀ sighting ∈ g.sightings, sighting.node ∈ finished := by
    intro sighting hsighting
    rw [sightings, hnew] at hsighting
    exact ((hvisiting.visited _).mp (hplaced sighting hsighting).1).resolve_left List.not_mem_nil
  have hfinished : ∀ {location slot id}, Noted g.sightings finished location slot → slot = .node id →
      id ∈ finished := by
    intro location slot id hnoted hslot
    rcases hnoted id hslot with hback | ⟨-, hid⟩
    · exact hvisited _ hback
    · exact hid
  refine ⟨finished, hvisiting.order, hnoted, fun id hid => ?_, fun id hreached => ?_⟩
  · exact (hwhole.met id ((hvisiting.visited id).mpr (.inr hid))).resolve_left List.not_mem_nil
  · obtain ⟨root, hroot, hreach⟩ := hreached
    induction hreach with
    | refl => exact hfinished hnoted hroot
    | tail _ hpoints ih =>
        obtain ⟨position, hslot⟩ := hg.exists_slotAt? hpoints
        exact hfinished (hvisiting.order.noted ih _ (hg.mem_children_iff.mpr hslot)) rfl

/-- The slots that are sighted are those that hold a node and that the root leads to. -/
theorem sighted_iff {location : Location} {id : Nat} :
    (∃ circular, ⟨id, location, circular⟩ ∈ g.sightings) ↔ g.Occupies location id := by
  obtain ⟨finished, horder, hnoted, -, hcovers⟩ := exists_covering hg
  constructor
  · rintro ⟨circular, h⟩
    obtain ⟨_, _, _, hfaithful⟩ := exists_finished hg
    have htrue := hfaithful _ h
    cases location with
    | root => exact htrue.1
    | slot parent position => exact ⟨htrue.1, hg.mem_children_iff.mp htrue.2.1⟩
  · intro h
    have hlocated : Noted g.sightings finished location (.node id) := by
      cases location with
      | root => exact (show g.root = .node id from h) ▸ hnoted
      | slot parent position => exact horder.noted (hcovers parent h.1) _ (hg.mem_children_iff.mpr h.2)
    rcases hlocated id rfl with hback | ⟨hforth, -⟩
    · exact ⟨true, hback⟩
    · exact ⟨false, hforth⟩

/-- Every node that the root leads to is sighted at a place from where it is entered. -/
theorem exists_entrance {id : Nat} (hid : g.Reached id) : ∃ location, ⟨id, location, false⟩ ∈ g.sightings := by
  obtain ⟨finished, -, -, hmet, hcovers⟩ := exists_covering hg
  exact hmet id (hcovers id hid)

end

/-! ### An index lists what was sighted, once -/

theorem perm_record (identity : Option String) (node : Nat) (location : Location) (cursors : List Cursor) :
    ((Index.record identity node location cursors).flatMap (·.locations)).Perm
      (location :: cursors.flatMap (·.locations)) := by
  induction cursors with
  | nil => exact .refl [location]
  | cons cursor rest ih =>
      rw [Index.record]
      split
      · rw [List.flatMap_cons, List.flatMap_cons, List.append_assoc, List.singleton_append]
        exact List.perm_middle
      · rw [List.flatMap_cons, List.flatMap_cons]
        exact (ih.append_left _).trans List.perm_middle

/-- All that an index lists, the slots that lead back after the others. -/
def listing (index : Index) : List Location :=
  index.entities.flatMap (·.locations) ++ index.circular.flatMap (·.locations)

/-- A sighting adds its location to the listing, or nothing. -/
theorem subperm_add (g : Graph) (index : Index) (sighting : Sighting) :
    (listing (index.add g sighting)).Subperm (sighting.location :: listing index) := by
  unfold Index.add
  dsimp only
  split
  · exact (((perm_record _ _ _ _).append_left _).trans List.perm_middle).subperm
  · split
    · exact ((perm_record _ _ _ _).append_right _).subperm
    · exact (List.sublist_cons_self _ _).subperm

theorem subperm_scan (g : Graph) : (listing (g.scan true)).Subperm (g.sightings.map (·.location)) := by
  have hfold : ∀ (made : List Sighting) (index : Index),
      (listing (made.foldl (Index.add g) index)).Subperm (made.map (·.location) ++ listing index) := by
    intro made
    induction made with
    | nil => exact fun index => .refl _
    | cons sighting made ih =>
        intro index
        rw [List.foldl_cons, List.map_cons, List.cons_append]
        refine ((ih _).trans ((List.subperm_append_left _).mpr (subperm_add g index sighting))).trans ?_
        exact List.perm_middle.subperm
  simpa [scan_true, listing] using hfold g.sightings ⟨[], []⟩

section

variable {g : Graph} (hg : g.WellFormed)

include hg

theorem nodup_listing : (listing (g.scan true)).Nodup := by
  obtain ⟨locations, hperm, hsublist⟩ := subperm_scan g
  exact hperm.nodup_iff.mp ((nodup_sightings hg).sublist hsublist)

/-- The nodes under an identity are those that have it and that the root leads to, once each. -/
theorem cursors_spec (identity : String) : (((g.scan true).cursors identity).map (·.node)).Nodup ∧
    ∀ id, id ∈ ((g.scan true).cursors identity).map (·.node) ↔ g.Reached id ∧ g.identity? id = some identity := by
  refine ⟨g.nodup_entities.sublist (List.filter_sublist.map _), fun id => ?_⟩
  rw [List.mem_map]
  constructor
  · rintro ⟨cursor, hcursor, rfl⟩
    obtain ⟨hentity, hsame⟩ := List.mem_filter.mp hcursor
    exact ⟨reached_of_cursor hg hentity, (g.filed_scan.1 cursor hentity).1.symm.trans (beq_iff_eq.mp hsame)⟩
  · rintro ⟨hreached, hidentity⟩
    obtain ⟨location, hsighted⟩ := exists_entrance hg hreached
    obtain ⟨cursor, hentity, rfl, -⟩ := (lists_entities g id location).mpr ⟨hsighted, by rw [hidentity]; rfl⟩
    refine ⟨cursor, List.mem_filter.mpr ⟨hentity, beq_iff_eq.mpr ?_⟩, rfl⟩
    exact (g.filed_scan.1 cursor hentity).1.trans hidentity

/-- A slot that holds a node with an identity is listed once: with that node, or as leading back. -/
theorem count_listing {location : Location} {id : Nat} {identity : String} (hidentity : g.identity? id = some identity)
    (h : g.Occupies location id) : (listing (g.scan true)).count location = 1 ∧
      ∃ cursor ∈ (g.scan true).cursors identity, cursor.node = id ∧
        (location ∈ cursor.locations ∨ location ∈ (g.scan true).circular.flatMap (·.locations)) := by
  have hlisted : ∃ cursor ∈ (g.scan true).cursors identity, cursor.node = id ∧
      (location ∈ cursor.locations ∨ location ∈ (g.scan true).circular.flatMap (·.locations)) := by
    obtain ⟨circular, hsighted⟩ := (sighted_iff hg).mpr h
    cases circular with
    | true =>
        have hlisted := ((cursors_spec hg identity).2 id).mpr ⟨h.reached, hidentity⟩
        obtain ⟨cursor, hcursor, hnode⟩ := List.mem_map.mp hlisted
        exact ⟨cursor, hcursor, hnode, .inr (mem_circular_locations.mpr ⟨id, hsighted⟩)⟩
    | false =>
        obtain ⟨cursor, hentity, hnode, hlocation⟩ :=
          (lists_entities g id location).mpr ⟨hsighted, by rw [hidentity]; rfl⟩
        refine ⟨cursor, List.mem_filter.mpr ⟨hentity, beq_iff_eq.mpr ?_⟩, hnode, .inl hlocation⟩
        rw [(g.filed_scan.1 cursor hentity).1, hnode, hidentity]
  refine ⟨List.count_eq_one_of_mem (nodup_listing hg) ?_, hlisted⟩
  obtain ⟨cursor, hcursor, -, hlocation | hback⟩ := hlisted
  · exact List.mem_append_left _ (List.mem_flatMap.mpr ⟨cursor, List.mem_of_mem_filter hcursor, hlocation⟩)
  · exact List.mem_append_right _ hback

/-- A listed slot holds the node that it is listed with. -/
theorem occupies_of_cursor {cursor : Cursor} {location : Location}
    (h : cursor ∈ (g.scan true).entities ∨ cursor ∈ (g.scan true).circular) (hlocation : location ∈ cursor.locations) :
    g.Occupies location cursor.node := by
  apply (sighted_iff hg).mp
  rcases h with hentity | hback
  · exact ⟨false, ((lists_entities g _ _).mp ⟨cursor, hentity, rfl, hlocation⟩).1⟩
  · exact ⟨true, (lists_circular g _ _).mp ⟨cursor, hback, rfl, hlocation⟩⟩

/-! ### The slots that lead back -/

/-- Without the slots that lead back, the root leads to no cycle. -/
theorem acyclic_without {id : Nat} (hid : (g.without ((g.scan true).circular.flatMap (·.locations))).Reached id) :
    ¬Relation.TransGen (g.without ((g.scan true).circular.flatMap (·.locations))).Points id id := by
  have hthere := isSome_slotAt?_of_circular hg
  obtain ⟨hwithout, hroot, -⟩ := frame_foldl_put (f := fun _ => .null) (fun _ _ => nofun)
    (fun location hlocation => by obtain ⟨_, _, rfl, -⟩ := hthere location hlocation; exact nofun) hg
  -- what points somewhere without these slots also does where they are cut
  have hpoints : ∀ a b, (g.without ((g.scan true).circular.flatMap (·.locations))).Points a b →
      g.severed.Points a b := by
    intro a b hab
    obtain ⟨position, hslot⟩ := hwithout.exists_slotAt? hab
    rw [slotAt?_foldl_put hthere] at hslot
    split at hslot
    · cases hslot
    · rename_i hkept
      rcases slotAt?_severed hg a position with ⟨ancestor, hback, -⟩ | ⟨-, hsame⟩
      · exact absurd (mem_circular_locations.mpr ⟨ancestor, hback⟩) hkept
      · exact points_of_slotAt? (hsame.trans hslot)
  intro hcycle
  obtain ⟨root, hnode, hreach⟩ := hid
  obtain ⟨v, hv⟩ := exists_shows_severed hg
  have hsame : g.severed.root = .node root := (severed_frame hg).2.1.trans (hroot.symm.trans hnode)
  rw [hsame] at hv
  obtain ⟨w, hw, -⟩ := hv.of_reaches (Relation.ReflTransGen.mono hpoints root id hreach)
  exact hw.not_cyclic (Relation.TransGen.mono hpoints id id hcycle)

/-- No slot leads back exactly when the root leads to no cycle. -/
theorem circular_eq_nil_iff : (g.scan true).circular.flatMap (·.locations) = [] ↔
    ∀ id, g.Reached id → ¬Relation.TransGen g.Points id id := by
  constructor
  · intro hnone id hid
    have hacyclic := @acyclic_without g hg id
    rw [hnone] at hacyclic
    exact hacyclic hid
  · intro hacyclic
    refine List.eq_nil_iff_forall_not_mem.mpr fun location hlocation => ?_
    obtain ⟨id, hback⟩ := mem_circular_locations.mp hlocation
    obtain ⟨parent, position, rfl, hslot, hparent, hreach⟩ := slotAt?_of_circular hg hback
    exact hacyclic parent hparent (Relation.TransGen.head' (points_of_slotAt? hslot) hreach)

end

/-- **What an index lists.** The identities are those of the nodes that the root leads to. Under each of them there is
one cursor for each node that has it, and a cursor lists nothing but slots that hold its node. A slot below the root, or
the root, that holds a node with an identity is listed once, by the cursor of that node or as leading back. The slots
that lead back are there exactly when there is a cycle, and each holds a node above it; without them there is none. -/
theorem scan_lists {g : Graph} (hg : g.WellFormed) :
    let index := g.scan true
    let back := index.circular.flatMap (·.locations)
    (index.identities.Nodup ∧ ∀ identity, identity ∈ index.identities ↔
      ∃ id, g.Reached id ∧ g.identity? id = some identity) ∧
    (∀ identity, ((index.cursors identity).map (·.node)).Nodup ∧
      ∀ id, id ∈ (index.cursors identity).map (·.node) ↔ g.Reached id ∧ g.identity? id = some identity) ∧
    (∀ identity, ∀ cursor ∈ index.cursors identity, ∀ location ∈ cursor.locations, g.Occupies location cursor.node) ∧
    (∀ location id identity, g.identity? id = some identity → g.Occupies location id →
      (index.entities.flatMap (·.locations) ++ back).count location = 1 ∧
      ∃ cursor ∈ index.cursors identity, cursor.node = id ∧ (location ∈ cursor.locations ∨ location ∈ back)) ∧
    (∀ cursor ∈ index.circular, ∀ location ∈ cursor.locations, g.Occupies location cursor.node ∧
      ∃ parent position, location = .slot parent position ∧ g.Reaches cursor.node parent) ∧
    (back = [] ↔ ∀ id, g.Reached id → ¬Relation.TransGen g.Points id id) ∧
    ∀ id, (g.without back).Reached id → ¬Relation.TransGen (g.without back).Points id id := by
  intro index back
  refine ⟨⟨(identities_spec index).1, fun identity => ?_⟩, cursors_spec hg, ?_, ?_, ?_, circular_eq_nil_iff hg,
    fun id => acyclic_without hg⟩
  · refine ((identities_spec index).2 identity).trans ?_
    constructor
    · rintro ⟨cursor, hcursor, hidentity⟩
      exact ⟨cursor.node, reached_of_cursor hg hcursor, (g.filed_scan.1 cursor hcursor).1.symm.trans hidentity⟩
    · intro ⟨id, hid⟩
      obtain ⟨cursor, hcursor, -⟩ := List.mem_map.mp (((cursors_spec hg identity).2 id).mpr hid)
      obtain ⟨hentity, hsame⟩ := List.mem_filter.mp hcursor
      exact ⟨cursor, hentity, beq_iff_eq.mp hsame⟩
  · intro identity cursor hcursor location
    exact occupies_of_cursor hg (.inl (List.mem_of_mem_filter hcursor))
  · exact fun location id identity => count_listing hg
  · intro cursor hcursor location hlocation
    obtain ⟨parent, position, rfl, -, -, hreach⟩ :=
      slotAt?_of_circular hg ((lists_circular g _ _).mp ⟨cursor, hcursor, rfl, hlocation⟩)
    exact ⟨occupies_of_cursor hg (.inr hcursor) hlocation, parent, position, rfl, hreach⟩

/-- An entity that holds itself and stands in two places, and another that it shares with an array. -/
theorem scan_lists_shared :
    let g : Graph := ⟨[.object [(identityName, .text "a"), ("self", .node 0), ("list", .node 1), ("other", .node 2)],
      .array [.node 2, .node 0], .object [(identityName, .text "b")]], .node 0⟩
    g.WellFormed ∧
      ((g.scan true).entities.flatMap (·.locations) ++ (g.scan true).circular.flatMap (·.locations)).count
        (.slot 1 (.index 0)) = 1 ∧ (g.scan true).circular.flatMap (·.locations) ≠ [] := by
  intro g
  have hg : g.WellFormed := by decide
  have hlists := scan_lists hg
  have hroot : g.Reached 0 := ⟨0, rfl, .refl⟩
  have hlist : g.slotAt? 0 (.field "list") = some (.node 1) := rfl
  have hself : g.slotAt? 0 (.field "self") = some (.node 0) := rfl
  refine ⟨hg, ?_, fun hnone => ?_⟩
  · have hslot : g.Occupies (.slot 1 (.index 0)) 2 := ⟨hroot.step (points_of_slotAt? hlist), rfl⟩
    exact (hlists.2.2.2.1 _ 2 "b" rfl hslot).1
  · exact hlists.2.2.2.2.2.1.mp hnone 0 hroot (.single (points_of_slotAt? hself))

end Dossier.Graph
