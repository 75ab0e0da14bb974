import Dossier.Proofs.Graph.Copy
import Dossier.Proofs.Graph.Regroup
import Dossier.Proofs.Graph.Sever

/-!
Compaction of well-formed graphs. Every pass before the cut keeps the graph well formed, so the cut leaves a
graph in which the root leads to no cycle, and which can be written out.
-/

namespace Dossier.Graph

theorem reached_of_sighting {g : Graph} (hg : g.WellFormed) {sighting : Sighting} (h : sighting ∈ g.sightings) :
    g.Reached sighting.node := by
  obtain ⟨_, _, _, hfaithful⟩ := exists_finished hg
  have htrue := hfaithful sighting h
  unfold Faithful at htrue
  split at htrue
  · exact ⟨sighting.node, htrue.1, .refl⟩
  · exact htrue.1.step (points_of_slotAt? (hg.mem_children_iff.mp htrue.2.1))

theorem reached_of_cursor {g : Graph} (hg : g.WellFormed) {cursor : Cursor}
    (h : cursor ∈ (g.scan true).entities) : g.Reached cursor.node := by
  obtain ⟨location, hlocation⟩ := List.exists_mem_of_ne_nil _ (g.filed_scan.1 cursor h).2
  have hlisted : Lists (g.scan true).entities cursor.node location := ⟨cursor, h, rfl, hlocation⟩
  exact reached_of_sighting hg ((lists_entities g _ _).mp hlisted).1

/-- The identities listed so far, with that of one more cursor. -/
def listed (found : List String) (cursor : Cursor) : List String :=
  match cursor.identity with
  | some identity => if found.contains identity then found else found ++ [identity]
  | none => found

theorem foldl_listed (cursors : List Cursor) {found : List String} (hfound : found.Nodup) :
    (cursors.foldl listed found).Nodup ∧ ∀ identity, identity ∈ cursors.foldl listed found ↔
      identity ∈ found ∨ ∃ cursor ∈ cursors, cursor.identity = some identity := by
  induction cursors generalizing found with
  | nil => exact ⟨hfound, fun identity => by simp⟩
  | cons cursor rest ih =>
      rw [List.foldl_cons]
      simp only [List.mem_cons, exists_eq_or_imp]
      cases hcursor : cursor.identity with
      | none =>
          have hsame : listed found cursor = found := by rw [listed, hcursor]
          rw [hsame]
          simpa using ih hfound
      | some first =>
          by_cases hold : found.contains first = true
          · have hsame : listed found cursor = found := by
              rw [listed, hcursor]
              exact if_pos hold
            rw [hsame]
            obtain ⟨hnodup, hmem⟩ := ih hfound
            refine ⟨hnodup, fun identity => (hmem identity).trans ⟨Or.imp_right .inr, ?_⟩⟩
            rintro (hfound | heq | hrest)
            · exact .inl hfound
            · exact .inl (Option.some_inj.mp heq ▸ List.contains_iff_mem.mp hold)
            · exact .inr hrest
          · have hnext : listed found cursor = found ++ [first] := by
              rw [listed, hcursor]
              exact if_neg hold
            have hnew : first ∉ found := fun h => hold (List.contains_iff_mem.mpr h)
            have hlonger : (found ++ [first]).Nodup := by
              rw [List.nodup_append]
              refine ⟨hfound, List.nodup_singleton first, ?_⟩
              rintro other hother _ hself rfl
              exact hnew (List.mem_singleton.mp hself ▸ hother)
            obtain ⟨hnodup, hmem⟩ := ih hlonger
            rw [hnext]
            refine ⟨hnodup, fun identity => (hmem identity).trans ?_⟩
            rw [List.mem_append, List.mem_singleton, or_assoc, Option.some_inj, eq_comm (a := identity)]

/-- Identities are listed once each, in the order of their first cursors. -/
theorem identities_spec (index : Index) : index.identities.Nodup ∧
    ∀ identity, identity ∈ index.identities ↔ ∃ cursor ∈ index.entities, cursor.identity = some identity := by
  obtain ⟨hnodup, hmem⟩ := foldl_listed index.entities List.nodup_nil
  exact ⟨hnodup, fun identity => (hmem identity).trans (by simp)⟩

theorem mem_of_lookup {canonical : List (String × Nat)} {identity : String} {copy : Nat}
    (h : canonical.lookup identity = some copy) : (identity, copy) ∈ canonical := by
  obtain ⟨before, after, heq, -⟩ := List.lookup_eq_some_iff.mp h
  exact heq ▸ List.mem_append_right before List.mem_cons_self

/-- A well-formed graph with the root of another and at least its nodes. -/
structure Outgrows (g next : Graph) : Prop where
  wellFormed : next.WellFormed
  root : next.root = g.root
  size : g.nodes.length ≤ next.nodes.length

theorem Outgrows.trans {g middle next : Graph} (h : Outgrows g middle) (h' : Outgrows middle next) :
    Outgrows g next :=
  ⟨h'.wellFormed, h'.root.trans h.root, h.size.trans h'.size⟩

theorem outgrows_deepCopy {g : Graph} (hg : g.WellFormed) {start : Nat} (hstart : start < g.nodes.length) :
    Outgrows g (g.deepCopy start).1 ∧ (g.deepCopy start).2 < (g.deepCopy start).1.nodes.length := by
  have hlt := lt_length_deepCopy hg hstart
  refine ⟨⟨wellFormed_deepCopy hg hstart, root_deepCopy hg hstart, hlt.le⟩, ?_⟩
  have hcopy : (g.deepCopy start).2 = g.nodes.length := by rw [deepCopy_eq hg hstart]
  rwa [hcopy]

theorem outgrows_put {g : Graph} (hg : g.WellFormed) (parent : Nat) (position : Position) {slot : Slot}
    (hslot : slot.Within g.nodes.length) : Outgrows g (g.put (.slot parent position) slot) :=
  ⟨hg.put _ hslot, root_put_slot _ _ _ _, (length_put _ _ _).ge⟩

/-! ### Snapshots -/

/-- The canonical copies of a graph: nodes of the graph, under distinct identities. -/
structure Copies (g : Graph) (canonical : List (String × Nat)) : Prop where
  known : ∀ entry ∈ canonical, entry.2 < g.nodes.length
  distinct : (canonical.map Prod.fst).Nodup

/-- What holds at the start and after the copy of one more node holds of the snapshots. -/
theorem snapshots_induct {g : Graph} {index : Index} {motive : Graph × List (String × Nat) → Prop}
    (hstart : motive (g, [])) (hstep : ∀ state identity cursor, motive state → cursor ∈ index.cursors identity →
      motive ((state.1.deepCopy cursor.node).1, state.2 ++ [(identity, (state.1.deepCopy cursor.node).2)])) :
    motive (g.snapshots index) := by
  refine List.foldlRecOn _ _ hstart fun state hstate identity _ => ?_
  unfold snapshot
  split
  · exact hstate
  · split
    · exact hstate
    · rename_i cursor others hcursors
      exact hstep state identity cursor hstate (hcursors ▸ List.mem_cons_self)

/-- Every identity has its copy, but for that of the root. -/
theorem names_snapshots (g : Graph) (index : Index) : (g.snapshots index).2.map Prod.fst =
    index.identities.filter fun identity => decide (g.rootIdentity ≠ some identity) := by
  have hfold : ∀ (identities : List String), (∀ identity ∈ identities, index.cursors identity ≠ []) →
      ∀ state : Graph × List (String × Nat),
        (identities.foldl (snapshot index g.rootIdentity) state).2.map Prod.fst =
          state.2.map Prod.fst ++ identities.filter fun identity => decide (g.rootIdentity ≠ some identity) := by
    intro identities
    induction identities with
    | nil => intro _ state; simp
    | cons identity rest ih =>
        intro hcursors state
        rw [List.foldl_cons, ih fun other hother => hcursors other (List.mem_cons_of_mem _ hother), snapshot]
        by_cases hroot : g.rootIdentity = some identity
        · simp [hroot]
        · cases hlist : index.cursors identity with
          | nil => exact absurd hlist (hcursors identity List.mem_cons_self)
          | cons cursor others => simp [hroot]
  refine (hfold index.identities (fun identity hidentity => ?_) (g, [])).trans (by simp)
  obtain ⟨cursor, hcursor, heq⟩ := ((identities_spec index).2 identity).mp hidentity
  exact List.ne_nil_of_mem (List.mem_filter.mpr ⟨hcursor, beq_iff_eq.mpr heq⟩)

theorem snapshots_outgrow {g : Graph} (hg : g.WellFormed) :
    Outgrows g (g.snapshots (g.scan true)).1 ∧
      Copies (g.snapshots (g.scan true)).1 (g.snapshots (g.scan true)).2 := by
  obtain ⟨hgrown, hknown⟩ : Outgrows g (g.snapshots (g.scan true)).1 ∧
      ∀ entry ∈ (g.snapshots (g.scan true)).2, entry.2 < (g.snapshots (g.scan true)).1.nodes.length := by
    refine snapshots_induct (motive := fun state => Outgrows g state.1 ∧
        ∀ entry ∈ state.2, entry.2 < state.1.nodes.length)
      ⟨⟨hg, rfl, Nat.le_refl _⟩, fun _ h => absurd h List.not_mem_nil⟩ ?_
    rintro state identity cursor ⟨hstate, hknown⟩ hcursor
    have hreached := reached_of_cursor hg (List.mem_of_mem_filter hcursor)
    obtain ⟨hgrown, hcopy⟩ := outgrows_deepCopy hstate.wellFormed ((hg.lt_of_reached hreached).trans_le hstate.size)
    refine ⟨hstate.trans hgrown, fun entry hentry => ?_⟩
    rcases List.mem_append.mp hentry with hold | hnew
    · exact (hknown entry hold).trans_le hgrown.size
    · rwa [List.mem_singleton.mp hnew]
  refine ⟨hgrown, hknown, ?_⟩
  rw [names_snapshots]
  exact (identities_spec _).1.filter _

/-! ### Replacement -/

/-- An object of a bare identity can be added. -/
theorem outgrows_stub {g : Graph} (hg : g.WellFormed) (identity : String) :
    Outgrows g (g.alloc (.object [(identityName, .text identity)])).1 :=
  ⟨hg.alloc ⟨List.nodup_singleton _, fun _ hslot => List.mem_singleton.mp hslot ▸ Slot.within_value _ _⟩, rfl,
    by simp [alloc]⟩

theorem outgrows_replaceAt {g next : Graph} {canonical : List (String × Nat)} (hcopies : Copies g canonical)
    (h : Outgrows g next) (identity : String) (location : Location) :
    Outgrows g (replaceAt canonical identity next location) := by
  unfold replaceAt
  split
  · exact h
  · rename_i parent position
    split
    · rename_i copy hcopy
      have hlt : copy < next.nodes.length :=
        (hcopies.known _ (mem_of_lookup hcopy)).trans_le h.size
      unfold replaceCopied
      split
      · exact h.trans (outgrows_put h.wellFormed _ _ (Slot.within_value _ _))
      · obtain ⟨hgrown, hagain⟩ := outgrows_deepCopy h.wellFormed hlt
        exact (h.trans hgrown).trans (outgrows_put hgrown.wellFormed _ _ (Slot.within_node hagain))
    · unfold replaceUncopied
      split
      · have hgrown := outgrows_stub h.wellFormed identity
        exact (h.trans hgrown).trans (outgrows_put hgrown.wellFormed _ _ (Slot.within_node (by simp [alloc])))
      · exact h

theorem outgrows_replaceAll {g : Graph} (hg : g.WellFormed) {canonical : List (String × Nat)}
    (hcopies : Copies g canonical) (index : Index) : Outgrows g (replaceAll index canonical g) := by
  refine List.foldlRecOn _ _ ⟨hg, rfl, Nat.le_refl _⟩ fun next hnext identity _ => ?_
  refine List.foldlRecOn _ _ hnext fun next hnext cursor _ => ?_
  exact List.foldlRecOn _ _ hnext fun next hnext location _ => outgrows_replaceAt hcopies hnext identity location

/-- The object of the canonical copies can be added. -/
theorem Copies.fits {g : Graph} {canonical : List (String × Nat)} (hcopies : Copies g canonical) :
    (Node.object (canonical.map fun (identity, copy) => (identity, .node copy))).Fits (g.nodes.length + 1) := by
  constructor
  · have hnames := hcopies.distinct
    rw [Node.names, List.map_map]
    exact hnames
  · intro slot hslot
    obtain ⟨field, hfield, rfl⟩ := List.mem_map.mp hslot
    obtain ⟨entry, hentry, rfl⟩ := List.mem_map.mp hfield
    exact Slot.within_node ((hcopies.known entry hentry).trans (Nat.lt_succ_self _))

theorem wellFormed_attachCanonical {g : Graph} (hg : g.WellFormed) {canonical : List (String × Nat)}
    (hcopies : Copies g canonical) : (attachCanonical canonical g).WellFormed := by
  unfold attachCanonical
  split
  · rename_i root hroot
    split
    · have halloc := hg.alloc hcopies.fits
      exact halloc.put (.slot root (.field refsName)) (Slot.within_node (by simp [alloc]))
    · exact hg
  · exact hg

theorem wellFormed_externalized {g : Graph} (hg : g.WellFormed) : g.externalized.WellFormed := by
  have hunified := (regroups_unified g).wellFormed hg
  obtain ⟨hsnapshots, hcopies⟩ := snapshots_outgrow hunified
  have hreplaced := outgrows_replaceAll hsnapshots.wellFormed hcopies (g.unified.scan true)
  refine wellFormed_attachCanonical hreplaced.wellFormed ⟨fun entry hentry => ?_, hcopies.distinct⟩
  exact (hcopies.known entry hentry).trans_le hreplaced.size

/-! ### The cut -/

/-- A compact graph has no cycle below its root and can be written out. Its last pass leaves every slot as it
was, but for those that hold a node above their own container: there the identity of that node is left, or
null when it has none. -/
theorem compacted_acyclic {g : Graph} (hg : g.WellFormed) :
    (∀ id, g.compacted.Reached id → ¬Relation.TransGen g.compacted.Points id id) ∧
      (∃ value, g.compacted.toJson? = .ok value) ∧
      g.compacted.root = g.externalized.root ∧
      g.compacted.nodes.length = g.externalized.nodes.length ∧
      ∀ id position, g.compacted.slotAt? id position = g.externalized.slotAt? id position ∨
        ∃ ancestor, g.externalized.slotAt? id position = some (.node ancestor) ∧
          g.externalized.Reached ancestor ∧ g.externalized.Reaches ancestor id ∧
          g.compacted.slotAt? id position = some (match g.externalized.identity? ancestor with
            | some identity => .text identity
            | none => .null) := by
  have hexternal := wellFormed_externalized hg
  obtain ⟨v, hv⟩ := exists_shows_severed hexternal
  obtain ⟨-, hroot, hlength⟩ := severed_frame hexternal
  refine ⟨fun id hid => ?_, ?_, hroot, hlength, fun id position => ?_⟩
  · obtain ⟨root, hroot, hreach⟩ := hid
    change g.externalized.severed.root = .node root at hroot
    rw [hroot] at hv
    obtain ⟨w, hw, -⟩ := hv.of_reaches hreach
    exact hw.not_cyclic
  · obtain ⟨w, hw, -⟩ := hv.toJson?
    exact ⟨w, hw⟩
  · rcases slotAt?_severed hexternal id position with ⟨ancestor, hback, hcut⟩ | ⟨-, hkept⟩
    · obtain ⟨parent, place, heq, hslot, -, hreach⟩ := slotAt?_of_circular hexternal hback
      cases heq
      refine .inr ⟨ancestor, hslot, reached_of_sighting hexternal hback, hreach, hcut.trans ?_⟩
      rw [remnant]
      cases g.externalized.identity? ancestor <;> rfl
    · exact .inl hkept

/-- Two entities that hold each other, and an array that holds itself. -/
theorem compacted_acyclic_mutual :
    let g : Graph := ⟨[.object [(identityName, .text "a"), ("child", .node 1)],
      .object [(identityName, .text "b"), ("parent", .node 0), ("list", .node 2)],
      .array [.node 2, .node 0]], .node 0⟩
    g.WellFormed ∧ ∃ value, g.compacted.toJson? = .ok value := by
  intro g
  have hg : g.WellFormed := by decide
  exact ⟨hg, (compacted_acyclic hg).2.1⟩

end Dossier.Graph
