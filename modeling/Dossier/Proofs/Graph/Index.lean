import Dossier.Proofs.Graph.Visit

/-!
What an index lists: every sighting is filed once with the cursor of its node, and a cursor carries the
identity of its node. No two cursors are of one node.
-/

namespace Dossier

/-- The node stands at the location by one of these cursors. -/
def Lists (cursors : List Cursor) (node : Nat) (location : Location) : Prop :=
  ∃ cursor ∈ cursors, cursor.node = node ∧ location ∈ cursor.locations

/-- Each of these cursors has a location and carries the identity of its node. -/
def Filed (identity? : Nat → Option String) (cursors : List Cursor) : Prop :=
  ∀ cursor ∈ cursors, cursor.identity = identity? cursor.node ∧ cursor.locations ≠ []

theorem lists_record (identity : Option String) (node : Nat) (location : Location) (cursors : List Cursor)
    (n : Nat) (l : Location) :
    Lists (Index.record identity node location cursors) n l ↔
      Lists cursors n l ∨ n = node ∧ l = location := by
  induction cursors with
  | nil => simp [Index.record, Lists, eq_comm]
  | cons cursor rest ih =>
      rw [Index.record]
      split
      · rename_i hnode
        simp only [Lists, List.mem_cons, exists_eq_or_imp, List.mem_append, List.not_mem_nil, or_false]
        constructor
        · rintro (⟨rfl, hold | hnew⟩ | hrest)
          · exact .inl (.inl ⟨rfl, hold⟩)
          · exact .inr ⟨hnode, hnew⟩
          · exact .inl (.inr hrest)
        · rintro ((⟨rfl, hold⟩ | hrest) | ⟨rfl, rfl⟩)
          · exact .inl ⟨rfl, .inl hold⟩
          · exact .inr hrest
          · exact .inl ⟨hnode, .inr rfl⟩
      · simp only [Lists, List.mem_cons, exists_eq_or_imp, or_assoc]
        exact or_congr_right ih

theorem filed_record {identity? : Nat → Option String} {cursors : List Cursor} (h : Filed identity? cursors)
    (node : Nat) (location : Location) : Filed identity? (Index.record (identity? node) node location cursors) := by
  induction cursors with
  | nil =>
      intro cursor hcursor
      rw [List.mem_singleton.mp hcursor]
      exact ⟨rfl, List.cons_ne_nil _ _⟩
  | cons first rest ih =>
      have hrest : Filed identity? rest := fun cursor hcursor => h cursor (List.mem_cons_of_mem _ hcursor)
      rw [Index.record]
      intro cursor hcursor
      split at hcursor
      · rcases List.mem_cons.mp hcursor with rfl | hmem
        · exact ⟨(h first List.mem_cons_self).1, List.append_ne_nil_of_right_ne_nil _ (List.cons_ne_nil _ _)⟩
        · exact hrest cursor hmem
      · rcases List.mem_cons.mp hcursor with rfl | hmem
        · exact h cursor List.mem_cons_self
        · exact ih hrest cursor hmem

/-- No two cursors are of one node. -/
theorem nodup_record {identity : Option String} {node : Nat} {location : Location} {cursors : List Cursor}
    (h : (cursors.map (·.node)).Nodup) : ((Index.record identity node location cursors).map (·.node)).Nodup ∧
      ∀ id ∈ (Index.record identity node location cursors).map (·.node), id = node ∨ id ∈ cursors.map (·.node) := by
  induction cursors with
  | nil => simp [Index.record]
  | cons cursor rest ih =>
      rw [List.map_cons, List.nodup_cons] at h
      obtain ⟨hrest, hmem⟩ := ih h.2
      rw [Index.record]
      split
      · rw [List.map_cons, List.nodup_cons]
        exact ⟨h, fun id hid => .inr hid⟩
      · rename_i hne
        rw [List.map_cons, List.nodup_cons]
        refine ⟨⟨fun hin => ?_, hrest⟩, fun id hid => ?_⟩
        · exact (hmem _ hin).elim hne h.1
        · rcases List.mem_cons.mp hid with rfl | hid
          · exact .inr List.mem_cons_self
          · exact (hmem id hid).imp_right (List.mem_cons_of_mem _)

namespace Graph

variable (g : Graph)

theorem scan_true : g.scan true = g.sightings.foldl (Index.add g) ⟨[], []⟩ := rfl

theorem lists_circular (node : Nat) (location : Location) :
    Lists (g.scan true).circular node location ↔ ⟨node, location, true⟩ ∈ g.sightings := by
  have hfold : ∀ (made : List Sighting) (index : Index),
      Lists (made.foldl (Index.add g) index).circular node location ↔
        Lists index.circular node location ∨ ⟨node, location, true⟩ ∈ made := by
    intro made
    induction made with
    | nil => simp
    | cons sighting made ih =>
        obtain ⟨id, place, circular⟩ := sighting
        intro index
        rw [List.foldl_cons, ih, List.mem_cons, ← or_assoc]
        refine or_congr_left ?_
        cases circular with
        | true => simp [Index.add, lists_record]
        | false => by_cases hidentity : (g.identity? id).isSome = true <;> simp [Index.add, hidentity]
  rw [scan_true, hfold]
  simp [Lists]

theorem lists_entities (node : Nat) (location : Location) :
    Lists (g.scan true).entities node location ↔
      ⟨node, location, false⟩ ∈ g.sightings ∧ (g.identity? node).isSome = true := by
  have hfold : ∀ (made : List Sighting) (index : Index),
      Lists (made.foldl (Index.add g) index).entities node location ↔
        Lists index.entities node location ∨
          ⟨node, location, false⟩ ∈ made ∧ (g.identity? node).isSome = true := by
    intro made
    induction made with
    | nil => simp
    | cons sighting made ih =>
        obtain ⟨id, place, circular⟩ := sighting
        intro index
        rw [List.foldl_cons, ih, List.mem_cons, or_and_right, ← or_assoc]
        refine or_congr_left ?_
        cases circular with
        | true => simp [Index.add]
        | false =>
            by_cases hidentity : (g.identity? id).isSome = true
            · have hself : node = id ∧ location = place ↔
                  (node = id ∧ location = place) ∧ (g.identity? node).isSome = true :=
                ⟨fun h => ⟨h, h.1 ▸ hidentity⟩, fun h => h.1⟩
              simp only [Index.add, hidentity, Bool.false_eq_true, if_false, if_true, Sighting.mk.injEq, and_true]
              rw [lists_record, ← hself]
            · have hnot : ¬(node = id ∧ location = place ∧ (g.identity? node).isSome = true) := by
                rintro ⟨rfl, -, h⟩
                exact hidentity h
              simp only [Index.add, hidentity]
              simp [and_assoc, hnot]
  rw [scan_true, hfold]
  simp [Lists]

theorem filed_scan : Filed g.identity? (g.scan true).entities ∧ Filed g.identity? (g.scan true).circular := by
  have hfold : ∀ (made : List Sighting) (index : Index),
      Filed g.identity? index.entities → Filed g.identity? index.circular →
        Filed g.identity? (made.foldl (Index.add g) index).entities ∧
          Filed g.identity? (made.foldl (Index.add g) index).circular := by
    intro made
    induction made with
    | nil => exact fun _ hentities hcircular => ⟨hentities, hcircular⟩
    | cons sighting made ih =>
        intro index hentities hcircular
        rw [List.foldl_cons]
        apply ih <;> unfold Index.add <;> dsimp only
        · split
          · exact hentities
          · split
            · exact filed_record hentities _ _
            · exact hentities
        · split
          · exact filed_record hcircular _ _
          · split <;> exact hcircular
  exact hfold _ _ (fun _ h => absurd h List.not_mem_nil) (fun _ h => absurd h List.not_mem_nil)

theorem nodup_entities : ((g.scan true).entities.map (·.node)).Nodup := by
  rw [scan_true]
  have hstart : ((⟨[], []⟩ : Index).entities.map (·.node)).Nodup := List.nodup_nil
  refine List.foldlRecOn (motive := fun index : Index => (index.entities.map (·.node)).Nodup) _ _ hstart ?_
  intro index h sighting _
  unfold Index.add
  dsimp only
  split
  · exact h
  · split
    · exact (nodup_record h).1
    · exact h

end Graph

end Dossier
