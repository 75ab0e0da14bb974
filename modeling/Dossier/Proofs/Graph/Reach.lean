import Dossier.Proofs.Graph.WellFormed
import Mathlib.Algebra.BigOperators.Group.Finset.Piecewise
import Mathlib.Logic.Relation

/-!
The nodes found from a node are those that it leads to. Every visit spends one of the slots that wait or
that belong to a node not yet found, so the fuel of `reachable` lasts until nothing waits.
-/

namespace Dossier.Graph

/-- There are no more distinct nodes than the graph has. -/
theorem length_le_of_nodup {ids : List Nat} {count : Nat} (hnodup : ids.Nodup) (hlt : ∀ id ∈ ids, id < count) :
    ids.length ≤ count := by
  have hsub : ids ⊆ List.range count := fun id hid => List.mem_range.mpr (hlt id hid)
  have hle := (List.subperm_of_subset hnodup hsub).length_le
  rwa [List.length_range] at hle

/-- One node leads to the other, by any number of slots. -/
abbrev Reaches (g : Graph) : Nat → Nat → Prop := Relation.ReflTransGen g.Points

theorem explore_sound {g : Graph} {fuel : Nat} {found waiting : List Nat} {b : Nat}
    (h : b ∈ g.explore fuel found waiting) : b ∈ found ∨ ∃ a ∈ waiting, g.Reaches a b := by
  induction fuel generalizing found waiting with
  | zero => exact .inl h
  | succ fuel ih =>
      cases waiting with
      | nil => exact .inl h
      | cons id waiting =>
          rw [explore] at h
          split at h
          · rcases ih h with hfound | ⟨a, ha, hreach⟩
            · exact .inl hfound
            · exact .inr ⟨a, List.mem_cons_of_mem _ ha, hreach⟩
          · rcases ih h with hfound | ⟨a, ha, hreach⟩
            · rcases List.mem_append.mp hfound with hold | hnew
              · exact .inl hold
              · rw [List.mem_singleton.mp hnew]
                exact .inr ⟨id, List.mem_cons_self, .refl⟩
            · rcases List.mem_append.mp ha with htarget | hwaiting
              · exact .inr ⟨id, List.mem_cons_self, .head htarget hreach⟩
              · exact .inr ⟨a, List.mem_cons_of_mem _ hwaiting, hreach⟩

/-- How many slots a node has. -/
def slotsOf (g : Graph) (id : Nat) : Nat := ((g.nodes[id]?).map (·.slots.length)).getD 0

/-- The slots of all nodes but those found. -/
def unspent (g : Graph) (found : List Nat) : Nat :=
  ∑ id ∈ Finset.range g.nodes.length, if id ∈ found then 0 else g.slotsOf id

theorem unspent_nil (g : Graph) : g.unspent [] = g.slotCount := by
  have hlist : ∀ nodes : List Node,
      (nodes.map (·.slots.length)).sum =
        ∑ id ∈ Finset.range nodes.length, ((nodes[id]?).map (·.slots.length)).getD 0 := by
    intro nodes
    induction nodes with
    | nil => rfl
    | cons node rest ih => simp [Finset.sum_range_succ', ih, Nat.add_comm]
  simp [unspent, slotCount, hlist, slotsOf]

theorem unspent_found {g : Graph} {found : List Nat} {id : Nat} (hnew : id ∉ found) :
    g.unspent (found ++ [id]) + g.slotsOf id = g.unspent found := by
  have hsplit : g.unspent found = g.unspent (found ++ [id]) +
      ∑ other ∈ Finset.range g.nodes.length, if other = id then g.slotsOf other else 0 := by
    rw [unspent, unspent, ← Finset.sum_add_distrib]
    refine Finset.sum_congr rfl fun other _ => ?_
    by_cases hother : other = id
    · simp [hother, hnew]
    · simp [hother]
  rw [hsplit, Finset.sum_ite_eq']
  by_cases hid : id < g.nodes.length
  · simp [hid]
  · simp [slotsOf, hid]

theorem length_targets_le (g : Graph) (id : Nat) : (g.targets id).length ≤ g.slotsOf id := by
  rw [targets, slotsOf]
  cases g.nodes[id]? with
  | none => exact Nat.le_refl 0
  | some node => exact List.length_filterMap_le _ _

/-- With enough fuel nothing is left out: what was found or waits is found, with all that it points to. -/
theorem explore_complete {g : Graph} {fuel : Nat} {found waiting : List Nat}
    (hfuel : waiting.length + g.unspent found ≤ fuel)
    (hclosed : ∀ a ∈ found, ∀ b, g.Points a b → b ∈ found ∨ b ∈ waiting) :
    (∀ a, a ∈ found ∨ a ∈ waiting → a ∈ g.explore fuel found waiting) ∧
      ∀ a ∈ g.explore fuel found waiting, ∀ b, g.Points a b → b ∈ g.explore fuel found waiting := by
  induction fuel generalizing found waiting with
  | zero =>
      have hnone : waiting = [] := List.length_eq_zero_iff.mp (by omega)
      subst hnone
      exact ⟨fun a ha => ha.resolve_right List.not_mem_nil,
        fun a ha b hb => (hclosed a ha b hb).resolve_right List.not_mem_nil⟩
  | succ fuel ih =>
      cases waiting with
      | nil =>
          exact ⟨fun a ha => ha.resolve_right List.not_mem_nil,
            fun a ha b hb => (hclosed a ha b hb).resolve_right List.not_mem_nil⟩
      | cons id waiting =>
          rw [List.length_cons] at hfuel
          rw [explore]
          split
          · rename_i hold
            have hold : id ∈ found := List.contains_iff_mem.mp hold
            have hclosed' : ∀ a ∈ found, ∀ b, g.Points a b → b ∈ found ∨ b ∈ waiting := by
              intro a ha b hb
              rcases hclosed a ha b hb with hfound | hwaiting
              · exact .inl hfound
              · rcases List.mem_cons.mp hwaiting with rfl | hrest
                · exact .inl hold
                · exact .inr hrest
            obtain ⟨hall, hnext⟩ := ih (by omega) hclosed'
            refine ⟨fun a ha => hall a ?_, hnext⟩
            rcases ha with hfound | hwaiting
            · exact .inl hfound
            · rcases List.mem_cons.mp hwaiting with rfl | hrest
              · exact .inl hold
              · exact .inr hrest
          · rename_i hnew
            have hnew : id ∉ found := fun h => hnew (List.contains_iff_mem.mpr h)
            have hspent := unspent_found (g := g) hnew
            have htargets := g.length_targets_le id
            have hclosed' : ∀ a ∈ found ++ [id], ∀ b, g.Points a b →
                b ∈ found ++ [id] ∨ b ∈ g.targets id ++ waiting := by
              intro a ha b hb
              rcases List.mem_append.mp ha with hfound | hself
              · rcases hclosed a hfound b hb with hfound' | hwaiting
                · exact .inl (List.mem_append_left _ hfound')
                · rcases List.mem_cons.mp hwaiting with rfl | hrest
                  · exact .inl (List.mem_append_right _ (List.mem_singleton_self b))
                  · exact .inr (List.mem_append_right _ hrest)
              · rw [List.mem_singleton.mp hself] at hb
                exact .inr (List.mem_append_left _ hb)
            obtain ⟨hall, hnext⟩ := ih (by rw [List.length_append]; omega) hclosed'
            refine ⟨fun a ha => hall a ?_, hnext⟩
            rcases ha with hfound | hwaiting
            · exact .inl (List.mem_append_left _ hfound)
            · rcases List.mem_cons.mp hwaiting with rfl | hrest
              · exact .inl (List.mem_append_right _ (List.mem_singleton_self a))
              · exact .inr (List.mem_append_right _ hrest)

theorem mem_reachable_iff {g : Graph} {a b : Nat} : b ∈ g.reachable a ↔ g.Reaches a b := by
  constructor
  · intro h
    rcases explore_sound h with hnone | ⟨start, hstart, hreach⟩
    · cases hnone
    · rwa [List.mem_singleton.mp hstart] at hreach
  · intro h
    have hfuel : [a].length + g.unspent [] ≤ g.slotCount + 1 := by
      rw [unspent_nil, List.length_singleton, Nat.add_comm]
    obtain ⟨hall, hnext⟩ := explore_complete hfuel fun a ha => absurd ha List.not_mem_nil
    induction h with
    | refl => exact hall a (.inr (List.mem_singleton_self a))
    | tail _ hpoints ih => exact hnext _ ih _ hpoints

theorem leadsTo_iff {g : Graph} {slot : Slot} {target : Nat} :
    g.leadsTo slot target = true ↔ ∃ id, slot = .node id ∧ g.Reaches id target := by
  cases slot with
  | value value => simp [leadsTo]
  | node id => simp [leadsTo, mem_reachable_iff]

theorem WellFormed.lt_of_reaches {g : Graph} (hg : g.WellFormed) {a b : Nat} (h : g.Reaches a b)
    (ha : a < g.nodes.length) : b < g.nodes.length := by
  cases h with
  | refl => exact ha
  | tail _ hpoints => exact hg.lt_of_points hpoints

end Dossier.Graph
