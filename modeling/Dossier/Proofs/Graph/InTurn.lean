import Dossier.Proofs.Graph.Copy

/-!
Copies made in turn. A node is given an empty array as its copy, then what is below it is copied, then the array is
filled in. The nodes are met in the order in which they are found, so each copy has its place as if all of them had been
laid out at once; and at every stage a copy is filled in unless its node is above the one that is being copied. Main
statement, `copyInTurn_eq`: once the first node is copied nothing is left to fill in, and the graph is the same.
-/

namespace Dossier.Graph

/-! ### The order in which nodes are met -/

/-- Slots are followed one after another. A node that was not found yet is found, with all that is below it, before the
next slot is followed. -/
inductive Explored (g : Graph) : List Nat → List Slot → List Nat → Prop
  | nil {found : List Nat} : Explored g found [] found
  | value {found result : List Nat} {value : Json} {rest : List Slot} :
      Explored g found rest result → Explored g found (.value value :: rest) result
  | old {found result : List Nat} {id : Nat} {rest : List Slot} :
      id ∈ found → Explored g found rest result → Explored g found (.node id :: rest) result
  | new {found middle result : List Nat} {id : Nat} {node : Node} {rest : List Slot} :
      id ∉ found → g.nodes[id]? = some node → Explored g (found ++ [id]) node.slots middle →
        Explored g middle rest result → Explored g found (.node id :: rest) result

theorem Explored.extends {g : Graph} {found result : List Nat} {slots : List Slot} (h : Explored g found slots result) :
    found <+: result := by
  induction h with
  | nil => exact List.prefix_refl _
  | value _ ih => exact ih
  | old _ _ ih => exact ih
  | new _ _ _ _ ihbelow ihrest => exact (List.prefix_append _ _).trans (ihbelow.trans ihrest)

/-- The nodes found are nodes of the graph, each found once. -/
structure Distinct (g : Graph) (found : List Nat) : Prop where
  nodup : found.Nodup
  known : ∀ id ∈ found, id < g.nodes.length

theorem Distinct.length_le {g : Graph} {found : List Nat} (h : Distinct g found) : found.length ≤ g.nodes.length :=
  length_le_of_nodup h.nodup h.known

theorem Distinct.concat {g : Graph} {found : List Nat} (h : Distinct g found) {id : Nat} (hnew : id ∉ found)
    (hid : id < g.nodes.length) : Distinct g (found ++ [id]) := by
  refine ⟨List.nodup_append'.mpr ⟨h.nodup, List.nodup_singleton id, fun other hother hself => ?_⟩,
    fun other hother => ?_⟩
  · exact hnew (List.mem_singleton.mp hself ▸ hother)
  · rcases List.mem_append.mp hother with hold | hself
    · exact h.known other hold
    · rwa [List.mem_singleton.mp hself]

theorem Explored.distinct {g : Graph} {found result : List Nat} {slots : List Slot} (h : Explored g found slots result)
    (hfound : Distinct g found) : Distinct g result := by
  induction h with
  | nil => exact hfound
  | value _ ih => exact ih hfound
  | old _ _ ih => exact ih hfound
  | new hnew hnode _ _ ihbelow ihrest =>
      exact ihrest (ihbelow (hfound.concat hnew (List.getElem?_eq_some_iff.mp hnode).1))

/-- With enough fuel, the slots ahead of the nodes that wait are followed first, and enough is left for these. -/
theorem exists_explored {g : Graph} (hg : g.WellFormed) (fuel : Nat) {found waiting : List Nat} {slots : List Slot}
    (hslots : ∀ slot ∈ slots, slot.Within g.nodes.length)
    (hfuel : (slots.filterMap Slot.target?).length + waiting.length + g.unspent found ≤ fuel) :
    ∃ middle left, left ≤ fuel ∧ waiting.length + g.unspent middle ≤ left ∧ Explored g found slots middle ∧
      g.explore fuel found (slots.filterMap Slot.target? ++ waiting) = g.explore left middle waiting := by
  induction fuel using Nat.strong_induction_on generalizing found waiting slots with
  | _ fuel ih =>
      induction slots with
      | nil => exact ⟨found, fuel, le_rfl, by simpa using hfuel, .nil, rfl⟩
      | cons slot rest ihrest =>
          have hrest : ∀ other ∈ rest, other.Within g.nodes.length := fun other hother =>
            hslots other (List.mem_cons_of_mem _ hother)
          cases slot with
          | value value =>
              obtain ⟨middle, left, hleft, henough, hexplored, heq⟩ := ihrest hrest hfuel
              exact ⟨middle, left, hleft, henough, .value hexplored, heq⟩
          | node id =>
              have htargets : (Slot.node id :: rest).filterMap Slot.target? = id :: rest.filterMap Slot.target? := rfl
              rw [htargets, List.length_cons] at hfuel
              rw [htargets, List.cons_append]
              obtain ⟨fuel, rfl⟩ : ∃ less, fuel = less + 1 := ⟨fuel - 1, by omega⟩
              rw [explore]
              split
              · rename_i hold
                have hless : (rest.filterMap Slot.target?).length + waiting.length + g.unspent found ≤ fuel := by omega
                obtain ⟨middle, left, hleft, henough, hexplored, heq⟩ := ih fuel (Nat.lt_succ_self fuel) hrest hless
                exact ⟨middle, left, by omega, henough, .old (List.contains_iff_mem.mp hold) hexplored, heq⟩
              · rename_i hnew
                have hnew : id ∉ found := fun h => hnew (List.contains_iff_mem.mpr h)
                obtain ⟨node, hnode⟩ : ∃ node, g.nodes[id]? = some node :=
                  ⟨_, List.getElem?_eq_getElem (hslots _ List.mem_cons_self id rfl)⟩
                have hbelow : g.targets id = node.slots.filterMap Slot.target? := by rw [targets, hnode]
                have hspent := unspent_found (g := g) hnew
                have hcount := g.length_targets_le id
                -- first what is below the node, then the other slots, each time with what is left of the fuel
                rw [hbelow] at hcount ⊢
                have hless : (node.slots.filterMap Slot.target?).length +
                    (rest.filterMap Slot.target? ++ waiting).length + g.unspent (found ++ [id]) ≤ fuel := by
                  rw [List.length_append]
                  omega
                obtain ⟨middle, left, hleft, henough, hexplored, heq⟩ :=
                  ih fuel (Nat.lt_succ_self fuel) (hg.nodes id node hnode).slots hless
                rw [List.length_append] at henough
                obtain ⟨result, last, hlast, hresult, hexplored', heq'⟩ := ih left (by omega) hrest henough
                exact ⟨result, last, by omega, hresult, .new hnew hnode hexplored hexplored', heq.trans heq'⟩

theorem explored_reachable {g : Graph} (hg : g.WellFormed) {start : Nat} (hstart : start < g.nodes.length) :
    Explored g [] [.node start] (g.reachable start) := by
  have hslots : ∀ slot ∈ [Slot.node start], slot.Within g.nodes.length := fun slot hslot =>
    List.mem_singleton.mp hslot ▸ Slot.within_node hstart
  have hfuel : ([Slot.node start].filterMap Slot.target?).length + ([] : List Nat).length + g.unspent [] ≤
      g.slotCount + 1 := by
    rw [unspent_nil]
    exact (Nat.add_comm 1 _).le
  obtain ⟨middle, left, -, -, hexplored, heq⟩ := exists_explored hg _ hslots hfuel
  have hend : g.explore left middle [] = middle := by cases left <;> rfl
  have hreachable : g.reachable start = middle := heq.trans hend
  rwa [hreachable]

theorem distinct_reachable {g : Graph} (hg : g.WellFormed) {start : Nat} (hstart : start < g.nodes.length) :
    Distinct g (g.reachable start) :=
  (explored_reachable hg hstart).distinct ⟨List.nodup_nil, fun _ h => absurd h List.not_mem_nil⟩

/-! ### Where the copies stand -/

/-- A node is copied behind the copies of those found before it. -/
theorem copyId_of_concat {g : Graph} {start id : Nat} {found : List Nat}
    (hpart : found ++ [id] <+: g.reachable start) (hnew : id ∉ found) :
    g.copyId start id = g.nodes.length + found.length := by
  obtain ⟨rest, hrest⟩ := hpart
  have hnone : found.findIdx? (· == id) = none := by
    rw [List.findIdx?_eq_none_iff]
    intro other hother
    exact beq_eq_false_iff_ne.mpr fun heq => hnew (heq ▸ hother)
  have hnumber : (Numbering.mk (g.reachable start)).number? id = some found.length := by
    rw [Numbering.number?, ← hrest, List.append_assoc, List.findIdx?_append, hnone]
    simp [List.findIdx?_cons]
  rw [copyId, hnumber, Option.getD_some]

theorem copyId_of_getElem? {g : Graph} {start id k : Nat} (hnodup : (g.reachable start).Nodup)
    (h : (g.reachable start)[k]? = some id) : g.copyId start id = g.nodes.length + k := by
  obtain ⟨j, hj⟩ : ∃ j, (Numbering.mk (g.reachable start)).number? id = some j :=
    exists_number? (List.mem_of_getElem? h)
  have hat : (g.reachable start)[j]? = some id := number?_eq_some hj
  have hsame : j = k := 
    (List.getElem?_inj (List.getElem?_eq_some_iff.mp hat).1 hnodup).mp (hat.trans h.symm)
  rw [copyId, hj, Option.getD_some, hsame]

theorem copyId_injective {g : Graph} {start a b : Nat} (ha : a ∈ g.reachable start) (hb : b ∈ g.reachable start)
    (h : g.copyId start a = g.copyId start b) : a = b := by
  obtain ⟨i, hi⟩ : ∃ i, (Numbering.mk (g.reachable start)).number? a = some i := exists_number? ha
  obtain ⟨j, hj⟩ : ∃ j, (Numbering.mk (g.reachable start)).number? b = some j := exists_number? hb
  rw [copyId, copyId, hi, hj, Option.getD_some, Option.getD_some] at h
  have hsame : i = j := Nat.add_left_cancel h
  exact Option.some_inj.mp ((number?_eq_some hi).symm.trans (hsame ▸ number?_eq_some hj))

/-- The graph while some nodes are copied: all those found have their copies, which are filled in but for those of the
open nodes, the ones above what is being copied. -/
structure Halfway (g : Graph) (start : Nat) (state : Copying) (found opened : List Nat) : Prop where
  root : state.1.root = g.root
  length : state.1.nodes.length = g.nodes.length + found.length
  untouched : ∀ id < g.nodes.length, state.1.nodes[id]? = g.nodes[id]?
  copies : ∀ id, state.2.lookup id = if id ∈ found then some (g.copyId start id) else none
  filled : ∀ id ∈ found, id ∉ opened → ∀ node, g.nodes[id]? = some node →
    state.1.nodes[g.copyId start id]? = some (copyNode g.nodes.length ⟨g.reachable start⟩ node)

section

variable {g : Graph} {start id : Nat} {found opened : List Nat} {state : Copying}

/-- A node is opened: its copy is an empty array. -/
theorem Halfway.opens (h : Halfway g start state found opened) (hpart : found ++ [id] <+: g.reachable start)
    (hnew : id ∉ found) :
    Halfway g start ((state.1.alloc (.array [])).1, (id, g.copyId start id) :: state.2) (found ++ [id])
      (id :: opened) := by
  have hplace := copyId_of_concat hpart hnew
  have hlength : (state.1.alloc (.array [])).1.nodes.length = state.1.nodes.length + 1 := List.length_append
  refine ⟨h.root, ?_, fun other hother => ?_, fun other => ?_, fun other hother hclosed node hnode => ?_⟩
  · rw [hlength, h.length, List.length_append, List.length_singleton, Nat.add_assoc]
  · rw [getElem?_alloc, if_neg (by rw [h.length]; omega), h.untouched other hother]
  · by_cases hself : other = id
    · subst hself
      simp
    · rw [List.lookup_cons, beq_eq_false_iff_ne.mpr hself, h.copies other]
      simp [hself]
  · have hne : other ≠ id := fun heq => hclosed (heq ▸ List.mem_cons_self)
    have hfound : other ∈ found :=
      (List.mem_append.mp hother).resolve_right fun hself => hne (List.mem_singleton.mp hself)
    have hcopy := h.filled other hfound (fun hopen => hclosed (List.mem_cons_of_mem _ hopen)) node hnode
    have hlt := (List.getElem?_eq_some_iff.mp hcopy).1
    rw [getElem?_alloc, if_neg (Nat.ne_of_lt hlt), hcopy]

/-- A node is closed: its copy is filled in. -/
theorem Halfway.closes (h : Halfway g start state found (id :: opened)) (hpart : found <+: g.reachable start)
    (hid : id ∈ found) {node : Node} (hnode : g.nodes[id]? = some node)
    (hplace : g.copyId start id < state.1.nodes.length) :
    Halfway g start (state.1.setNode (g.copyId start id) (copyNode g.nodes.length ⟨g.reachable start⟩ node), state.2)
      found opened := by
  have hbehind := g.length_le_copyId start id
  refine ⟨h.root, ?_, fun other hother => ?_, h.copies, fun other hother hclosed original horiginal => ?_⟩
  · exact List.length_set.trans h.length
  · exact (List.getElem?_set_ne (by omega)).trans (h.untouched other hother)
  · by_cases hself : other = id
    · subst hself
      cases hnode.symm.trans horiginal
      exact List.getElem?_set_self hplace
    · have hne : g.copyId start id ≠ g.copyId start other := fun heq =>
        hself (copyId_injective (hpart.subset hid) (hpart.subset hother) heq).symm
      refine (List.getElem?_set_ne hne).trans (h.filled other hother (fun hopen => ?_) original horiginal)
      exact (List.mem_cons.mp hopen).elim hself hclosed

end

/-! ### Copying in turn -/

theorem withSlots_copyNode (first : Nat) (order : Numbering Nat) (node : Node) :
    node.withSlots (node.slots.map (copySlot first order)) = copyNode first order node := by
  cases node with
  | object fields =>
      simp only [Node.withSlots, Node.slots, copyNode, List.map_map]
      rw [List.zip_map']
      rfl
  | array items => rfl

/-- A node that has its copy is not copied again. -/
theorem copyInTurn_old {depth : Nat} {state : Copying} {id new : Nat} (h : state.2.lookup id = some new) :
    copyInTurn (depth + 1) state id = (state, new) := by
  obtain ⟨g, copies⟩ := state
  rw [copyInTurn, h]

/-- Any other gets its copy, which is filled in when its slots are copied. -/
theorem copyInTurn_new {depth : Nat} {state next : Copying} {id : Nat} {node : Node} {slots : List Slot}
    (h : state.2.lookup id = none) (hnode : (state.1.alloc (.array [])).1.nodes[id]? = some node)
    (hslots : copySlots (copyInTurn depth) ((state.1.alloc (.array [])).1, (id, state.1.nodes.length) :: state.2)
      node.slots = (next, slots)) :
    copyInTurn (depth + 1) state id =
      ((next.1.setNode state.1.nodes.length (node.withSlots slots), next.2), state.1.nodes.length) := by
  obtain ⟨g, copies⟩ := state
  have hlast : (g.alloc (.array [])).2 = g.nodes.length := rfl
  rw [copyInTurn, h]
  dsimp only at hnode hslots ⊢
  rw [hlast, hnode]
  dsimp only
  rw [hslots]

section

variable {g : Graph} {start : Nat}

/-- **Copying goes from one stage to another**, whatever nodes are open. -/
theorem copySlots_halfway {found result : List Nat} {slots : List Slot} (h : Explored g found slots result)
    (depth : Nat) {state : Copying} {opened : List Nat} (hdistinct : Distinct g found)
    (hdepth : g.nodes.length < depth + found.length) (hpart : result <+: g.reachable start)
    (hstate : Halfway g start state found opened) :
    ∃ next, copySlots (copyInTurn depth) state slots =
        (next, slots.map (copySlot g.nodes.length ⟨g.reachable start⟩)) ∧ Halfway g start next result opened := by
  induction h generalizing depth state opened with
  | nil => exact ⟨state, rfl, hstate⟩
  | value hrest ih =>
      obtain ⟨next, hnext, hhalfway⟩ := ih depth hdistinct hdepth hpart hstate
      refine ⟨next, ?_, hhalfway⟩
      rw [copySlots, hnext]
      rfl
  | @old found result id rest hold hrest ih =>
      have hle := hdistinct.length_le
      obtain ⟨depth, rfl⟩ : ∃ less, depth = less + 1 := ⟨depth - 1, by omega⟩
      obtain ⟨next, hnext, hhalfway⟩ := ih (depth + 1) hdistinct hdepth hpart hstate
      have hcopy : state.2.lookup id = some (g.copyId start id) := by rw [hstate.copies, if_pos hold]
      refine ⟨next, ?_, hhalfway⟩
      rw [copySlots, copyInTurn_old hcopy]
      dsimp only
      rw [hnext]
      rfl
  | @new found middle result id node rest hnew hnode hbelow hrest ihbelow ihrest =>
      have hle := hdistinct.length_le
      obtain ⟨depth, rfl⟩ : ∃ less, depth = less + 1 := ⟨depth - 1, by omega⟩
      have hid := (List.getElem?_eq_some_iff.mp hnode).1
      have hmiddle : middle <+: g.reachable start := hrest.extends.trans hpart
      have hfirst : found ++ [id] <+: g.reachable start := hbelow.extends.trans hmiddle
      have hplace : g.copyId start id = state.1.nodes.length :=
        (copyId_of_concat hfirst hnew).trans hstate.length.symm
      -- the copy is open while what is below it is copied
      have hopened := hstate.opens hfirst hnew
      have hdistinct' := hdistinct.concat hnew hid
      have hmore : (found ++ [id]).length = found.length + 1 := List.length_append
      have hlonger := hbelow.extends.length_le
      rw [hmore] at hlonger
      obtain ⟨below, hslots, hhalfway⟩ := ihbelow depth hdistinct' (by rw [hmore]; omega) hmiddle hopened
      have hinside : g.copyId start id < below.1.nodes.length := by
        rw [hplace, hstate.length, hhalfway.length]
        omega
      have hclosed := hhalfway.closes hmiddle (hbelow.extends.subset List.mem_concat_self) hnode hinside
      obtain ⟨next, hnext, hlast⟩ := ihrest (depth + 1) (hbelow.distinct hdistinct') (by omega) hpart hclosed
      refine ⟨next, ?_, hlast⟩
      have hnone : state.2.lookup id = none := by rw [hstate.copies, if_neg hnew]
      have hsource : (state.1.alloc (.array [])).1.nodes[id]? = some node :=
        (hopened.untouched id hid).trans hnode
      rw [hplace] at hslots hnext
      rw [copySlots, copyInTurn_new hnone hsource hslots, withSlots_copyNode]
      dsimp only
      rw [hnext, List.map_cons, copySlot_node, hplace]

/-- The fuel is never used up. -/
theorem lt_copyDepth (g : Graph) : g.nodes.length < g.copyDepth := by
  have hpos : 0 < Nat.pow 2 (g.slotCount + 1) := Nat.pow_pos (by decide)
  calc g.nodes.length < g.nodes.length + g.slotCount + 2 := by omega
    _ ≤ (g.nodes.length + g.slotCount + 2) * Nat.pow 2 (g.slotCount + 1) := Nat.le_mul_of_pos_right _ hpos

/-- When all is copied and no node is open, the graph is the one in which the copies were laid out at once. -/
theorem Halfway.whole (hg : g.WellFormed) (hstart : start < g.nodes.length) {state : Copying}
    (h : Halfway g start state (g.reachable start) []) : state.1 = (g.deepCopy start).1 := by
  have hdistinct := distinct_reachable hg hstart
  refine graph_ext (h.root.trans (root_deepCopy hg hstart).symm) fun place => ?_
  rcases Nat.lt_or_ge place g.nodes.length with hold | hnew
  · rw [h.untouched place hold, getElem?_deepCopy_old hg hstart hold]
  · obtain ⟨k, rfl⟩ := Nat.exists_eq_add_of_le hnew
    rw [getElem?_deepCopy_new hg hstart]
    cases hid : (g.reachable start)[k]? with
    | none =>
        refine List.getElem?_eq_none_iff.mpr ?_
        rw [h.length]
        exact Nat.add_le_add_left (List.getElem?_eq_none_iff.mp hid) _
    | some id =>
        have hmem := List.mem_of_getElem? hid
        obtain ⟨node, hnode⟩ : ∃ node, g.nodes[id]? = some node :=
          ⟨_, List.getElem?_eq_getElem (hdistinct.known id hmem)⟩
        rw [← copyId_of_getElem? hdistinct.nodup hid, h.filled id hmem List.not_mem_nil node hnode, Option.map_some,
          hnode, Option.getD_some]

/-- **Copies made in turn are those laid out at once.** -/
theorem copyInTurn_eq (hg : g.WellFormed) (hstart : start < g.nodes.length) :
    ∃ copies, copyInTurn g.copyDepth (g, []) start = (((g.deepCopy start).1, copies), (g.deepCopy start).2) := by
  have hexplored := explored_reachable hg hstart
  have hempty : Halfway g start (g, []) [] [] :=
    ⟨rfl, rfl, fun _ _ => rfl, fun _ => rfl, fun _ h => absurd h List.not_mem_nil⟩
  have hnone : Distinct g [] := ⟨List.nodup_nil, fun _ h => absurd h List.not_mem_nil⟩
  obtain ⟨next, hnext, hhalfway⟩ :=
    copySlots_halfway hexplored g.copyDepth hnone g.lt_copyDepth (List.prefix_refl _) hempty
  have hcopied : copyInTurn g.copyDepth (g, []) start = (next, g.nodes.length) := by
    have hslots : copySlots (copyInTurn g.copyDepth) (g, []) [.node start] =
        ((copyInTurn g.copyDepth (g, []) start).1, [.node (copyInTurn g.copyDepth (g, []) start).2]) := rfl
    rw [hslots, List.map_singleton, copySlot_node, copyId_start] at hnext
    obtain ⟨hstate, hlast⟩ := Prod.mk.inj hnext
    exact Prod.ext hstate (Slot.node.inj (List.singleton_inj.mp hlast))
  have hgraph := hhalfway.whole hg hstart
  exact ⟨next.2, by rw [hcopied, ← hgraph, deepCopy_eq hg hstart]⟩

end

end Dossier.Graph
