import Dossier.Proofs.Graph.Load
import Dossier.Proofs.Graph.Visit

/-!
Writing graphs out. It follows the slots from the root and fails only where a slot leads back to a node above it, so a
node that is shared does not matter; and the graph of a value is written out as that very value, as every container
comes after all that it holds. Main statement: `toJson?_spec`.
-/

namespace Dossier.Graph

/-! ### Failures -/

/-- What the nodes above a slot are: distinct nodes of the graph, each of which leads to the node in the slot. -/
structure Path (g : Graph) (above : List Nat) (slot : Slot) : Prop where
  nodup : above.Nodup
  known : ∀ a ∈ above, a < g.nodes.length
  leads : ∀ a ∈ above, ∀ id, slot = .node id → Relation.TransGen g.Points a id

variable {g : Graph}

/-- A slot of a node that is not above itself is below it. -/
theorem Path.push {above : List Nat} {id : Nat} (h : g.Path above (.node id)) (hid : id < g.nodes.length)
    (hnew : id ∉ above) {position : Position} {slot : Slot} (hslot : g.slotAt? id position = some slot) :
    g.Path (id :: above) slot := by
  refine ⟨List.nodup_cons.mpr ⟨hnew, h.nodup⟩, fun a ha => ?_, fun a ha target htarget => ?_⟩
  · rcases List.mem_cons.mp ha with rfl | hrest
    · exact hid
    · exact h.known a hrest
  · have hpoints : g.Points id target := points_of_slotAt? (htarget ▸ hslot)
    rcases List.mem_cons.mp ha with rfl | hrest
    · exact .single hpoints
    · exact (h.leads a hrest id rfl).tail hpoints

/-- A node that is not above itself fails where one of its slots does. -/
theorem exists_failing_slot (hg : g.WellFormed) {depth : Nat} {above : List Nat} {id : Nat} {fault : GraphFault}
    (hid : id < g.nodes.length) (hnew : id ∉ above) (h : g.slotJson (depth + 1) above (.node id) = .error fault) :
    ∃ position slot, g.slotAt? id position = some slot ∧ g.slotJson depth (id :: above) slot = .error fault := by
  rw [slotJson, if_neg (fun hmem => hnew (List.contains_iff_mem.mp hmem))] at h
  split at h
  · rename_i hnone
    exact absurd hid (Nat.not_lt.mpr (List.getElem?_eq_none_iff.mp hnone))
  · rename_i fields hnode
    rcases bind_eq_error_iff.mp h with hmembers | ⟨_, -, hnone⟩
    · obtain ⟨⟨name, slot⟩, hfield, hmember⟩ := exists_of_mapM_eq_error hmembers
      have hslot := (slotAt?_object hnode name).trans (Node.find?_of_mem (hg.nodes id _ hnode).names hfield)
      rcases bind_eq_error_iff.mp hmember with hfault | ⟨_, -, hnone⟩
      · exact ⟨.field name, slot, hslot, hfault⟩
      · cases hnone
    · cases hnone
  · rename_i items hnode
    rcases bind_eq_error_iff.mp h with hvalues | ⟨_, -, hnone⟩
    · obtain ⟨slot, hitem, hfault⟩ := exists_of_mapM_eq_error hvalues
      obtain ⟨k, hk⟩ := List.mem_iff_getElem?.mp hitem
      exact ⟨.index k, slot, (slotAt?_array hnode k).trans hk, hfault⟩
    · cases hnone

/-- A failure to write a slot tells of a cycle that the slot leads to. -/
theorem cycle_of_slotJson (hg : g.WellFormed) {depth : Nat} {above : List Nat} {slot : Slot} {fault : GraphFault}
    (hslot : slot.Within g.nodes.length) (habove : g.Path above slot) (hdepth : g.nodes.length < depth + above.length)
    (h : g.slotJson depth above slot = .error fault) :
    ∃ start id, slot = .node start ∧ fault = .cycle id ∧ g.Reaches start id ∧ Relation.TransGen g.Points id id := by
  induction depth generalizing above slot with
  | zero =>
      -- the nodes above are distinct nodes of the graph, so there are not that many
      have hle := length_le_of_nodup habove.nodup habove.known
      omega
  | succ depth ih =>
      cases slot with
      | value value => cases h
      | node id =>
          have hid := hslot id rfl
          by_cases hback : id ∈ above
          · rw [slotJson, if_pos (List.contains_iff_mem.mpr hback)] at h
            cases h
            exact ⟨id, id, rfl, rfl, .refl, habove.leads id hback id rfl⟩
          · obtain ⟨position, child, hchild, hfault⟩ := exists_failing_slot hg hid hback h
            have hdepth' : g.nodes.length < depth + (id :: above).length := by
              rw [List.length_cons]
              omega
            obtain ⟨target, last, rfl, hcycle, hreach, hround⟩ :=
              ih (hg.within_slotAt? hchild) (habove.push hid hback hchild) hdepth' hfault
            exact ⟨id, last, rfl, hcycle, .head (points_of_slotAt? hchild) hreach, hround⟩

theorem cycle_of_toJson? (hg : g.WellFormed) {fault : GraphFault} (h : g.toJson? = .error fault) :
    ∃ id, fault = .cycle id ∧ g.Reached id ∧ Relation.TransGen g.Points id id := by
  have hpath : g.Path [] g.root :=
    ⟨List.nodup_nil, fun _ ha => absurd ha List.not_mem_nil, fun _ ha => absurd ha List.not_mem_nil⟩
  obtain ⟨root, id, hroot, hcycle, hreach, hround⟩ := cycle_of_slotJson hg hg.root hpath (Nat.lt_succ_self _) h
  exact ⟨id, hcycle, ⟨root, hroot, hreach⟩, hround⟩

/-- A graph is written out exactly when its root leads to no cycle. -/
theorem exists_toJson?_iff (hg : g.WellFormed) :
    (∃ value, g.toJson? = .ok value) ↔ ∀ id, g.Reached id → ¬Relation.TransGen g.Points id id := by
  constructor
  · rintro ⟨value, hwritten⟩ id ⟨root, hroot, hreach⟩
    exact not_cyclic_of_toJson? hg hroot hwritten hreach
  · intro hacyclic
    cases hwritten : g.toJson? with
    | ok value => exact ⟨value, rfl⟩
    | error fault =>
        obtain ⟨id, -, hreached, hround⟩ := cycle_of_toJson? hg hwritten
        exact absurd hround (hacyclic id hreached)

/-! ### Values read back -/

/-- The slot is written out as the value wherever the nodes of the graph are, below later nodes alone and with a depth
for each of the nodes from `before` on. -/
def Returns (g : Graph) (before : Nat) (slot : Slot) (value : Json) : Prop :=
  ∀ (next : Graph) (depth : Nat) (above : List Nat),
    (∀ (id : Nat) (node : Node), g.nodes[id]? = some node → next.nodes[id]? = some node) →
    (∀ a ∈ above, g.nodes.length ≤ a) → g.nodes.length ≤ depth + before →
      next.slotJson depth above slot = .ok value

theorem Returns.extend {next : Graph} {before earlier : Nat} {slot : Slot} {value : Json}
    (h : g.Returns before slot value) (hmore : Continued g next) (hearlier : earlier ≤ before) :
    next.Returns earlier slot value := by
  intro last depth above hkept habove hdepth
  have hsize := hmore.size
  exact h last depth above (fun id node hnode => hkept id node (hmore.kept id node hnode))
    (fun a ha => hsize.trans (habove a ha)) (by omega)

/-- What loading a value adds is written out as the value. -/
def ReadsBack (value : Json) : Prop :=
  ∀ g : Graph, Continued g (g.load value).1 ∧ (g.load value).1.Returns g.nodes.length (g.load value).2 value

theorem loadItems_returns {items : List Json} (hitems : ∀ value ∈ items, ReadsBack value) (g : Graph) :
    Continued g (g.loadItems items).1 ∧
      List.Forall₂ ((g.loadItems items).1.Returns g.nodes.length) (g.loadItems items).2 items := by
  induction items generalizing g with
  | nil => exact ⟨.refl g, .nil⟩
  | cons value rest ih =>
      obtain ⟨hfirst, hreturns⟩ := hitems value List.mem_cons_self g
      obtain ⟨hmore, hrest⟩ := ih (fun other hother => hitems other (List.mem_cons_of_mem _ hother)) (g.load value).1
      refine ⟨hfirst.trans hmore, .cons (hreturns.extend hmore le_rfl) ?_⟩
      exact hrest.imp fun _ _ h => h.extend (.refl _) hfirst.size

theorem loadMembers_returns {members : Members} (hmembers : ∀ member ∈ members, ReadsBack member.2) (g : Graph) :
    Continued g (g.loadMembers members).1 ∧
      List.Forall₂ (fun (field : String × Slot) member =>
          field.1 = member.1 ∧ (g.loadMembers members).1.Returns g.nodes.length field.2 member.2)
        (g.loadMembers members).2 members := by
  induction members generalizing g with
  | nil => exact ⟨.refl g, .nil⟩
  | cons member rest ih =>
      obtain ⟨hfirst, hreturns⟩ := hmembers member List.mem_cons_self g
      obtain ⟨hmore, hrest⟩ :=
        ih (fun other hother => hmembers other (List.mem_cons_of_mem _ hother)) (g.load member.2).1
      refine ⟨hfirst.trans hmore, .cons ⟨rfl, hreturns.extend hmore le_rfl⟩ ?_⟩
      exact hrest.imp fun _ _ h => ⟨h.1, h.2.extend (.refl _) hfirst.size⟩

/-- A container that is added after all that it holds is written out when these are. -/
theorem returns_alloc {before : Nat} {node : Node} {value : Json} (hbefore : before ≤ g.nodes.length)
    (h : ∀ (next : Graph) (depth : Nat) (above : List Nat),
      (∀ (id : Nat) (old : Node), g.nodes[id]? = some old → next.nodes[id]? = some old) →
      next.nodes[g.nodes.length]? = some node → g.nodes.length ∉ above →
      (∀ a ∈ g.nodes.length :: above, g.nodes.length ≤ a) → g.nodes.length ≤ depth + before →
        next.slotJson (depth + 1) above (.node g.nodes.length) = .ok value) :
    (g.alloc node).1.Returns before (.node (g.alloc node).2) value := by
  intro next depth above hkept habove hdepth
  have hlength : (g.alloc node).1.nodes.length = g.nodes.length + 1 := List.length_append
  rw [hlength] at habove hdepth
  obtain ⟨depth, rfl⟩ : ∃ less, depth = less + 1 := ⟨depth - 1, by omega⟩
  refine h next depth above (fun id old hold => hkept id old ((continued_alloc g node).kept id old hold)) ?_
    (fun hmem => absurd (habove _ hmem) (Nat.not_succ_le_self _)) (fun a ha => ?_) (by omega)
  · exact hkept _ node (by rw [getElem?_alloc]; exact if_pos rfl)
  · rcases List.mem_cons.mp ha with rfl | hrest
    · exact le_rfl
    · exact (Nat.le_succ _).trans (habove a hrest)

theorem readsBack_array {items : List Json} (hitems : ∀ value ∈ items, ReadsBack value) : ReadsBack (.array items) := by
  intro g
  obtain ⟨hmore, hreturns⟩ := loadItems_returns hitems g
  refine ⟨hmore.trans (continued_alloc _ _), returns_alloc hmore.size ?_⟩
  intro next depth above hkept hnode hnew habove hdepth
  rw [slotJson, if_neg (fun hmem => hnew (List.contains_iff_mem.mp hmem)), hnode]
  have hvalues := hreturns.imp fun _ _ h => h next depth _ hkept habove hdepth
  exact bind_eq_ok_iff.mpr ⟨items, mapM_eq_ok_iff.mpr hvalues, rfl⟩

theorem readsBack_object {members : Members} (hsorted : members.Sorted)
    (hmembers : ∀ member ∈ members, ReadsBack member.2) : ReadsBack (.object members) := by
  intro g
  obtain ⟨hmore, hreturns⟩ := loadMembers_returns hmembers g
  refine ⟨hmore.trans (continued_alloc _ _), returns_alloc hmore.size ?_⟩
  intro next depth above hkept hnode hnew habove hdepth
  rw [slotJson, if_neg (fun hmem => hnew (List.contains_iff_mem.mp hmem)), hnode]
  have hpairs := hreturns.imp fun field member h => show
      (do return (field.1, ← next.slotJson depth ((g.loadMembers members).1.nodes.length :: above) field.2)) =
        Except.ok member from
    bind_eq_ok_iff.mpr ⟨member.2, h.2 next depth _ hkept habove hdepth, congrArg Except.ok (Prod.ext h.1 rfl)⟩
  refine bind_eq_ok_iff.mpr ⟨members, mapM_eq_ok_iff.mpr hpairs, ?_⟩
  show Except.ok (Json.ofPairs members) = Except.ok (Json.object members)
  rw [Json.ofPairs, Members.ofList_of_sorted hsorted]

theorem readsBack {value : Json} (hordered : value.Ordered) : ReadsBack value := by
  induction value using Json.induct with
  | scalar value hscalar =>
      intro g
      have hload : g.load value = (g, .value value) := by cases value <;> first | rfl | cases hscalar
      rw [hload]
      exact ⟨.refl g, fun next depth above _ _ _ => by cases depth <;> rfl⟩
  | array items ih =>
      exact readsBack_array fun value hvalue => ih value hvalue (Json.ordered_array.mp hordered value hvalue)
  | object members ih =>
      obtain ⟨hsorted, hmembers⟩ := Json.ordered_object.mp hordered
      exact readsBack_object hsorted fun member hmember => ih member hmember (hmembers member hmember)

/-- The graph of a value is written out as the value. -/
theorem toJson?_ofJson {value : Json} (hordered : value.Ordered) : (ofJson value).toJson? = .ok value :=
  (readsBack hordered empty).2 (ofJson value) _ [] (fun _ _ h => h) (fun _ ha => absurd ha List.not_mem_nil)
    (Nat.le_succ _)

/-- **Writing graphs out.** A well-formed graph is written out exactly when its root leads to no cycle, whatever nodes
it shares, and a failure tells of a node on such a cycle; and a value that is loaded is written out as it was. -/
theorem toJson?_spec :
    (∀ g : Graph, g.WellFormed →
      ((∃ value, g.toJson? = .ok value) ↔ ∀ id, g.Reached id → ¬Relation.TransGen g.Points id id) ∧
      ∀ fault, g.toJson? = .error fault →
        ∃ id, fault = .cycle id ∧ g.Reached id ∧ Relation.TransGen g.Points id id) ∧
    ∀ value : Json, value.Ordered → (ofJson value).toJson? = .ok value :=
  ⟨fun _ hg => ⟨exists_toJson?_iff hg, fun _ => cycle_of_toJson? hg⟩, fun _ => toJson?_ofJson⟩

/-- An object holds one array in two places; an array holds itself; and a value is read back. -/
theorem toJson?_spec_shared :
    let shared : Graph := ⟨[.object [("left", .node 1), ("right", .node 1)], .array [.null]], .node 0⟩
    let circular : Graph := ⟨[.array [.node 0]], .node 0⟩
    let value : Json := .object [("a", .array [.null, .object []]), ("b", .string "c")]
    (shared.WellFormed ∧ ∀ id, shared.Reached id → ¬Relation.TransGen shared.Points id id) ∧
      (circular.WellFormed ∧ ¬∃ value, circular.toJson? = .ok value) ∧
      value.Ordered ∧ (ofJson value).toJson? = .ok value := by
  intro shared circular value
  have hshared : shared.WellFormed := by decide
  have hcircular : circular.WellFormed := by decide
  have hordered : value.Ordered := by decide
  have hround : circular.slotAt? 0 (.index 0) = some (.node 0) := rfl
  refine ⟨⟨hshared, (toJson?_spec.1 shared hshared).1.mp ⟨_, rfl⟩⟩, ⟨hcircular, fun hwritten => ?_⟩, hordered,
    toJson?_spec.2 value hordered⟩
  exact (toJson?_spec.1 circular hcircular).1.mp hwritten 0 ⟨0, rfl, .refl⟩ (.single (points_of_slotAt? hround))

end Dossier.Graph
