import Dossier.Proofs.Graph.Reach
import Dossier.Proofs.Json.Parts
import Dossier.Proofs.Results

/-!
The values that slots show. A slot shows a value, up to the sign of zeros, when the nodes below it unfold to
that value. Values are finite, so a node that shows one is on no cycle; and a graph writes out the value
that its root shows.
-/

namespace Dossier.Graph

/-- The slot shows the value, in which every zero is positive. -/
inductive Shows (g : Graph) : Slot → Json → Prop
  | value (value : Json) : Shows g (.value value) value.normal
  | object {id : Nat} {fields : List (String × Slot)} {members : Members} :
      g.nodes[id]? = some (.object fields) → (fields.map Prod.fst).Nodup → members.Sorted →
      (∀ name, (Node.find? fields name).isSome = (members.get? name).isSome) →
      (∀ name slot value, Node.find? fields name = some slot → members.get? name = some value →
        Shows g slot value) → Shows g (.node id) (.object members)
  | array {id : Nat} {items : List Slot} {values : List Json} :
      g.nodes[id]? = some (.array items) → items.length = values.length →
      (∀ (k : Nat) slot value, items[k]? = some slot → values[k]? = some value → Shows g slot value) →
      Shows g (.node id) (.array values)

variable {g : Graph}

theorem slot_same_refl (slot : Slot) : slot.same slot = true := by
  cases slot with
  | value value => exact Json.same_iff.mpr rfl
  | node id => exact beq_self_eq_true id

theorem sameElement_self (g : Graph) (slot : Slot) : g.sameElement slot slot = true := by
  cases slot with
  | value value => exact Json.same_iff.mpr rfl
  | node id => rw [sameElement, beq_self_eq_true, Bool.true_or]

theorem truthy_normal (w : Json) : (Slot.value w).truthy = (Slot.value w.normal).truthy := by
  cases w with
  | number n =>
      cases n with
      | int i => rfl
      | real x =>
          by_cases hzero : x.isZero = true
          · simp [Slot.truthy, Json.normal, Number.normal, Number.isZero, hzero]; rfl
          · simp [Slot.truthy, Json.normal, Number.normal, Number.isZero, hzero]
  | _ => rfl

/-- Slots that are the same hold something or nothing, both of them. -/
theorem truthy_of_same {left right : Slot} (h : left.same right = true) : left.truthy = right.truthy := by
  cases left with
  | value a =>
      cases right with
      | value b => rw [truthy_normal a, truthy_normal b, Json.same_iff.mp h]
      | node b => cases h
  | node a =>
      cases right with
      | value b => cases h
      | node b => rfl

theorem exists_of_isSome_eq {α β : Type} {x : Option α} {y : Option β} {a : α} (h : x.isSome = y.isSome)
    (hx : x = some a) : ∃ b, y = some b := by
  rw [hx] at h
  exact Option.isSome_iff_exists.mp h.symm

/-- A slot shows one value at most. -/
theorem Shows.unique {slot : Slot} {v w : Json} (h : g.Shows slot v) (h' : g.Shows slot w) : v = w := by
  induction h generalizing w with
  | value value => cases h'; rfl
  | object hnode _ hsorted hnames hfields ih =>
      cases h' with
      | object hnode' _ hsorted' hnames' hfields' =>
          cases hnode.symm.trans hnode'
          refine congrArg Json.object (hsorted.ext hsorted' fun name => ?_)
          cases hfound : Node.find? _ name with
          | none =>
              have hnone := hnames name
              have hnone' := hnames' name
              rw [hfound, Option.isSome_none, eq_comm, Option.isSome_eq_false_iff, Option.isNone_iff_eq_none]
                at hnone hnone'
              rw [hnone, hnone']
          | some slot =>
              obtain ⟨v, hv⟩ := exists_of_isSome_eq (hnames name) hfound
              obtain ⟨w, hw⟩ := exists_of_isSome_eq (hnames' name) hfound
              rw [hv, hw, ih name slot v hfound hv (hfields' name slot w hfound hw)]
      | array hnode' _ _ => cases hnode.symm.trans hnode'
  | array hnode hlength hitems ih =>
      cases h' with
      | object hnode' _ _ _ _ => cases hnode.symm.trans hnode'
      | array hnode' hlength' hitems' =>
          cases hnode.symm.trans hnode'
          refine congrArg Json.array (List.ext_getElem (hlength.symm.trans hlength') fun k hk hk' => ?_)
          have hlt := hlength ▸ hk
          exact ih k _ _ (List.getElem?_eq_getElem hlt) (List.getElem?_eq_getElem hk)
            (hitems' k _ _ (List.getElem?_eq_getElem hlt) (List.getElem?_eq_getElem hk'))

theorem Shows.lt {id : Nat} {v : Json} (h : g.Shows (.node id) v) : id < g.nodes.length := by
  cases h with
  | object hnode _ _ _ _ => exact (List.getElem?_eq_some_iff.mp hnode).1
  | array hnode _ _ => exact (List.getElem?_eq_some_iff.mp hnode).1

/-- A node that another points to shows a value inside the other's. -/
theorem Shows.of_points {a b : Nat} {v : Json} (h : g.Shows (.node a) v) (hpoints : g.Points a b) :
    ∃ w, g.Shows (.node b) w ∧ w ∈ v.parts ∧ sizeOf w < sizeOf v := by
  obtain ⟨node, hnode, hslot⟩ := exists_slot_of_points hpoints
  cases h with
  | object hobject hdistinct _ hnames hfields =>
      cases hobject.symm.trans hnode
      obtain ⟨⟨name, slot⟩, hfield, heq⟩ := List.mem_map.mp hslot
      cases heq
      have hfound := Node.find?_of_mem hdistinct hfield
      obtain ⟨w, hw⟩ := exists_of_isSome_eq (hnames name) hfound
      have hmem := Members.mem_of_get? hw
      exact ⟨w, hfields name _ w hfound hw, Json.parts_of_mem_members hmem (Json.self_mem_parts w),
        Json.sizeOf_member_lt hmem⟩
  | array harray hlength hitems =>
      cases harray.symm.trans hnode
      obtain ⟨k, hk⟩ := List.mem_iff_getElem?.mp hslot
      have hlt := hlength ▸ (List.getElem?_eq_some_iff.mp hk).1
      have hmem := List.getElem_mem hlt
      exact ⟨_, hitems k _ _ hk (List.getElem?_eq_getElem hlt),
        Json.parts_of_mem_items hmem (Json.self_mem_parts _), Json.sizeOf_item_lt hmem⟩

theorem Shows.of_reaches {a b : Nat} {v : Json} (h : g.Shows (.node a) v) (hreach : g.Reaches a b) :
    ∃ w, g.Shows (.node b) w ∧ w ∈ v.parts := by
  induction hreach with
  | refl => exact ⟨v, h, v.self_mem_parts⟩
  | tail _ hpoints ih =>
      obtain ⟨middle, hmiddle, hpart⟩ := ih
      obtain ⟨w, hw, hinside, -⟩ := hmiddle.of_points hpoints
      exact ⟨w, hw, Json.mem_parts_trans hpart hinside⟩

theorem Shows.of_transGen {a b : Nat} {v : Json} (h : g.Shows (.node a) v)
    (hpath : Relation.TransGen g.Points a b) : ∃ w, g.Shows (.node b) w ∧ sizeOf w < sizeOf v := by
  induction hpath with
  | single hpoints =>
      obtain ⟨w, hw, -, hlt⟩ := h.of_points hpoints
      exact ⟨w, hw, hlt⟩
  | tail _ hpoints ih =>
      obtain ⟨middle, hmiddle, hlt⟩ := ih
      obtain ⟨w, hw, -, hlt'⟩ := hmiddle.of_points hpoints
      exact ⟨w, hw, hlt'.trans hlt⟩

/-- What shows a value is on no cycle. -/
theorem Shows.not_cyclic {a : Nat} {v : Json} (h : g.Shows (.node a) v) : ¬Relation.TransGen g.Points a a := by
  intro hcycle
  obtain ⟨w, hw, hlt⟩ := h.of_transGen hcycle
  rw [h.unique hw] at hlt
  exact lt_irrefl _ hlt

/-! ### What containers show -/

/-- An object shows the members that its fields show. -/
theorem shows_ofPairs {id : Nat} {fields : List (String × Slot)} (hnode : g.nodes[id]? = some (.object fields))
    (hdistinct : (fields.map Prod.fst).Nodup) {pairs : List (String × Json)}
    (hpairs : List.Forall₂ (fun field pair => pair.1 = field.1 ∧ g.Shows field.2 pair.2) fields pairs) :
    g.Shows (.node id) (Json.ofPairs pairs) := by
  have hnames : pairs.map Prod.fst = fields.map Prod.fst := by
    clear hnode hdistinct
    induction hpairs with
    | nil => rfl
    | cons h _ ih => rw [List.map_cons, List.map_cons, h.1, ih]
  have hget := fun name => Members.get?_ofList (hnames ▸ hdistinct) name
  refine .object hnode hdistinct (Members.sorted_ofList pairs) (fun name => ?_) fun name slot value hslot hvalue => ?_
  · rw [hget, Bool.eq_iff_iff, Node.find?_isSome_iff, Members.isSome_get?_iff, Members.names, hnames]
  · rw [hget] at hvalue
    clear hget hnames hnode hdistinct
    induction hpairs with
    | nil => cases hslot
    | cons h _ ih =>
        rw [Node.find?] at hslot
        rw [Members.get?, h.1] at hvalue
        split at hslot
        · rename_i hkey
          rw [if_pos hkey] at hvalue
          cases hslot
          cases hvalue
          exact h.2
        · rename_i hkey
          rw [if_neg hkey] at hvalue
          exact ih hslot hvalue

/-- An array shows the values that its elements show. -/
theorem shows_array {id : Nat} {items : List Slot} (hnode : g.nodes[id]? = some (.array items))
    {values : List Json} (hvalues : List.Forall₂ g.Shows items values) :
    g.Shows (.node id) (.array values) := by
  refine .array hnode hvalues.length_eq fun k slot value hslot hvalue => ?_
  obtain ⟨hk, rfl⟩ := List.getElem?_eq_some_iff.mp hslot
  obtain ⟨hk', rfl⟩ := List.getElem?_eq_some_iff.mp hvalue
  exact hvalues.get hk hk'

/-- A node shows a value as soon as all its slots do. -/
theorem exists_shows (hg : g.WellFormed) {id : Nat} (hid : id < g.nodes.length)
    (hslots : ∀ position slot, g.slotAt? id position = some slot → ∃ v, g.Shows slot v) :
    ∃ v, g.Shows (.node id) v := by
  obtain ⟨node, hnode⟩ : ∃ node, g.nodes[id]? = some node := ⟨_, List.getElem?_eq_getElem hid⟩
  have hall : ∀ slot ∈ node.slots, ∃ v, g.Shows slot v := by
    intro slot hslot
    obtain ⟨position, hposition⟩ := Node.exists_mem_children_iff.mpr hslot
    refine hslots position slot ?_
    rw [slotAt?, hnode]
    exact (Node.mem_children_iff (hg.nodes id node hnode).names).mp hposition
  cases node with
  | object fields =>
      obtain ⟨pairs, hpairs⟩ : ∃ pairs : List (String × Json), List.Forall₂
          (fun field pair => pair.1 = field.1 ∧ g.Shows field.2 pair.2) fields pairs := by
        refine exists_forall₂ fun field hfield => ?_
        obtain ⟨v, hv⟩ := hall field.2 (List.mem_map_of_mem (f := Prod.snd) hfield)
        exact ⟨(field.1, v), rfl, hv⟩
      exact ⟨_, shows_ofPairs hnode (hg.nodes id _ hnode).names hpairs⟩
  | array items =>
      obtain ⟨values, hvalues⟩ := exists_forall₂ hall
      exact ⟨_, shows_array hnode hvalues⟩

/-! ### Writing values out -/

/-- What is written out is shown. -/
theorem shows_of_slotJson (hg : g.WellFormed) {depth : Nat} {above : List Nat} {slot : Slot} {w : Json}
    (h : g.slotJson depth above slot = .ok w) : g.Shows slot w.normal := by
  induction depth generalizing above slot w with
  | zero =>
      cases slot with
      | value value =>
          cases h
          exact .value w
      | node id => cases h
  | succ depth ih =>
      cases slot with
      | value value =>
          cases h
          exact .value w
      | node id =>
          rw [slotJson] at h
          split at h
          · cases h
          · split at h
            · cases h
            · rename_i fields hnode
              obtain ⟨pairs, hpairs, heq⟩ := bind_eq_ok_iff.mp h
              cases heq
              rw [Json.normal_ofPairs]
              refine shows_ofPairs hnode (hg.nodes id _ hnode).names ?_
              rw [List.forall₂_map_right_iff]
              refine (mapM_eq_ok_iff.mp hpairs).imp fun field pair hpair => ?_
              obtain ⟨value, hvalue, heq⟩ := bind_eq_ok_iff.mp hpair
              cases heq
              exact ⟨rfl, ih hvalue⟩
            · rename_i items hnode
              obtain ⟨values, hvalues, heq⟩ := bind_eq_ok_iff.mp h
              cases heq
              rw [Json.normal, Json.normalItems_eq]
              refine shows_array hnode ?_
              rw [List.forall₂_map_right_iff]
              exact (mapM_eq_ok_iff.mp hvalues).imp fun _ _ hvalue => ih hvalue

/-- What is written out has no cycle below it. -/
theorem not_cyclic_of_toJson? (hg : g.WellFormed) {root : Nat} (hroot : g.root = .node root) {value : Json}
    (hwritten : g.toJson? = .ok value) {id : Nat} (hreach : g.Reaches root id) : ¬Relation.TransGen g.Points id id := by
  have hshows := shows_of_slotJson hg hwritten
  rw [hroot] at hshows
  obtain ⟨w, hw, -⟩ := hshows.of_reaches hreach
  exact hw.not_cyclic

/-- Distinct nodes above a slot that shows the value: each of them shows more. -/
structure Above (g : Graph) (above : List Nat) (v : Json) : Prop where
  nodup : above.Nodup
  shows_more : ∀ a ∈ above, ∃ w, g.Shows (.node a) w ∧ sizeOf v < sizeOf w

theorem Above.length_le {above : List Nat} {v : Json} (h : g.Above above v) : above.length ≤ g.nodes.length := by
  refine length_le_of_nodup h.nodup fun a ha => ?_
  obtain ⟨w, hw, -⟩ := h.shows_more a ha
  exact hw.lt

theorem Above.not_mem {above : List Nat} {id : Nat} {v : Json} (h : g.Above above v)
    (hv : g.Shows (.node id) v) : id ∉ above := by
  intro hid
  obtain ⟨w, hw, hlt⟩ := h.shows_more id hid
  rw [hv.unique hw] at hlt
  exact lt_irrefl _ hlt

theorem Above.push {above : List Nat} {id : Nat} {v w : Json} (h : g.Above above v)
    (hv : g.Shows (.node id) v) (hlt : sizeOf w < sizeOf v) : g.Above (id :: above) w := by
  refine ⟨List.nodup_cons.mpr ⟨h.not_mem hv, h.nodup⟩, fun a ha => ?_⟩
  rcases List.mem_cons.mp ha with rfl | hrest
  · exact ⟨v, hv, hlt⟩
  · obtain ⟨u, hu, hlt'⟩ := h.shows_more a hrest
    exact ⟨u, hu, hlt.trans hlt'⟩

/-- What is shown is written out. The nodes above are known and distinct, so the depth is never used up. -/
theorem Shows.slotJson {slot : Slot} {v : Json} (h : g.Shows slot v) {depth : Nat} {above : List Nat}
    (habove : g.Above above v) (hdepth : g.nodes.length < depth + above.length) :
    ∃ w, g.slotJson depth above slot = .ok w ∧ w.normal = v := by
  induction h generalizing depth above with
  | value value => exact ⟨value, by cases depth <;> rfl, rfl⟩
  | @object id fields members hnode hdistinct hsorted hnames hfields ih =>
      have hself : g.Shows (.node id) (.object members) := .object hnode hdistinct hsorted hnames hfields
      have hnew := habove.not_mem hself
      have hle := habove.length_le
      obtain ⟨depth, rfl⟩ : ∃ less, depth = less + 1 := ⟨depth - 1, by omega⟩
      obtain ⟨pairs, hpairs⟩ : ∃ pairs : List (String × Json), List.Forall₂ (fun field pair =>
          (do return (field.1, ← g.slotJson depth (id :: above) field.2)) = Except.ok pair ∧
            pair.1 = field.1 ∧ g.Shows field.2 pair.2.normal) fields pairs := by
        refine exists_forall₂ fun ⟨name, slot⟩ hfield => ?_
        have hfound := Node.find?_of_mem hdistinct hfield
        obtain ⟨value, hvalue⟩ := exists_of_isSome_eq (hnames name) hfound
        have hlt := Json.sizeOf_member_lt (Members.mem_of_get? hvalue)
        obtain ⟨w, hw, hnormal⟩ := ih name slot value hfound hvalue
          (habove.push hself hlt) (show _ < depth + _ by rw [List.length_cons]; omega)
        refine ⟨(name, w), bind_eq_ok_iff.mpr ⟨w, hw, rfl⟩, rfl, ?_⟩
        rw [hnormal]
        exact hfields name slot value hfound hvalue
      refine ⟨Json.ofPairs pairs, ?_, ?_⟩
      · rw [Graph.slotJson, if_neg (fun h => hnew (List.contains_iff_mem.mp h)), hnode]
        exact bind_eq_ok_iff.mpr ⟨pairs, mapM_eq_ok_iff.mpr (hpairs.imp fun _ _ h => h.1), rfl⟩
      · refine Shows.unique ?_ hself
        rw [Json.normal_ofPairs]
        refine shows_ofPairs hnode hdistinct ?_
        rw [List.forall₂_map_right_iff]
        exact hpairs.imp fun _ _ h => h.2
  | @array id items values hnode hlength hitems ih =>
      have hself : g.Shows (.node id) (.array values) := .array hnode hlength hitems
      have hnew := habove.not_mem hself
      have hle := habove.length_le
      obtain ⟨depth, rfl⟩ : ∃ less, depth = less + 1 := ⟨depth - 1, by omega⟩
      obtain ⟨written, hwritten⟩ : ∃ written : List Json, List.Forall₂ (fun slot w =>
          g.slotJson depth (id :: above) slot = .ok w ∧ g.Shows slot w.normal) items written := by
        refine exists_forall₂ fun slot hslot => ?_
        obtain ⟨k, hk⟩ := List.mem_iff_getElem?.mp hslot
        have hin := hlength ▸ (List.getElem?_eq_some_iff.mp hk).1
        have hvalue := List.getElem?_eq_getElem hin
        have hlt := Json.sizeOf_item_lt (List.getElem_mem hin)
        obtain ⟨w, hw, hnormal⟩ := ih k slot _ hk hvalue
          (habove.push hself hlt) (show _ < depth + _ by rw [List.length_cons]; omega)
        refine ⟨w, hw, ?_⟩
        rw [hnormal]
        exact hitems k slot _ hk hvalue
      refine ⟨.array written, ?_, ?_⟩
      · rw [Graph.slotJson, if_neg (fun h => hnew (List.contains_iff_mem.mp h)), hnode]
        exact bind_eq_ok_iff.mpr ⟨written, mapM_eq_ok_iff.mpr (hwritten.imp fun _ _ h => h.1), rfl⟩
      · refine Shows.unique ?_ hself
        rw [Json.normal, Json.normalItems_eq]
        refine shows_array hnode ?_
        rw [List.forall₂_map_right_iff]
        exact hwritten.imp fun _ _ h => h.2

theorem Shows.toJson? {v : Json} (h : g.Shows g.root v) : ∃ w, g.toJson? = .ok w ∧ w.normal = v :=
  h.slotJson ⟨List.nodup_nil, fun _ ha => absurd ha List.not_mem_nil⟩ (by simp)

theorem Shows.nodeJson? {id : Nat} {v : Json} (h : g.Shows (.node id) v) :
    ∃ w, g.nodeJson? id = .ok w ∧ w.normal = v :=
  h.slotJson ⟨List.nodup_nil, fun _ ha => absurd ha List.not_mem_nil⟩ (by simp)

end Dossier.Graph
