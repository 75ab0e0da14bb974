import Dossier.Proofs.Graph.Value
import Dossier.Proofs.Json.Entities

/-!
Changes of a graph that leave a shown value alone: changes outside a region that no slot leaves, changes of
a node too large to be inside the value, and arrays replaced by arrays that show the same.
-/

namespace Dossier.Graph

variable {g next : Graph}

/-- A value is shown by the nodes of a closed region, whatever happens to the others. -/
theorem Shows.frame {inside : Nat → Prop} (hclosed : ∀ a, inside a → ∀ b, g.Points a b → inside b)
    (hkept : ∀ id, inside id → ∀ node : Node, g.nodes[id]? = some node → next.nodes[id]? = some node)
    {slot : Slot} {v : Json} (h : g.Shows slot v) (hslot : ∀ id, slot = .node id → inside id) :
    next.Shows slot v := by
  induction h with
  | value value => exact .value value
  | @object id fields members hnode hdistinct hsorted hnames hfields ih =>
      have hid := hslot id rfl
      refine .object (hkept id hid _ hnode) hdistinct hsorted hnames fun name slot value hfound hvalue => ?_
      refine ih name slot value hfound hvalue fun b hb => hclosed id hid b ?_
      subst hb
      exact points_of_slotAt? ((slotAt?_object hnode name).trans hfound)
  | @array id items values hnode hlength hitems ih =>
      have hid := hslot id rfl
      refine .array (hkept id hid _ hnode) hlength fun k slot value hk hvalue => ?_
      refine ih k slot value hk hvalue fun b hb => hclosed id hid b ?_
      subst hb
      exact points_of_slotAt? ((slotAt?_array hnode k).trans hk)

/-- More nodes change nothing. -/
theorem Shows.extend (hkept : ∀ (id : Nat) (node : Node), g.nodes[id]? = some node → next.nodes[id]? = some node)
    {slot : Slot} {v : Json} (h : g.Shows slot v) : next.Shows slot v :=
  have hclosed : ∀ a, True → ∀ b, g.Points a b → True := fun _ _ _ _ => trivial
  h.frame hclosed (fun id _ => hkept id) fun _ _ => trivial

/-- A node that shows more than a slot is not below it, and may change. -/
theorem Shows.beside {large : Nat} {u : Json} (hlarge : g.Shows (.node large) u)
    (hkept : ∀ id, id ≠ large → next.nodes[id]? = g.nodes[id]?) {slot : Slot} {v : Json} (h : g.Shows slot v)
    (hlt : sizeOf v < sizeOf u) : next.Shows slot v := by
  have hclosed : ∀ a, (∃ w, g.Shows (.node a) w ∧ sizeOf w < sizeOf u) → ∀ b, g.Points a b →
      ∃ w, g.Shows (.node b) w ∧ sizeOf w < sizeOf u := by
    rintro a ⟨w, hw, hless⟩ b hpoints
    obtain ⟨inner, hinner, -, hlt'⟩ := hw.of_points hpoints
    exact ⟨inner, hinner, hlt'.trans hless⟩
  refine h.frame hclosed ?_ fun id hid => ⟨v, hid ▸ h, hlt⟩
  rintro id ⟨w, hw, hless⟩ node hnode
  rw [hkept id fun heq => ?_]
  · exact hnode
  · rw [heq] at hw
    rw [hw.unique hlarge] at hless
    exact lt_irrefl _ hless

/-- An array takes over the elements of another that shows the same. -/
theorem Shows.swap {x y : Nat} {items : List Slot} (hx : g.nodes[x]? = some (.array items))
    (hsame : ∀ v, g.Shows (.node y) v → g.Shows (.node x) v)
    (hy : ∀ node, g.nodes[y]? = some node → next.nodes[y]? = some (.array items))
    (hkept : ∀ id, id ≠ y → next.nodes[id]? = g.nodes[id]?) {slot : Slot} {v : Json} (h : g.Shows slot v) :
    next.Shows slot v := by
  -- the elements of the other array are no part of this derivation, but what they show is smaller
  induction hsize : sizeOf v using Nat.strong_induction_on generalizing slot v with
  | _ size ih =>
      subst hsize
      have hrest : ∀ {slot w}, g.Shows slot w → sizeOf w < sizeOf v → next.Shows slot w := fun hw hlt =>
        ih _ hlt hw rfl
      have harray : ∀ {id : Nat} {items : List Slot} {values : List Json}, v = .array values →
          next.nodes[id]? = some (.array items) → items.length = values.length →
          (∀ (k : Nat) slot value, items[k]? = some slot → values[k]? = some value → g.Shows slot value) →
          next.Shows (.node id) (.array values) := by
        intro id items values hv hnode hlength hitems
        refine .array hnode hlength fun k slot value hk hvalue => hrest (hitems k slot value hk hvalue) ?_
        exact hv ▸ Json.sizeOf_item_lt (List.mem_of_getElem? hvalue)
      cases slot with
      | value value =>
          cases h
          exact .value value
      | node id =>
          by_cases hid : id = y
          · subst hid
            have hat := hy
            have hother := hsame v h
            obtain ⟨node, hnode⟩ : ∃ node, g.nodes[id]? = some node := ⟨_, List.getElem?_eq_getElem h.lt⟩
            cases hother with
            | object hx' _ _ _ _ => cases hx.symm.trans hx'
            | array hx' hlength hitems =>
                cases hx.symm.trans hx'
                exact harray rfl (hat node hnode) hlength hitems
          · cases h with
            | object hnode hdistinct hsorted hnames hfields =>
                refine .object ((hkept id hid).trans hnode) hdistinct hsorted hnames
                  fun name slot value hfound hvalue => hrest (hfields name slot value hfound hvalue) ?_
                exact Json.sizeOf_member_lt (Members.mem_of_get? hvalue)
            | array hnode hlength hitems => exact harray rfl ((hkept id hid).trans hnode) hlength hitems

/-! ### Slots of what is shown -/

theorem slotAt?_field (g : Graph) (id : Nat) (name : String) : g.slotAt? id (.field name) = g.field? id name := by
  rw [slotAt?, field?, fields]
  cases g.nodes[id]? with
  | none => rfl
  | some node => cases node <;> rfl

/-- A container is shown by a node, since a plain slot holds none. -/
theorem exists_node_of_shows {slot : Slot} {v : Json} (hplain : ∀ w, slot = .value w → w.isContainer = false)
    (h : g.Shows slot v) (hv : v.isContainer = true) : ∃ id, slot = .node id := by
  cases h with
  | value w =>
      rw [Json.isContainer_normal, hplain w rfl] at hv
      cases hv
  | object _ _ _ _ _ => exact ⟨_, rfl⟩
  | array _ _ _ => exact ⟨_, rfl⟩

theorem Shows.isContainer {id : Nat} {v : Json} (h : g.Shows (.node id) v) : v.isContainer = true := by
  cases h <;> rfl

theorem isObject_of_shows {id : Nat} {members : Members} (h : g.Shows (.node id) (.object members)) :
    g.isObject id = true := by
  cases h with
  | object hnode _ _ _ _ => rw [isObject, hnode]

theorem exists_members_of_shows {id : Nat} {v : Json} (h : g.Shows (.node id) v) (hobject : g.isObject id = true) :
    ∃ members : Members, v = .object members := by
  cases h with
  | object _ _ _ _ _ => exact ⟨_, rfl⟩
  | array hnode _ _ =>
      rw [isObject, hnode] at hobject
      cases hobject

theorem Shows.sorted {id : Nat} {members : Members} (h : g.Shows (.node id) (.object members)) : members.Sorted := by
  cases h with
  | object _ _ hsorted _ _ => exact hsorted

/-- The fields of an object show its members. -/
theorem Shows.field {id : Nat} {members : Members} (h : g.Shows (.node id) (.object members)) (name : String) :
    (g.field? id name).isSome = (members.get? name).isSome ∧
      ∀ slot value, g.field? id name = some slot → members.get? name = some value → g.Shows slot value := by
  cases h with
  | @object _ fields _ hnode _ _ hnames hfields =>
      have hfield : g.field? id name = Node.find? fields name := by rw [field?, Graph.fields, hnode]
      rw [hfield]
      exact ⟨hnames name, hfields name⟩

theorem Shows.field?_of_mem {id : Nat} {members : Members} (h : g.Shows (.node id) (.object members))
    {field : String × Slot} (hfield : field ∈ g.fields id) : g.field? id field.1 = some field.2 := by
  cases h with
  | object hnode hdistinct _ _ _ =>
      rw [Graph.fields, hnode] at hfield
      rw [field?, Graph.fields, hnode]
      exact Node.find?_of_mem hdistinct hfield

/-- The elements of an array show its values. -/
theorem Shows.item {id : Nat} {values : List Json} (h : g.Shows (.node id) (.array values)) (k : Nat) :
    (g.slotAt? id (.index k)).isSome = (values[k]?).isSome ∧
      ∀ slot value, g.slotAt? id (.index k) = some slot → values[k]? = some value → g.Shows slot value := by
  cases h with
  | @array _ items _ hnode hlength hitems =>
      rw [slotAt?_array hnode]
      refine ⟨?_, hitems k⟩
      rw [Bool.eq_iff_iff, isSome_getElem?, isSome_getElem?, hlength]

/-- A container inside is the value itself, or some slot below holds a node that shows it. -/
theorem Shows.exists_slot (hplain : ∀ id position w, g.slotAt? id position = some (.value w) → w.isContainer = false)
    {slot : Slot} {v : Json} (h : g.Shows slot v) (hslot : ∀ w, slot = .value w → w.isContainer = false)
    {part : Json} (hpart : part ∈ v.parts) (hcontainer : part.isContainer = true) :
    part = v ∨ ∃ start parent position id, slot = .node start ∧ g.Reaches start parent ∧
      g.slotAt? parent position = some (.node id) ∧ g.Shows (.node id) part := by
  -- one slot of the node shows the part, or has it below
  have hstep : ∀ {id : Nat} {position : Position} {slot : Slot} {value : Json},
      g.slotAt? id position = some slot → g.Shows slot value →
      (part = value ∨ ∃ start parent position id, slot = .node start ∧ g.Reaches start parent ∧
        g.slotAt? parent position = some (.node id) ∧ g.Shows (.node id) part) →
      ∃ parent position inner, g.Reaches id parent ∧ g.slotAt? parent position = some (.node inner) ∧
        g.Shows (.node inner) part := by
    intro id position slot value hat hshows hcase
    rcases hcase with rfl | ⟨start, parent, place, inner, rfl, hreach, hinner, hpartShows⟩
    · obtain ⟨inner, rfl⟩ := exists_node_of_shows (fun w hw => hplain id position w (hw ▸ hat)) hshows hcontainer
      exact ⟨id, position, inner, .refl, hat, hshows⟩
    · exact ⟨parent, place, inner, .head (points_of_slotAt? hat) hreach, hinner, hpartShows⟩
  induction h with
  | value w =>
      have hscalar := (Json.isContainer_normal w).trans (hslot w rfl)
      rw [Json.parts_scalar hscalar] at hpart
      exact .inl (List.mem_singleton.mp hpart)
  | @object id fields members hnode hdistinct hsorted hnames hfields ih =>
      rcases List.mem_cons.mp hpart with rfl | hinside
      · exact .inl rfl
      · obtain ⟨⟨name, value⟩, hmember, hpart⟩ := Json.mem_partsOfMembers.mp hinside
        have hget := Members.get?_of_mem hsorted hmember
        obtain ⟨slot, hfound⟩ := exists_of_isSome_eq (hnames name).symm hget
        have hat : g.slotAt? id (.field name) = some slot := (slotAt?_object hnode name).trans hfound
        obtain ⟨parent, position, inner, hinner⟩ := hstep hat (hfields name slot value hfound hget)
          (ih name slot value hfound hget (fun w hw => hplain id _ w (hw ▸ hat)) hpart)
        exact .inr ⟨id, parent, position, inner, rfl, hinner⟩
  | @array id items values hnode hlength hitems ih =>
      rcases List.mem_cons.mp hpart with rfl | hinside
      · exact .inl rfl
      · obtain ⟨value, hmember, hpart⟩ := Json.mem_partsOfItems.mp hinside
        obtain ⟨k, hk⟩ := List.mem_iff_getElem?.mp hmember
        have hlt := hlength ▸ (List.getElem?_eq_some_iff.mp hk).1
        have hitem := List.getElem?_eq_getElem hlt
        have hat : g.slotAt? id (.index k) = some items[k] := (slotAt?_array hnode k).trans hitem
        obtain ⟨parent, position, inner, hinner⟩ := hstep hat (hitems k _ value hitem hk)
          (ih k _ value hitem hk (fun w hw => hplain id _ w (hat.trans (congrArg some hw))) hpart)
        exact .inr ⟨id, parent, position, inner, rfl, hinner⟩

/-! ### Entities -/

theorem Shows.text {slot : Slot} {s : String} : g.Shows slot (.string s) ↔ slot = .text s := by
  constructor
  · intro h
    generalize hv : Json.string s = v at h
    cases h with
    | value w =>
        cases w <;> first | cases hv; rfl | cases hv
    | object _ _ _ _ _ => cases hv
    | array _ _ _ => cases hv
  · rintro rfl
    exact .value (.string s)

/-- A node has the identity of the object that it shows. -/
theorem Shows.identity {id : Nat} {v : Json} (h : g.Shows (.node id) v) : v.identity? = g.identity? id := by
  cases h with
  | array hnode _ _ =>
      have hnone : g.field? id identityName = none := by rw [field?, fields, hnode]; rfl
      rw [identity?, hnone]
      rfl
  | @object _ fields members hnode hdistinct hsorted hnames hfields =>
      have hshows : g.Shows (.node id) (.object members) := .object hnode hdistinct hsorted hnames hfields
      obtain ⟨hsome, hfield⟩ := hshows.field identityName
      have hget : (Json.object members).get? identityName = members.get? identityName := rfl
      rw [Json.identity?, hget, identity?]
      cases hslot : g.field? id identityName with
      | none =>
          rw [hslot, Option.isSome_none, eq_comm, Option.isSome_eq_false_iff, Option.isNone_iff_eq_none] at hsome
          rw [hsome]
      | some slot =>
          obtain ⟨value, hvalue⟩ := exists_of_isSome_eq hsome hslot
          have hvalueShown := hfield slot value hslot hvalue
          rw [hvalue]
          cases hvalueShown with
          | value w => cases w <;> rfl
          | object _ _ _ _ _ => rfl
          | array _ _ _ => rfl

end Dossier.Graph
