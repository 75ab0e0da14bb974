import Dossier.Proofs.Graph.Expand
import Dossier.Proofs.Graph.Replace

/-!
The canonical copies under the root. The object that holds them shows what they show, and the root shows what
it did and that object.
-/

namespace Dossier.Graph

/-! ### Nodes from their slots -/

/-- A node whose fields show the members shows the object. -/
theorem shows_object_of_slots {g : Graph} (hg : g.WellFormed) {id : Nat} (hobject : g.isObject id = true)
    {members : Members} (hsorted : members.Sorted)
    (hfields : ∀ name, (g.slotAt? id (.field name)).isSome = (members.get? name).isSome ∧
      ∀ slot value, g.slotAt? id (.field name) = some slot → members.get? name = some value → g.Shows slot value) :
    g.Shows (.node id) (.object members) := by
  have hnode := isObject_iff.mp hobject
  have hfield : ∀ name, g.slotAt? id (.field name) = Node.find? (g.fields id) name :=
    fun name => g.slotAt?_field id name
  refine .object hnode (hg.nodes id _ hnode).names hsorted (fun name => ?_) fun name slot value hslot hvalue => ?_
  · rw [← hfield]
    exact (hfields name).1
  · exact (hfields name).2 slot value ((hfield name).trans hslot) hvalue

/-- A node whose elements show the values shows the array. -/
theorem shows_array_of_slots {g : Graph} {id : Nat} (hid : id < g.nodes.length) (hobject : g.isObject id = false)
    {values : List Json}
    (hitems : ∀ k, (g.slotAt? id (.index k)).isSome = (values[k]?).isSome ∧
      ∀ slot value, g.slotAt? id (.index k) = some slot → values[k]? = some value → g.Shows slot value) :
    g.Shows (.node id) (.array values) := by
  obtain ⟨node, hnode⟩ : ∃ node, g.nodes[id]? = some node := ⟨_, List.getElem?_eq_getElem hid⟩
  cases node with
  | object fields =>
      rw [isObject, hnode] at hobject
      cases hobject
  | array items =>
      have hitem := slotAt?_array hnode
      refine .array hnode ?_ fun k slot value hslot hvalue => (hitems k).2 slot value ((hitem k).trans hslot) hvalue
      have hsame : ∀ k, k < items.length ↔ k < values.length := fun k => by
        have hsome := (hitems k).1
        rwa [hitem, Bool.eq_iff_iff, isSome_getElem?, isSome_getElem?] at hsome
      have hless := hsame values.length
      have hmore := hsame items.length
      omega

/-! ### Canonical copies -/

/-- With a field set an object shows what it did and that member. -/
theorem shows_setField {g : Graph} (hg : g.WellFormed) {id : Nat} {members : Members}
    (hshows : g.Shows (.node id) (.object members)) (name : String) {slot : Slot} {value : Json}
    (hslot : (g.setField id name slot).Shows slot value) (hwithin : slot.Within g.nodes.length) :
    (g.setField id name slot).Shows (.node id) (.object (members.insert name value)) := by
  have hobject := isObject_of_shows hshows
  have hkept : ∀ other, other ≠ id → (g.setField id name slot).nodes[other]? = g.nodes[other]? := by
    intro other hother
    rw [getElem?_setField hobject, if_neg hother]
  have hset : (g.setField id name slot).WellFormed := hg.put (.slot id (.field name)) hwithin
  refine shows_object_of_slots hset
    ((isObject_setField hobject name slot id).trans hobject) (Members.sorted_insert hshows.sorted name value)
    fun key => ?_
  obtain ⟨hsome, hfield⟩ := hshows.field key
  rw [slotAt?_field, field?_setField hobject, Members.get?_insert]
  by_cases hkey : key = name
  · rw [if_pos ⟨rfl, hkey⟩, if_pos hkey]
    refine ⟨rfl, fun slot' value' hslot' hvalue' => ?_⟩
    cases hslot'
    cases hvalue'
    exact hslot
  · rw [if_neg fun h => hkey h.2, if_neg hkey]
    refine ⟨hsome, fun slot' value' hslot' hvalue' => ?_⟩
    exact hshows.beside hkept (hfield slot' value' hslot' hvalue')
      (Json.sizeOf_member_lt (Members.mem_of_get? hvalue'))

/-- The members are what the canonical copies show. -/
structure Displays (g : Graph) (canonical : List (String × Nat)) (refs : Members) : Prop where
  sorted : refs.Sorted
  get? : ∀ identity value, refs.get? identity = some value ↔
    ∃ copy, (identity, copy) ∈ canonical ∧ g.Shows (.node copy) value

/-- Copies that show the same in another graph display the same members. -/
theorem Displays.congr {g next : Graph} {canonical : List (String × Nat)} {refs : Members}
    (h : Displays g canonical refs)
    (hsame : ∀ entry ∈ canonical, ∃ value, g.Shows (.node entry.2) value ∧ next.Shows (.node entry.2) value) :
    Displays next canonical refs := by
  refine ⟨h.sorted, fun identity value => (h.get? identity value).trans (exists_congr fun copy => ?_)⟩
  refine and_congr_right fun hcopy => ?_
  obtain ⟨shown, hg, hnext⟩ := hsame _ hcopy
  constructor
  · intro hvalue
    rw [hvalue.unique hg]
    exact hnext
  · intro hvalue
    rw [hvalue.unique hnext]
    exact hg

/-- Where all canonical copies show something, an object with a field for each shows all of it. -/
theorem exists_displays {g : Graph} (hg : g.WellFormed) {canonical : List (String × Nat)} {id : Nat}
    (hnode : g.nodes[id]? = some (.object (canonical.map fun (identity, copy) => (identity, .node copy))))
    (hshown : ∀ entry ∈ canonical, ∃ value, g.Shows (.node entry.2) value) :
    ∃ refs, Displays g canonical refs ∧ g.Shows (.node id) (.object refs) := by
  have hentry : ∀ {identity : String} {slot : Slot}, g.field? id identity = some slot →
      ∃ copy, (identity, copy) ∈ canonical ∧ slot = .node copy := by
    intro identity slot hfield
    have hmem := mem_of_field? hfield
    rw [fields, hnode] at hmem
    obtain ⟨entry, hentry, heq⟩ := List.mem_map.mp hmem
    cases heq
    exact ⟨entry.2, hentry, rfl⟩
  obtain ⟨value, hvalue⟩ := exists_shows hg (List.getElem?_eq_some_iff.mp hnode).1 fun position slot hslot => by
    cases position with
    | field identity =>
        rw [slotAt?_field] at hslot
        obtain ⟨copy, hcopy, rfl⟩ := hentry hslot
        exact hshown _ hcopy
    | index k =>
        rw [slotAt?, hnode] at hslot
        cases hslot
  obtain ⟨refs, rfl⟩ := exists_members_of_shows hvalue (by rw [isObject, hnode])
  refine ⟨refs, ⟨hvalue.sorted, fun identity value => ?_⟩, hvalue⟩
  obtain ⟨hsome, hfield⟩ := hvalue.field identity
  constructor
  · intro hget
    obtain ⟨slot, hslot⟩ := exists_of_isSome_eq hsome.symm hget
    obtain ⟨copy, hcopy, rfl⟩ := hentry hslot
    exact ⟨copy, hcopy, hfield _ value hslot hget⟩
  · rintro ⟨copy, hcopy, hcopyShows⟩
    have hslot : g.field? id identity = some (.node copy) := by
      rw [field?, fields, hnode]
      exact Node.find?_of_mem (hg.nodes id _ hnode).names (List.mem_map.mpr ⟨_, hcopy, rfl⟩)
    obtain ⟨found, hget⟩ := exists_of_isSome_eq hsome hslot
    rw [hget, (hfield _ found hslot hget).unique hcopyShows]

/-- The copies show one value each, so they display the same members. -/
theorem Displays.unique {g : Graph} {canonical : List (String × Nat)} {refs others : Members}
    (h : Displays g canonical refs) (h' : Displays g canonical others) : refs = others := by
  refine h.sorted.ext h'.sorted fun identity => Option.ext fun value => ?_
  rw [h.get?, h'.get?]

/-- An object that holds the copies can be added, and shows what they show. -/
theorem Displays.alloc {g : Graph} (hg : g.WellFormed) {canonical : List (String × Nat)}
    (hcopies : Copies g canonical) (hshown : ∀ entry ∈ canonical, ∃ value, g.Shows (.node entry.2) value) :
    ∃ refs, Displays g canonical refs ∧
      (g.alloc (.object (canonical.map fun (identity, copy) => (identity, .node copy)))).1.Shows
        (.node g.nodes.length) (.object refs) := by
  generalize hnode : Node.object (canonical.map fun (identity, copy) => (identity, .node copy)) = node
  have hmore := continued_alloc g node
  have halloc : (g.alloc node).1.WellFormed := hg.alloc (hnode ▸ hcopies.fits)
  have hat : (g.alloc node).1.nodes[g.nodes.length]? = some node := by rw [getElem?_alloc, if_pos rfl]
  obtain ⟨refs, hdisplays, hrefs⟩ := exists_displays halloc (hat.trans (congrArg some hnode.symm))
    fun entry hentry => (hshown entry hentry).imp fun value hvalue => hvalue.extend hmore.kept
  exact ⟨refs, hdisplays.congr fun entry hentry => (hshown entry hentry).imp fun value hvalue =>
    ⟨hvalue.extend hmore.kept, hvalue⟩, hrefs⟩

/-- Keeping the copies under the root adds the object of what they show to what the root shows. -/
theorem shows_attached {g : Graph} (hg : g.WellFormed) {count root : Nat} (hroot : g.root = .node root)
    (hlt : root < count) {members : Members} (hshows : g.Shows (.node root) (.object members))
    (hcount : count ≤ g.nodes.length) (hclosed : Closed count g) {canonical : List (String × Nat)}
    (hcopies : Copies g canonical)
    (hshown : ∀ entry ∈ canonical, count ≤ entry.2 ∧ ∃ value, g.Shows (.node entry.2) value) {refs : Members}
    (hdisplays : Displays g canonical refs) :
    (attachCanonical canonical g).root = .node root ∧
      (attachCanonical canonical g).Shows (.node root) (.object (withRefs refs members)) := by
  by_cases hempty : canonical = []
  · subst hempty
    have hnone : attachCanonical [] g = g := by
      rw [attachCanonical, hroot]
      rfl
    obtain rfl : refs = [] := hdisplays.unique ⟨List.Pairwise.nil, fun identity value => by simp [Members.get?]⟩
    rw [hnone]
    exact ⟨hroot, hshows⟩
  · obtain ⟨others, hothers, hrefs⟩ := Displays.alloc hg hcopies fun entry hentry => (hshown entry hentry).2
    obtain rfl := hdisplays.unique hothers
    generalize hnode : Node.object (canonical.map fun (identity, copy) => (identity, .node copy)) = node at hrefs
    have hmore := continued_alloc g node
    have halloc : (g.alloc node).1.WellFormed := hg.alloc (hnode ▸ hcopies.fits)
    have hrootMore := hshows.extend hmore.kept
    have hobject := isObject_of_shows hrootMore
    have hattached : attachCanonical canonical g =
        (g.alloc node).1.setField root refsName (.node g.nodes.length) := by
      rw [attachCanonical, hroot]
      dsimp only
      rw [if_pos (by simp [hempty, isObject_of_shows hshows]), hnode]
      rfl
    have hrefsNonempty : ¬refs.isEmpty = true := by
      obtain ⟨⟨identity, copy⟩, hcopy⟩ := List.exists_mem_of_ne_nil _ hempty
      obtain ⟨-, value, hvalue⟩ := hshown _ hcopy
      have hget := (hdisplays.get? identity value).mpr ⟨copy, hcopy, hvalue⟩
      rintro hnone
      rw [List.isEmpty_iff.mp hnone] at hget
      cases hget
    have hclosed' : Closed count (g.alloc node).1 := by
      refine closed_alloc hclosed fun copy hcopy => ?_
      rw [← hnode] at hcopy
      obtain ⟨field, hfield, heq⟩ := List.mem_map.mp hcopy
      obtain ⟨entry, hentry, rfl⟩ := List.mem_map.mp hfield
      cases heq
      exact (hshown entry hentry).1
    rw [hattached]
    refine ⟨(root_put_slot _ root (.field refsName) _).trans hroot, ?_⟩
    rw [withRefs, if_neg hrefsNonempty]
    refine shows_setField halloc hrootMore refsName ?_ (Slot.within_node hrefs.lt)
    refine hrefs.beyond hclosed' (fun id hid other hother => ?_) hcount
    rw [getElem?_setField hobject, if_neg (Nat.ne_of_gt (hlt.trans_le hid))]
    exact hother

end Dossier.Graph
