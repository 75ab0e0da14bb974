import Dossier.Proofs.Graph.Frame
import Dossier.Proofs.Graph.Regroup

/-!
Loading of values. The graph of a value in order is well formed, its root shows the value, and every plain
slot in it is a member or an element of the value. The last survives merging.
-/

namespace Dossier.Graph

/-- Plain slots hold no containers, and in objects they are members of parts of the value. -/
structure Native (whole : Json) (g : Graph) : Prop where
  fields : ∀ id name value, (name, .value value) ∈ g.fields id →
    value.isContainer = false ∧ ∃ part ∈ whole.parts, (name, value) ∈ part.members
  items : ∀ id value, Slot.value value ∈ g.items id → value.isContainer = false

theorem Native.plain {whole : Json} {g : Graph} (h : g.Native whole) {id : Nat} {position : Position} {value : Json}
    (hslot : g.slotAt? id position = some (.value value)) : value.isContainer = false := by
  cases position with
  | field name =>
      rw [slotAt?_field] at hslot
      exact (h.fields id name value (mem_of_field? hslot)).1
  | index k =>
      refine h.items id value ?_
      rw [Graph.items]
      obtain ⟨node, hnode, hat⟩ := Option.bind_eq_some_iff.mp hslot
      rw [hnode]
      cases node with
      | object fields => cases hat
      | array items => exact List.mem_of_getElem? hat

theorem Regroups.native {whole : Json} {g next : Graph} (h : Regroups g next) (hg : g.Native whole) :
    next.Native whole where
  fields id name value hfield := by
    obtain ⟨source, hsource⟩ := h.fields id _ hfield
    exact hg.fields source name value hsource
  items id value hitem := by
    obtain ⟨source, hsource⟩ := h.items id _ hitem
    exact hg.items source value hsource

/-- What every graph is on the way of loading a value: containers come after all they hold. -/
structure Loading (whole : Json) (g : Graph) : Prop where
  fits : ∀ (id : Nat) (node : Node), g.nodes[id]? = some node → node.Fits id
  native : g.Native whole

theorem Loading.nodes {whole : Json} {g : Graph} (h : g.Loading whole) (id : Nat) (node : Node)
    (hnode : g.nodes[id]? = some node) : node.Fits g.nodes.length :=
  (h.fits id node hnode).mono (List.getElem?_eq_some_iff.mp hnode).1.le

/-- The other graph has more nodes. -/
structure Continued (g next : Graph) : Prop where
  root : next.root = g.root
  kept : ∀ (id : Nat) (node : Node), g.nodes[id]? = some node → next.nodes[id]? = some node
  size : g.nodes.length ≤ next.nodes.length

theorem Continued.refl (g : Graph) : Continued g g := ⟨rfl, fun _ _ h => h, Nat.le_refl _⟩

theorem Continued.trans {g middle next : Graph} (h : Continued g middle) (h' : Continued middle next) :
    Continued g next :=
  ⟨h'.root.trans h.root, fun id node hnode => h'.kept id node (h.kept id node hnode), h.size.trans h'.size⟩

theorem Continued.slotAt? {g next : Graph} (h : Continued g next) {id : Nat} (hid : id < g.nodes.length)
    (position : Position) : next.slotAt? id position = g.slotAt? id position := by
  rw [Graph.slotAt?, h.kept id _ (List.getElem?_eq_getElem hid), Graph.slotAt?, List.getElem?_eq_getElem hid]

theorem continued_alloc (g : Graph) (node : Node) : Continued g (g.alloc node).1 := by
  refine ⟨rfl, fun id old hold => ?_, by simp [alloc]⟩
  have hlt := (List.getElem?_eq_some_iff.mp hold).1
  rw [getElem?_alloc, if_neg (Nat.ne_of_lt hlt)]
  exact hold

/-- The slot holds the value, in its node or by itself. -/
structure Holds (g : Graph) (slot : Slot) (value : Json) : Prop where
  shows_it : g.Shows slot value.normal
  within : slot.Within g.nodes.length
  plain : ∀ w, slot = .value w → w = value ∧ value.isContainer = false

theorem Holds.extend {g next : Graph} (h : Continued g next) {slot : Slot} {value : Json}
    (hholds : g.Holds slot value) : next.Holds slot value :=
  ⟨hholds.shows_it.extend h.kept, hholds.within.mono h.size, hholds.plain⟩

theorem Loading.alloc {whole : Json} {g : Graph} (hg : g.Loading whole) {node : Node}
    (hfits : node.Fits g.nodes.length) (hobject : ∀ fields, node = .object fields → ∀ name value,
      (name, .value value) ∈ fields → value.isContainer = false ∧ ∃ part ∈ whole.parts, (name, value) ∈ part.members)
    (harray : ∀ items, node = .array items → ∀ value, Slot.value value ∈ items → value.isContainer = false) :
    (g.alloc node).1.Loading whole := by
  refine ⟨fun id other hother => ?_, ⟨fun id name value hfield => ?_, fun id value hitem => ?_⟩⟩
  · rw [getElem?_alloc] at hother
    split at hother
    · rename_i hid
      cases hother
      exact hid ▸ hfits
    · exact hg.fits id other hother
  · by_cases hid : id = g.nodes.length
    · rw [Graph.fields, getElem?_alloc, if_pos hid] at hfield
      cases node with
      | object fields => exact hobject fields rfl name value hfield
      | array items => cases hfield
    · rw [Graph.fields, getElem?_alloc, if_neg hid] at hfield
      exact hg.native.fields id name value hfield
  · by_cases hid : id = g.nodes.length
    · rw [Graph.items, getElem?_alloc, if_pos hid] at hitem
      cases node with
      | object fields => cases hitem
      | array items => exact harray items rfl value hitem
    · rw [Graph.items, getElem?_alloc, if_neg hid] at hitem
      exact hg.native.items id value hitem

theorem holds_alloc {g : Graph} {node : Node} {value : Json}
    (hshows : (g.alloc node).1.Shows (.node (g.alloc node).2) value.normal) :
    (g.alloc node).1.Holds (.node (g.alloc node).2) value :=
  ⟨hshows, Slot.within_node hshows.lt, nofun⟩

/-- What loading a value does to every graph on the way. -/
def LoadsInto (whole value : Json) : Prop :=
  ∀ g : Graph, g.Loading whole → Continued g (g.load value).1 ∧ (g.load value).1.Loading whole ∧
    (g.load value).1.Holds (g.load value).2 value

theorem loadItems_spec {whole : Json} {items : List Json} (hitems : ∀ value ∈ items, LoadsInto whole value)
    {g : Graph} (hg : g.Loading whole) :
    Continued g (g.loadItems items).1 ∧ (g.loadItems items).1.Loading whole ∧
      List.Forall₂ (g.loadItems items).1.Holds (g.loadItems items).2 items := by
  induction items generalizing g with
  | nil => exact ⟨.refl g, hg, .nil⟩
  | cons value rest ih =>
      obtain ⟨hfirst, hloading, hholds⟩ := hitems value List.mem_cons_self g hg
      obtain ⟨hmore, hloading', hrest⟩ := ih (fun other hother => hitems other (List.mem_cons_of_mem _ hother)) hloading
      exact ⟨hfirst.trans hmore, hloading', .cons (hholds.extend hmore) hrest⟩

theorem loadMembers_spec {whole : Json} {members : Members}
    (hmembers : ∀ member ∈ members, LoadsInto whole member.2) {g : Graph} (hg : g.Loading whole) :
    Continued g (g.loadMembers members).1 ∧ (g.loadMembers members).1.Loading whole ∧
      List.Forall₂ (fun (field : String × Slot) member =>
          field.1 = member.1 ∧ (g.loadMembers members).1.Holds field.2 member.2)
        (g.loadMembers members).2 members := by
  induction members generalizing g with
  | nil => exact ⟨.refl g, hg, .nil⟩
  | cons member rest ih =>
      obtain ⟨hfirst, hloading, hholds⟩ := hmembers member List.mem_cons_self g hg
      obtain ⟨hmore, hloading', hrest⟩ :=
        ih (fun other hother => hmembers other (List.mem_cons_of_mem _ hother)) hloading
      exact ⟨hfirst.trans hmore, hloading', .cons ⟨rfl, hholds.extend hmore⟩ hrest⟩

theorem loadsInto_array {whole : Json} {items : List Json} (hitems : ∀ value ∈ items, LoadsInto whole value) :
    LoadsInto whole (.array items) := by
  intro g hg
  obtain ⟨hmore, hloading, hholds⟩ := loadItems_spec hitems hg
  have hmem : ∀ slot ∈ (g.loadItems items).2, ∃ value ∈ items, (g.loadItems items).1.Holds slot value :=
    fun _ => exists_of_mem_forall₂ hholds
  have hcontinued := continued_alloc (g.loadItems items).1 (.array (g.loadItems items).2)
  refine ⟨hmore.trans hcontinued, hloading.alloc ⟨List.nodup_nil, fun slot hslot => ?_⟩ nofun ?_, holds_alloc ?_⟩
  · obtain ⟨value, -, hvalue⟩ := hmem slot hslot
    exact hvalue.within
  · intro slots hslots value hvalue
    cases hslots
    obtain ⟨original, -, horiginal⟩ := hmem _ hvalue
    obtain ⟨rfl, hscalar⟩ := horiginal.plain value rfl
    exact hscalar
  · rw [Json.normal, Json.normalItems_eq]
    refine shows_array (by rw [getElem?_alloc]; exact if_pos rfl) ?_
    rw [List.forall₂_map_right_iff]
    exact hholds.imp fun _ _ h => h.shows_it.extend hcontinued.kept

theorem loadsInto_object {whole : Json} {members : Members} (hsorted : members.Sorted)
    (hpart : .object members ∈ whole.parts) (hmembers : ∀ member ∈ members, LoadsInto whole member.2) :
    LoadsInto whole (.object members) := by
  intro g hg
  obtain ⟨hmore, hloading, hholds⟩ := loadMembers_spec hmembers hg
  have hmem : ∀ field ∈ (g.loadMembers members).2, ∃ member ∈ members,
      field.1 = member.1 ∧ (g.loadMembers members).1.Holds field.2 member.2 :=
    fun _ => exists_of_mem_forall₂ hholds
  have hnames : (g.loadMembers members).2.map Prod.fst = Members.names members := by
    have hall := hholds.imp fun _ _ h => h.1
    generalize (g.loadMembers members).2 = fields at hall
    clear * - hall
    induction hall with
    | nil => rfl
    | cons h _ ih => rw [List.map_cons, h, ih]; rfl
  have hdistinct : ((g.loadMembers members).2.map Prod.fst).Nodup := by
    rw [hnames]
    exact hsorted.imp ne_of_lt
  have hcontinued := continued_alloc (g.loadMembers members).1 (.object (g.loadMembers members).2)
  refine ⟨hmore.trans hcontinued, hloading.alloc ⟨hdistinct, fun slot hslot => ?_⟩ ?_ nofun, holds_alloc ?_⟩
  · obtain ⟨field, hfield, rfl⟩ := List.mem_map.mp hslot
    obtain ⟨member, -, -, hvalue⟩ := hmem field hfield
    exact hvalue.within
  · intro fields hfields name value hfield
    cases hfields
    obtain ⟨⟨key, original⟩, hmember, hkey, horiginal⟩ := hmem _ hfield
    obtain ⟨heq, hscalar⟩ := horiginal.plain value rfl
    dsimp only at hkey heq hscalar
    subst hkey heq
    exact ⟨hscalar, .object members, hpart, hmember⟩
  · have hwritten : (Json.object members).normal =
        Json.ofPairs (members.map fun member => (member.1, member.2.normal)) := by
      rw [Json.normal, Json.ofPairs, ← Json.normalMembers_eq,
        Members.ofList_of_sorted (Json.sorted_normalMembers hsorted)]
    rw [hwritten]
    refine shows_ofPairs (by rw [getElem?_alloc]; exact if_pos rfl) hdistinct ?_
    rw [List.forall₂_map_right_iff]
    exact hholds.imp fun _ _ h => ⟨h.1.symm, h.2.shows_it.extend hcontinued.kept⟩

/-- Loading adds nodes that show the value. -/
theorem loadsInto {whole value : Json} (hordered : value.Ordered) (hpart : value ∈ whole.parts) :
    LoadsInto whole value := by
  induction value using Json.induct with
  | scalar value hscalar =>
      intro g hg
      have hload : g.load value = (g, .value value) := by cases value <;> first | rfl | cases hscalar
      rw [hload]
      refine ⟨.refl g, hg, .value value, Slot.within_value _ value, fun w hw => ?_⟩
      cases hw
      exact ⟨rfl, hscalar⟩
  | array items ih =>
      have hitems := Json.ordered_array.mp hordered
      refine loadsInto_array fun value hvalue => ih value hvalue (hitems value hvalue) ?_
      exact Json.mem_parts_trans hpart (Json.parts_of_mem_items hvalue (Json.self_mem_parts value))
  | object members ih =>
      obtain ⟨hsorted, hmembers⟩ := Json.ordered_object.mp hordered
      refine loadsInto_object hsorted hpart fun member hmember => ih member hmember (hmembers member hmember) ?_
      exact Json.mem_parts_trans hpart (Json.parts_of_mem_members hmember (Json.self_mem_parts _))

theorem loading_empty (whole : Json) : empty.Loading whole :=
  ⟨nofun, ⟨nofun, nofun⟩⟩

/-- The graph of a value in order shows the value. -/
theorem ofJson_spec {value : Json} (hordered : value.Ordered) :
    (ofJson value).WellFormed ∧ (ofJson value).Native value ∧
      (ofJson value).Shows (ofJson value).root value.normal := by
  obtain ⟨-, hloading, hholds⟩ := loadsInto hordered value.self_mem_parts empty (loading_empty value)
  refine ⟨⟨hholds.within, hloading.nodes⟩, ⟨hloading.native.fields, hloading.native.items⟩, ?_⟩
  have hkept : ∀ (id : Nat) (node : Node), (empty.load value).1.nodes[id]? = some node →
      (ofJson value).nodes[id]? = some node := fun _ _ h => h
  exact hholds.shows_it.extend hkept

theorem loadNodes_cons (g : Graph) (value : Json) (rest : List Json) : loadNodes g (value :: rest) =
    ((loadNodes (g.load value).1 rest).1, (g.load value).2.target?.toList ++ (loadNodes (g.load value).1 rest).2) :=
  rfl

/-- Values in order are loaded one after another; the nodes given are those of the containers, which show them. -/
theorem loadNodes_spec {whole : Json} {values : List Json} (hordered : ∀ value ∈ values, value.Ordered)
    (hparts : ∀ value ∈ values, value ∈ whole.parts) {g : Graph} (hg : g.Loading whole) :
    Continued g (loadNodes g values).1 ∧ (loadNodes g values).1.Loading whole ∧
      List.Forall₂ (fun id value => (loadNodes g values).1.Shows (.node id) value.normal) (loadNodes g values).2
        (values.filter Json.isContainer) := by
  induction values generalizing g with
  | nil => exact ⟨.refl g, hg, .nil⟩
  | cons value rest ih =>
      obtain ⟨hfirst, hloading, hholds⟩ :=
        loadsInto (hordered value List.mem_cons_self) (hparts value List.mem_cons_self) g hg
      obtain ⟨hmore, hloading', hrest⟩ := ih (fun other hother => hordered other (List.mem_cons_of_mem _ hother))
        (fun other hother => hparts other (List.mem_cons_of_mem _ hother)) hloading
      refine ⟨hfirst.trans hmore, hloading', ?_⟩
      have hshows := hholds.shows_it.extend hmore.kept
      rw [loadNodes_cons]
      cases hslot : (g.load value).2 with
      | value w =>
          obtain ⟨-, hscalar⟩ := hholds.plain w hslot
          rw [List.filter_cons_of_neg (by rw [hscalar]; exact Bool.false_ne_true)]
          exact hrest
      | node id =>
          have hcontainer : value.isContainer = true := by
            rw [hslot] at hshows
            rw [← value.isContainer_normal]
            exact hshows.isContainer
          rw [List.filter_cons_of_pos hcontainer]
          exact .cons (hslot ▸ hshows) hrest

/-- Every node shows a value, as containers come after all they hold. -/
theorem Loading.exists_shows {whole : Json} {g : Graph} (h : g.Loading whole) (hg : g.WellFormed) {id : Nat}
    (hid : id < g.nodes.length) : ∃ v, g.Shows (.node id) v := by
  induction id using Nat.strongRecOn with
  | ind id ih =>
      refine Graph.exists_shows hg hid fun position slot hslot => ?_
      cases slot with
      | value value => exact ⟨_, .value value⟩
      | node target =>
          obtain ⟨node, hnode, hat⟩ := Option.bind_eq_some_iff.mp hslot
          have hlt := (h.fits id node hnode).slots _ (Node.mem_slots_of_at? hat) target rfl
          exact ih target hlt (hlt.trans hid)

/-! ### What is shown -/

section

variable {whole : Json} {g : Graph} (hnative : g.Native whole) {root : Nat} {v : Json} (h : g.Shows (.node root) v)

include hnative h

/-- Every container inside is shown by a node. -/
theorem exists_node_of_part {part : Json} (hpart : part ∈ v.parts) (hcontainer : part.isContainer = true) :
    ∃ id, g.Shows (.node id) part := by
  rcases h.exists_slot (fun _ _ _ => hnative.plain) nofun hpart hcontainer with rfl | ⟨_, _, _, id, _, _, _, hshows⟩
  · exact ⟨root, h⟩
  · exact ⟨id, hshows⟩

/-- What a graph shows is in order. -/
theorem ordered_of_shows : v.Ordered := by
  intro part hpart
  cases part with
  | object members =>
      obtain ⟨id, hshows⟩ := exists_node_of_part hnative h hpart rfl
      exact hshows.sorted
  | _ => exact List.Pairwise.nil

/-- Fields with the text of their own name come from the document. -/
theorem echoless_of_shows (hwhole : whole.Echoless) : v.Echoless := by
  intro part hpart member hmember hecho
  obtain ⟨name, value⟩ := member
  cases part with
  | object members =>
      obtain ⟨id, hshows⟩ := exists_node_of_part hnative h hpart rfl
      have hget := Members.get?_of_mem hshows.sorted hmember
      obtain ⟨hsome, hfield⟩ := hshows.field name
      obtain ⟨slot, hslot⟩ := exists_of_isSome_eq hsome.symm hget
      have htext : value = .string name := by
        cases value with
        | string text => exact congrArg Json.string (Option.some_inj.mp hecho)
        | _ => cases hecho
      have hslotShows := hfield slot value hslot hget
      rw [htext, Shows.text] at hslotShows
      subst hslotShows
      obtain ⟨-, source, hsource, hmem⟩ := hnative.fields id name _ (mem_of_field? hslot)
      exact hwhole source hsource _ hmem rfl
  | _ => cases hmember

end

end Dossier.Graph
