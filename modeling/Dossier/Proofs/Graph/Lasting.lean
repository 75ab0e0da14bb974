import Dossier.Proofs.Graph.Enriching
import Mathlib.Data.Set.Card

/-!
Identities that last. Of the elements of arrays that belong to entities two with one identity count as one, and then one
of them is gone with all that it holds. **`expand_lasting`** says that nothing else is lost: whatever identity stands in
a document outside elements that are listed twice still stands in the document when it is expanded.
-/

namespace Dossier

namespace Json

mutual

/-- The identities of the elements of arrays that belong to entities, each as often as it is listed. A value that is
`owned` belongs to an entity. -/
def listed (owned : Bool) : Json → List String
  | .object members => listedMembers (owned || (Json.object members).identity?.isSome) members
  | .array items => listedItems owned items
  | _ => []

def listedMembers (owned : Bool) : Members → List String
  | [] => []
  | (_, value) :: rest => listed owned value ++ listedMembers owned rest

def listedItems (owned : Bool) : List Json → List String
  | [] => []
  | value :: rest => (if owned then value.identity?.toList else []) ++ listed false value ++ listedItems owned rest

end

/-- Whether the value is an element of an array that belongs to an entity, and another such element has its identity. -/
def contested (identities : List String) (owned : Bool) (value : Json) : Bool :=
  owned && value.identity?.any fun identity => 2 ≤ identities.count identity

mutual

/-- The identities that stand in a value outside contested elements of arrays that belong to entities. -/
def lasting (identities : List String) (owned : Bool) : Json → List String
  | .object members => (Json.object members).identity?.toList ++
      lastingMembers identities (owned || (Json.object members).identity?.isSome) members
  | .array items => lastingItems identities owned items
  | _ => []

def lastingMembers (identities : List String) (owned : Bool) : Members → List String
  | [] => []
  | (_, value) :: rest => lasting identities owned value ++ lastingMembers identities owned rest

def lastingItems (identities : List String) (owned : Bool) : List Json → List String
  | [] => []
  | value :: rest => (if contested identities owned value then [] else lasting identities false value) ++
      lastingItems identities owned rest

end

variable {identities : List String} {owned : Bool} {identity : String}

theorem mem_lastingMembers {members : Members} : identity ∈ lastingMembers identities owned members ↔
    ∃ member ∈ members, identity ∈ member.2.lasting identities owned := by
  induction members with
  | nil => simp [lastingMembers]
  | cons member rest ih => simp [lastingMembers, ih]

theorem mem_lastingItems {items : List Json} : identity ∈ lastingItems identities owned items ↔
    ∃ value ∈ items, contested identities owned value = false ∧ identity ∈ value.lasting identities false := by
  induction items with
  | nil => simp [lastingItems]
  | cons value rest ih => cases hcontested : contested identities owned value <;> simp [lastingItems, ih, hcontested]

theorem lasting_scalar {value : Json} (h : value.isContainer = false) : value.lasting identities owned = [] := by
  cases value <;> first | rfl | cases h

theorem count_listedMembers (members : Members) : (listedMembers owned members).count identity =
    (members.map fun member => (member.2.listed owned).count identity).sum := by
  induction members with
  | nil => rfl
  | cons member rest ih => rw [listedMembers, List.count_append, ih, List.map_cons, List.sum_cons]

theorem count_listedItems (items : List Json) : (listedItems owned items).count identity = (items.map fun value =>
    (if owned then value.identity?.toList else []).count identity + (value.listed false).count identity).sum := by
  induction items with
  | nil => rfl
  | cons value rest ih => rw [listedItems, List.count_append, List.count_append, ih, List.map_cons, List.sum_cons]

end Json

namespace Graph

variable {origin : Graph}

/-! ### Loaded values -/

/-- A node into which a value was loaded, in a place that belongs to an entity or does not. -/
structure LoadedAt (origin : Graph) (owned : Bool) (value : Json) (id : Nat) : Prop where
  shows_it : origin.Shows (.node id) value.normal
  owned_iff : origin.Owned id ↔ owned = true ∨ value.identity?.isSome = true

section

variable (horigin : origin.Source) (hacyclic : origin.Acyclic) {owned : Bool} {id : Nat}

include horigin hacyclic

/-- The fields of an object belong to an entity if it does. -/
theorem LoadedAt.member {members : Members} (h : LoadedAt origin owned (.object members) id) {name : String}
    {value : Json} (hmember : (name, value) ∈ members) : ∃ slot, origin.field? id name = some slot ∧
      origin.Shows slot value.normal ∧ ∀ child, slot = .node child →
        LoadedAt origin (owned || (Json.object members).identity?.isSome) value child := by
  have hshows := h.shows_it
  rw [Json.normal] at hshows
  have hmem : (name, value.normal) ∈ Json.normalMembers members := by
    rw [Json.normalMembers_eq]
    exact List.mem_map_of_mem (f := fun member : String × Json => (member.1, member.2.normal)) hmember
  have hget := Members.get?_of_mem hshows.sorted hmem
  obtain ⟨hsome, hshown⟩ := hshows.field name
  obtain ⟨slot, hslot⟩ := exists_of_isSome_eq hsome.symm hget
  have hslotShows := hshown slot _ hslot hget
  refine ⟨slot, hslot, hslotShows, fun child hchild => ?_⟩
  subst hchild
  refine ⟨hslotShows, ?_⟩
  rw [Bool.or_eq_true, ← h.owned_iff]
  by_cases hentity : origin.Owned id
  · exact iff_of_true (hentity.field hslot) (.inl hentity)
  · rw [(Endowed.refl hacyclic).owned_field_iff horigin.unshared hentity ⟨name, hslot⟩, ← hslotShows.identity,
      Json.identity?_normal]
    exact ⟨.inr, fun h => h.resolve_left hentity⟩

/-- The elements of an array belong to an entity if they are one. -/
theorem LoadedAt.item {items : List Json} (h : LoadedAt origin owned (.array items) id) {k : Nat} {value : Json}
    (hitem : items[k]? = some value) : ∃ slot, origin.slotAt? id (.index k) = some slot ∧
      origin.Shows slot value.normal ∧ ∀ child, slot = .node child → LoadedAt origin false value child := by
  have hshows := h.shows_it
  rw [Json.normal, Json.normalItems_eq] at hshows
  have hget : (items.map Json.normal)[k]? = some value.normal := by rw [List.getElem?_map, hitem]; rfl
  obtain ⟨hsome, hshown⟩ := hshows.item k
  obtain ⟨slot, hslot⟩ := exists_of_isSome_eq hsome.symm hget
  have hslotShows := hshown slot _ hslot hget
  refine ⟨slot, hslot, hslotShows, fun child hchild => ?_⟩
  subst hchild
  refine ⟨hslotShows, ?_⟩
  rw [(Endowed.refl hacyclic).owned_item_iff horigin.unshared (mem_items_of_slotAt? hslot), ← hslotShows.identity,
    Json.identity?_normal]
  exact ⟨.inr, fun h => h.resolve_left Bool.false_ne_true⟩

omit horigin hacyclic in
theorem LoadedAt.array_owned_iff {items : List Json} (h : LoadedAt origin owned (.array items) id) :
    origin.Owned id ↔ owned = true := by
  rw [h.owned_iff]
  exact ⟨fun h => h.resolve_right Bool.false_ne_true, .inl⟩

end

/-! ### Listed elements -/

/-- What lies at some place of a list is no more than what is counted for all places. -/
theorem encard_le_sum {α : Type} {below : Nat → α → Set Nat} {values : List α} {count : α → Nat}
    (h : ∀ k value, values[k]? = some value → (below k value).encard ≤ count value) :
    {id | ∃ k value, values[k]? = some value ∧ id ∈ below k value}.encard ≤ ((values.map count).sum : Nat) := by
  induction values generalizing below with
  | nil => simp
  | cons value rest ih =>
      have hfirst := h 0 value rfl
      have hrest := ih (fun k other hk => h (k + 1) other hk)
      have hsplit : {id | ∃ k other, (value :: rest)[k]? = some other ∧ id ∈ below k other} ⊆
          below 0 value ∪ {id | ∃ k other, rest[k]? = some other ∧ id ∈ below (k + 1) other} := by
        rintro id ⟨k, other, hk, hid⟩
        cases k with
        | zero =>
            cases hk
            exact .inl hid
        | succ k => exact .inr ⟨k, other, hk, hid⟩
      calc {id | ∃ k other, (value :: rest)[k]? = some other ∧ id ∈ below k other}.encard
        _ ≤ _ := Set.encard_le_encard hsplit
        _ ≤ _ := Set.encard_union_le _ _
        _ ≤ (count value : ℕ∞) + ((rest.map count).sum : Nat) := add_le_add hfirst hrest
        _ = (((value :: rest).map count).sum : Nat) := by rw [List.map_cons, List.sum_cons, Nat.cast_add]

/-- The listed elements with an identity below a node. -/
def listedBelow (origin : Graph) (identity : String) (id : Nat) : Set Nat :=
  {element | origin.Listed element ∧ origin.identity? element = some identity ∧
    Relation.TransGen origin.Points id element}

/-- The listed elements with an identity at or below what a node holds in a slot. -/
def listedIn (origin : Graph) (identity : String) (id : Nat) (position : Position) : Set Nat :=
  {element | origin.Listed element ∧ origin.identity? element = some identity ∧
    ∃ child, origin.slotAt? id position = some (.node child) ∧ origin.Reaches child element}

variable {identity : String} {id : Nat} {position : Position} {element : Nat}

/-- What is below a node is in one of its slots. -/
theorem exists_listedIn (hg : origin.WellFormed) (h : element ∈ listedBelow origin identity id) :
    ∃ position, element ∈ listedIn origin identity id position := by
  obtain ⟨hlisted, hidentity, hpath⟩ := h
  obtain ⟨child, hfirst, hrest⟩ := Relation.TransGen.head'_iff.mp hpath
  obtain ⟨position, hposition⟩ := hg.exists_slotAt? hfirst
  exact ⟨position, hlisted, hidentity, child, hposition, hrest⟩

/-- What is in a slot is the node there, or it is below that. -/
theorem eq_or_mem_listedBelow {child : Nat} (hslot : origin.slotAt? id position = some (.node child))
    (h : element ∈ listedIn origin identity id position) :
    element = child ∨ element ∈ listedBelow origin identity child := by
  obtain ⟨hlisted, hidentity, other, hother, hreach⟩ := h
  cases hslot.symm.trans hother
  rcases Relation.reflTransGen_iff_eq_or_transGen.mp hreach with heq | hpath
  · exact .inl heq
  · exact .inr ⟨hlisted, hidentity, hpath⟩

theorem encard_listedIn_value {value : Json} (hslot : origin.slotAt? id position = some (.value value)) :
    (listedIn origin identity id position).encard = 0 :=
  Set.encard_eq_zero.mpr <| Set.eq_empty_of_forall_notMem fun _ ⟨_, _, _, hchild, _⟩ => by
    cases hslot.symm.trans hchild

/-- The array in which an element is listed is the one that holds it. -/
theorem Listed.owned_array (hunshared : origin.Unshared) {child : Nat} (h : origin.Listed child)
    (hslot : origin.slotAt? id position = some (.node child)) : origin.Owned id ∧ ∃ k, position = .index k := by
  obtain ⟨array, howned, hitem⟩ := h
  obtain ⟨k, hk⟩ := exists_index_of_mem_items hitem
  obtain ⟨rfl, rfl⟩ := hunshared array id (.index k) position child hk hslot
  exact ⟨howned, k, rfl⟩

/-- In a field there is no more than what is below the node there, which is not listed. -/
theorem encard_listedIn_field (hunshared : origin.Unshared) {name : String} {slot : Slot} {count : Nat}
    (hslot : origin.field? id name = some slot)
    (hbelow : ∀ child, slot = .node child → (listedBelow origin identity child).encard ≤ count) :
    (listedIn origin identity id (.field name)).encard ≤ count := by
  rw [← slotAt?_field] at hslot
  cases slot with
  | value value => exact (encard_listedIn_value hslot).trans_le zero_le
  | node child =>
      have hcover : listedIn origin identity id (.field name) ⊆ listedBelow origin identity child := by
        intro element helement
        rcases eq_or_mem_listedBelow hslot helement with rfl | hmem
        · obtain ⟨-, k, hk⟩ := helement.1.owned_array hunshared hslot
          cases hk
        · exact hmem
      exact (Set.encard_le_encard hcover).trans (hbelow child rfl)

/-- An element of an array counts for one if it is listed itself. -/
theorem encard_listedIn_index (hunshared : origin.Unshared) {k : Nat} {slot : Slot} {own count : Nat}
    (hslot : origin.slotAt? id (.index k) = some slot)
    (hown : ∀ child, slot = .node child → origin.Owned id → origin.identity? child = some identity → 1 ≤ own)
    (hbelow : ∀ child, slot = .node child → (listedBelow origin identity child).encard ≤ count) :
    (listedIn origin identity id (.index k)).encard ≤ ((own + count : Nat) : ℕ∞) := by
  cases slot with
  | value value => exact (encard_listedIn_value hslot).trans_le zero_le
  | node child =>
      rw [Nat.cast_add]
      by_cases hlisted : child ∈ listedIn origin identity id (.index k)
      · have hone : 1 ≤ own := hown child rfl (hlisted.1.owned_array hunshared hslot).1 hlisted.2.1
        have hcover : listedIn origin identity id (.index k) ⊆ {child} ∪ listedBelow origin identity child :=
          fun element helement => eq_or_mem_listedBelow hslot helement
        calc (listedIn origin identity id (.index k)).encard
          _ ≤ _ := Set.encard_le_encard hcover
          _ ≤ _ := Set.encard_union_le _ _
          _ ≤ (own : ℕ∞) + count :=
            add_le_add ((Set.encard_singleton child).trans_le (Nat.one_le_cast.mpr hone)) (hbelow child rfl)
      · have hcover : listedIn origin identity id (.index k) ⊆ listedBelow origin identity child := fun _ helement =>
          (eq_or_mem_listedBelow hslot helement).resolve_left fun heq => hlisted (heq ▸ helement)
        exact (Set.encard_le_encard hcover).trans ((hbelow child rfl).trans le_add_self)

section

variable (horigin : origin.Source) (hacyclic : origin.Acyclic) {owned : Bool}

include horigin hacyclic

theorem encard_listedBelow_object {members : Members} (h : LoadedAt origin owned (.object members) id)
    (hmembers : ∀ member ∈ members, ∀ owned child, LoadedAt origin owned member.2 child →
      (listedBelow origin identity child).encard ≤ ((member.2.listed owned).count identity : Nat)) :
    (listedBelow origin identity id).encard ≤ (((Json.object members).listed owned).count identity : Nat) := by
  have hshows := h.shows_it
  rw [Json.normal] at hshows
  have hcover : listedBelow origin identity id ⊆ {element | ∃ (k : Nat) (member : String × Json),
      members[k]? = some member ∧ element ∈ listedIn origin identity id (.field member.1)} := by
    intro element helement
    obtain ⟨position, hin⟩ := exists_listedIn horigin.wellFormed helement
    have ⟨_, _, child, hslot, _⟩ := hin
    cases position with
    | index k =>
        have hitem := mem_items_of_slotAt? hslot
        rw [items, isObject_iff.mp (isObject_of_shows hshows)] at hitem
        cases hitem
    | field name =>
        rw [slotAt?_field] at hslot
        obtain ⟨shown, hget⟩ := exists_of_isSome_eq (hshows.field name).1 hslot
        rw [Json.get?_normalMembers] at hget
        obtain ⟨value, hvalue, -⟩ := Option.map_eq_some_iff.mp hget
        obtain ⟨k, hk⟩ := List.mem_iff_getElem?.mp (Members.mem_of_get? hvalue)
        exact ⟨k, (name, value), hk, hin⟩
  have hbound : ∀ (k : Nat) (member : String × Json), members[k]? = some member →
      (listedIn origin identity id (.field member.1)).encard ≤
        ((member.2.listed (owned || (Json.object members).identity?.isSome)).count identity : Nat) := by
    intro k member hk
    have hmember := List.mem_of_getElem? hk
    obtain ⟨slot, hslot, -, hloaded⟩ := h.member horigin hacyclic hmember
    exact encard_listedIn_field horigin.unshared hslot fun child hchild =>
      hmembers member hmember _ child (hloaded child hchild)
  calc (listedBelow origin identity id).encard
    _ ≤ _ := Set.encard_le_encard hcover
    _ ≤ _ := encard_le_sum hbound
    _ = _ := by rw [← Json.count_listedMembers, Json.listed]

theorem encard_listedBelow_array {items : List Json} (h : LoadedAt origin owned (.array items) id)
    (hitems : ∀ value ∈ items, ∀ owned child, LoadedAt origin owned value child →
      (listedBelow origin identity child).encard ≤ ((value.listed owned).count identity : Nat)) :
    (listedBelow origin identity id).encard ≤ (((Json.array items).listed owned).count identity : Nat) := by
  have hshows := h.shows_it
  rw [Json.normal, Json.normalItems_eq] at hshows
  have hcover : listedBelow origin identity id ⊆ {element | ∃ k value, items[k]? = some value ∧
      element ∈ listedIn origin identity id (.index k)} := by
    intro element helement
    obtain ⟨position, hin⟩ := exists_listedIn horigin.wellFormed helement
    have ⟨_, _, child, hslot, _⟩ := hin
    cases position with
    | field name =>
        rw [slotAt?_field] at hslot
        have hfield := mem_of_field? hslot
        rw [fields, isArray_iff.mp (isArray_of_shows hshows)] at hfield
        cases hfield
    | index k =>
        have hsome := (hshows.item k).1
        rw [hslot, Option.isSome_some, eq_comm, isSome_getElem?, List.length_map] at hsome
        exact ⟨k, items[k], List.getElem?_eq_getElem hsome, hin⟩
  have hbound : ∀ k value, items[k]? = some value → (listedIn origin identity id (.index k)).encard ≤
      (((if owned then value.identity?.toList else []).count identity + (value.listed false).count identity : Nat) :
        ℕ∞) := by
    intro k value hk
    obtain ⟨slot, hslot, -, hloaded⟩ := h.item horigin hacyclic hk
    refine encard_listedIn_index horigin.unshared hslot (fun child hchild howned hidentity => ?_) fun child hchild =>
      hitems value (List.mem_of_getElem? hk) false child (hloaded child hchild)
    have hvalue : value.identity? = some identity := by
      rw [← value.identity?_normal, (hloaded child hchild).shows_it.identity, hidentity]
    rw [if_pos (h.array_owned_iff.mp howned), hvalue, Option.toList_some, List.count_singleton_self]
  calc (listedBelow origin identity id).encard
    _ ≤ _ := Set.encard_le_encard hcover
    _ ≤ _ := encard_le_sum hbound
    _ = _ := by rw [← Json.count_listedItems, Json.listed]

/-- There are no more listed elements with an identity below a node than the value in it lists. -/
theorem encard_listedBelow {value : Json} (h : LoadedAt origin owned value id) :
    (listedBelow origin identity id).encard ≤ ((value.listed owned).count identity : Nat) := by
  induction value using Json.induct generalizing owned id with
  | scalar value hscalar =>
      have hcontainer := h.shows_it.isContainer
      rw [value.isContainer_normal, hscalar] at hcontainer
      cases hcontainer
  | array items ih =>
      exact encard_listedBelow_array horigin hacyclic h fun value hvalue _ _ hloaded => ih value hvalue hloaded
  | object members ih =>
      exact encard_listedBelow_object horigin hacyclic h fun member hmember _ _ hloaded => ih member hmember hloaded

end

/-! ### Documents -/

theorem source_ofJson {document : Json} (hordered : document.Ordered) : (ofJson document).Source :=
  ⟨(ofJson_spec hordered).1, unshared_ofJson document, document, (ofJson_spec hordered).2.1⟩

theorem loadedAt_root {document : Json} (hordered : document.Ordered) {root : Nat}
    (hroot : (ofJson document).root = .node root) : LoadedAt (ofJson document) false document root := by
  have hshows := (ofJson_spec hordered).2.2
  rw [hroot] at hshows
  refine ⟨hshows, ?_⟩
  have hfree : ∀ id name, (ofJson document).Owned id → (ofJson document).field? id name ≠ some (.node root) :=
    fun id name _ hfield => not_points_root hordered hroot id (Carries.points ⟨name, hfield⟩)
  rw [(Endowed.refl (acyclic_ofJson hordered)).owned_iff hfree, ← hshows.identity, Json.identity?_normal]
  exact ⟨.inr, fun h => h.resolve_left Bool.false_ne_true⟩

/-- The identity of a contested element is listed twice. -/
theorem two_le_count_of_contested {document : Json} (hordered : document.Ordered) {root : Nat}
    (hroot : (ofJson document).root = .node root) {child : Nat} {identity : String}
    (hlisted : (ofJson document).Listed child) (hcontested : (ofJson document).Contested child)
    (hidentity : (ofJson document).identity? child = some identity) :
    2 ≤ (document.listed false).count identity := by
  obtain ⟨rival, text, hne, hrival, htext, hrivalText⟩ := hcontested
  cases hidentity.symm.trans htext
  have hbelow : ∀ {element}, (ofJson document).Listed element →
      Relation.TransGen (ofJson document).Points root element := by
    rintro element ⟨array, -, hitem⟩
    have hpoints : (ofJson document).Points array element := points_iff.mpr (.inr hitem)
    obtain ⟨node, hnode, -⟩ := exists_slot_of_points hpoints
    exact .tail' (reaches_ofJson hordered hroot (List.getElem?_eq_some_iff.mp hnode).1) hpoints
  have hpair : {rival, child} ⊆ listedBelow (ofJson document) identity root := by
    rintro element (rfl | rfl)
    · exact ⟨hrival, hrivalText, hbelow hrival⟩
    · exact ⟨hlisted, hidentity, hbelow hlisted⟩
  have hcount := (Set.encard_le_encard hpair).trans <|
    encard_listedBelow (source_ofJson hordered) (acyclic_ofJson hordered) (loadedAt_root hordered hroot)
  rw [Set.encard_pair hne] at hcount
  exact_mod_cast hcount

/-- The identities that last in a loaded value are led to from its node. -/
theorem bears_of_lasting (horigin : origin.Source) (hacyclic : origin.Acyclic) {identities : List String}
    (hcontested : ∀ child identity, origin.Listed child → origin.Contested child →
      origin.identity? child = some identity → 2 ≤ identities.count identity) {value : Json} {owned : Bool} {id : Nat}
    (h : LoadedAt origin owned value id) {identity : String} (hlasting : identity ∈ value.lasting identities owned) :
    Bears origin origin (fun _ _ => False) identity id := by
  obtain ⟨whole, hnative⟩ := horigin.native
  -- a slot that shows a value in which an identity lasts is a node
  have hnode : ∀ {id : Nat} {position : Position} {slot : Slot} {value : Json} {owned : Bool},
      origin.slotAt? id position = some slot → origin.Shows slot value.normal →
      identity ∈ value.lasting identities owned → ∃ child, slot = .node child := by
    intro id position slot value owned hslot hshows hlasting
    refine exists_node_of_shows (fun w hw => hnative.plain (hw ▸ hslot)) hshows ?_
    rw [value.isContainer_normal]
    by_contra hscalar
    rw [Json.lasting_scalar (Bool.eq_false_iff.mpr hscalar)] at hlasting
    cases hlasting
  induction value using Json.induct generalizing owned id with
  | scalar value hscalar =>
      rw [Json.lasting_scalar hscalar] at hlasting
      cases hlasting
  | object members ih =>
      rcases List.mem_append.mp hlasting with hown | hinside
      · refine .here not_false ?_
        rw [← h.shows_it.identity, Json.identity?_normal]
        exact Option.mem_toList.mp hown
      · obtain ⟨⟨name, value⟩, hmember, hvalue⟩ := Json.mem_lastingMembers.mp hinside
        obtain ⟨slot, hslot, hshows, hloaded⟩ := h.member horigin hacyclic hmember
        obtain ⟨child, rfl⟩ := hnode ((origin.slotAt?_field id name).trans hslot) hshows hvalue
        exact .field not_false hslot (ih _ hmember (hloaded child rfl) hvalue)
  | array items ih =>
      obtain ⟨value, hitem, hclear, hvalue⟩ := Json.mem_lastingItems.mp hlasting
      obtain ⟨k, hk⟩ := List.mem_iff_getElem?.mp hitem
      obtain ⟨slot, hslot, hshows, hloaded⟩ := h.item horigin hacyclic hk
      obtain ⟨child, rfl⟩ := hnode hslot hshows hvalue
      have hchild := mem_items_of_slotAt? hslot
      refine .item hchild (fun howned hrival => ?_) (ih value hitem (hloaded child rfl) hvalue)
      have ⟨_, text, _, _, htext, _⟩ := hrival
      have hidentity : value.identity? = some text := by rw [← value.identity?_normal, hshows.identity, htext]
      have htwice := hcontested child text ⟨id, howned, hchild⟩ hrival htext
      rw [Json.contested, h.array_owned_iff.mp howned, hidentity] at hclear
      exact absurd (decide_eq_true htwice) (Bool.eq_false_iff.mp hclear)

/-- A document without canonical copies is expanded by merging alone. -/
theorem inlineRefs_ofJson_of_none {document : Json} (hordered : document.Ordered)
    (hfree : document.get? refsName = none) : (ofJson document).inlineRefs = ofJson document := by
  cases hroot : (ofJson document).root with
  | value value => rw [inlineRefs, hroot]
  | node root =>
      refine inlineRefs_of_none hroot ?_
      have hshows := (ofJson_spec hordered).2.2
      rw [hroot] at hshows
      by_contra hsome
      obtain ⟨slot, hslot⟩ := Option.ne_none_iff_exists'.mp hsome
      obtain ⟨members, hmembers⟩ := exists_members_of_shows hshows (isObject_of_mem_fields (mem_of_field? hslot))
      rw [hmembers] at hshows
      obtain ⟨value, hvalue⟩ := exists_of_isSome_eq (hshows.field refsName).1 hslot
      have hget := document.get?_normal refsName
      rw [hfree, hmembers] at hget
      cases hvalue.symm.trans hget

/-- **What lasts is still there.** A document without canonical copies is expanded, and each identity that stands in it
outside contested elements of the arrays of entities stands in what comes of it. -/
theorem expand_lasting {document : Json} (hordered : document.Ordered) (hfree : document.get? refsName = none) :
    ∃ expanded, expandJson document = .ok expanded ∧ ∀ identity ∈ document.lasting (document.listed false) false,
      ∃ part ∈ expanded.parts, part.identity? = some identity := by
  obtain ⟨back, hback, hshown⟩ := exists_expanded hordered
  refine ⟨back, hback, fun identity hlasting => ?_⟩
  have horigin := source_ofJson hordered
  have hacyclic := acyclic_ofJson hordered
  have hgrows := grows_unified horigin hacyclic
  rw [expanded, inlineRefs_ofJson_of_none hordered hfree, hgrows.endowed.regroups.root] at hshown
  cases hroot : (ofJson document).root with
  | value value =>
      have hscalar : document.isContainer = false := by
        cases document <;> first | rfl | cases hroot
      rw [Json.lasting_scalar hscalar] at hlasting
      cases hlasting
  | node root =>
      rw [hroot] at hshown
      have hbears := bears_of_lasting horigin hacyclic (fun _ _ => two_le_count_of_contested hordered hroot)
        (loadedAt_root hordered hroot) hlasting
      obtain ⟨object, hreach, hidentity⟩ := (hgrows.bears identity root hbears).exists_reached
      obtain ⟨w, hw, hpart⟩ := hshown.of_reaches hreach
      rw [back.parts_normal] at hpart
      obtain ⟨part, hinside, rfl⟩ := List.mem_map.mp hpart
      exact ⟨part, hinside, by rw [← part.identity?_normal, hw.identity, hidentity]⟩

/-- Both copies list `u`, so nothing is said of it and of `a`, which it holds; what only one copy has, and what only one
lists, is still there. -/
theorem expand_lasting_listed :
    let document : Json := .object [
      ("x", .object [("id", .string "x"),
        ("l", .array [.object [("id", .string "u"), ("o", .object [("id", .string "a")])],
          .object [("id", .string "v")]])]),
      ("y", .object [("id", .string "x"), ("l", .array [.object [("id", .string "u")]]),
        ("m", .object [("id", .string "b")])])]
    document.Ordered ∧ document.get? refsName = none ∧
      document.lasting (document.listed false) false = ["x", "v", "x", "b"] ∧
      ∃ expanded, expandJson document = .ok expanded ∧ (∃ part ∈ expanded.parts, part.identity? = some "v") ∧
        ∃ part ∈ expanded.parts, part.identity? = some "b" := by
  intro document
  have hordered : document.Ordered := by decide
  have hfree : document.get? refsName = none := by decide
  have hlasting : document.lasting (document.listed false) false = ["x", "v", "x", "b"] := by decide
  obtain ⟨expanded, hexpanded, hlasts⟩ := expand_lasting hordered hfree
  rw [hlasting] at hlasts
  exact ⟨hordered, hfree, hlasting, expanded, hexpanded, hlasts "v" (by decide), hlasts "b" (by decide)⟩

/-- Not every identity lasts. The copies of `x` list `u` twice, with owners `a` and `b`; the second `u` counts as the
first, and `b` is gone with it. -/
theorem expand_drops_identity :
    let document : Json := .object [
      ("x", .object [("id", .string "x"),
        ("l", .array [.object [("id", .string "u"), ("o", .object [("id", .string "a")])]])]),
      ("y", .object [("id", .string "x"),
        ("l", .array [.object [("id", .string "u"), ("o", .object [("id", .string "b")])]])])]
    document.Ordered ∧ (∀ part ∈ document.parts, part.get? refsName = none) ∧
      (∃ part ∈ document.parts, part.identity? = some "b") ∧
      ∃ expanded, expandJson document = .ok expanded ∧ ∀ part ∈ expanded.parts, part.identity? ≠ some "b" := by
  intro document
  let copy : Json := .object [("id", .string "x"),
    ("l", .array [.object [("id", .string "u"), ("o", .object [("id", .string "a")])]])]
  have hexpanded : expandJson document = .ok (.object [("x", copy), ("y", copy)]) := by
    unfold document copy
    rfl
  exact ⟨by decide, by decide, by decide, _, hexpanded, by decide⟩

end Graph

end Dossier
