import Dossier.Proofs.Graph.Settled

/-!
A union of two objects that stand at one path, one of them in front and the other in another copy. It is a row of
steps, each of which deals with the fields of one name and with what is below them; a step settles the two objects
there and leaves the other names as they are. **`unite_spec`** is the main statement: a union settles the two
objects, and it leaves the front alone if that covered the other copy before.
-/

namespace Dossier.Graph

variable {layout : Layout} {first copy : Nat} {path : List String} {g middle next : Graph} {a b : Nat} {name : String}

/-- Two nodes at one path, in front and in another copy. -/
structure Meets (layout : Layout) (first copy : Nat) (path : List String) (g : Graph) (a b : Nat) : Prop where
  front : g.Front first a
  distinct : a ≠ b
  left : layout.place a = some path
  right : layout.place b = some path
  copy : layout.copy b = copy

theorem Meets.outside (hlaid : Laid layout first g) (h : Meets layout first copy path g a b) :
    ¬g.Front first b := fun hfront => h.distinct (h.front.eq_of_place hlaid hfront (h.left.trans h.right.symm))

theorem Meets.advance (hlaid : Laid layout first g) {below : List String}
    (hadvances : Advances layout first copy below g next) (h : Meets layout first copy path g a b) :
    Meets layout first copy path next a b :=
  ⟨hadvances.front_mono hlaid h.front, h.distinct, h.left, h.right, h.copy⟩

/-- Nodes in fields of one name meet in turn, unless they are one. -/
theorem Meets.field (hlaid : Laid layout first g) (h : Meets layout first copy path g a b) {x y : Nat}
    (hx : g.field? a name = some (.node x)) (hy : g.field? b name = some (.node y)) (hne : x ≠ y) :
    Meets layout first copy (path ++ [name]) g x y := by
  have hxplace := hlaid.field (mem_of_field? hx)
  have hyplace := hlaid.field (mem_of_field? hy)
  rw [h.left] at hxplace
  rw [h.right] at hyplace
  have hfront : g.Front first x := .field h.front (mem_of_field? hx)
  refine ⟨hfront, hne, hxplace, hyplace, ?_⟩
  rcases hlaid.kin (mem_of_field? hy) with hcopy | hyfront
  · exact hcopy.trans h.copy
  · exact absurd (hfront.eq_of_place hlaid hyfront (hxplace.trans hyplace.symm)) hne

/-! ### One name -/

/-- What stands under the name at the path, or further down. -/
def Below (layout : Layout) (path : List String) (name : String) (id : Nat) : Prop :=
  ∃ rest, layout.place id = some (path ++ name :: rest)

theorem Laid.below_closed (hlaid : Laid layout first g) {id target : Nat} (hid : Below layout path name id)
    {key : String} (hfield : (key, .node target) ∈ g.fields id) : Below layout path name target := by
  obtain ⟨rest, hrest⟩ := hid
  exact ⟨rest ++ [key], by rw [hlaid.field hfield, hrest, Option.map_some, List.append_assoc, List.cons_append]⟩

theorem Laid.below_of_field? (hlaid : Laid layout first g) (ha : layout.place a = some path) {target : Nat}
    (hfield : g.field? a name = some (.node target)) : Below layout path name target :=
  ⟨[], by rw [hlaid.field (mem_of_field? hfield), ha]; rfl⟩

/-- The two objects are settled in the fields of the name. -/
structure Matched (g : Graph) (a b : Nat) (name : String) : Prop where
  slots : ∃ left right, g.field? a name = some left ∧ g.field? b name = some right ∧ g.Agree left right
  united : ∀ x y, g.United a b name x y → g.Settled x y

/-- The first object covers the second in the fields of the name. -/
structure Covered (g : Graph) (a b : Nat) (name : String) : Prop where
  slots : ∀ right, g.field? b name = some right → ∃ left, g.field? a name = some left ∧ g.Outdoes left right
  united : ∀ x y, g.United a b name x y → g.Covers x y

theorem Matched.covered (h : g.Matched a b name) : g.Covered a b name := by
  obtain ⟨left, right, hleft, hright, hagree⟩ := h.slots
  refine ⟨fun other hother => ?_, fun x y hunited => (h.united x y hunited).covers⟩
  cases hright.symm.trans hother
  exact ⟨left, hleft, hagree.outdoes⟩

theorem Covers.covered (h : g.Covers a b) (hne : a ≠ b) (name : String) : g.Covered a b name := by
  cases h with
  | self => exact absurd rfl hne
  | fields hslots hunited => exact ⟨hslots name, hunited name⟩

/-- Fields with the same slot are settled. -/
theorem matched_of_same {left right : Slot} (hleft : g.field? a name = some left)
    (hright : g.field? b name = some right) (hsame : left.same right = true) : g.Matched a b name := by
  refine ⟨⟨left, right, hleft, hright, .same hsame⟩, fun x y hunited => ?_⟩
  cases hleft.symm.trans hunited.left
  cases hright.symm.trans hunited.right
  rw [eq_of_same hsame]
  exact .self y

theorem not_covered_of_nothing {left right : Slot} (hleft : g.field? a name = some left)
    (hright : g.field? b name = some right) (hnothing : left.truthy = false) (htruthy : right.truthy = true) :
    ¬g.Covered a b name := by
  intro h
  obtain ⟨other, hother, houtdoes⟩ := h.slots right hright
  cases hleft.symm.trans hother
  cases houtdoes with
  | same hsame => cases hnothing.symm.trans ((truthy_of_same hsame).trans htruthy)
  | nothing hright => cases hright.symm.trans htruthy
  | something hleft _ => cases hnothing.symm.trans hleft

/-- Changes of the fields of some names of two objects, and of what is below, which settle the two there. -/
structure Settles (layout : Layout) (first copy : Nat) (path : List String) (a b : Nat) (names : List String)
    (g next : Graph) : Prop where
  advances : Advances layout first copy path g next
  left : ∀ name, name ∉ names → next.field? a name = g.field? a name
  right : ∀ name, name ∉ names → next.field? b name = g.field? b name
  apart : ∀ id, id ≠ a → id ≠ b → (∀ name ∈ names, ¬Below layout path name id) → next.nodes[id]? = g.nodes[id]?
  matched : ∀ name ∈ names, next.Matched a b name
  covered : (∀ name ∈ names, g.Covered a b name) → ∀ id, g.Front first id → next.nodes[id]? = g.nodes[id]?

namespace Settles

variable {names : List String}

/-- What is below other names stays. -/
theorem below (hmeets : Meets layout first copy path g a b)
    (h : Settles layout first copy path a b names g next) (hname : name ∉ names) {id : Nat}
    (hid : Below layout path name id) : next.nodes[id]? = g.nodes[id]? := by
  obtain ⟨rest, hrest⟩ := hid
  have hdeep : ∀ {other : Nat}, layout.place other = some path → id ≠ other := by
    rintro other hother rfl
    exact deeper_ne (hother.symm.trans hrest)
  refine h.apart id (hdeep hmeets.left) (hdeep hmeets.right) ?_
  rintro other hmem ⟨rest', hrest'⟩
  have heq := List.append_cancel_left (Option.some_inj.mp (hrest.symm.trans hrest'))
  obtain rfl := (List.cons.inj heq).1
  exact hname hmem

theorem keeps_matched (hlaid : Laid layout first g) (hmeets : Meets layout first copy path g a b)
    (h : Settles layout first copy path a b names g next) (hname : name ∉ names) (hmatched : g.Matched a b name) :
    next.Matched a b name := by
  have hkept : ∀ id, Below layout path name id → next.nodes[id]? = g.nodes[id]? :=
    fun id hid => h.below hmeets hname hid
  have ha : ∀ id, g.field? a name = some (.node id) → Below layout path name id :=
    fun _ => hlaid.below_of_field? hmeets.left
  have hb : ∀ id, g.field? b name = some (.node id) → Below layout path name id :=
    fun _ => hlaid.below_of_field? hmeets.right
  obtain ⟨left, right, hleft, hright, hagree⟩ := hmatched.slots
  refine ⟨⟨left, right, (h.left name hname).trans hleft, (h.right name hname).trans hright, ?_⟩,
    fun x y hunited => ?_⟩
  · exact hagree.frame hkept (fun id hid => ha id (hid ▸ hleft)) fun id hid => hb id (hid ▸ hright)
  · obtain ⟨hunited, hx, hy⟩ := united_congr hkept (h.left name hname) (h.right name hname) ha hb hunited
    exact (hmatched.united x y hunited).frame hkept (fun id hid key target => hlaid.below_closed hid) hx hy

theorem keeps_covered (hlaid : Laid layout first g) (hmeets : Meets layout first copy path g a b)
    (h : Settles layout first copy path a b names g next) (hname : name ∉ names) (hcovered : g.Covered a b name) :
    next.Covered a b name := by
  have hkept : ∀ id, Below layout path name id → next.nodes[id]? = g.nodes[id]? :=
    fun id hid => h.below hmeets hname hid
  have ha : ∀ id, g.field? a name = some (.node id) → Below layout path name id :=
    fun _ => hlaid.below_of_field? hmeets.left
  have hb : ∀ id, g.field? b name = some (.node id) → Below layout path name id :=
    fun _ => hlaid.below_of_field? hmeets.right
  have hinert : ∀ id, layout.place id = none → next.nodes[id]? = g.nodes[id]? := fun _ => h.advances.inert
  refine ⟨fun right hright => ?_, fun x y hunited => ?_⟩
  · rw [h.right name hname] at hright
    obtain ⟨left, hleft, houtdoes⟩ := hcovered.slots right hright
    refine ⟨left, (h.left name hname).trans hleft, houtdoes.grow h.advances.regroups
      (fun _ _ _ hl _ hr => sameElement_congr hlaid h.advances.regroups.size hinert hl hr) (fun _ => rfl)
      fun x y hx hy => .inr ⟨?_, items_congr (hkept y (hb y (hy ▸ hright)))⟩⟩
    rw [items_congr (hkept x (ha x (hx ▸ hleft)))]
  · obtain ⟨hunited, -, hy⟩ := united_congr hkept (h.left name hname) (h.right name hname) ha hb hunited
    refine (hcovered.united x y hunited).grow hlaid h.advances.regroups hinert h.advances.grown
      (fun id hid key target hfield => .inl (hlaid.below_closed hid hfield)) (fun id hid _ => hkept id hid)
      (.field hmeets.front (mem_of_field? hunited.left)) ?_ (.inl hy)
    rw [hlaid.field (mem_of_field? hunited.left), hlaid.field (mem_of_field? hunited.right), hmeets.left, hmeets.right]

theorem nil (hlaid : Laid layout first g) : Settles layout first copy path a b [] g g :=
  ⟨.refl hlaid, fun _ _ => rfl, fun _ _ => rfl, fun _ _ _ _ => rfl, nofun, fun _ _ _ => rfl⟩

theorem trans (hlaid : Laid layout first g) (hmeets : Meets layout first copy path g a b) {more : List String}
    (h : Settles layout first copy path a b names g middle)
    (h' : Settles layout first copy path a b more middle next) (hdisjoint : ∀ name ∈ names, name ∉ more) :
    Settles layout first copy path a b (names ++ more) g next where
  advances := h.advances.trans hlaid h'.advances
  left name hname := by
    rw [List.mem_append, not_or] at hname
    exact (h'.left name hname.2).trans (h.left name hname.1)
  right name hname := by
    rw [List.mem_append, not_or] at hname
    exact (h'.right name hname.2).trans (h.right name hname.1)
  apart id ha hb hid :=
    (h'.apart id ha hb fun name hname => hid name (List.mem_append_right _ hname)).trans
      (h.apart id ha hb fun name hname => hid name (List.mem_append_left _ hname))
  matched name hname := by
    rcases List.mem_append.mp hname with hold | hnew
    · exact h'.keeps_matched h.advances.laid (hmeets.advance hlaid h.advances) (hdisjoint name hold)
        (h.matched name hold)
    · exact h'.matched name hnew
  covered hcovered id hid := by
    have hkept := h.covered (fun name hname => hcovered name (List.mem_append_left _ hname)) id hid
    refine (h'.covered (fun name hname => ?_) id (h.advances.front_mono hlaid hid)).trans hkept
    exact h.keeps_covered hlaid hmeets (fun hold => hdisjoint name hold hname)
      (hcovered name (List.mem_append_right _ hname))

end Settles

/-- Steps for distinct names settle them all, if each step settles its own as long as it is ready to, and is not
affected by the others. -/
theorem settles_foldl {step : Graph → String × Slot → Graph} {R : Graph → String × Slot → Prop}
    (hkept : ∀ {middle next names field}, Laid layout first middle → Meets layout first copy path middle a b →
      Settles layout first copy path a b names middle next → field.1 ∉ names → R middle field → R next field)
    (hstep : ∀ {middle field}, Laid layout first middle → Meets layout first copy path middle a b →
      R middle field → Settles layout first copy path a b [field.1] middle (step middle field))
    {fields : List (String × Slot)} (hdistinct : (fields.map Prod.fst).Nodup) (hlaid : Laid layout first g)
    (hmeets : Meets layout first copy path g a b) (hready : ∀ field ∈ fields, R g field) :
    Settles layout first copy path a b (fields.map Prod.fst) g (fields.foldl step g) := by
  induction fields generalizing g with
  | nil => exact .nil hlaid
  | cons field rest ih =>
      rw [List.map_cons, List.nodup_cons] at hdistinct
      have hfirst := hstep hlaid hmeets (hready field List.mem_cons_self)
      have hother : ∀ later ∈ rest, later.1 ∉ [field.1] := by
        intro later hlater heq
        rw [← List.mem_singleton.mp heq] at hdistinct
        exact hdistinct.1 (List.mem_map_of_mem hlater)
      have hrest := ih hdistinct.2 hfirst.advances.laid (hmeets.advance hlaid hfirst.advances) fun later hlater =>
        hkept hlaid hmeets hfirst (hother later hlater) (hready later (List.mem_cons_of_mem _ hlater))
      refine hfirst.trans hlaid hmeets hrest fun name hname => ?_
      rw [List.mem_singleton.mp hname]
      exact hdistinct.1

/-! ### Steps -/

/-- Where the two objects are settled, nothing has to be done. -/
theorem Matched.settles (hlaid : Laid layout first g) (h : g.Matched a b name) :
    Settles layout first copy path a b [name] g g :=
  ⟨.refl hlaid, fun _ _ => rfl, fun _ _ => rfl, fun _ _ _ _ => rfl,
    fun _ hname => List.mem_singleton.mp hname ▸ h, fun _ _ _ => rfl⟩

/-- One of the two objects is given the slot of the other. -/
theorem settles_setField {target : Nat} (htarget : target = a ∨ target = b) (hobject : g.isObject target = true)
    {slot : Slot} (hadvances : Advances layout first copy path g (g.setField target name slot))
    (hother : ∀ id, id = a ∨ id = b → id ≠ target → g.field? id name = some slot)
    (hfront : g.Covered a b name → ¬g.Front first target) :
    Settles layout first copy path a b [name] g (g.setField target name slot) := by
  have hget := field?_setField hobject name slot
  have hframe : ∀ id key, key ∉ [name] → (g.setField target name slot).field? id key = g.field? id key :=
    fun id key hkey => (hget id key).trans (if_neg fun h => hkey (List.mem_singleton.mpr h.2))
  have hboth : ∀ id, id = a ∨ id = b → (g.setField target name slot).field? id name = some slot := by
    intro id hid
    rw [hget]
    by_cases heq : id = target
    · rw [if_pos ⟨heq, rfl⟩]
    · rw [if_neg fun h => heq h.1, hother id hid heq]
  refine ⟨hadvances, hframe a, hframe b, fun id ha hb _ => ?_, fun key hkey => ?_, fun hcovered id hid => ?_⟩
  · exact getElem?_setField_of_ne (fun heq => (heq ▸ htarget).elim ha hb) name slot
  · rw [List.mem_singleton.mp hkey]
    exact matched_of_same (hboth a (.inl rfl)) (hboth b (.inr rfl)) (slot_same_refl slot)
  · refine getElem?_setField_of_ne ?_ name slot
    rintro rfl
    exact hfront (hcovered name (List.mem_singleton_self name)) hid

/-- The object in front takes what it has not. -/
theorem settles_adopt_front (hlaid : Laid layout first g) (hmeets : Meets layout first copy path g a b)
    (hobject : g.isObject a = true) {slot : Slot} (hslot : g.field? b name = some slot)
    (hnothing : ∀ old, g.field? a name = some old → old.truthy = false) (hlacks : ¬g.Covered a b name) :
    Settles layout first copy path a b [name] g (g.adopt a name slot) := by
  rw [adopt_eq hlaid (mem_of_field? hslot) hmeets.left hmeets.right]
  refine settles_setField (.inl rfl) hobject ?_ ?_ fun hcovered => absurd hcovered hlacks
  · exact advances_setField_front hlaid hmeets.front hobject hmeets.left hmeets.right hmeets.copy (mem_of_field? hslot)
      hnothing
  · rintro id (rfl | rfl) hne
    · exact absurd rfl hne
    · exact hslot

/-- The other object takes what is in front. -/
theorem settles_adopt_copy (hlaid : Laid layout first g) (hmeets : Meets layout first copy path g a b)
    (hobject : g.isObject b = true) {slot : Slot} (hslot : g.field? a name = some slot) :
    Settles layout first copy path a b [name] g (g.adopt b name slot) := by
  have houtside := hmeets.outside hlaid
  rw [adopt_eq hlaid (mem_of_field? hslot) hmeets.right hmeets.left]
  refine settles_setField (.inr rfl) hobject ?_ ?_ fun _ => houtside
  · exact advances_setField_copy hlaid hmeets.front houtside hmeets.left hmeets.right hmeets.copy (mem_of_field? hslot)
  · rintro id (rfl | rfl) hne
    · exact hslot
    · exact absurd rfl hne

/-- Changes below one name do not change the two objects. -/
theorem settles_below (hmeets : Meets layout first copy path g a b)
    (hadvances : Advances layout first copy (path ++ [name]) g next) (hmatched : next.Matched a b name)
    (hcovered : g.Covered a b name → ∀ id, g.Front first id → next.nodes[id]? = g.nodes[id]?) :
    Settles layout first copy path a b [name] g next := by
  refine ⟨hadvances.widen, fun other _ => field?_congr (hadvances.at_path hmeets.left) other,
    fun other _ => field?_congr (hadvances.at_path hmeets.right) other, fun id _ _ hid => ?_, fun other hother => ?_,
    fun h => hcovered (h name (List.mem_singleton_self name))⟩
  · refine hadvances.frame id fun rest hrest => hid name (List.mem_singleton_self name) ⟨rest, ?_⟩
    rw [hrest, List.append_assoc, List.singleton_append]
  · rw [List.mem_singleton.mp hother]
    exact hmatched

/-- Two arrays are joined. -/
theorem settles_arrays (hlaid : Laid layout first g) (hmeets : Meets layout first copy path g a b) {x y : Nat}
    (hx : g.field? a name = some (.node x)) (hy : g.field? b name = some (.node y)) (hne : x ≠ y)
    (hxarray : g.isArray x = true) (hyarray : g.isArray y = true) :
    Settles layout first copy path a b [name] g
      ((g.adoptItems x (g.joinedItems x y)).adoptItems y (g.joinedItems x y)) := by
  have hbelow := hmeets.field hlaid hx hy hne
  have hjoined : ∀ slot ∈ g.joinedItems x y, ∃ source, slot ∈ g.items source := fun slot hslot =>
    (mem_joinedItems hslot).elim (fun h => ⟨x, h⟩) fun h => ⟨y, h⟩
  rw [adoptItems_both hlaid hxarray hbelow.left hbelow.right hjoined]
  have hadvances := advances_join hlaid hbelow.front (hbelow.outside hlaid) hxarray hyarray hbelow.left hbelow.right
    hbelow.copy (prefix_joinedItems g x y) hjoined
  have hx' := (field?_congr (hadvances.at_path hmeets.left) name).trans hx
  have hy' := (field?_congr (hadvances.at_path hmeets.right) name).trans hy
  refine settles_below hmeets hadvances ⟨⟨.node x, .node y, hx', hy', ?_⟩, fun u w hunited => ?_⟩
    fun hcovered id hid => ?_
  · refine .something rfl rfl fun u w hu hw _ _ => ?_
    cases hu
    cases hw
    rw [items_join hxarray hyarray _ (.inl rfl), items_join hxarray hyarray _ (.inr rfl)]
  · cases hx'.symm.trans hunited.left
    have hobject := (hadvances.regroups.isObject x).symm.trans hunited.isObject_left
    rw [isObject, isArray_iff.mp hxarray] at hobject
    cases hobject
  · -- a cover has all elements already
    obtain ⟨left, hleft, houtdoes⟩ := hcovered.slots (.node y) hy
    cases hx.symm.trans hleft
    have hall : g.joinedItems x y = g.items x := by
      cases houtdoes with
      | same hsame => exact absurd (eq_of_same hsame) hne
      | nothing hnothing => cases hnothing
      | something _ hitems => exact joinedItems_of_any (hitems x y rfl rfl hxarray hyarray)
    rw [getElem?_join hxarray hyarray]
    split
    · rename_i hjoin
      rcases hjoin with rfl | rfl
      · rw [hall, isArray_iff.mp hxarray]
      · exact absurd hid (hbelow.outside hlaid)
    · rfl

/-- What a union of two objects does. -/
structure Unites (layout : Layout) (first copy : Nat) (path : List String) (a b : Nat) (g next : Graph) : Prop where
  advances : Advances layout first copy path g next
  settled : next.Settled a b
  covers : g.Covers a b → ∀ id, g.Front first id → next.nodes[id]? = g.nodes[id]?

/-- Two objects below are united. -/
theorem settles_objects (hmeets : Meets layout first copy path g a b) {x y : Nat}
    (hx : g.field? a name = some (.node x)) (hy : g.field? b name = some (.node y)) (hxobject : g.isObject x = true)
    (hyobject : g.isObject y = true) (hinline : g.identity? x = none ∨ g.identity? y = none)
    (hunites : Unites layout first copy (path ++ [name]) x y g next) :
    Settles layout first copy path a b [name] g next := by
  have hx' := (field?_congr (hunites.advances.at_path hmeets.left) name).trans hx
  have hy' := (field?_congr (hunites.advances.at_path hmeets.right) name).trans hy
  refine settles_below hmeets hunites.advances ⟨⟨.node x, .node y, hx', hy', ?_⟩, fun u w hunited => ?_⟩
    fun hcovered => hunites.covers (hcovered.united x y ⟨hx, hy, hxobject, hyobject, hinline⟩)
  · refine .something rfl rfl fun u w hu _ huarray _ => ?_
    cases hu
    rw [hunites.advances.regroups.isArray, isArray, isObject_iff.mp hxobject] at huarray
    cases huarray
  · cases hx'.symm.trans hunited.left
    cases hy'.symm.trans hunited.right
    exact hunites.settled

/-- Two different slots of one name that both hold something. -/
theorem settles_both (hlaid : Laid layout first g) (hmeets : Meets layout first copy path g a b)
    {unite : Nat → Nat → Graph → Graph} {left right : Slot} (hleft : g.field? a name = some left)
    (hright : g.field? b name = some right) (hne : ¬left.same right = true) (hl : left.truthy = true)
    (hr : right.truthy = true) (hunite : ∀ x y, Meets layout first copy (path ++ [name]) g x y →
      g.isObject x = true → g.isObject y = true → Unites layout first copy (path ++ [name]) x y g (unite x y g)) :
    Settles layout first copy path a b [name] g (g.settle unite a b name left right) := by
  -- nothing happens unless both are arrays, or objects one of which has no identity
  have hidle : (∀ x y, left = .node x → right = .node y → ¬(g.isArray x = true ∧ g.isArray y = true) ∧
      ¬(g.isObject x = true ∧ g.isObject y = true ∧ (g.identity? x = none ∨ g.identity? y = none))) →
      Settles layout first copy path a b [name] g g := by
    refine fun hapart => Matched.settles hlaid ⟨⟨left, right, hleft, hright, ?_⟩, fun x y hunited => ?_⟩
    · exact .something hl hr fun x y hx hy hxarray hyarray => absurd ⟨hxarray, hyarray⟩ (hapart x y hx hy).1
    · cases hleft.symm.trans hunited.left
      cases hright.symm.trans hunited.right
      exact absurd ⟨hunited.isObject_left, hunited.isObject_right, hunited.inline⟩ (hapart x y rfl rfl).2
  unfold settle
  rw [hl, hr]
  dsimp only
  split
  · rename_i x y
    have hxy : x ≠ y := fun heq => hne (beq_iff_eq.mpr heq)
    split
    · rename_i harrays
      obtain ⟨hxarray, hyarray⟩ := Bool.and_eq_true_iff.mp harrays
      exact settles_arrays hlaid hmeets hleft hright hxy hxarray hyarray
    · rename_i harrays
      rw [Bool.and_eq_true_iff] at harrays
      split
      · rename_i hobjects
        obtain ⟨hxobject, hyobject⟩ := Bool.and_eq_true_iff.mp hobjects
        split
        · rename_i hinline
          rw [Bool.or_eq_true, Option.isNone_iff_eq_none, Option.isNone_iff_eq_none] at hinline
          exact settles_objects hmeets hleft hright hxobject hyobject hinline
            (hunite x y (hmeets.field hlaid hleft hright hxy) hxobject hyobject)
        · rename_i hinline
          rw [Bool.or_eq_true, Option.isNone_iff_eq_none, Option.isNone_iff_eq_none] at hinline
          refine hidle fun u w hu hw => ?_
          cases hu
          cases hw
          exact ⟨harrays, fun h => hinline h.2.2⟩
      · rename_i hobjects
        rw [Bool.and_eq_true_iff] at hobjects
        refine hidle fun u w hu hw => ?_
        cases hu
        cases hw
        exact ⟨harrays, fun h => hobjects ⟨h.1, h.2.1⟩⟩
  · rename_i hnodes
    exact hidle fun x y hx hy => absurd hy (hnodes x y hx)

/-- A step that brings a field of the other object to the one in front. -/
theorem offer_spec (hlaid : Laid layout first g) (hmeets : Meets layout first copy path g a b)
    (ha : g.isObject a = true) (hb : g.isObject b = true) {unite : Nat → Nat → Graph → Graph} {field : String × Slot}
    (hfield : g.field? b field.1 = some field.2) (hunite : ∀ x y, Meets layout first copy (path ++ [field.1]) g x y →
      g.isObject x = true → g.isObject y = true →
        Unites layout first copy (path ++ [field.1]) x y g (unite x y g)) :
    Settles layout first copy path a b [field.1] g (g.offer unite a b field) := by
  rw [offer]
  split
  · rename_i hnone
    refine settles_adopt_front hlaid hmeets ha hfield (fun old hold => by cases hnone.symm.trans hold) ?_
    intro hcovered
    obtain ⟨left, hleft, -⟩ := hcovered.slots _ hfield
    cases hnone.symm.trans hleft
  · rename_i existing hexisting
    split
    · rename_i hsame
      exact (matched_of_same hexisting hfield hsame).settles hlaid
    · rename_i hdiffer
      cases hl : existing.truthy <;> cases hr : field.2.truthy
      · unfold settle
        rw [hl, hr]
        refine Matched.settles hlaid ⟨⟨existing, field.2, hexisting, hfield, .nothing hl hr⟩, fun x y hunited => ?_⟩
        cases hexisting.symm.trans hunited.left
        cases hl
      · unfold settle
        rw [hl, hr]
        refine settles_adopt_front hlaid hmeets ha hfield (fun old hold => ?_)
          (not_covered_of_nothing hexisting hfield hl hr)
        cases hexisting.symm.trans hold
        exact hl
      · unfold settle
        rw [hl, hr]
        exact settles_adopt_copy hlaid hmeets hb hexisting
      · exact settles_both hlaid hmeets hexisting hfield hdiffer hl hr hunite

/-- A step that brings a field of the object in front to the other. -/
theorem complete_spec (hlaid : Laid layout first g) (hmeets : Meets layout first copy path g a b)
    (hb : g.isObject b = true) {field : String × Slot} (hfield : g.field? a field.1 = some field.2)
    (hmatched : (g.field? b field.1).isSome = true → g.Matched a b field.1) :
    Settles layout first copy path a b [field.1] g (complete b g field) := by
  rw [complete]
  split
  · exact settles_adopt_copy hlaid hmeets hb hfield
  · rename_i hsome
    rw [Option.isNone_iff_eq_none, ← ne_eq, Option.ne_none_iff_isSome] at hsome
    exact (hmatched hsome).settles hlaid

/-! ### Unions -/

/-- Unions under way, each of objects higher up than the path. -/
structure Ongoing (layout : Layout) (path : List String) (g : Graph) (active : List (Nat × Nat)) : Prop where
  nodup : (active.map Prod.fst).Nodup
  isObject : ∀ pair ∈ active, g.isObject pair.1 = true
  higher : ∀ pair ∈ active, ∃ above, layout.place pair.1 = some above ∧ above.length < path.length

namespace Ongoing

variable {active : List (Nat × Nat)}

theorem length_le (h : Ongoing layout path g active) : active.length ≤ g.objectCount := by
  have hsub : active.map Prod.fst ⊆ (List.range g.nodes.length).filter g.isObject := by
    intro id hid
    obtain ⟨pair, hpair, rfl⟩ := List.mem_map.mp hid
    have hobject := h.isObject pair hpair
    have hlt := (List.getElem?_eq_some_iff.mp (isObject_iff.mp hobject)).1
    exact List.mem_filter.mpr ⟨List.mem_range.mpr hlt, hobject⟩
  have hle := (List.subperm_of_subset h.nodup hsub).length_le
  rwa [List.length_map, ← List.countP_eq_length_filter, ← objectCount_eq] at hle

theorem not_mem (h : Ongoing layout path g active) (ha : layout.place a = some path) : (a, b) ∉ active := by
  intro hmem
  obtain ⟨above, habove, hlt⟩ := h.higher _ hmem
  rw [Option.some_inj.mp (habove.symm.trans ha)] at hlt
  exact lt_irrefl _ hlt

/-- Unions below are under way with one more above. -/
theorem push (h : Ongoing layout path g active) (ha : layout.place a = some path) (hobject : g.isObject a = true) :
    Ongoing layout (path ++ [name]) g ((a, b) :: active) := by
  have hlonger : path.length < (path ++ [name]).length := by simp
  refine ⟨?_, fun pair hpair => ?_, fun pair hpair => ?_⟩
  · rw [List.map_cons, List.nodup_cons]
    refine ⟨fun hmem => ?_, h.nodup⟩
    obtain ⟨⟨a, b⟩, hpair, rfl⟩ := List.mem_map.mp hmem
    exact h.not_mem ha hpair
  · rcases List.mem_cons.mp hpair with rfl | hrest
    · exact hobject
    · exact h.isObject pair hrest
  · rcases List.mem_cons.mp hpair with rfl | hrest
    · exact ⟨path, ha, hlonger⟩
    · obtain ⟨above, habove, hlt⟩ := h.higher pair hrest
      exact ⟨above, habove, hlt.trans hlonger⟩

theorem regroup (h : Ongoing layout path g active) (hregroups : Regroups g next) :
    Ongoing layout path next active :=
  ⟨h.nodup, fun pair hpair => (hregroups.isObject pair.1).trans (h.isObject pair hpair), h.higher⟩

end Ongoing

/-- The fields of two objects are settled once all of both are. -/
theorem settled_of_matched (hleft : ∀ name, (g.field? a name).isSome = true → g.Matched a b name)
    (hright : ∀ name, (g.field? b name).isSome = true → (g.field? a name).isSome = true) : g.Settled a b := by
  refine .fields (fun name => ?_) (fun name left right hl hr => ?_) fun name x y hunited => ?_
  · rw [Bool.eq_iff_iff]
    refine ⟨fun hsome => ?_, hright name⟩
    obtain ⟨-, right, -, hfield, -⟩ := (hleft name hsome).slots
    rw [hfield]
    rfl
  · obtain ⟨left', right', hl', hr', hagree⟩ := (hleft name (by rw [hl]; rfl)).slots
    cases hl.symm.trans hl'
    cases hr.symm.trans hr'
    exact hagree
  · exact (hleft name (by rw [hunited.left]; rfl)).united x y hunited

/-- Once all fields of the other object were dealt with, the two are settled in these. -/
theorem Settles.matched_of_isSome (h : Settles layout first copy path a b ((g.fields b).map Prod.fst) g next)
    (hsome : (next.field? b name).isSome = true) : next.Matched a b name := by
  by_cases hname : name ∈ (g.fields b).map Prod.fst
  · exact h.matched name hname
  · rw [h.right name hname] at hsome
    exact absurd (Node.find?_isSome_iff.mp hsome) hname

/-- The two rows of steps together settle the two objects. -/
theorem unites_of_settles (hlaid : Laid layout first g) (hmeets : Meets layout first copy path g a b)
    (hoffered : Settles layout first copy path a b ((g.fields b).map Prod.fst) g middle)
    (hcompleted : Settles layout first copy path a b ((middle.fields a).map Prod.fst) middle next) :
    Unites layout first copy path a b g next := by
  have hmem : ∀ {g : Graph} {id name}, (g.field? id name).isSome = true ↔ name ∈ (g.fields id).map Prod.fst :=
    Node.find?_isSome_iff
  have hmatched : ∀ name, (middle.field? b name).isSome = true → middle.Matched a b name :=
    fun _ => hoffered.matched_of_isSome
  refine ⟨hoffered.advances.trans hlaid hcompleted.advances, settled_of_matched (fun name hsome => ?_)
    fun name hsome => ?_, fun hcovers id hid => ?_⟩
  · by_cases hname : name ∈ (middle.fields a).map Prod.fst
    · exact hcompleted.matched name hname
    · rw [hcompleted.left name hname] at hsome
      exact absurd (hmem.mp hsome) hname
  · by_cases hname : name ∈ (middle.fields a).map Prod.fst
    · obtain ⟨left, -, hleft, -⟩ := (hcompleted.matched name hname).slots
      rw [hleft]
      rfl
    · rw [hcompleted.right name hname] at hsome
      obtain ⟨left, -, hleft, -⟩ := (hmatched name hsome).slots
      rw [hcompleted.left name hname, hleft]
      rfl
  · have hkept := hoffered.covered (fun name _ => hcovers.covered hmeets.distinct name) id hid
    refine (hcompleted.covered (fun name _ => ?_) id (hoffered.advances.front_mono hlaid hid)).trans hkept
    cases hfield : middle.field? b name with
    | some right => exact (hmatched name (by rw [hfield]; rfl)).covered
    | none =>
        refine ⟨fun right hright => ?_, fun x y hunited => ?_⟩
        · cases hfield.symm.trans hright
        · cases hfield.symm.trans hunited.right

/-- **A union settles two objects that meet.** Its depth is not used up: every union under way has another object
in front. -/
theorem unite_spec (depth : Nat) (active : List (Nat × Nat)) (hlaid : Laid layout first g)
    (hmeets : Meets layout first copy path g a b) (ha : g.isObject a = true) (hb : g.isObject b = true)
    (hongoing : Ongoing layout path g active) (hdepth : g.objectCount < depth + active.length) :
    Unites layout first copy path a b g (unite depth active a b g) := by
  induction depth generalizing active g a b path with
  | zero => exact absurd hongoing.length_le (by omega)
  | succ depth ih =>
      have hstart : ¬(a == b || !g.isObject a || !g.isObject b || active.contains (a, b)) = true := by
        simp [hmeets.distinct, ha, hb, hongoing.not_mem hmeets.left]
      rw [unite, if_neg hstart]
      dsimp only
      have hoffered : Settles layout first copy path a b ((g.fields b).map Prod.fst) g
          ((g.fields b).foldl (offer (unite depth ((a, b) :: active)) a b) g) := by
        refine settles_foldl (R := fun middle field => Regroups g middle ∧ middle.field? b field.1 = some field.2)
          ?_ ?_ (hlaid.names b) hlaid hmeets fun field hfield =>
            ⟨.refl g, (mem_fields_iff hlaid.names).mp hfield⟩
        · rintro middle next names field - - hsettles hname ⟨hregroups, hfield⟩
          exact ⟨hregroups.trans hsettles.advances.regroups, (hsettles.right field.1 hname).trans hfield⟩
        · rintro middle field hlaid' hmeets' ⟨hregroups, hfield⟩
          refine offer_spec hlaid' hmeets' ((hregroups.isObject a).trans ha) ((hregroups.isObject b).trans hb) hfield
            fun x y hbelow hx hy => ih _ hlaid' hbelow hx hy ?_ ?_
          · exact (hongoing.regroup hregroups).push hmeets.left ((hregroups.isObject a).trans ha)
          · rw [hregroups.objectCount, List.length_cons]
            omega
      refine unites_of_settles hlaid hmeets hoffered ?_
      have hlaid' := hoffered.advances.laid
      refine settles_foldl (R := fun middle field => middle.isObject b = true ∧
        middle.field? a field.1 = some field.2 ∧ ((middle.field? b field.1).isSome = true → middle.Matched a b field.1))
        ?_ ?_ (hlaid'.names a) hlaid' (hmeets.advance hlaid hoffered.advances) fun field hfield =>
          ⟨(hoffered.advances.regroups.isObject b).trans hb, (mem_fields_iff hlaid'.names).mp hfield, fun hsome => ?_⟩
      · rintro middle next names field hlaid hmeets hsettles hname ⟨hobject, hfield, hmatched⟩
        refine ⟨(hsettles.advances.regroups.isObject b).trans hobject, (hsettles.left field.1 hname).trans hfield,
          fun hsome => ?_⟩
        rw [hsettles.right field.1 hname] at hsome
        exact hsettles.keeps_matched hlaid hmeets hname (hmatched hsome)
      · rintro middle field hlaid hmeets ⟨hobject, hfield, hmatched⟩
        exact complete_spec hlaid hmeets hobject hfield hmatched
      · exact hoffered.matched_of_isSome hsome

end Dossier.Graph
