import Dossier.Proofs.Graph.Inline
import Dossier.Proofs.Graph.Join

/-!
What arrays list after a merge. Where copies are nested in one another, an element can lead to an array that lists its
own copy of it; then the array gives that copy up and does not get the element. **`merge_keeps_listed`** says that
identities are lost from arrays nowhere else. Whether one container leads to another is told from the graph before the
merge, in which containers that may be brought together count as one.
-/

namespace Dossier.Graph

variable {origin g : Graph} {ids : List Nat} {x y : Nat} {identity : String}

/-! ### Akin nodes -/

/-- Nodes that a merge may bring together: those merged, and what akin ones hold in fields of one name, unless both have
identities of their own. -/
inductive Akin (g : Graph) (ids : List Nat) : Nat → Nat → Prop
  | merged {a b : Nat} : a ∈ ids → b ∈ ids → Akin g ids a b
  | field {a b x y : Nat} {name : String} : Akin g ids a b → (name, Slot.node x) ∈ g.fields a →
      (name, Slot.node y) ∈ g.fields b → g.identity? x = none ∨ g.identity? y = none → Akin g ids x y
  | refl (a : Nat) : Akin g ids a a
  | symm {a b : Nat} : Akin g ids a b → Akin g ids b a
  | trans {a b c : Nat} : Akin g ids a b → Akin g ids b c → Akin g ids a c

/-- One node leads to the other, if akin nodes count as one. -/
def Approaches (g : Graph) (ids : List Nat) : Nat → Nat → Prop :=
  Relation.ReflTransGen fun a b => g.Points a b ∨ g.Akin ids a b

/-- Akin nodes have one label, if the labels of nodes in fields go by the object's label and the field's name. -/
theorem Akin.label_eq {label : Nat → Nat} (below : Nat → String → Nat)
    (hfields : ∀ a < g.nodes.length, ∀ field ∈ g.fields a, ∀ x ∈ field.2.target?.toList,
      label x = below (label a) field.1)
    (hids : ∀ a ∈ ids, ∀ b ∈ ids, label a = label b) {a b : Nat} (h : g.Akin ids a b) : label a = label b := by
  have hheld : ∀ {a x : Nat} {name : String}, (name, Slot.node x) ∈ g.fields a → label x = below (label a) name := by
    intro a x name hfield
    have hobject := isObject_iff.mp (isObject_of_mem_fields hfield)
    exact hfields a (List.getElem?_eq_some_iff.mp hobject).1 _ hfield x (List.mem_singleton_self x)
  induction h with
  | merged ha hb => exact hids _ ha _ hb
  | field _ hx hy _ ih => rw [hheld hx, hheld hy, ih]
  | refl => rfl
  | symm _ ih => exact ih.symm
  | trans _ _ ih ih' => exact ih.trans ih'

/-- What a region leads to is in it, if it leaves out no akin nodes. -/
theorem Approaches.inside {a b : Nat} (h : g.Approaches ids a b) (inside : Nat → Prop)
    (hpoints : ∀ a b, g.Points a b → inside a → inside b) (hakin : ∀ a b, g.Akin ids a b → inside a → inside b)
    (ha : inside a) : inside b := by
  induction h with
  | refl => exact ha
  | tail _ hstep ih => exact hstep.elim (fun hstep => hpoints _ _ hstep ih) fun hstep => hakin _ _ hstep ih

/-- An object with the identity leads to the array. -/
def Menaces (g : Graph) (ids : List Nat) (identity : String) (array : Nat) : Prop :=
  ∃ object, g.identity? object = some identity ∧ g.Approaches ids object array

/-- A graph in which containers have got slots of akin ones. -/
structure Mixes (origin : Graph) (ids : List Nat) (g : Graph) : Prop where
  fields : ∀ a field, field ∈ g.fields a → ∃ source, origin.Akin ids a source ∧ field ∈ origin.fields source
  items : ∀ a slot, slot ∈ g.items a → ∃ source, origin.Akin ids a source ∧ slot ∈ origin.items source

theorem Mixes.refl (g : Graph) (ids : List Nat) : Mixes g ids g :=
  ⟨fun a _ h => ⟨a, .refl a, h⟩, fun a _ h => ⟨a, .refl a, h⟩⟩

namespace Mixes

variable (h : Mixes origin ids g)

include h

theorem approaches_of_points {a b : Nat} (hpoints : g.Points a b) : origin.Approaches ids a b := by
  rcases points_iff.mp hpoints with ⟨name, hfield⟩ | hitem
  · obtain ⟨source, hakin, hsource⟩ := h.fields a _ hfield
    exact .head (.inr hakin) (.single (.inl (points_iff.mpr (.inl ⟨name, hsource⟩))))
  · obtain ⟨source, hakin, hsource⟩ := h.items a _ hitem
    exact .head (.inr hakin) (.single (.inl (points_iff.mpr (.inr hsource))))

theorem approaches {a b : Nat} (hreach : g.Reaches a b) : origin.Approaches ids a b := by
  induction hreach with
  | refl => exact .refl
  | tail _ hpoints ih => exact ih.trans (h.approaches_of_points hpoints)

/-- An identity is one that an akin object had. -/
theorem exists_identity (horigin : origin.WellFormed) {id : Nat} (hidentity : g.identity? id = some identity) :
    ∃ source, origin.Akin ids id source ∧ origin.identity? source = some identity := by
  obtain ⟨hfield, htruthy⟩ := identity?_eq_some_iff.mp hidentity
  obtain ⟨source, hakin, hsource⟩ := h.fields id _ (mem_of_field? hfield)
  have hheld : origin.field? source identityName = some (.text identity) :=
    Node.find?_of_mem ((wellFormed_iff.mp horigin).2.1 source) hsource
  exact ⟨source, hakin, identity?_eq_some_iff.mpr ⟨hheld, htruthy⟩⟩

theorem menaces (horigin : origin.WellFormed) {id array : Nat} (hidentity : g.identity? id = some identity)
    (happroaches : origin.Approaches ids id array) : origin.Menaces ids identity array := by
  obtain ⟨source, hakin, hsource⟩ := h.exists_identity horigin hidentity
  exact ⟨source, hsource, .head (.inr hakin.symm) happroaches⟩

theorem adopt {target : Nat} {name : String} {slot : Slot}
    (hsource : ∃ source, origin.Akin ids target source ∧ (name, slot) ∈ origin.fields source) :
    Mixes origin ids (g.adopt target name slot) := by
  refine ⟨fun a field hfield => ?_, fun a item hitem => h.items a item (items_adopt g target name slot a ▸ hitem)⟩
  unfold Graph.adopt at hfield
  split at hfield
  · exact h.fields a field hfield
  · by_cases hobject : g.isObject target = true
    · rw [fields_setField hobject] at hfield
      split at hfield
      · rename_i ha
        subst ha
        rcases Node.mem_assign hfield with rfl | hold
        · exact hsource
        · exact h.fields _ field hold
      · exact h.fields a field hfield
    · rw [setField_of_not_isObject hobject] at hfield
      exact h.fields a field hfield

theorem adoptItems {target : Nat} (harray : g.isArray target = true) {joined : List Slot}
    (hjoined : ∀ slot ∈ joined, ∃ source, origin.Akin ids target source ∧ slot ∈ origin.items source) :
    Mixes origin ids (g.adoptItems target joined) := by
  refine ⟨fun a field hfield => h.fields a field ?_, fun a slot hslot => ?_⟩
  · rwa [Graph.adoptItems, fields_setArray harray] at hfield
  · by_cases ha : a = target
    · subst ha
      rw [Graph.adoptItems, items_setArray harray, if_pos rfl] at hslot
      exact hjoined slot (List.mem_of_mem_filter hslot)
    · rw [items_adoptItems_of_ne harray joined ha] at hslot
      exact h.items a slot hslot

theorem joined (hakin : origin.Akin ids x y) :
    ∀ slot ∈ g.joinedItems x y, ∃ source, origin.Akin ids x source ∧ slot ∈ origin.items source := by
  intro slot hslot
  rcases mem_joinedItems hslot with hleft | hright
  · exact h.items x slot hleft
  · obtain ⟨source, hsource, hitem⟩ := h.items y slot hright
    exact ⟨source, hakin.trans hsource, hitem⟩

end Mixes

/-! ### What a merge keeps listed -/

variable {loose : Nat → Prop}

/-- A graph on the way of a merge. Arrays list the identities that they listed at first, by elements that are not loose,
unless an object with the identity leads to them. The identity of a loose object may still be overwritten. -/
structure Merging (origin : Graph) (ids : List Nat) (loose : Nat → Prop) (g : Graph) : Prop where
  regroups : Regroups origin g
  retains : Retains origin g
  mixes : Mixes origin ids g
  listed : ∀ array identity, origin.Enlists array identity → ¬origin.Menaces ids identity array →
    ∃ element, Slot.node element ∈ g.items array ∧ g.identity? element = some identity ∧ ¬loose element

namespace Merging

theorem refl (g : Graph) (ids : List Nat) : Merging g ids (fun _ => False) g :=
  ⟨.refl g, .refl g, .refl g ids, fun _ _ ⟨element, hitem, hidentity⟩ _ => ⟨element, hitem, hidentity, not_false⟩⟩

variable (h : Merging origin ids loose g)

include h

/-- An object without an identity may become loose, and no loose one is needed. -/
theorem mono {less : Nat → Prop} (hloose : ∀ id, less id → loose id ∨ g.identity? id = none) :
    Merging origin ids less g := by
  refine ⟨h.regroups, h.retains, h.mixes, fun array identity hlisted hsafe => ?_⟩
  obtain ⟨element, hitem, hidentity, hfirm⟩ := h.listed array identity hlisted hsafe
  refine ⟨element, hitem, hidentity, fun hless => ?_⟩
  rcases hloose element hless with hheld | hnone
  · exact hfirm hheld
  · cases hnone.symm.trans hidentity

/-- What a field holds now that lacks something lacked it at first. -/
theorem lacks {id : Nat} {name : String} (hnow : ∀ slot, g.field? id name = some slot → slot.truthy = false) :
    ∀ slot, origin.field? id name = some slot → slot.truthy = false := by
  intro slot hslot
  by_contra htruthy
  have hkept := h.retains id name slot (Bool.not_eq_false _ ▸ htruthy) hslot
  exact htruthy (hnow slot hkept)

theorem adopt {target : Nat} {name : String} {slot : Slot}
    (hsource : ∃ source, origin.Akin ids target source ∧ (name, slot) ∈ origin.fields source)
    (hfirst : ∀ old, origin.field? target name = some old → old.truthy = false)
    (hnow : name = identityName → g.identity? target = none ∨ loose target) :
    Merging origin ids loose (g.adopt target name slot) := by
  refine ⟨h.regroups.adopt hsource.choose_spec.2 target, h.retains.adopt hfirst slot, h.mixes.adopt hsource,
    fun array identity hlisted hsafe => ?_⟩
  obtain ⟨element, hitem, hidentity, hfirm⟩ := h.listed array identity hlisted hsafe
  refine ⟨element, (items_adopt g target name slot array).symm ▸ hitem, ?_, hfirm⟩
  rcases g.field?_adopt target name slot element identityName with hsame | ⟨rfl, hname, -⟩
  · rw [identity?, hsame, ← identity?, hidentity]
  · rcases hnow hname.symm with hnone | hloose
    · cases hnone.symm.trans hidentity
    · exact absurd hloose hfirm

/-- Of joined arrays the second one gets an element for each identity it lists, unless that leads to it. -/
theorem joinArrays (horigin : origin.WellFormed) (hx : g.isArray x = true) (hy : g.isArray y = true) (hne : x ≠ y)
    (hakin : origin.Akin ids x y) (hloose : ∀ id, loose id → origin.Approaches ids id y) :
    Merging origin ids loose (g.joinArrays x y) := by
  have hyet := isArray_adoptItems hx (g.joinedItems x y) hy
  have hjoined := h.mixes.joined hakin
  have hfront := h.mixes.adoptItems hx hjoined
  have hsources : ∀ slot ∈ g.joinedItems x y, ∃ source, slot ∈ origin.items source := fun slot hslot =>
    (hjoined slot hslot).imp fun _ => And.right
  refine ⟨(h.regroups.adoptItems hx hsources).adoptItems hyet hsources, fun id name slot htruthy hheld => ?_,
    hfront.adoptItems hyet fun slot hslot => ?_, fun array identity hlisted hsafe => ?_⟩
  · rw [field?_joinArrays hx hy]
    exact h.retains id name slot htruthy hheld
  · obtain ⟨source, hsource, hitem⟩ := hjoined slot hslot
    exact ⟨source, hakin.symm.trans hsource, hitem⟩
  · obtain ⟨element, hitem, hidentity, hfirm⟩ := h.listed array identity hlisted hsafe
    by_cases hleft : array = x
    · subst hleft
      exact ⟨element, node_mem_joinArrays_left hx hy hne hitem, (identity?_joinArrays hx hy _).trans hidentity, hfirm⟩
    · by_cases hright : array = y
      · subst hright
        obtain ⟨twin, htwin, htwinIdentity⟩ := exists_joined ⟨element, hitem, hidentity⟩ x
        have hapart : ¬origin.Approaches ids twin array := fun happroaches =>
          hsafe (h.mixes.menaces horigin htwinIdentity happroaches)
        refine ⟨twin, (node_mem_joinArrays_right hx hy hne).mpr ⟨htwin, .inr fun hreach => ?_⟩,
          (identity?_joinArrays hx hy _).trans htwinIdentity, fun hheld => hapart (hloose twin hheld)⟩
        exact hapart (hfront.approaches hreach)
      · refine ⟨element, ?_, (identity?_joinArrays hx hy _).trans hidentity, hfirm⟩
        rwa [Graph.joinArrays, items_adoptItems_of_ne hyet _ hright, items_adoptItems_of_ne hx _ hleft]

/-- Two slots of one field are settled. What the second object held before is overwritten where it was nothing, so its
identity has to be loose then. -/
theorem settle (horigin : origin.WellFormed) {unite : Nat → Nat → Graph → Graph}
    (hunite : ∀ x y g, Merging origin ids loose g → origin.Akin ids x y →
      (∀ id, loose id → origin.Approaches ids id y) → Merging origin ids loose (unite x y g))
    {before : Graph} {more : Nat → Prop} (hbefore : Merging origin ids more before) {a b : Nat}
    (hakin : origin.Akin ids a b) (hloose : ∀ id, loose id → origin.Approaches ids id b)
    (hstale : before.identity? b = none → loose b) {name : String} {left right : Slot}
    (hleft : g.field? a name = some left) (hright : before.field? b name = some right)
    (hdiffer : left.same right = false) : Merging origin ids loose (g.settle unite a b name left right) := by
  obtain ⟨sourceA, hsourceA, hfieldA⟩ := h.mixes.fields a _ (mem_of_field? hleft)
  obtain ⟨sourceB, hsourceB, hfieldB⟩ := hbefore.mixes.fields b _ (mem_of_field? hright)
  have hnothing : ∀ {g : Graph} {id : Nat} {slot : Slot}, g.field? id name = some slot → slot.truthy = false →
      name = identityName → g.identity? id = none := by
    rintro g id slot hslot hfalse rfl
    rw [Option.eq_none_iff_forall_ne_some]
    intro text hidentity
    obtain ⟨hfield, htruthy⟩ := identity?_eq_some_iff.mp hidentity
    cases hslot.symm.trans hfield
    rw [hfalse] at htruthy
    cases htruthy
  unfold Graph.settle
  split
  · rename_i hfalse _
    refine h.adopt ⟨sourceB, hakin.trans hsourceB, hfieldB⟩ (h.lacks fun slot hslot => ?_) fun hname =>
      .inl (hnothing hleft hfalse hname)
    cases hleft.symm.trans hslot
    exact hfalse
  · rename_i _ hfalse
    refine h.adopt ⟨sourceA, hakin.symm.trans hsourceA, hfieldA⟩ (hbefore.lacks fun slot hslot => ?_) fun hname =>
      .inr (hstale (hnothing hright hfalse hname))
    cases hright.symm.trans hslot
    exact hfalse
  · exact h
  · split
    · rename_i x y _ _
      have hne : x ≠ y := by
        rintro rfl
        rw [slot_same_refl] at hdiffer
        cases hdiffer
      have hbelow : ∀ id, loose id → origin.Approaches ids id y := fun id hid =>
        (hloose id hid).trans (.head (.inr hsourceB) (.single (.inl (points_iff.mpr (.inl ⟨name, hfieldB⟩)))))
      have hpair := hsourceA.symm.trans (hakin.trans hsourceB)
      have hnone : ∀ {id}, g.identity? id = none → origin.identity? id = none := fun {id} hnone => by
        rw [Option.eq_none_iff_forall_ne_some]
        intro text htext
        cases hnone.symm.trans (h.retains.identity? htext)
      split
      · rename_i harrays
        obtain ⟨hx, hy⟩ := Bool.and_eq_true_iff.mp harrays
        have hfirst : g.identity? x = none := by rw [identity?, field?, Graph.fields, isArray_iff.mp hx]; rfl
        exact h.joinArrays horigin hx hy hne (.field hpair hfieldA hfieldB (.inl (hnone hfirst))) hbelow
      · split
        · split
          · rename_i hfree
            refine hunite x y g h (.field hpair hfieldA hfieldB ?_) hbelow
            exact (Bool.or_eq_true_iff.mp hfree).imp (fun hx => hnone (Option.isNone_iff_eq_none.mp hx))
              fun hy => hnone (Option.isNone_iff_eq_none.mp hy)
          · exact h
        · exact h
    · exact h

/-- While two objects are united, the second is loose if it had no identity when that began. -/
theorem unite (horigin : origin.WellFormed) (depth : Nat) (active : List (Nat × Nat)) {a b : Nat}
    (hakin : origin.Akin ids a b) (hloose : ∀ id, loose id → origin.Approaches ids id b) :
    Merging origin ids loose (unite depth active a b g) := by
  induction depth generalizing active a b g loose with
  | zero => exact h
  | succ depth ih =>
      rw [Graph.unite]
      split
      · exact h
      · let more : Nat → Prop := fun id => loose id ∨ id = b ∧ g.identity? b = none
        have hstart : Merging origin ids more g := h.mono <| by
          rintro id (hid | ⟨rfl, hnone⟩)
          · exact .inl hid
          · exact .inr hnone
        have hmore : ∀ id, more id → origin.Approaches ids id b := by
          rintro id (hid | ⟨rfl, -⟩)
          · exact hloose id hid
          · exact .refl
        have hoffered : Merging origin ids more
            ((g.fields b).foldl (offer (Graph.unite depth ((a, b) :: active)) a b) g) := by
          refine List.foldlRecOn _ _ hstart fun middle hmiddle field hfield => ?_
          obtain ⟨source, hsource, hsourceField⟩ := hstart.mixes.fields b field hfield
          have hbefore : g.field? b field.1 = some field.2 :=
            Node.find?_of_mem (h.regroups.names (wellFormed_iff.mp horigin).2.1 b) hfield
          unfold offer
          split
          · rename_i hnone
            refine hmiddle.adopt ⟨source, hakin.trans hsource, hsourceField⟩
              (hmiddle.lacks fun slot hslot => ?_) fun hname => .inl ?_
            · cases hnone.symm.trans hslot
            · rw [identity?, ← hname, hnone]
          · rename_i existing hexisting
            split
            · exact hmiddle
            · rename_i hdiffer
              exact hmiddle.settle horigin (fun x y g hg hakin hloose => ih hg _ hakin hloose) hstart hakin hmore
                (fun hnone => .inr ⟨rfl, hnone⟩) hexisting hbefore (Bool.eq_false_iff.mpr hdiffer)
        have hback : Merging origin ids loose _ := hoffered.mono fun id hid => .inl (.inl hid)
        refine List.foldlRecOn _ _ hback fun middle hmiddle field hfield => ?_
        unfold complete
        split
        · rename_i hnone
          have hnone := Option.isNone_iff_eq_none.mp hnone
          obtain ⟨source, hsource, hsourceField⟩ := hback.mixes.fields a field hfield
          refine hmiddle.adopt ⟨source, hakin.symm.trans hsource, hsourceField⟩
            (hmiddle.lacks fun slot hslot => ?_) fun hname => .inl ?_
          · cases hnone.symm.trans hslot
          · rw [identity?, ← hname, hnone]
        · exact hmiddle

end Merging

theorem merging_merge (hg : g.WellFormed) (ids : List Nat) : Merging g ids (fun _ => False) (g.merge ids) := by
  have hpass : ∀ first others (next : Graph), first ∈ ids → (∀ other ∈ others, other ∈ ids) →
      Merging g ids (fun _ => False) next → Merging g ids (fun _ => False) (mergePass first others next) := by
    intro first others next hfirst hothers hnext
    refine List.foldlRecOn _ _ hnext fun middle hmiddle other hother => ?_
    exact hmiddle.unite hg _ _ (.merged hfirst (hothers other hother)) nofun
  cases ids with
  | nil => exact .refl g []
  | cons first others =>
      have hothers : ∀ other ∈ others, other ∈ first :: others := fun other hother => List.mem_cons_of_mem _ hother
      exact hpass first others _ List.mem_cons_self hothers
        (hpass first others g List.mem_cons_self hothers (.refl g _))

/-- **An array loses an identity to an object that leads to it, and to none else.** Every array that lists an identity
lists it after a merge of any nodes, unless an object with the identity leads to the array, where akin nodes count as
one. At a join of two arrays the first keeps all it lists, and the second loses an identity exactly if all the first
one's elements with it are foreign to the second and lead to it. -/
theorem merge_keeps_listed (g : Graph) :
    (g.WellFormed → ∀ ids array identity, g.Enlists array identity →
      (g.merge ids).Enlists array identity ∨ g.Menaces ids identity array) ∧
    ∀ x y, g.isArray x = true → g.isArray y = true → x ≠ y → ∀ identity,
      (g.Enlists x identity → (g.joinArrays x y).Enlists x identity) ∧
      (g.Enlists y identity → (¬(g.joinArrays x y).Enlists y identity ↔ g.Enlists x identity ∧
        ∀ element, Slot.node element ∈ g.items x → g.identity? element = some identity →
          Slot.node element ∉ g.items y ∧ (g.adoptItems x (g.joinedItems x y)).Reaches element y)) := by
  refine ⟨fun hg ids array identity hlisted => ?_, fun x y hx hy hne identity => enlists_joinArrays hx hy hne⟩
  by_cases hsafe : g.Menaces ids identity array
  · exact .inr hsafe
  · obtain ⟨element, hitem, hidentity, -⟩ := (merging_merge hg ids).listed array identity hlisted hsafe
    exact .inl ⟨element, hitem, hidentity⟩

/-- Two copies of `k` list `e` each by an element of its own. Neither element leads to an array, and both arrays list it
still. -/
theorem merge_keeps_listed_twins :
    let twins : Graph := ⟨[.object [("id", .text "e")], .array [.node 0],
      .object [("id", .text "k"), ("items", .node 1)], .object [("id", .text "e"), ("n", .value (.int 1))],
      .array [.node 3], .object [("id", .text "k"), ("items", .node 4)], .array [.node 2, .node 5]], .node 6⟩
    twins.WellFormed ∧ twins.Enlists 4 "e" ∧ (twins.merge [2, 5]).Enlists 4 "e" ∧
      (twins.joinArrays 1 4).Enlists 1 "e" := by
  intro twins
  obtain ⟨hmerge, hjoin⟩ := merge_keeps_listed twins
  have hwell : twins.WellFormed := by decide
  have hlisted : twins.Enlists 4 "e" := ⟨3, List.mem_singleton_self _, rfl⟩
  -- the first copy's label is that of the second, and their arrays have one label
  let label : Nat → Nat := fun id => if id = 4 ∨ id = 5 then id - 3 else id
  have hlabel : ∀ {a b}, twins.Akin [2, 5] a b → label a = label b :=
    Akin.label_eq (fun _ _ => 1) (by decide) (by decide)
  have hsafe : ¬twins.Menaces [2, 5] "e" 4 := by
    rintro ⟨object, hidentity, happroaches⟩
    have hobject : object = 0 ∨ object = 3 := by
      have hlt : object < 7 := by
        by_contra hge
        rw [identity?, field?, fields, List.getElem?_eq_none (Nat.not_lt.mp hge)] at hidentity
        cases hidentity
      have hall : ∀ id < 7, twins.identity? id = some "e" → id = 0 ∨ id = 3 := by decide
      exact hall object hlt hidentity
    have hinside : 4 = 0 ∨ 4 = 3 := by
      refine happroaches.inside (fun id => id = 0 ∨ id = 3) ?_ ?_ hobject
      · rintro a b hpoints (rfl | rfl) <;> cases hpoints
      · intro a b hakin ha
        have heq : label a = if b = 4 ∨ b = 5 then b - 3 else b := hlabel hakin
        have hself : label a = a := if_neg (by omega)
        show b = 0 ∨ b = 3
        split at heq <;> omega
    omega
  obtain ⟨hfirst, -⟩ := hjoin 1 4 rfl rfl (by decide) "e"
  exact ⟨hwell, hlisted, (hmerge hwell [2, 5] 4 "e" hlisted).resolve_right hsafe,
    hfirst ⟨0, List.mem_singleton_self _, rfl⟩⟩

/-- The second copy of `k` is nested below the element `e` of the first, and both list `e`. The nested array gives its
own element up for the first, which leads to it, and lists nothing. -/
theorem merge_drops_nested :
    let nested := ofJson (.object [("id", .string "k"), ("items", .array [.object [("id", .string "e"),
      ("sub", .object [("id", .string "k"), ("items", .array [.object [("id", .string "e")]])])]])])
    nested.WellFormed ∧ nested.Acyclic ∧ nested.Enlists 1 "e" ∧ ¬(nested.merge [5, 2]).Enlists 1 "e" := by
  intro nested
  have hordered : Json.Ordered (.object [("id", .string "k"), ("items", .array [.object [("id", .string "e"),
      ("sub", .object [("id", .string "k"), ("items", .array [.object [("id", .string "e")]])])]])]) := by decide
  have hnone : ((nested.merge [5, 2]).items 1).isEmpty = true := by
    unfold nested
    decide +kernel
  refine ⟨(ofJson_spec hordered).1, acyclic_ofJson hordered, ⟨0, List.mem_singleton_self _, rfl⟩, ?_⟩
  rintro ⟨element, hitem, -⟩
  rw [List.isEmpty_iff.mp hnone] at hitem
  cases hitem

end Dossier.Graph
