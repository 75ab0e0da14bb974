import Dossier.Proofs.Graph.Bearing

/-!
Unions that lose nothing. Every step of a union gives something to a field that held nothing when the union began, or
joins two arrays. A field of the second object may have got something by then, from a union further down, and it is
given something else: then what it had is still held below the second object. Main statement: **`grows_unified`**.
-/

namespace Dossier.Graph

variable {origin g next : Graph} {loose : Nat → String → Prop}

/-! ### Steps of a union -/

/-- The other graph holds what the first did, and leads to what that led to. -/
structure Enriches (origin : Graph) (loose : Nat → String → Prop) (g next : Graph) : Prop where
  endowed : Endowed origin next
  retains : Retains g next
  bears : ∀ identity id, Bears origin g loose identity id → Bears origin next loose identity id

theorem Enriches.refl (h : Endowed origin g) : Enriches origin loose g g :=
  ⟨h, .refl g, fun _ _ hbears => hbears⟩

theorem Enriches.trans {middle : Graph} (h : Enriches origin loose g middle) (h' : Enriches origin loose middle next) :
    Enriches origin loose g next :=
  ⟨h'.endowed, h.retains.trans h'.retains, fun identity id hbears => h'.bears identity id (h.bears identity id hbears)⟩

/-- A field that held nothing at first is given something. It holds nothing yet, or whatever it holds is loose. -/
theorem Enriches.adopt (hg : Endowed origin g) (h : Enriches origin loose g next) {target : Nat} {name : String}
    {slot : Slot} (htarget : origin.Owned target) (hsource : ∃ source, (name, slot) ∈ origin.fields source)
    (hslot : ∀ child, slot = .node child → origin.Owned child)
    (hlacks : ∀ old, g.field? target name = some old → old.truthy = false)
    (hloose : loose target name ∨ ∀ old, next.field? target name = some old → old.truthy = false) :
    Enriches origin loose g (next.adopt target name slot) := by
  have hfirst : ∀ old, origin.field? target name = some old → old.truthy = false := by
    intro old hold
    by_contra htruthy
    exact htruthy (hlacks old (hg.retains target name old (Bool.not_eq_false _ ▸ htruthy) hold))
  refine ⟨h.endowed.adopt htarget hsource hslot hfirst, h.retains.adopt hlacks slot, fun identity id hbears => ?_⟩
  refine (h.bears identity id hbears).mono (fun other key held htruthy hfirm hheld => ⟨hfirm, ?_⟩)
    fun other child hitem => ?_
  · rcases next.field?_adopt target name slot other key with hsame | ⟨rfl, rfl, -⟩
    · rw [hsame, hheld]
    · rcases hloose with hself | hnothing
      · exact absurd hself hfirm
      · rw [hnothing held hheld] at htruthy
        cases htruthy
  · rw [items_adopt]
    exact hitem

section

variable (horigin : origin.Source)

include horigin

/-- The arrays in two fields are joined. -/
theorem Enriches.join (h : Endowed origin g) {x y : Nat} (hx : origin.Owned x) (hy : origin.Owned y) (hxy : x ≠ y)
    (hxarray : g.isArray x = true) (hyarray : g.isArray y = true) (hloose : ∀ id name, loose id name → g.Reaches id y) :
    Enriches origin loose g ((g.adoptItems x (g.joinedItems x y)).adoptItems y (g.joinedItems x y)) := by
  have hjoined : ∀ slot ∈ g.joinedItems x y, ∃ array, origin.Owned array ∧ slot ∈ origin.items array :=
    fun slot hslot => (mem_joinedItems hslot).elim (h.listed x slot hx) (h.listed y slot hy)
  have hyarray' := isArray_adoptItems hxarray (g.joinedItems x y) hyarray
  refine ⟨(h.adoptItems hx hxarray hjoined).adoptItems hy hyarray' hjoined, fun id name slot _ hfield => ?_,
    fun identity id hbears => h.bears_joined horigin hxarray hyarray hxy hx hy hloose hbears⟩
  rwa [field?, adoptItems, fields_setArray hyarray', adoptItems, fields_setArray hxarray, ← field?]

end

/-! ### Unions -/

/-- The loose fields on the way to a union with the object `b` are above it. -/
def LooseAbove (loose : Nat → String → Prop) (g : Graph) (b : Nat) : Prop :=
  ∀ id name, loose id name → Relation.TransGen g.Carries id b

/-- In a union with the object `b` its fields that hold nothing are loose too: each is given what the first object has,
whatever it has got by then. -/
def Spare (loose : Nat → String → Prop) (g : Graph) (b id : Nat) (name : String) : Prop :=
  loose id name ∨ id = b ∧ ∃ old, g.field? b name = some old ∧ old.truthy = false

/-- What a union does to every two objects that belong to entities. -/
def Enriching (origin : Graph) (unite : Nat → Nat → Graph → Graph) : Prop :=
  ∀ (loose : Nat → String → Prop) (x y : Nat) (g : Graph), Endowed origin g → origin.Owned x → origin.Owned y →
    LooseAbove loose g y → Enriches origin loose g (unite x y g)

section

variable (horigin : origin.Source) {a b : Nat} (ha : origin.Owned a) (hb : origin.Owned b) (hg : Endowed origin g)
  (hloose : LooseAbove loose g b) {unite : Nat → Nat → Graph → Graph} (hunite : Enriching origin unite)

include hloose in
/-- Below the second object everything is below the loose fields. -/
theorem LooseAbove.field (hretains : Retains g next) {name : String} {y : Nat}
    (hright : g.field? b name = some (.node y)) : LooseAbove (Spare loose g b) next y := by
  have hlast : next.Carries b y := hretains.carries ⟨name, hright⟩
  rintro id key (hbefore | ⟨rfl, -⟩)
  · have hpath : Relation.TransGen next.Carries id b :=
      Relation.TransGen.mono (fun _ _ => hretains.carries) id b (hloose id key hbefore)
    exact hpath.tail hlast
  · exact .single hlast

theorem LooseAbove.reaches (h : LooseAbove loose g b) {id : Nat} {name : String} (hid : loose id name) :
    g.Reaches id b :=
  (Relation.TransGen.mono (fun _ _ => Carries.points) id b (h id name hid)).to_reflTransGen

include horigin ha hb hg hloose hunite

theorem Enriches.settle (h : Enriches origin (Spare loose g b) g next) {name : String} {left right : Slot}
    (hleft : next.field? a name = some left) (hright : g.field? b name = some right)
    (hdiffer : ¬left.same right = true) :
    Enriches origin (Spare loose g b) g (next.settle unite a b name left right) := by
  have hleftSource := h.endowed.regroups.fields a _ (mem_of_field? hleft)
  have hrightSource := hg.regroups.fields b _ (mem_of_field? hright)
  have hleftOwned : ∀ child, left = .node child → origin.Owned child := fun child hchild =>
    h.endowed.closed a child ha ⟨name, hchild ▸ hleft⟩
  have hrightOwned : ∀ child, right = .node child → origin.Owned child := fun child hchild =>
    hg.closed b child hb ⟨name, hchild ▸ hright⟩
  unfold Graph.settle
  split
  · rename_i hnothing _
    have hlive : ∀ old, next.field? a name = some old → old.truthy = false := by
      intro old hold
      cases hleft.symm.trans hold
      exact hnothing
    refine h.adopt hg ha hrightSource hrightOwned (fun old hold => ?_) (.inr hlive)
    by_contra htruthy
    exact htruthy (hlive old (h.retains a name old (Bool.not_eq_false _ ▸ htruthy) hold))
  · rename_i _ hnothing
    refine h.adopt hg hb hleftSource hleftOwned (fun old hold => ?_) (.inl (.inr ⟨rfl, right, hright, hnothing⟩))
    cases hright.symm.trans hold
    exact hnothing
  · exact h
  · split
    · rename_i x y _ _
      have hx := hleftOwned x rfl
      have hy := hrightOwned y rfl
      have habove : LooseAbove (Spare loose g b) next y := LooseAbove.field hloose h.retains hright
      split
      · rename_i harrays
        obtain ⟨hxarray, hyarray⟩ := Bool.and_eq_true_iff.mp harrays
        have hxy : x ≠ y := by
          rintro rfl
          exact hdiffer (slot_same_refl _)
        exact h.trans (Enriches.join horigin h.endowed hx hy hxy hxarray hyarray fun _ _ => habove.reaches)
      · split
        · split
          · exact h.trans (hunite (Spare loose g b) x y next h.endowed hx hy habove)
          · exact h
        · exact h
    · exact h

theorem Enriches.offer (h : Enriches origin (Spare loose g b) g next) {field : String × Slot}
    (hfield : g.field? b field.1 = some field.2) :
    Enriches origin (Spare loose g b) g (next.offer unite a b field) := by
  unfold Graph.offer
  split
  · rename_i hnone
    refine h.adopt hg ha (hg.regroups.fields b _ (mem_of_field? hfield))
      (fun child hchild => hg.closed b child hb ⟨field.1, hchild ▸ hfield⟩) (fun old hold => ?_)
      (.inr fun old hold => by rw [hnone] at hold; cases hold)
    by_contra htruthy
    rw [h.retains a field.1 old (Bool.not_eq_false _ ▸ htruthy) hold] at hnone
    cases hnone
  · rename_i existing hexisting
    split
    · exact h
    · rename_i hdiffer
      exact h.settle horigin ha hb hg hloose hunite hexisting hfield hdiffer

end

/-- What held something at first was not loose then, so the fields of the second object that held nothing are of no
account. -/
theorem Enriches.firm {b : Nat} (h : Enriches origin (Spare loose g b) g next) : Enriches origin loose g next := by
  refine ⟨h.endowed, h.retains, fun identity id hbears => ?_⟩
  have hfirst : Bears origin g (Spare loose g b) identity id := by
    refine hbears.mono (fun other name slot htruthy hfirm hslot => ⟨?_, hslot⟩) fun _ _ hitem => hitem
    rintro (hold | ⟨rfl, old, hold, hnothing⟩)
    · exact hfirm hold
    · cases hslot.symm.trans hold
      rw [hnothing] at htruthy
      cases htruthy
  exact (h.bears identity id hfirst).mono (fun _ _ _ _ hfirm hslot => ⟨fun hold => hfirm (.inl hold), hslot⟩)
    fun _ _ hitem => hitem

/-- **A union loses nothing.** By induction on its depth. Whatever identity any node led to before, avoiding the loose
fields, it leads to afterwards, avoiding them still. -/
theorem enriching_unite (horigin : origin.Source) (depth : Nat) (active : List (Nat × Nat)) :
    Enriching origin (unite depth active) := by
  induction depth generalizing active with
  | zero => exact fun _ _ _ _ hg _ _ _ => .refl hg
  | succ depth ih =>
      intro loose a b g hg ha hb hloose
      rw [unite]
      split
      · exact .refl hg
      · have hnames := (wellFormed_iff.mp (hg.wellFormed horigin)).2.1
        have hoffered : Enriches origin (Spare loose g b) g
            ((g.fields b).foldl (offer (unite depth ((a, b) :: active)) a b) g) := by
          refine List.foldlRecOn _ _ (.refl hg) fun next h field hfield => ?_
          exact h.offer horigin ha hb hg hloose (ih _) (Node.find?_of_mem (hnames b) hfield)
        generalize (g.fields b).foldl (offer (unite depth ((a, b) :: active)) a b) g = offered at hoffered
        have hnames' := (wellFormed_iff.mp (hoffered.endowed.wellFormed horigin)).2.1
        refine Enriches.firm (b := b) (List.foldlRecOn _ _ hoffered fun next h field hfield => ?_)
        unfold complete
        split
        · rename_i hnone
          have hlacks : ∀ {old}, next.field? b field.1 ≠ some old := fun {old} hold => by
            rw [hold] at hnone
            cases hnone
          refine h.adopt hg hb (hoffered.endowed.regroups.fields a field hfield) (fun child hchild => ?_)
            (fun old hold => ?_) (.inr fun old hold => absurd hold hlacks)
          · exact hoffered.endowed.closed a child ha ⟨field.1, hchild ▸ Node.find?_of_mem (hnames' a) hfield⟩
          · by_contra htruthy
            exact hlacks (h.retains b field.1 old (Bool.not_eq_false _ ▸ htruthy) hold)
        · exact h

/-- Nothing is loose between unions. -/
abbrev Grows (origin g next : Graph) : Prop := Enriches origin (fun _ _ => False) g next

theorem grows_merge (horigin : origin.Source) (hg : Endowed origin g) {group : List Nat}
    (hgroup : ∀ id ∈ group, origin.Owned id) : Grows origin g (g.merge group) := by
  have hpass : ∀ {first others} {g : Graph}, origin.Owned first → (∀ other ∈ others, origin.Owned other) →
      Endowed origin g → Grows origin g (mergePass first others g) := by
    intro first others g hfirst hothers hg
    refine List.foldlRecOn _ _ (.refl hg) fun next h other hother => h.trans ?_
    exact enriching_unite horigin _ _ _ first other next h.endowed hfirst (hothers other hother) nofun
  cases group with
  | nil => exact .refl hg
  | cons first others =>
      have hfirst := hgroup first List.mem_cons_self
      have hothers : ∀ other ∈ others, origin.Owned other := fun other h => hgroup other (List.mem_cons_of_mem _ h)
      have hone := hpass hfirst hothers hg
      exact hone.trans (hpass hfirst hothers hone.endowed)

/-- Merging the copies of all entities loses nothing. -/
theorem grows_unified (horigin : origin.Source) (hacyclic : origin.Acyclic) : Grows origin origin origin.unified := by
  refine List.foldlRecOn _ _ (.refl (.refl hacyclic)) fun next h group hgroup => h.trans ?_
  obtain ⟨identity, hentity⟩ := exists_identity_of_group horigin.wellFormed hgroup
  refine grows_merge horigin h.endowed fun id hid => .entity ?_
  rw [(hentity id hid).2]
  rfl

end Dossier.Graph
