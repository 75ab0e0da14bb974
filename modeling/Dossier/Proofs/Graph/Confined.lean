import Dossier.Proofs.Graph.Enclosure
import Dossier.Proofs.Graph.Inline

/-!
Merges behind a fence. Each step of a merge of the copies of one entity does to the enclosed graph what it does to the
whole one, so that the two merges go side by side. Main statements: **`Fence.follows_merge`**, and
**`Fence.settled_merge`**, by which a merge settles the copies behind the fence.
-/

namespace Dossier.Graph.Fence

variable {fence : Fence} {base g : Graph} {path : List String} {a b : Nat} {name : String}

theorem isObject_of_identity? {id : Nat} (h : (g.identity? id).isSome = true) : g.isObject id = true := by
  obtain ⟨identity, hidentity⟩ := Option.isSome_iff_exists.mp h
  exact isObject_of_mem_fields (mem_of_field? (identity?_eq_some_iff.mp hidentity).1)

/-- Two slots that both hold something are left alone, if where both hold containers these are entities. -/
theorem settle_apart {unite : Nat → Nat → Graph → Graph} {left right : Slot} (hleft : left.truthy = true)
    (hright : right.truthy = true) (hentities : ∀ x y, left = .node x → right = .node y →
      (g.identity? x).isSome = true ∧ (g.identity? y).isSome = true) : g.settle unite a b name left right = g := by
  unfold settle
  rw [hleft, hright]
  dsimp only
  split
  · rename_i x y
    obtain ⟨hx, hy⟩ := hentities x y rfl rfl
    have hxarray : g.isArray x = false := by rw [isArray, isObject_iff.mp (isObject_of_identity? hx)]
    have hxnone : (g.identity? x).isNone = false := by rw [← Option.not_isSome, hx]; rfl
    have hynone : (g.identity? y).isNone = false := by rw [← Option.not_isSome, hy]; rfl
    rw [hxarray, hxnone, hynone]
    simp
  · rfl

theorem same_screen {left right : Slot} (h : left.same right = true) :
    (fence.screen left).same (fence.screen right) = true := by
  cases left with
  | value v =>
      cases right with
      | value w => exact h
      | node y => cases h
  | node x =>
      cases right with
      | value w => cases h
      | node y =>
          obtain rfl := eq_of_same h
          exact slot_same_refl _

section

variable (hcloses : fence.Closes base) (h : fence.Guards base g)

include hcloses h

/-- Containers in fields of one name at one path, not both inside, are entities. -/
theorem entities_of_outside {x y : Nat} (hx : fence.Offers base path name (.node x))
    (hy : fence.Offers base path name (.node y)) (hout : ¬(fence.Inside x ∧ fence.Inside y)) :
    (g.identity? x).isSome = true ∧ (g.identity? y).isSome = true := by
  have hentity : ∀ {id : Nat}, fence.Offers base path name (.node id) → ¬fence.Inside id →
      (g.identity? id).isSome = true := by
    intro id hoffer hid
    rcases hcloses.field hoffer with hplace | ⟨-, hidentity⟩
    · exact absurd (inside_of_place hplace) hid
    · rwa [identity?_congr (h.outside id hid)]
  refine ⟨hentity hx fun hinside => hout ⟨hinside, hcloses.alike hx hy hinside⟩,
    hentity hy fun hinside => hout ⟨hcloses.alike hy hx hinside, hinside⟩⟩

variable (ha : fence.place a = some path) (hb : fence.place b = some path) {unite : Nat → Nat → Graph → Graph}

/-- Two arrays inside are joined in both graphs. -/
theorem follows_arrays {x y : Nat} (hx : fence.Inside x) (hy : fence.Inside y) (hxarray : g.isArray x = true)
    (hyarray : g.isArray y = true) :
    fence.Follows base ((g.adoptItems x (g.joinedItems x y)).adoptItems y (g.joinedItems x y))
      (((fence.enclosed g).adoptItems x (g.joinedItems x y)).adoptItems y (g.joinedItems x y)) := by
  have hjoined : ∀ slot ∈ g.joinedItems x y, fence.Lists base slot := fun slot hslot =>
    (mem_joinedItems hslot).elim (h.item hx) (h.item hy)
  obtain ⟨hfirst, hsame⟩ := follows_adoptItems hcloses h hx hxarray hjoined
  rw [← hsame]
  exact follows_adoptItems hcloses hfirst hy (isArray_adoptItems hxarray _ hyarray) hjoined

include ha hb

theorem follows_settle (hunite : ∀ x y, fence.place x = some (path ++ [name]) → fence.place y = some (path ++ [name]) →
      fence.Follows base (unite x y g) (unite x y (fence.enclosed g))) {left right : Slot}
    (hleft : fence.Offers base path name left) (hright : fence.Offers base path name right) :
    fence.Follows base (g.settle unite a b name left right)
      ((fence.enclosed g).settle unite a b name (fence.screen left) (fence.screen right)) := by
  have hself : fence.Follows base g (fence.enclosed g) := ⟨h, rfl⟩
  cases hl : left.truthy <;> cases hr : right.truthy
  · unfold settle
    rw [truthy_screen, truthy_screen, hl, hr]
    exact hself
  · unfold settle
    rw [truthy_screen, truthy_screen, hl, hr]
    exact follows_adopt hcloses h ha hright
  · unfold settle
    rw [truthy_screen, truthy_screen, hl, hr]
    exact follows_adopt hcloses h hb hleft
  · by_cases hboth : ∃ x y, left = .node x ∧ right = .node y ∧ fence.Inside x ∧ fence.Inside y
    · obtain ⟨x, y, rfl, rfl, hx, hy⟩ := hboth
      have hplace : ∀ {id}, fence.Offers base path name (.node id) → fence.Inside id →
          fence.place id = some (path ++ [name]) := fun hoffer hinside =>
        (hcloses.field hoffer).resolve_right fun hbeyond => hbeyond.1.outside hinside
      rw [screen_of_inside hx, screen_of_inside hy]
      unfold settle
      dsimp only [Slot.truthy]
      rw [isArray_enclosed hx, isArray_enclosed hy, isObject_enclosed hx, isObject_enclosed hy, identity?_enclosed hx,
        identity?_enclosed hy, joinedItems_enclosed hcloses h hx hy]
      split
      · rename_i harrays
        obtain ⟨hxarray, hyarray⟩ := Bool.and_eq_true_iff.mp harrays
        exact follows_arrays hcloses h hx hy hxarray hyarray
      · split
        · split
          · exact hunite x y (hplace hleft hx) (hplace hright hy)
          · exact hself
        · exact hself
    · rw [settle_apart hl hr, settle_apart ((truthy_screen left).trans hl) ((truthy_screen right).trans hr)]
      · exact hself
      · intro x y hx hy
        obtain ⟨rfl, hxinside⟩ := screen_node_iff.mp hx
        obtain ⟨rfl, hyinside⟩ := screen_node_iff.mp hy
        exact absurd ⟨x, y, rfl, rfl, hxinside, hyinside⟩ hboth
      · rintro x y rfl rfl
        exact entities_of_outside hcloses h hleft hright fun ⟨hx, hy⟩ => hboth ⟨x, y, rfl, rfl, hx, hy⟩

omit ha hb in
/-- Slots that are one only as seen from inside are left alone. -/
theorem settle_same_screen {left right : Slot} (hleft : fence.Offers base path name left)
    (hright : fence.Offers base path name right) (hdiffer : ¬left.same right = true)
    (hsame : (fence.screen left).same (fence.screen right) = true) :
    left.truthy = true ∧ right.truthy = true ∧ ∀ x y, left = .node x → right = .node y →
      (g.identity? x).isSome = true ∧ (g.identity? y).isSome = true := by
  have htruthy : left.truthy = right.truthy :=
    (truthy_screen left).symm.trans ((truthy_of_same hsame).trans (truthy_screen right))
  have hnode : left.truthy = true := by
    cases left with
    | node x => rfl
    | value v =>
        cases right with
        | value w => exact absurd hsame hdiffer
        | node y => exact htruthy
  refine ⟨hnode, htruthy.symm.trans hnode, ?_⟩
  rintro x y rfl rfl
  refine entities_of_outside hcloses h hleft hright fun ⟨hx, hy⟩ => hdiffer ?_
  rwa [screen_of_inside hx, screen_of_inside hy] at hsame

theorem follows_offer {field : String × Slot} (hfield : fence.Offers base path field.1 field.2)
    (hunite : ∀ x y, fence.place x = some (path ++ [field.1]) → fence.place y = some (path ++ [field.1]) →
      fence.Follows base (unite x y g) (unite x y (fence.enclosed g))) :
    fence.Follows base (g.offer unite a b field) ((fence.enclosed g).offer unite a b (fence.screenField field)) := by
  rw [offer, offer, screenField, field?_enclosed (inside_of_place ha)]
  cases hexisting : g.field? a field.1 with
  | none => exact follows_adopt hcloses h ha hfield
  | some existing =>
      rw [Option.map_some]
      dsimp only
      have hoffer := h.field ha (mem_of_field? hexisting)
      by_cases hsame : existing.same field.2 = true
      · rw [if_pos hsame, if_pos (same_screen hsame)]
        exact ⟨h, rfl⟩
      · rw [if_neg hsame]
        split
        · rename_i hseen
          obtain ⟨hl, hr, hentities⟩ := settle_same_screen hcloses h hoffer hfield hsame hseen
          rw [settle_apart hl hr hentities]
          exact ⟨h, rfl⟩
        · exact follows_settle hcloses h ha hb hunite hoffer hfield

omit ha in
theorem follows_complete {field : String × Slot} (hfield : fence.Offers base path field.1 field.2) :
    fence.Follows base (complete b g field) (complete b (fence.enclosed g) (fence.screenField field)) := by
  rw [complete, complete, screenField, field?_enclosed (inside_of_place hb), Option.isNone_map]
  split
  · exact follows_adopt hcloses h hb hfield
  · exact ⟨h, rfl⟩

end

/-- Rows of steps follow each other step by step. -/
theorem follows_foldl {step : Graph → String × Slot → Graph} (h : fence.Guards base g) {fields : List (String × Slot)}
    (hstep : ∀ field ∈ fields, ∀ next, fence.Guards base next →
      fence.Follows base (step next field) (step (fence.enclosed next) (fence.screenField field))) :
    fence.Follows base (fields.foldl step g) ((fields.map fence.screenField).foldl step (fence.enclosed g)) := by
  induction fields generalizing g with
  | nil => exact ⟨h, rfl⟩
  | cons field rest ih =>
      obtain ⟨hnext, hsame⟩ := hstep field List.mem_cons_self g h
      rw [List.foldl_cons, List.map_cons, List.foldl_cons, ← hsame]
      exact ih hnext fun later hlater => hstep later (List.mem_cons_of_mem _ hlater)

section

variable (hcloses : fence.Closes base)

include hcloses

/-- **Unions go side by side.** By induction on their depth: what they unite below stands at one path too. -/
theorem follows_unite (depth : Nat) (active : List (Nat × Nat)) (h : fence.Guards base g)
    (ha : fence.place a = some path) (hb : fence.place b = some path) :
    fence.Follows base (unite depth active a b g) (unite depth active a b (fence.enclosed g)) := by
  induction depth generalizing active a b g path with
  | zero => exact ⟨h, rfl⟩
  | succ depth ih =>
      have hainside := inside_of_place ha
      have hbinside := inside_of_place hb
      rw [unite, unite, isObject_enclosed hainside, isObject_enclosed hbinside]
      split
      · exact ⟨h, rfl⟩
      · dsimp only
        rw [fields_enclosed hbinside]
        have hoffered : fence.Follows base ((g.fields b).foldl (offer (unite depth ((a, b) :: active)) a b) g)
            (((g.fields b).map fence.screenField).foldl (offer (unite depth ((a, b) :: active)) a b)
              (fence.enclosed g)) :=
          follows_foldl h fun field hfield next hnext =>
            follows_offer hcloses hnext ha hb (h.field hb hfield) fun x y hx hy => ih _ hnext hx hy
        rw [← hoffered.2, fields_enclosed hainside]
        exact follows_foldl hoffered.1 fun field hfield next hnext =>
          follows_complete hcloses hnext hb (hoffered.1.field ha hfield)

theorem follows_merge (h : fence.Guards base g) {first : Nat} {others : List Nat} (hfirst : fence.place first = some [])
    (hothers : ∀ other ∈ others, fence.place other = some []) :
    fence.Follows base (g.merge (first :: others)) ((fence.enclosed g).merge (first :: others)) := by
  have hpass : ∀ {g : Graph}, fence.Guards base g →
      fence.Follows base (mergePass first others g) (mergePass first others (fence.enclosed g)) := by
    intro g h
    induction others generalizing g with
    | nil => exact ⟨h, rfl⟩
    | cons other rest ih =>
        have hunion : fence.Follows base (g.union first other) ((fence.enclosed g).union first other) := by
          rw [union, union, objectCount_enclosed hcloses h]
          exact follows_unite hcloses _ _ h hfirst (hothers other List.mem_cons_self)
        rw [mergePass, mergePass, List.foldl_cons, List.foldl_cons, ← hunion.2]
        exact ih (fun later hlater => hothers later (List.mem_cons_of_mem _ hlater)) hunion.1
  obtain ⟨hmiddle, hsame⟩ := hpass h
  rw [merge, merge, ← hsame]
  exact hpass hmiddle

end

/-! ### Settling -/

theorem names_enclosed (hcloses : fence.Closes base) (id : Nat) :
    (((fence.enclosed base).fields id).map Prod.fst).Nodup := by
  by_cases hid : fence.Inside id
  · rw [fields_enclosed hid, List.map_map]
    exact (wellFormed_iff.mp hcloses.wellFormed).2.1 id
  · cases hnode : base.nodes[id]? with
    | none =>
        rw [fields, getElem?_enclosed, hnode]
        exact List.nodup_nil
    | some node =>
        have hleaf : (fence.enclosed base).nodes[id]? = some (leaf (fence.shown id)) := by
          rw [getElem?_enclosed, hnode, Option.map_some, screenNode_of_outside hid]
        have hshown := shows_leaf (hcloses.shows_it id (List.getElem?_eq_some_iff.mp hnode).1) hleaf
        generalize (fence.shown id).normal = v at hshown
        cases hshown with
        | object hobject hdistinct _ _ _ =>
            rw [fields, hobject]
            exact hdistinct
        | array harray _ _ =>
            rw [fields, harray]
            exact List.nodup_nil

/-- Behind the fence the copies are laid out. -/
theorem laid_enclosed (hcloses : fence.Closes base) {copy : Nat → Nat} {first : Nat}
    (hfirst : fence.place first = some []) (hkin : ∀ {id target name}, fence.Inside id → fence.Inside target →
      (name, .node target) ∈ base.fields id → copy target = copy id) :
    Laid ⟨fence.place, copy⟩ first (fence.enclosed base) := by
  -- a field that holds a node is one inside
  have hfield : ∀ {id target name}, (name, Slot.node target) ∈ (fence.enclosed base).fields id →
      fence.Inside id ∧ fence.Inside target ∧ (name, .node target) ∈ base.fields id := by
    intro id target name hmem
    by_cases hid : fence.Inside id
    · rw [fields_enclosed hid] at hmem
      obtain ⟨⟨key, slot⟩, hold, heq⟩ := List.mem_map.mp hmem
      obtain ⟨rfl, hscreen⟩ := Prod.mk.inj heq
      obtain ⟨rfl, htarget⟩ := screen_node_iff.mp hscreen
      exact ⟨hid, htarget, hold⟩
    · exact absurd (points_iff.mpr (.inl ⟨name, hmem⟩)) (not_points_of_leaf hid)
  refine ⟨names_enclosed hcloses, hfirst, fun {id target name} hmem => ?_, fun {id target} hmem => ?_,
    fun hmem => ?_⟩
  · obtain ⟨hid, htarget, hold⟩ := hfield hmem
    obtain ⟨path, hpath⟩ := Option.isSome_iff_exists.mp hid
    rcases hcloses.field ⟨id, hpath, hold⟩ with hplace | ⟨hbeyond, -⟩
    · dsimp only
      rw [hplace, hpath]
      rfl
    · exact absurd htarget hbeyond.outside
  · by_cases hid : fence.Inside id
    · rw [items_enclosed hid] at hmem
      exact Option.not_isSome_iff_eq_none.mp (hcloses.item ⟨id, hid, hmem⟩).outside
    · exact absurd (points_iff.mpr (.inr hmem)) (not_points_of_leaf hid)
  · obtain ⟨hid, htarget, hold⟩ := hfield hmem
    exact .inl (hkin hid htarget hold)

/-- **A merge settles the copies behind the fence**, and changes nothing before it. -/
theorem settled_merge (hcloses : fence.Closes base) {copy : Nat → Nat} {first : Nat} {others : List Nat}
    (hkin : ∀ {id target name}, fence.Inside id → fence.Inside target → (name, .node target) ∈ base.fields id →
      copy target = copy id)
    (htop : ∀ id ∈ first :: others, fence.place id = some [] ∧ copy id = id ∧ base.isObject id = true)
    (hdistinct : (first :: others).Nodup) :
    fence.Guards base (base.merge (first :: others)) ∧
      ∀ other ∈ others, (fence.enclosed (base.merge (first :: others))).Settled first other := by
  obtain ⟨hfirst, -, hobject⟩ := htop first List.mem_cons_self
  have hothers : ∀ other ∈ others, Beside ⟨fence.place, copy⟩ first other := by
    intro other hother
    obtain ⟨hplace, hcopy, -⟩ := htop other (List.mem_cons_of_mem _ hother)
    refine ⟨?_, hplace, hcopy⟩
    rintro rfl
    exact (List.nodup_cons.mp hdistinct).1 hother
  obtain ⟨hguards, hsame⟩ := follows_merge hcloses (.refl fence base) hfirst fun other hother =>
    (hothers other hother).place
  refine ⟨hguards, fun other hother => ?_⟩
  have hmidway : Midway ⟨fence.place, copy⟩ first (fence.enclosed base) (fence.enclosed base) :=
    ⟨laid_enclosed hcloses hfirst hkin, .refl _, fun _ _ => rfl⟩
  rw [hsame]
  refine merge_spec ((isObject_enclosed (inside_of_place hfirst) base).trans hobject) hothers
    (List.nodup_cons.mp hdistinct).2 hmidway other hother ?_
  obtain ⟨hplace, -, hobject'⟩ := htop other (List.mem_cons_of_mem _ hother)
  exact (isObject_enclosed (inside_of_place hplace) base).trans hobject'

end Dossier.Graph.Fence
