import Dossier.Proofs.Graph.Snapshot

/-!
Merging of graphs without cycles. A merge gives slots to objects that had nothing in their place and elements to
arrays, never one that leads to its new container. Main statements: a merge closes no cycle, so the merged graph of a
document can be written out; and its root has the identity of the document.
-/

namespace Dossier.Graph

/-- No node leads back to itself. -/
def Acyclic (g : Graph) : Prop := ∀ id, ¬Relation.TransGen g.Points id id

/-- Nodes point along fields and elements. -/
theorem points_iff {g : Graph} {a b : Nat} :
    g.Points a b ↔ (∃ name, (name, Slot.node b) ∈ g.fields a) ∨ Slot.node b ∈ g.items a := by
  have htarget : ∀ slot : Slot, slot.target? = some b ↔ slot = .node b := by
    intro slot
    cases slot <;> simp [Slot.target?]
  rw [Points, targets, fields, items]
  cases g.nodes[a]? with
  | none => simp
  | some node => cases node <;> simp [Node.slots, htarget]

/-- What a regrouped graph points to, some node did before. -/
theorem Regroups.exists_points {g next : Graph} (h : Regroups g next) {a b : Nat} (hpoints : next.Points a b) :
    ∃ source, g.Points source b := by
  rcases points_iff.mp hpoints with ⟨name, hfield⟩ | hitem
  · exact (h.fields a _ hfield).imp fun _ hsource => points_iff.mpr (.inl ⟨name, hsource⟩)
  · exact (h.items a _ hitem).imp fun _ hsource => points_iff.mpr (.inr hsource)

/-! ### Cycles -/

/-- Nodes that point to earlier ones alone make no cycle. -/
theorem acyclic_of_lt {g : Graph} (hlt : ∀ a < g.nodes.length, ∀ b ∈ g.targets a, b < a) : g.Acyclic := by
  have hstep : ∀ {a b}, g.Points a b → b < a := by
    intro a b hpoints
    obtain ⟨node, hnode, -⟩ := exists_slot_of_points hpoints
    exact hlt a (List.getElem?_eq_some_iff.mp hnode).1 b hpoints
  have hpath : ∀ {a b}, Relation.TransGen g.Points a b → b < a := by
    intro a b hpath
    induction hpath with
    | single hpoints => exact hstep hpoints
    | tail _ hpoints ih => exact (hstep hpoints).trans ih
  exact fun id hcycle => lt_irrefl id (hpath hcycle)

/-- Fewer slots make no cycle. -/
theorem Acyclic.mono {g next : Graph} (h : g.Acyclic) (hsub : ∀ a b, next.Points a b → g.Points a b) : next.Acyclic :=
  fun id hcycle => h id (Relation.TransGen.mono hsub id id hcycle)

/-- A container that is given what does not lead to it closes no cycle. -/
theorem Acyclic.given {g next : Graph} (h : g.Acyclic) (target : Nat)
    (hgiven : ∀ a b, next.Points a b → g.Points a b ∨ a = target ∧ ¬g.Reaches b target) : next.Acyclic := by
  -- the first new step of a path starts at the target
  have hsplit : ∀ a b, Relation.TransGen next.Points a b → Relation.TransGen g.Points a b ∨
      g.Reaches a target ∧ ∃ x, ¬g.Reaches x target ∧ next.Reaches x b := by
    intro a b hpath
    induction hpath with
    | single hstep =>
        rcases hgiven _ _ hstep with hold | ⟨rfl, hapart⟩
        · exact .inl (.single hold)
        · exact .inr ⟨.refl, _, hapart, .refl⟩
    | tail _ hstep ih =>
        rcases ih with hbefore | ⟨hreach, x, hapart, hrest⟩
        · rcases hgiven _ _ hstep with hold | ⟨rfl, hapart⟩
          · exact .inl (hbefore.tail hold)
          · exact .inr ⟨hbefore.to_reflTransGen, _, hapart, .refl⟩
        · exact .inr ⟨hreach, x, hapart, hrest.tail hstep⟩
  intro id hcycle
  rcases hsplit id id hcycle with hold | ⟨hreach, x, hapart, hrest⟩
  · exact h id hold
  · refine hapart ?_
    rcases Relation.reflTransGen_iff_eq_or_transGen.mp hrest with rfl | hpath
    · exact hreach
    · rcases hsplit x id hpath with hold | ⟨hback, -⟩
      · exact hold.to_reflTransGen.trans hreach
      · exact hback

/-- A container that adopts a slot points to nothing that led to it. -/
theorem points_adopt {g : Graph} {target : Nat} {name : String} {slot : Slot} {a b : Nat}
    (hpoints : (g.adopt target name slot).Points a b) :
    g.Points a b ∨ a = target ∧ slot = .node b ∧ ¬g.Reaches b target := by
  unfold Graph.adopt at hpoints
  split at hpoints
  · exact .inl hpoints
  · rename_i hapart
    by_cases hobject : g.isObject target = true
    · rw [points_iff, fields_setField hobject, items_setField hobject] at hpoints
      rcases hpoints with ⟨key, hfield⟩ | hitem
      · split at hfield
        · rename_i hself
          subst hself
          rcases Node.mem_assign hfield with heq | hold
          · cases heq
            exact .inr ⟨rfl, rfl, fun hreach => hapart (leadsTo_iff.mpr ⟨b, rfl, hreach⟩)⟩
          · exact .inl (points_iff.mpr (.inl ⟨key, hold⟩))
        · exact .inl (points_iff.mpr (.inl ⟨key, hfield⟩))
      · exact .inl (points_iff.mpr (.inr hitem))
    · rw [setField_of_not_isObject hobject] at hpoints
      exact .inl hpoints

theorem points_adoptItems {g : Graph} {target : Nat} (harray : g.isArray target = true) {joined : List Slot} {a b : Nat}
    (hpoints : (g.adoptItems target joined).Points a b) :
    g.Points a b ∨ a = target ∧ Slot.node b ∈ joined ∧ ¬g.Reaches b target := by
  rw [Graph.adoptItems, points_iff, fields_setArray harray, items_setArray harray] at hpoints
  rcases hpoints with hfield | hitem
  · exact .inl (points_iff.mpr (.inl hfield))
  · split at hitem
    · rename_i hself
      subst hself
      obtain ⟨hjoined, hkept⟩ := List.mem_filter.mp hitem
      rcases Bool.or_eq_true_iff.mp hkept with hown | hapart
      · obtain ⟨own, hmem, hsame⟩ := List.any_eq_true.mp hown
        cases own with
        | value value => cases hsame
        | node id =>
            obtain rfl := beq_iff_eq.mp hsame
            exact .inl (points_iff.mpr (.inr hmem))
      · refine .inr ⟨rfl, hjoined, fun hreach => ?_⟩
        rw [leadsTo_iff.mpr ⟨b, rfl, hreach⟩] at hapart
        cases hapart
    · exact .inl (points_iff.mpr (.inr hitem))

theorem Acyclic.adopt {g : Graph} (h : g.Acyclic) (target : Nat) (name : String) (slot : Slot) :
    (g.adopt target name slot).Acyclic :=
  h.given target fun _ _ hpoints => (points_adopt hpoints).imp_right fun ⟨ha, _, hapart⟩ => ⟨ha, hapart⟩

theorem Acyclic.adoptItems {g : Graph} (h : g.Acyclic) {target : Nat} (harray : g.isArray target = true)
    (joined : List Slot) : (g.adoptItems target joined).Acyclic :=
  h.given target fun _ _ hpoints => (points_adoptItems harray hpoints).imp_right fun ⟨ha, _, hapart⟩ => ⟨ha, hapart⟩

/-! ### What survives a merge -/

/-- A statement that survives both ways in which a merge of some nodes gives something away: to a container among
these nodes or below them, from one of them, and to an object only where it had nothing. -/
structure Survives (origin : Graph) (inside : Nat → Prop) (motive : Graph → Prop) : Prop where
  below : ∀ g a b, Regroups origin g → motive g → inside a → g.Points a b → inside b
  adopt : ∀ g target name slot, motive g → inside target →
    (∃ before source, motive before ∧ inside source ∧ (name, slot) ∈ before.fields source) →
    (g.field? target name = none ∨ slot.truthy = true ∧
      ∃ before old, motive before ∧ (name, old) ∈ before.fields target ∧ old.truthy = false) →
    motive (g.adopt target name slot)
  adoptItems : ∀ g target joined, motive g → inside target → g.isArray target = true →
    (∀ slot ∈ joined, ∃ before source, motive before ∧ inside source ∧ slot ∈ before.items source) →
    motive (g.adoptItems target joined)

namespace Survives

variable {origin : Graph} {inside : Nat → Prop} {motive : Graph → Prop} (h : Survives origin inside motive)

include h

theorem inside_of_field {g : Graph} (hregroups : Regroups origin g) (hg : motive g) {a id : Nat} (ha : inside a)
    {name : String} (hfield : (name, Slot.node id) ∈ g.fields a) : inside id :=
  h.below g a id hregroups hg ha (points_iff.mpr (.inl ⟨name, hfield⟩))

theorem settle {unite : Nat → Nat → Graph → Graph}
    (hunite : ∀ x y g, Regroups origin g → motive g → inside x → inside y → motive (unite x y g))
    {g before : Graph} (hregroups : Regroups origin g) (hg : motive g) (hbeforeRegroups : Regroups origin before)
    (hbefore : motive before) {a b : Nat} (ha : inside a) (hb : inside b) {name : String} {left right : Slot}
    (hleft : (name, left) ∈ g.fields a) (hright : (name, right) ∈ before.fields b) :
    motive (g.settle unite a b name left right) := by
  unfold Graph.settle
  split
  · rename_i hnothing hsome
    exact h.adopt g a name right hg ha ⟨before, b, hbefore, hb, hright⟩ (.inr ⟨hsome, g, left, hg, hleft, hnothing⟩)
  · rename_i hsome hnothing
    exact h.adopt g b name left hg hb ⟨g, a, hg, ha, hleft⟩ (.inr ⟨hsome, before, right, hbefore, hright, hnothing⟩)
  · exact hg
  · split
    · rename_i x y _ _
      have hx := h.inside_of_field hregroups hg ha hleft
      have hy := h.inside_of_field hbeforeRegroups hbefore hb hright
      split
      · rename_i harrays
        obtain ⟨hxarray, hyarray⟩ := Bool.and_eq_true_iff.mp harrays
        have hjoined : ∀ slot ∈ g.joinedItems x y,
            ∃ before source, motive before ∧ inside source ∧ slot ∈ before.items source := fun slot hslot =>
          (mem_joinedItems hslot).elim (fun hitem => ⟨g, x, hg, hx, hitem⟩) fun hitem => ⟨g, y, hg, hy, hitem⟩
        exact h.adoptItems _ y _ (h.adoptItems g x _ hg hx hxarray hjoined) hy (isArray_adoptItems hxarray _ hyarray)
          hjoined
      · split
        · split
          · exact hunite x y g hregroups hg hx hy
          · exact hg
        · exact hg
    · exact hg

theorem unite (depth : Nat) (active : List (Nat × Nat)) {a b : Nat} {g : Graph} (hregroups : Regroups origin g)
    (hg : motive g) (ha : inside a) (hb : inside b) : motive (unite depth active a b g) := by
  induction depth generalizing active a b g with
  | zero => exact hg
  | succ depth ih =>
      rw [Graph.unite]
      split
      · exact hg
      · have hoffered : Regroups origin ((g.fields b).foldl (offer (Graph.unite depth ((a, b) :: active)) a b) g) ∧
            motive ((g.fields b).foldl (offer (Graph.unite depth ((a, b) :: active)) a b) g) := by
          refine List.foldlRecOn (motive := fun g => Regroups origin g ∧ motive g) _ _ ⟨hregroups, hg⟩ ?_
          rintro middle ⟨hmiddle, hholds⟩ field hfield
          refine ⟨hmiddle.offer (regroups_unite depth _) (hregroups.fields b field hfield), ?_⟩
          unfold offer
          split
          · rename_i hnone
            exact h.adopt middle a _ _ hholds ha ⟨g, b, hg, hb, hfield⟩ (.inl hnone)
          · rename_i existing hexisting
            split
            · exact hholds
            · exact h.settle (fun x y g hregroups hg hx hy => ih _ hregroups hg hx hy) hmiddle hholds hregroups hg ha hb
                (mem_of_field? hexisting) hfield
        refine List.foldlRecOn _ _ hoffered.2 fun middle hholds field hfield => ?_
        unfold complete
        split
        · rename_i hnone
          have hslot := Option.isNone_iff_eq_none.mp hnone
          exact h.adopt middle b _ _ hholds hb ⟨_, a, hoffered.2, ha, hfield⟩ (.inl hslot)
        · exact hholds

theorem merge {group : List Nat} (hgroup : ∀ id ∈ group, inside id) {g : Graph} (hregroups : Regroups origin g)
    (hg : motive g) : motive (g.merge group) := by
  have hpass : ∀ first others (g : Graph), inside first → (∀ other ∈ others, inside other) → Regroups origin g →
      motive g → Regroups origin (mergePass first others g) ∧ motive (mergePass first others g) := by
    intro first others g hfirst hothers hregroups hg
    refine List.foldlRecOn (motive := fun g => Regroups origin g ∧ motive g) _ _ ⟨hregroups, hg⟩ ?_
    rintro middle ⟨hmiddle, hholds⟩ other hother
    exact ⟨hmiddle.trans (regroups_unite _ _ _ _ _), h.unite _ _ hmiddle hholds hfirst (hothers other hother)⟩
  cases group with
  | nil => exact hg
  | cons first others =>
      have hfirst := hgroup first List.mem_cons_self
      have hothers : ∀ other ∈ others, inside other := fun other hother => hgroup other (List.mem_cons_of_mem _ hother)
      obtain ⟨hmiddle, hholds⟩ := hpass first others g hfirst hothers hregroups hg
      exact (hpass first others _ hfirst hothers hmiddle hholds).2

/-- The nodes that are merged have identities. -/
theorem unified (hentities : ∀ id, (origin.identity? id).isSome = true → inside id) (horigin : motive origin) :
    motive origin.unified := by
  have hgroup : ∀ group ∈ (origin.scan false).groups, ∀ id ∈ group, inside id := by
    intro group hgroup id hid
    obtain ⟨identity, -, rfl⟩ := List.mem_map.mp hgroup
    obtain ⟨bare, hbare, rfl⟩ := List.mem_map.mp hid
    obtain ⟨hentity, hidentity⟩ := List.mem_filter.mp hbare
    obtain ⟨cursor, hcursor, rfl⟩ := List.mem_map.mp hentity
    refine hentities cursor.node ?_
    rw [← (origin.filed_scan.1 cursor hcursor).1]
    exact Option.isSome_iff_exists.mpr ⟨identity, beq_iff_eq.mp hidentity⟩
  suffices hall : Regroups origin origin.unified ∧ motive origin.unified from hall.2
  refine List.foldlRecOn (motive := fun g => Regroups origin g ∧ motive g) _ _ ⟨.refl origin, horigin⟩ ?_
  rintro middle ⟨hmiddle, hholds⟩ group hmem
  exact ⟨hmiddle.trans (regroups_merge middle group), h.merge (hgroup group hmem) hmiddle hholds⟩

end Survives

theorem survives_acyclic (g : Graph) : Survives g (fun _ => True) Acyclic :=
  ⟨fun _ _ _ _ _ _ _ => trivial, fun _ target name slot hg _ _ _ => hg.adopt target name slot,
    fun _ _ joined hg _ harray _ => hg.adoptItems harray joined⟩

/-- Merging any nodes closes no cycle. -/
theorem Acyclic.merge {g : Graph} (h : g.Acyclic) (ids : List Nat) : (g.merge ids).Acyclic :=
  (survives_acyclic g).merge (fun _ _ => trivial) (.refl g) h

theorem Acyclic.unified {g : Graph} (h : g.Acyclic) : g.unified.Acyclic :=
  (survives_acyclic g).unified (fun _ _ => trivial) h

/-- A node that no other points to keeps its identity, or that it has none. -/
theorem identity?_unified {g : Graph} (hg : g.WellFormed) {root : Nat} (hfree : ∀ id, ¬g.Points id root) :
    g.unified.identity? root = g.identity? root := by
  let kept (next : Graph) : Prop :=
    ((next.fields root).map Prod.fst).Nodup ∧ next.field? root identityName = g.field? root identityName
  suffices hsurvives : Survives g (fun id => id ≠ root ∨ (g.identity? root).isSome = true) kept by
    have hkept : kept g.unified := by
      refine hsurvives.unified (fun id hidentity => ?_) ⟨(wellFormed_iff.mp hg).2.1 root, rfl⟩
      by_cases hroot : id = root
      · exact .inr (hroot ▸ hidentity)
      · exact .inl hroot
    rw [identity?, identity?, hkept.2]
  refine ⟨fun middle a b hregroups _ _ hpoints => ?_, ?_, ?_⟩
  · obtain ⟨source, hsource⟩ := hregroups.exists_points hpoints
    exact .inl fun hroot => hfree source (hroot ▸ hsource)
  · rintro middle target name slot ⟨hnames, hfield⟩ hinside - hlacks
    -- a root that may be given something has an identity, which is no lack
    have hother : target ≠ root ∨ name ≠ identityName := by
      rcases hinside with htarget | hidentity
      · exact .inl htarget
      · by_contra hself
        obtain ⟨rfl, rfl⟩ : target = root ∧ name = identityName := by
          rwa [not_or, not_not, not_not] at hself
        rw [identity?] at hidentity
        split at hidentity
        · rename_i text htext
          rcases hlacks with hnone | ⟨-, before, old, ⟨hbeforeNames, hbefore⟩, hmem, hnothing⟩
          · cases (hfield.trans htext).symm.trans hnone
          · have hold := (Node.find?_of_mem hbeforeNames hmem).symm.trans (hbefore.trans htext)
            cases hold
            rw [Slot.truthy, Bool.not_eq_false'] at hnothing
            rw [if_pos hnothing] at hidentity
            cases hidentity
        · cases hidentity
    unfold adopt
    split
    · exact ⟨hnames, hfield⟩
    · by_cases hobject : middle.isObject target = true
      · refine ⟨?_, ?_⟩
        · rw [fields_setField hobject]
          split
          · rename_i hself
            exact Node.nodup_assign (hself ▸ hnames) name slot
          · exact hnames
        · rw [field?_setField hobject, if_neg, hfield]
          rintro ⟨rfl, rfl⟩
          rcases hother with hne | hne <;> exact hne rfl
      · rw [setField_of_not_isObject hobject]
        exact ⟨hnames, hfield⟩
  · rintro middle target joined ⟨hnames, hfield⟩ - harray -
    rw [adoptItems]
    exact ⟨by rw [fields_setArray harray]; exact hnames, by rw [field?, fields_setArray harray]; exact hfield⟩

/-! ### Values -/

/-- A graph without cycles shows a value. -/
theorem Acyclic.exists_shows {g : Graph} (h : g.Acyclic) (hg : g.WellFormed) : ∃ v, g.Shows g.root v := by
  have hnone : (g.scan true).circular = [] := by
    refine List.eq_nil_iff_forall_not_mem.mpr fun cursor hcursor => ?_
    obtain ⟨location, hlocation⟩ := List.exists_mem_of_ne_nil _ (g.filed_scan.2 cursor hcursor).2
    obtain ⟨parent, position, -, hslot, -, hreach⟩ :=
      slotAt?_of_circular hg ((lists_circular g _ _).mp ⟨cursor, hcursor, rfl, hlocation⟩)
    exact h cursor.node (Relation.TransGen.tail' hreach (points_of_slotAt? hslot))
  have hself : g.severed = g := by
    rw [severed, hnone]
    rfl
  exact hself ▸ exists_shows_severed hg

/-- Loaded containers come after all they hold. -/
theorem Loading.lt_of_points {whole : Json} {g : Graph} (h : g.Loading whole) {a b : Nat} (hpoints : g.Points a b) :
    b < a := by
  obtain ⟨node, hnode, hslot⟩ := exists_slot_of_points hpoints
  exact (h.fits a node hnode).slots _ hslot b rfl

theorem loading_ofJson {document : Json} (hordered : document.Ordered) : (ofJson document).Loading document := by
  obtain ⟨-, hloading, -⟩ := loadsInto hordered document.self_mem_parts empty (loading_empty document)
  exact ⟨hloading.fits, hloading.native.fields, hloading.native.items⟩

theorem acyclic_ofJson {document : Json} (hordered : document.Ordered) : (ofJson document).Acyclic :=
  acyclic_of_lt fun _ _ _ hpoints => (loading_ofJson hordered).lt_of_points hpoints

/-- The root is loaded last, so nothing points to it. -/
theorem not_points_root {document : Json} (hordered : document.Ordered) {root : Nat}
    (hroot : (ofJson document).root = .node root) (id : Nat) : ¬(ofJson document).Points id root := by
  intro hpoints
  have hless := (loading_ofJson hordered).lt_of_points hpoints
  obtain ⟨node, hnode, -⟩ := exists_slot_of_points hpoints
  have hlt := (List.getElem?_eq_some_iff.mp hnode).1
  have hlast : (ofJson document).nodes.length = root + 1 := by
    cases document with
    | object members | array items =>
        cases hroot
        exact List.length_append
    | _ => cases hroot
  omega

/-- The merged graph of a document shows a value of the same kind as the document, with its identity. -/
theorem exists_shows_unified {document : Json} (hordered : document.Ordered) :
    ∃ v, (ofJson document).unified.Shows (ofJson document).unified.root v ∧ v.identity? = document.identity? ∧
      ((∃ members, v = .object members) ↔ ∃ members, document = .object members) := by
  obtain ⟨hg, -, hshows⟩ := ofJson_spec hordered
  have hregroups := regroups_unified (ofJson document)
  obtain ⟨v, hv⟩ := (acyclic_ofJson hordered).unified.exists_shows (hregroups.wellFormed hg)
  have hkind : ∀ {w : Json}, (∃ members, w.normal = .object members) ↔ ∃ members, w = .object members := by
    intro w
    cases w <;> simp [Json.normal]
  refine ⟨v, hv, ?_⟩
  rw [hregroups.root] at hv
  cases hroot : (ofJson document).root with
  | value w =>
      rw [hroot] at hv hshows
      rw [hv.unique (.value w), ← hshows.unique (.value w), document.identity?_normal]
      exact ⟨rfl, hkind⟩
  | node root =>
      rw [hroot] at hv hshows
      rw [← document.identity?_normal, hv.identity, hshows.identity]
      refine ⟨identity?_unified hg (not_points_root hordered hroot), Iff.trans ?_ hkind⟩
      have hobject : ∀ {g : Graph} {w : Json}, g.Shows (.node root) w →
          ((∃ members, w = .object members) ↔ g.isObject root = true) := by
        intro g w hw
        refine ⟨fun ⟨members, hmembers⟩ => isObject_of_shows (hmembers ▸ hw), exists_members_of_shows hw⟩
      rw [hobject hv, hobject hshows, hregroups.isObject]

end Dossier.Graph
