import Dossier.Proofs.Graph.Regroup

/-!
Merging ends. A union follows the slots of a graph that it rewrites meanwhile, and the graph may be cyclic, so its shape
bounds nothing. Here unions, walks and the writing of values are told as courses without any bound, and each is shown to
come to its end with the result of the bounded definition: walks, as every slot is spent once; writing, as the nodes
above are distinct; unions, as the pairs being united are distinct pairs of objects, and merging makes no node and no
object. Main statement: `merge_ends`.
-/

namespace Dossier.Graph

variable {g origin : Graph}

/-! ### Walks -/

/-- A walk: the node that waits first is passed over if it was found before; else it is found, and what it points to
waits before the others. -/
inductive Walks (g : Graph) : List Nat → List Nat → List Nat → Prop
  | done {found : List Nat} : Walks g found [] found
  | old {found waiting result : List Nat} {id : Nat} :
      id ∈ found → Walks g found waiting result → Walks g found (id :: waiting) result
  | new {found waiting result : List Nat} {id : Nat} :
      id ∉ found → Walks g (found ++ [id]) (g.targets id ++ waiting) result → Walks g found (id :: waiting) result

theorem walks_explore (fuel : Nat) {found waiting : List Nat}
    (hfuel : waiting.length + g.unspent found ≤ fuel) : Walks g found waiting (g.explore fuel found waiting) := by
  induction fuel generalizing found waiting with
  | zero =>
      obtain rfl : waiting = [] := List.length_eq_zero_iff.mp (by omega)
      exact .done
  | succ fuel ih =>
      cases waiting with
      | nil => exact .done
      | cons id waiting =>
          rw [List.length_cons] at hfuel
          rw [explore]
          split
          · rename_i hold
            exact .old (List.contains_iff_mem.mp hold) (ih (by omega))
          · rename_i hnew
            have hnew : id ∉ found := fun h => hnew (List.contains_iff_mem.mpr h)
            have hspent := unspent_found (g := g) hnew
            have htargets := g.length_targets_le id
            refine .new hnew (ih ?_)
            rw [List.length_append]
            omega

theorem walks_reachable (g : Graph) (start : Nat) : Walks g [] [start] (g.reachable start) :=
  walks_explore _ (by rw [unspent_nil, List.length_singleton, Nat.add_comm])

/-! ### Values -/

/-- The writing of a slot below the nodes above it; a container is written from what its slots give. -/
inductive Writes (g : Graph) : List Nat → Slot → Except GraphFault Json → Prop
  | value {above : List Nat} {value : Json} : Writes g above (.value value) (.ok value)
  | cycle {above : List Nat} {id : Nat} : id ∈ above → Writes g above (.node id) (.error (.cycle id))
  | unknown {above : List Nat} {id : Nat} :
      id ∉ above → g.nodes[id]? = none → Writes g above (.node id) (.error (.unknownNode id))
  | object {above : List Nat} {id : Nat} {fields : List (String × Slot)} {value : Slot → Except GraphFault Json} :
      id ∉ above → g.nodes[id]? = some (.object fields) →
        (∀ field ∈ fields, Writes g (id :: above) field.2 (value field.2)) →
        Writes g above (.node id) (do
          let members ← fields.mapM fun (name, slot) => do return (name, ← value slot)
          return Json.ofPairs members)
  | array {above : List Nat} {id : Nat} {items : List Slot} {value : Slot → Except GraphFault Json} :
      id ∉ above → g.nodes[id]? = some (.array items) →
        (∀ item ∈ items, Writes g (id :: above) item (value item)) →
        Writes g above (.node id) (do return .array (← items.mapM value))

theorem writes_slotJson (depth : Nat) {above : List Nat} {slot : Slot} (hnodup : above.Nodup)
    (hknown : ∀ id ∈ above, id < g.nodes.length) (hdepth : g.nodes.length < depth + above.length) :
    Writes g above slot (g.slotJson depth above slot) := by
  induction depth generalizing above slot with
  | zero =>
      have hle := length_le_of_nodup hnodup hknown
      omega
  | succ depth ih =>
      cases slot with
      | value value => exact .value
      | node id =>
          rw [slotJson]
          split
          · rename_i hback
            exact .cycle (List.contains_iff_mem.mp hback)
          · rename_i hnew
            have hnew : id ∉ above := fun h => hnew (List.contains_iff_mem.mpr h)
            have hbelow : id < g.nodes.length →
                ∀ slot, Writes g (id :: above) slot (g.slotJson depth (id :: above) slot) := by
              intro hid slot
              refine ih (List.nodup_cons.mpr ⟨hnew, hnodup⟩) (fun other hother => ?_) ?_
              · rcases List.mem_cons.mp hother with rfl | hrest
                · exact hid
                · exact hknown other hrest
              · rw [List.length_cons]
                omega
            split
            · rename_i hnone
              exact .unknown hnew hnone
            · rename_i fields hnode
              exact .object hnew hnode fun field _ => hbelow (List.getElem?_eq_some_iff.mp hnode).1 field.2
            · rename_i items hnode
              exact .array hnew hnode fun item _ => hbelow (List.getElem?_eq_some_iff.mp hnode).1 item

theorem writes_nodeJson? (g : Graph) (id : Nat) : Writes g [] (.node id) (g.nodeJson? id) :=
  writes_slotJson _ List.nodup_nil (fun _ h => absurd h List.not_mem_nil) (Nat.lt_succ_self _)

/-! ### Unions -/

/-- Whether a union gets past its guard. -/
def enters (g : Graph) (active : List (Nat × Nat)) (a b : Nat) : Bool :=
  !(a == b || !g.isObject a || !g.isObject b || active.contains (a, b))

/-- The two objects that have to be united below, if an offered field asks for that. -/
def inner? (g : Graph) (a : Nat) (field : String × Slot) : Option (Nat × Nat) :=
  match g.field? a field.1, field.2 with
  | some (.node x), .node y =>
    if x != y && g.isObject x && g.isObject y && ((g.identity? x).isNone || (g.identity? y).isNone) then some (x, y)
    else none
  | _, _ => none

/-- An offered field is dealt with on the spot, or it is nothing but a union below. -/
theorem offer_eq (unite : Nat → Nat → Graph → Graph) (a b : Nat) (g : Graph) (field : String × Slot) :
    g.offer unite a b field =
      ((g.inner? a field).map fun pair => unite pair.1 pair.2 g).getD (g.offer (fun _ _ g => g) a b field) := by
  have harray : ∀ id, g.isObject id = true → g.isArray id = false := by
    intro id hobject
    rw [isArray, isObject_iff.mp hobject]
  rw [offer, offer, inner?]
  cases g.field? a field.1 with
  | none => rfl
  | some existing =>
      cases existing with
      | value value => cases field.2 <;> simp [settle]
      | node x =>
          cases field.2 with
          | value value => simp [settle]
          | node y =>
              by_cases hsame : x = y
              · simp [Slot.same, hsame]
              · by_cases hx : g.isObject x = true <;> by_cases hy : g.isObject y = true <;>
                  simp [settle, Slot.same, Slot.truthy, hsame, hx, hy, harray]
                split <;> rfl

/-- A union that got past its guard: the graph that it found, and the pairs being united, its own first. -/
structure Entry where
  graph : Graph
  active : List (Nat × Nat)

mutual

/-- The union of two objects while the pairs `active` are being united: the unions in it that get past their guards,
itself included, and the graph that it leaves. -/
inductive Uniting : List (Nat × Nat) → Nat → Nat → Graph → List Entry → Graph → Prop
  | refused {active : List (Nat × Nat)} {a b : Nat} {g : Graph} :
      g.enters active a b = false → Uniting active a b g [] g
  | entered {active : List (Nat × Nat)} {a b : Nat} {g middle : Graph} {entries : List Entry} :
      g.enters active a b = true → Offering ((a, b) :: active) a b (g.fields b) g entries middle →
        Uniting active a b g (⟨g, (a, b) :: active⟩ :: entries) ((middle.fields a).foldl (complete b) middle)

/-- The fields of the second object are offered to the first, one after another. -/
inductive Offering : List (Nat × Nat) → Nat → Nat → List (String × Slot) → Graph → List Entry → Graph → Prop
  | done {active : List (Nat × Nat)} {a b : Nat} {g : Graph} : Offering active a b [] g [] g
  | aside {active : List (Nat × Nat)} {a b : Nat} {field : String × Slot} {rest : List (String × Slot)}
      {g next : Graph} {entries : List Entry} :
      g.inner? a field = none → Offering active a b rest (g.offer (fun _ _ g => g) a b field) entries next →
        Offering active a b (field :: rest) g entries next
  | inner {active : List (Nat × Nat)} {a b x y : Nat} {field : String × Slot} {rest : List (String × Slot)}
      {g middle next : Graph} {entries more : List Entry} :
      g.inner? a field = some (x, y) → Uniting active x y g entries middle →
        Offering active a b rest middle more next → Offering active a b (field :: rest) g (entries ++ more) next

end

/-- Pairs of objects of a graph, all different. -/
structure Stacked (g : Graph) (active : List (Nat × Nat)) : Prop where
  nodup : active.Nodup
  objects : ∀ pair ∈ active, g.isObject pair.1 = true ∧ g.isObject pair.2 = true

/-- There are no more of them than pairs of objects. -/
theorem Stacked.length_le {active : List (Nat × Nat)} (h : g.Stacked active) :
    active.length ≤ g.objectCount * g.objectCount := by
  have hknown : ∀ id, g.isObject id = true → id ∈ (List.range g.nodes.length).filter g.isObject := fun id hobject =>
    List.mem_filter.mpr ⟨List.mem_range.mpr (List.getElem?_eq_some_iff.mp (isObject_iff.mp hobject)).1, hobject⟩
  have hsub : active ⊆ (List.range g.nodes.length).filter g.isObject ×ˢ (List.range g.nodes.length).filter g.isObject :=
    fun pair hpair => List.mem_product.mpr ⟨hknown _ (h.objects pair hpair).1, hknown _ (h.objects pair hpair).2⟩
  have hle := (List.subperm_of_subset h.nodup hsub).length_le
  rwa [List.length_product, ← List.countP_eq_length_filter, ← objectCount_eq] at hle

theorem Stacked.push {active : List (Nat × Nat)} {a b : Nat} (h : origin.Stacked active) (hregroups : Regroups origin g)
    (henters : g.enters active a b = true) : origin.Stacked ((a, b) :: active) := by
  simp only [enters, Bool.not_eq_true', Bool.or_eq_false_iff, Bool.not_eq_false'] at henters
  obtain ⟨⟨⟨-, ha⟩, hb⟩, hnew⟩ := henters
  refine ⟨List.nodup_cons.mpr ⟨fun hmem => ?_, h.nodup⟩, fun pair hpair => ?_⟩
  · rw [List.contains_iff_mem.mpr hmem] at hnew
    cases hnew
  · rcases List.mem_cons.mp hpair with rfl | hrest
    · exact ⟨(hregroups.isObject a).symm.trans ha, (hregroups.isObject b).symm.trans hb⟩
    · exact h.objects pair hrest

/-- A union of a graph that was regrouped meanwhile, below unions of other pairs of its objects. -/
structure Entry.Fits (origin : Graph) (entry : Entry) : Prop where
  regroups : Regroups origin entry.graph
  stacked : origin.Stacked entry.active

mutual

theorem Uniting.fits {active : List (Nat × Nat)} {a b : Nat} {g next : Graph} {entries : List Entry}
    (h : Uniting active a b g entries next) (hregroups : Regroups origin g) (hstacked : origin.Stacked active) :
    Regroups origin next ∧ ∀ entry ∈ entries, entry.Fits origin := by
  match h with
  | .refused _ => exact ⟨hregroups, fun _ hentry => absurd hentry List.not_mem_nil⟩
  | .entered henters hoffering =>
      have hpushed := hstacked.push hregroups henters
      obtain ⟨hmiddle, hentries⟩ := hoffering.fits hregroups hpushed fun field => hregroups.fields b field
      refine ⟨.foldl (fun field hfield _ h => h.complete (hmiddle.fields a field hfield) b) hmiddle,
        fun entry hentry => ?_⟩
      rcases List.mem_cons.mp hentry with rfl | hrest
      · exact ⟨hregroups, hpushed⟩
      · exact hentries entry hrest

theorem Offering.fits {active : List (Nat × Nat)} {a b : Nat} {fields : List (String × Slot)} {g next : Graph}
    {entries : List Entry} (h : Offering active a b fields g entries next) (hregroups : Regroups origin g)
    (hstacked : origin.Stacked active)
    (hfields : ∀ field ∈ fields, ∃ source, field ∈ origin.fields source) :
    Regroups origin next ∧ ∀ entry ∈ entries, entry.Fits origin := by
  match h with
  | .done => exact ⟨hregroups, fun _ hentry => absurd hentry List.not_mem_nil⟩
  | .aside _ hrest =>
      exact hrest.fits (hregroups.offer (fun _ _ g => .refl g) (hfields _ List.mem_cons_self)) hstacked
        fun field hfield => hfields field (List.mem_cons_of_mem _ hfield)
  | .inner _ huniting hrest =>
      obtain ⟨hmiddle, hentries⟩ := huniting.fits hregroups hstacked
      obtain ⟨hnext, hmore⟩ := hrest.fits hmiddle hstacked
        fun field hfield => hfields field (List.mem_cons_of_mem _ hfield)
      exact ⟨hnext, fun entry hentry => (List.mem_append.mp hentry).elim (hentries entry) (hmore entry)⟩

end

mutual

/-- A union has one course. -/
theorem Uniting.unique {active : List (Nat × Nat)} {a b : Nat} {g next : Graph} {entries : List Entry}
    (h : Uniting active a b g entries next) (entries' : List Entry) (next' : Graph)
    (h' : Uniting active a b g entries' next') : entries' = entries ∧ next' = next := by
  match h with
  | .refused hfalse =>
      cases h' with
      | refused _ => exact ⟨rfl, rfl⟩
      | entered htrue _ => exact absurd (htrue.symm.trans hfalse) nofun
  | .entered htrue hoffering =>
      -- taken before `h'` is taken apart, so that the recursion is seen to be structural
      have hunique := hoffering.unique
      cases h' with
      | refused hfalse => exact absurd (htrue.symm.trans hfalse) nofun
      | entered _ hoffering' =>
          obtain ⟨rfl, rfl⟩ := hunique _ _ hoffering'
          exact ⟨rfl, rfl⟩
termination_by structural h

theorem Offering.unique {active : List (Nat × Nat)} {a b : Nat} {fields : List (String × Slot)} {g next : Graph}
    {entries : List Entry} (h : Offering active a b fields g entries next) (entries' : List Entry) (next' : Graph)
    (h' : Offering active a b fields g entries' next') : entries' = entries ∧ next' = next := by
  match h with
  | .done =>
      cases h'
      exact ⟨rfl, rfl⟩
  | .aside hnone hrest =>
      have hunique := hrest.unique
      cases h' with
      | aside _ hrest' => exact hunique _ _ hrest'
      | inner hsome _ _ => exact absurd (hnone.symm.trans hsome) nofun
  | .inner hsome huniting hrest =>
      have hbelow := huniting.unique
      have hunique := hrest.unique
      cases h' with
      | aside hnone _ => exact absurd (hnone.symm.trans hsome) nofun
      | inner hsome' huniting' hrest' =>
          cases hsome.symm.trans hsome'
          obtain ⟨rfl, rfl⟩ := hbelow _ _ huniting'
          obtain ⟨rfl, rfl⟩ := hunique _ _ hrest'
          exact ⟨rfl, rfl⟩
termination_by structural h

end

/-- Offers come to their end if the unions below do. -/
theorem exists_offering {unite : Nat → Nat → Graph → Graph} {active : List (Nat × Nat)} {a b : Nat}
    (hregroups : ∀ x y g, Regroups g (unite x y g))
    (hends : ∀ x y g, Regroups origin g → ∃ entries, Uniting active x y g entries (unite x y g))
    {fields : List (String × Slot)} (hfields : ∀ field ∈ fields, ∃ source, field ∈ origin.fields source)
    (hg : Regroups origin g) :
    ∃ entries, Offering active a b fields g entries (fields.foldl (offer unite a b) g) := by
  induction fields generalizing g with
  | nil => exact ⟨[], .done⟩
  | cons field rest ih =>
      obtain ⟨more, hmore⟩ := ih (fun other hother => hfields other (List.mem_cons_of_mem _ hother))
        (hg.offer hregroups (hfields field List.mem_cons_self) (a := a) (b := b))
      rw [List.foldl_cons]
      have hoffer := offer_eq unite a b g field
      cases hinner : g.inner? a field with
      | none =>
          rw [hinner, Option.map_none, Option.getD_none] at hoffer
          rw [hoffer] at hmore ⊢
          exact ⟨more, .aside hinner hmore⟩
      | some pair =>
          rw [hinner, Option.map_some, Option.getD_some] at hoffer
          rw [hoffer] at hmore ⊢
          obtain ⟨entries, huniting⟩ := hends pair.1 pair.2 g hg
          exact ⟨entries ++ more, .inner hinner huniting hmore⟩

/-- The depth of a union is not used up: the pairs being united are too few for that. -/
theorem exists_uniting (depth : Nat) {active : List (Nat × Nat)} (a b : Nat) (hg : Regroups origin g)
    (hstacked : origin.Stacked active) (hdepth : origin.objectCount * origin.objectCount < depth + active.length) :
    ∃ entries, Uniting active a b g entries (unite depth active a b g) := by
  induction depth generalizing active a b g with
  | zero => exact absurd hstacked.length_le (by omega)
  | succ depth ih =>
      rw [unite]
      cases henters : g.enters active a b with
      | false =>
          rw [if_pos (by simpa only [enters, Bool.not_eq_false'] using henters)]
          exact ⟨[], .refused henters⟩
      | true =>
          have hpushed := hstacked.push hg henters
          rw [if_neg (by simpa only [enters, Bool.not_eq_true', Bool.not_eq_true] using henters)]
          obtain ⟨entries, hoffering⟩ := exists_offering (regroups_unite depth ((a, b) :: active))
            (fun x y g hg => ih x y hg hpushed (by rw [List.length_cons]; omega)) (hg.fields b) hg
          exact ⟨_, .entered henters hoffering⟩

/-! ### Merging -/

/-- One pass over the copies, each united with the first. -/
inductive Passing (first : Nat) : List Nat → Graph → List Entry → Graph → Prop
  | done {g : Graph} : Passing first [] g [] g
  | united {other : Nat} {others : List Nat} {g middle next : Graph} {entries more : List Entry} :
      Uniting [] first other g entries middle → Passing first others middle more next →
        Passing first (other :: others) g (entries ++ more) next

/-- A merge, which is two passes. -/
inductive Combining : List Nat → Graph → List Entry → Graph → Prop
  | nothing {g : Graph} : Combining [] g [] g
  | copies {first : Nat} {others : List Nat} {g middle next : Graph} {entries more : List Entry} :
      Passing first others g entries middle → Passing first others middle more next →
        Combining (first :: others) g (entries ++ more) next

theorem Stacked.nil (g : Graph) : g.Stacked [] := ⟨List.nodup_nil, fun _ h => absurd h List.not_mem_nil⟩

theorem exists_passing (first : Nat) (others : List Nat) (hg : Regroups origin g) :
    ∃ entries, Passing first others g entries (mergePass first others g) := by
  induction others generalizing g with
  | nil => exact ⟨[], .done⟩
  | cons other others ih =>
      obtain ⟨entries, huniting⟩ := exists_uniting (g.objectCount * g.objectCount + 1) first other (.refl g) (.nil g)
        (Nat.lt_succ_self _)
      obtain ⟨more, hpassing⟩ := ih (hg.trans (regroups_unite _ [] first other g))
      exact ⟨entries ++ more, .united huniting hpassing⟩

theorem Passing.fits {first : Nat} {others : List Nat} {g next : Graph} {entries : List Entry}
    (h : Passing first others g entries next) (hg : Regroups origin g) :
    Regroups origin next ∧ ∀ entry ∈ entries, entry.Fits origin := by
  induction h with
  | done => exact ⟨hg, fun _ hentry => absurd hentry List.not_mem_nil⟩
  | united huniting _ ih =>
      obtain ⟨hmiddle, hentries⟩ := huniting.fits hg (.nil origin)
      obtain ⟨hnext, hmore⟩ := ih hmiddle
      exact ⟨hnext, fun entry hentry => (List.mem_append.mp hentry).elim (hentries entry) (hmore entry)⟩

theorem Passing.unique {first : Nat} {others : List Nat} {g next next' : Graph} {entries entries' : List Entry}
    (h : Passing first others g entries next) (h' : Passing first others g entries' next') :
    entries' = entries ∧ next' = next := by
  induction h generalizing entries' next' with
  | done =>
      cases h'
      exact ⟨rfl, rfl⟩
  | united huniting _ ih =>
      cases h' with
      | united huniting' hpassing' =>
          obtain ⟨rfl, rfl⟩ := huniting.unique _ _ huniting'
          obtain ⟨rfl, rfl⟩ := ih hpassing'
          exact ⟨rfl, rfl⟩

theorem exists_combining (g : Graph) (ids : List Nat) : ∃ entries, Combining ids g entries (g.merge ids) := by
  cases ids with
  | nil => exact ⟨[], .nothing⟩
  | cons first others =>
      obtain ⟨entries, hfirst⟩ := exists_passing first others (.refl g)
      obtain ⟨more, hsecond⟩ := exists_passing first others (.refl (mergePass first others g))
      exact ⟨entries ++ more, .copies hfirst hsecond⟩

theorem Combining.fits {ids : List Nat} {next : Graph} {entries : List Entry} (h : Combining ids g entries next) :
    Regroups g next ∧ ∀ entry ∈ entries, entry.Fits g := by
  cases h with
  | nothing => exact ⟨.refl g, fun _ hentry => absurd hentry List.not_mem_nil⟩
  | copies hfirst hsecond =>
      obtain ⟨hmiddle, hentries⟩ := hfirst.fits (.refl g)
      obtain ⟨hnext, hmore⟩ := hsecond.fits hmiddle
      exact ⟨hnext, fun entry hentry => (List.mem_append.mp hentry).elim (hentries entry) (hmore entry)⟩

theorem Combining.unique {ids : List Nat} {next next' : Graph} {entries entries' : List Entry}
    (h : Combining ids g entries next) (h' : Combining ids g entries' next') : entries' = entries ∧ next' = next := by
  cases h with
  | nothing =>
      cases h'
      exact ⟨rfl, rfl⟩
  | copies hfirst hsecond =>
      cases h' with
      | copies hfirst' hsecond' =>
          obtain ⟨rfl, rfl⟩ := hfirst.unique hfirst'
          obtain ⟨rfl, rfl⟩ := hsecond.unique hsecond'
          exact ⟨rfl, rfl⟩

/-- **Merging ends, on every graph and for every list of nodes.** It has one course, and that comes to its end with the
merged graph. Each union in it that gets past its guard finds the nodes that were there at the start, the same of them
objects, and is below unions of other pairs of objects, so that no more unions are nested than there are pairs of
objects. The walks and the comparisons of values on the way end too, on every graph. -/
theorem merge_ends (g : Graph) (ids : List Nat) :
    (∃ entries, Combining ids g entries (g.merge ids) ∧
      (∀ entries' next, Combining ids g entries' next → entries' = entries ∧ next = g.merge ids) ∧
      ∀ entry ∈ entries,
        (entry.graph.nodes.length = g.nodes.length ∧ ∀ id, entry.graph.isObject id = g.isObject id) ∧
        entry.active.Nodup ∧ (∀ pair ∈ entry.active, g.isObject pair.1 = true ∧ g.isObject pair.2 = true) ∧
        entry.active.length ≤ g.objectCount * g.objectCount) ∧
    ((g.merge ids).nodes.length = g.nodes.length ∧ ∀ id, (g.merge ids).isObject id = g.isObject id) ∧
    (∀ (g : Graph) (start : Nat), Walks g [] [start] (g.reachable start)) ∧
    ∀ (g : Graph) (id : Nat), Writes g [] (.node id) (g.nodeJson? id) := by
  obtain ⟨entries, hcombining⟩ := exists_combining g ids
  obtain ⟨hregroups, hentries⟩ := hcombining.fits
  refine ⟨⟨entries, hcombining, fun entries' next h => hcombining.unique h, fun entry hentry => ?_⟩,
    ⟨hregroups.size, hregroups.isObject⟩, walks_reachable, writes_nodeJson?⟩
  have hfits := hentries entry hentry
  exact ⟨⟨hfits.regroups.size, hfits.regroups.isObject⟩, hfits.stacked.nodup, hfits.stacked.objects,
    hfits.stacked.length_le⟩

end Dossier.Graph
