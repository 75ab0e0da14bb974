import Dossier.Proofs.Graph.Confined
import Dossier.Proofs.Graph.Inner
import Dossier.Proofs.Graph.Locations

/-!
Entities unified one after another. The copies of an entity are the nodes with its identity that the root leads to, each
of which is in one group, once; so a statement about each identity is established group by group. Around the inside of
the copies of one entity there is a fence, which holds as long as no entity holds itself and copies are of one kind; and
the merges of other entities change nothing inside. So in the end all copies of all entities are settled:
**`reconciled_mergeGroups`**.
-/

namespace Dossier.Graph

variable {origin g next : Graph} {identity : String} {fence : Fence}

/-! ### The copies of an entity -/

/-- The group of an identity. -/
def copiesOf (g : Graph) (identity : String) : List Nat := ((g.scan false).cursors identity).map (·.node)

theorem groups_eq (g : Graph) : (g.scan false).groups = (g.scan false).identities.map g.copiesOf := rfl

/-- The graph in which the groups of the identities have been merged, one after another. -/
def mergeGroups (g : Graph) (groupOf : String → List Nat) (identities : List String) : Graph :=
  identities.foldl (fun next identity => next.merge (groupOf identity)) g

theorem mergeGroups_concat (groupOf : String → List Nat) (identities : List String) (last : String) :
    g.mergeGroups groupOf (identities ++ [last]) = (g.mergeGroups groupOf identities).merge (groupOf last) := by
  rw [mergeGroups, List.foldl_append]
  rfl

theorem unified_eq (g : Graph) : g.unified = g.mergeGroups g.copiesOf (g.scan false).identities := by
  rw [unified, groups_eq, List.foldl_map, mergeGroups]

theorem copiesOf_eq (g : Graph) (identity : String) :
    g.copiesOf identity = ((g.scan true).cursors identity).map (·.node) := by
  have hscan : (g.scan false).entities = (g.scan true).entities.map fun cursor => { cursor with locations := [] } := rfl
  rw [copiesOf, Index.cursors, hscan, List.filter_map, List.map_map]
  rfl

theorem nodup_copiesOf (g : Graph) (identity : String) : (g.copiesOf identity).Nodup := by
  rw [copiesOf_eq]
  exact g.nodup_entities.sublist (List.filter_sublist.map _)

section

variable (hg : g.WellFormed)

include hg

/-- **The group of an identity holds all that are reached and have it.** -/
theorem mem_copiesOf_iff {identity : String} {id : Nat} :
    id ∈ g.copiesOf identity ↔ g.Reached id ∧ g.identity? id = some identity := by
  rw [copiesOf_eq]
  exact (cursors_spec hg identity).2 id

/-- An identity that some node has is met. -/
theorem mem_identities {identity : String} {id : Nat} (hid : g.Reached id)
    (hidentity : g.identity? id = some identity) : identity ∈ (g.scan false).identities := by
  obtain ⟨cursor, hcursor, -⟩ := List.mem_map.mp ((mem_copiesOf_iff hg).mpr ⟨hid, hidentity⟩)
  obtain ⟨hentity, hsame⟩ := List.mem_filter.mp hcursor
  exact ((identities_spec _).2 identity).mpr ⟨cursor, hentity, beq_iff_eq.mp hsame⟩

end

/-! ### Around the copies -/

/-- The fence is around the inside of the copies of the entity. -/
def Fence.Surrounds (fence : Fence) (origin : Graph) (identity : String) : Prop :=
  ∀ id path, fence.place id = some path ↔ ∃ copy, Inner origin identity copy path id

theorem exists_fence (hunshared : origin.Unshared) (identity : String) (shown : Nat → Json) :
    ∃ fence : Fence, fence.shown = shown ∧ fence.Surrounds origin identity := by
  have hplace : ∀ id, ∃ place : Option (List String), ∀ path,
      place = some path ↔ ∃ copy, Inner origin identity copy path id := by
    intro id
    by_cases hinner : ∃ path copy, Inner origin identity copy path id
    · obtain ⟨path, copy, hinner⟩ := hinner
      refine ⟨some path, fun other => ⟨fun heq => ?_, fun ⟨copy', hother⟩ => ?_⟩⟩
      · cases heq
        exact ⟨copy, hinner⟩
      · rw [(hinner.unique hunshared hother).2.2]
    · exact ⟨none, fun path => ⟨nofun, fun ⟨copy, hother⟩ => absurd ⟨path, copy, hother⟩ hinner⟩⟩
  choose place hplace using hplace
  exact ⟨⟨place, shown⟩, rfl, hplace⟩

/-- A node is inside of one copy at most. -/
theorem exists_copyOf (hunshared : origin.Unshared) (identity : String) :
    ∃ copyOf : Nat → Nat, ∀ id copy path, Inner origin identity copy path id → copyOf id = copy := by
  have hall : ∀ id, ∃ top, ∀ copy path, Inner origin identity copy path id → top = copy := by
    intro id
    by_cases hinner : ∃ copy path, Inner origin identity copy path id
    · obtain ⟨copy, path, hinner⟩ := hinner
      exact ⟨copy, fun other path' hother => (hinner.unique hunshared hother).2.1⟩
    · exact ⟨0, fun copy path hother => absurd ⟨copy, path, hother⟩ hinner⟩
  choose copyOf hcopyOf using hall
  exact ⟨copyOf, hcopyOf⟩

theorem Fence.Surrounds.inside_iff (h : fence.Surrounds origin identity) {id : Nat} :
    fence.Inside id ↔ ∃ copy path, Inner origin identity copy path id := by
  rw [Inside, Option.isSome_iff_exists, exists_comm]
  exact exists_congr fun path => h id path

/-- The nodes of a graph without cycles show values, all of them. -/
theorem Acyclic.exists_shown (h : g.Acyclic) (hg : g.WellFormed) :
    ∃ shown : Nat → Json, ∀ id < g.nodes.length, g.Shows (.node id) (shown id).normal := by
  have hall : ∀ id, ∃ value : Json, id < g.nodes.length → g.Shows (.node id) value.normal := by
    intro id
    by_cases hid : id < g.nodes.length
    · obtain ⟨v, hv⟩ := h.exists_shows_node hg hid
      obtain ⟨value, -, rfl⟩ := hv.nodeJson?
      exact ⟨value, fun _ => hv⟩
    · exact ⟨.null, fun hlt => absurd hlt hid⟩
  choose shown hshown using hall
  exact ⟨shown, hshown⟩

theorem formOf_eq_other_iff {id : Nat} : g.formOf (.node id) = .other ↔ (g.identity? id).isSome = true := by
  rw [formOf]
  cases hidentity : g.identity? id with
  | none =>
      have hnone : ¬ (none : Option String).isSome = true := Bool.false_ne_true
      split
      · exact iff_of_false (fun h => by cases h) hnone
      · exact iff_of_false (fun h => by cases h) hnone
  | some text =>
      have hobject : g.isObject id = true := Fence.isObject_of_identity? (by rw [hidentity]; rfl)
      rw [isArray, isObject_iff.mp hobject]
      exact iff_of_true rfl rfl

/-! ### The fence holds -/

section

variable (h : Unifying origin g) (horigin : Layered origin) (hfence : fence.Surrounds origin identity)

include hfence in
/-- What stands at a path and is no entity is inside, further down. -/
theorem Fence.Surrounds.place_of_offered (horigin : Layered origin) {path : List String} {name : String} {id : Nat}
    (hoffered : Offered origin identity path name (.node id)) (hid : origin.identity? id = none) :
    fence.place id = some (path ++ [name]) := by
  obtain ⟨copy, container, hinner, hfield⟩ := hoffered
  have hnames := (wellFormed_iff.mp horigin.source.wellFormed).2.1
  exact (hfence id _).mpr ⟨copy, hinner.field ((mem_fields_iff hnames).mp hfield) hid⟩

include hfence in
theorem Fence.Surrounds.inside_iff_of_offered (horigin : Layered origin) {path : List String} {name : String} {id : Nat}
    (hoffered : Offered origin identity path name (.node id)) : fence.Inside id ↔ origin.identity? id = none := by
  refine ⟨fun hinside => ?_, fun hnone => Fence.inside_of_place (hfence.place_of_offered horigin hoffered hnone)⟩
  by_contra hsome
  obtain ⟨copy, below, hinner⟩ := hfence.inside_iff.mp hinside
  exact (horigin.clear_of_offered hoffered (Option.isSome_iff_ne_none.mpr hsome)).outside copy below hinner

include h hfence

theorem Unifying.offered {path : List String} {name : String} {slot : Slot} (hoffers : fence.Offers g path name slot) :
    Offered origin identity path name slot := by
  obtain ⟨id, hplace, hfield⟩ := hoffers
  obtain ⟨copy, hinner⟩ := (hfence id path).mp hplace
  exact h.field hinner hfield

include horigin

theorem Unifying.beyond {id : Nat} (hclear : Clear origin identity id) : fence.Beyond g id := by
  intro other hreach hinside
  obtain ⟨copy, path, hinner⟩ := hfence.inside_iff.mp hinside
  exact (h.clear_of_reaches horigin hclear hreach).outside copy path hinner

theorem Unifying.closes (hshown : ∀ id < g.nodes.length, g.Shows (.node id) (fence.shown id).normal) :
    fence.Closes g where
  wellFormed := h.endowed.wellFormed horigin.source
  shows_it := hshown
  field {path name id} hoffers := by
    have hoffered := h.offered hfence hoffers
    cases hidentity : origin.identity? id with
    | none => exact .inl (hfence.place_of_offered horigin hoffered hidentity)
    | some text =>
        have hsome : (origin.identity? id).isSome = true := by rw [hidentity]; rfl
        refine .inr ⟨h.beyond horigin hfence (horigin.clear_of_offered hoffered hsome), ?_⟩
        rwa [h.identity?_eq horigin]
  item {id} hlists := by
    obtain ⟨array, hinside, hitem⟩ := hlists
    obtain ⟨copy, path, hinner⟩ := hfence.inside_iff.mp hinside
    exact h.beyond horigin hfence (horigin.clear_of_enumerated (h.item hinner hitem))
  alike {path name x y} hx hy hinside := by
    have hx := h.offered hfence hx
    have hy := h.offered hfence hy
    rw [hfence.inside_iff_of_offered horigin hx] at hinside
    rw [hfence.inside_iff_of_offered horigin hy]
    by_contra hsome
    have hother := formOf_eq_other_iff.mpr (Option.isSome_iff_ne_none.mpr hsome)
    rw [← horigin.alike hx hy rfl rfl, formOf_eq_other_iff, hinside] at hother
    cases hother

end

/-! ### One entity after another -/

/-- The copies in the group are settled with the first of them, as seen behind the fence. -/
def Reconciled (origin : Graph) (identity : String) (group : List Nat) (g : Graph) : Prop :=
  ∃ fence : Fence, fence.Surrounds origin identity ∧
    ∀ first others, group = first :: others → ∀ other ∈ others, (fence.enclosed g).Settled first other

theorem Reconciled.congr {group : List Nat} (h : Reconciled origin identity group g) (hregroups : Regroups g next)
    (hkept : ∀ copy path id, Inner origin identity copy path id → next.nodes[id]? = g.nodes[id]?) :
    Reconciled origin identity group next := by
  obtain ⟨fence, hfence, hsettled⟩ := h
  refine ⟨fence, hfence, fun first others hgroup other hother => ?_⟩
  rw [Fence.enclosed_congr hregroups.root hregroups.size fun id hid => ?_]
  · exact hsettled first others hgroup other hother
  · obtain ⟨copy, path, hinner⟩ := hfence.inside_iff.mp hid
    exact hkept copy path id hinner

/-- What is inside of copies of another entity is not inside the fence. -/
theorem Fence.Surrounds.not_inside (h : fence.Surrounds origin identity) (hunshared : origin.Unshared)
    {name : String} {copy id : Nat} {path : List String} (hinner : Inner origin name copy path id)
    (hne : name ≠ identity) : ¬fence.Inside id := by
  intro hinside
  obtain ⟨copy', path', hinner'⟩ := h.inside_iff.mp hinside
  exact hne (hinner.unique hunshared hinner').1

/-- A step that the fence guards leaves everything at the paths where it stood. -/
theorem Unifying.of_guards (h : Unifying origin g) (hunshared : origin.Unshared)
    (hfence : fence.Surrounds origin identity) (hendowed : Endowed origin next) (hguards : fence.Guards g next) :
    Unifying origin next where
  endowed := hendowed
  field {name copy path id key slot} hinner hfield := by
    by_cases hname : name = identity
    · subst hname
      exact h.offered hfence (hguards.field ((hfence id path).mpr ⟨copy, hinner⟩) hfield)
    · rw [fields_congr (hguards.outside id (hfence.not_inside hunshared hinner hname))] at hfield
      exact h.field hinner hfield
  item {name copy path id slot} hinner hitem := by
    by_cases hname : name = identity
    · subst hname
      obtain ⟨array, hinside, hitem⟩ := hguards.item (hfence.inside_iff.mpr ⟨copy, path, hinner⟩) hitem
      obtain ⟨copy', path', harray⟩ := hfence.inside_iff.mp hinside
      exact h.item harray hitem
    · rw [items_congr (hguards.outside id (hfence.not_inside hunshared hinner hname))] at hitem
      exact h.item hinner hitem

/-- **A merge of the copies of one entity** reconciles them and changes nothing but what is inside of them. -/
theorem Unifying.merge (h : Unifying origin g) (horigin : Layered origin) {group : List Nat}
    (hgroup : ∀ id ∈ group, origin.identity? id = some identity) (hdistinct : group.Nodup)
    (hpending : ∀ copy path id, Inner origin identity copy path id → g.nodes[id]? = origin.nodes[id]?) :
    Unifying origin (g.merge group) ∧ Reconciled origin identity group (g.merge group) ∧
      ∀ id, (∀ copy path, ¬Inner origin identity copy path id) → (g.merge group).nodes[id]? = g.nodes[id]? := by
  have hunshared := horigin.source.unshared
  have hnames := (wellFormed_iff.mp horigin.source.wellFormed).2.1
  obtain ⟨shown, hshown⟩ := h.endowed.acyclic.exists_shown (h.endowed.wellFormed horigin.source)
  obtain ⟨fence, rfl, hfence⟩ := exists_fence hunshared identity shown
  cases group with
  | nil => exact ⟨h, ⟨fence, hfence, nofun⟩, fun _ _ => rfl⟩
  | cons first others =>
      obtain ⟨copyOf, hcopyOf⟩ := exists_copyOf hunshared identity
      have hcopies : ∀ id ∈ first :: others, Inner origin identity id [] id := fun id hid => .top (hgroup id hid)
      have hkin : ∀ {id target name}, fence.Inside id → fence.Inside target →
          (name, Slot.node target) ∈ g.fields id → copyOf target = copyOf id := by
        intro id target name hid htarget hfield
        obtain ⟨copy, path, hinner⟩ := hfence.inside_iff.mp hid
        have hnone := (hfence.inside_iff_of_offered horigin (h.field hinner hfield)).mp htarget
        rw [fields_congr (hpending copy path id hinner)] at hfield
        have hbelow := hinner.field ((mem_fields_iff hnames).mp hfield) hnone
        rw [hcopyOf id copy path hinner, hcopyOf target copy _ hbelow]
      have htop : ∀ id ∈ first :: others, fence.place id = some [] ∧ copyOf id = id ∧ g.isObject id = true := by
        intro id hid
        refine ⟨(hfence id []).mpr ⟨id, hcopies id hid⟩, hcopyOf id id [] (hcopies id hid),
          Fence.isObject_of_identity? ?_⟩
        rw [h.identity?_eq horigin, hgroup id hid]
        rfl
      obtain ⟨hguards, hsettled⟩ := Fence.settled_merge (h.closes horigin hfence hshown) hkin htop hdistinct
      have hgrows := grows_merge horigin.source h.endowed fun id hid => (hcopies id hid).owned
      refine ⟨h.of_guards hunshared hfence hgrows.endowed hguards, ⟨fence, hfence, fun first' others' heq => ?_⟩,
        fun id hid => hguards.outside id fun hinside => ?_⟩
      · cases heq
        exact hsettled
      · obtain ⟨copy, path, hinner⟩ := hfence.inside_iff.mp hinside
        exact hid copy path hinner

/-- **All copies of all entities are settled in the end.** -/
theorem reconciled_mergeGroups (horigin : Layered origin) {groupOf : String → List Nat} {identities : List String}
    (hdistinct : identities.Nodup) (hgroup : ∀ identity ∈ identities, (groupOf identity).Nodup ∧
      ∀ id ∈ groupOf identity, origin.identity? id = some identity) :
    Unifying origin (origin.mergeGroups groupOf identities) ∧
      (∀ identity ∈ identities,
        Reconciled origin identity (groupOf identity) (origin.mergeGroups groupOf identities)) ∧
      -- what has its turn still to come is as it was
      ∀ identity ∉ identities, ∀ copy path id, Inner origin identity copy path id →
        (origin.mergeGroups groupOf identities).nodes[id]? = origin.nodes[id]? := by
  induction identities using List.reverseRecOn with
  | nil => exact ⟨.refl horigin.acyclic, nofun, fun _ _ _ _ _ _ => rfl⟩
  | append_singleton done last ih =>
      rw [List.nodup_append] at hdistinct
      obtain ⟨hdone, -, hnew⟩ := hdistinct
      have hlast : last ∉ done := fun hmem => hnew last hmem last (List.mem_singleton_self last) rfl
      obtain ⟨hunifying, hreconciled, hpending⟩ := ih hdone fun identity hidentity =>
        hgroup identity (List.mem_append_left _ hidentity)
      obtain ⟨hnodup, hentities⟩ := hgroup last (List.mem_append_right _ (List.mem_singleton_self last))
      obtain ⟨hnext, hlastReconciled, hframe⟩ := hunifying.merge horigin hentities hnodup (hpending last hlast)
      rw [← mergeGroups_concat] at hnext hlastReconciled hframe
      have hkept : ∀ {identity copy path id}, identity ≠ last → Inner origin identity copy path id →
          (origin.mergeGroups groupOf (done ++ [last])).nodes[id]? = (origin.mergeGroups groupOf done).nodes[id]? :=
        fun hne hinner => hframe _ fun copy path hother => hne (hinner.unique horigin.source.unshared hother).1
      refine ⟨hnext, fun identity hidentity => ?_, fun identity hidentity copy path id hinner => ?_⟩
      · by_cases heq : identity = last
        · subst heq
          exact hlastReconciled
        · have hbefore := (List.mem_append.mp hidentity).resolve_right fun hmem => heq (List.mem_singleton.mp hmem)
          rw [mergeGroups_concat] at hkept ⊢
          exact (hreconciled identity hbefore).congr (regroups_merge _ _) fun copy path id => hkept heq
      · rw [List.mem_append, List.mem_singleton, not_or] at hidentity
        exact (hkept hidentity.2 hinner).trans (hpending identity hidentity.1 copy path id hinner)

end Dossier.Graph
