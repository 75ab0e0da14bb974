import Dossier.Proofs.Graph.Enriching
import Dossier.Proofs.Json.Kindred

/-!
Inside of entities. From the copies of an entity fields lead along paths of names to objects without identities and to
arrays; these are inside of the copy, and each is inside of one only. While entity after entity is merged, whatever
comes to stand at a path stood there before, in one copy or another. So a way out of an entity never leads back, as
long as no entity holds itself: **`Unifying.clear_of_reaches`**.
-/

namespace Dossier.Graph

variable {origin g : Graph} {identity : String} {copy id : Nat} {path : List String}

/-- Fields lead from a copy of the entity along the path to the node, and no other entity is on the way. -/
inductive Inner (g : Graph) (identity : String) (copy : Nat) : List String → Nat → Prop
  | top : g.identity? copy = some identity → Inner g identity copy [] copy
  | field {path : List String} {id child : Nat} {name : String} : Inner g identity copy path id →
      g.field? id name = some (.node child) → g.identity? child = none → Inner g identity copy (path ++ [name]) child

namespace Inner

theorem copy_identity (h : Inner g identity copy path id) : g.identity? copy = some identity := by
  induction h with
  | top hidentity => exact hidentity
  | field _ _ _ ih => exact ih

theorem reaches (h : Inner g identity copy path id) : g.Reaches copy id := by
  induction h with
  | top => exact .refl
  | field _ hfield _ ih => exact ih.tail (Carries.points ⟨_, hfield⟩)

theorem owned (h : Inner g identity copy path id) : g.Owned id := by
  induction h with
  | top hidentity =>
      refine .entity ?_
      rw [hidentity]
      rfl
  | field _ hfield _ ih => exact ih.field hfield

/-- An entity is inside of no other. -/
theorem of_identity (h : Inner g identity copy path id) {other : String} (hid : g.identity? id = some other) :
    other = identity ∧ copy = id ∧ path = [] := by
  cases h with
  | top hidentity => exact ⟨Option.some_inj.mp (hid.symm.trans hidentity), rfl, rfl⟩
  | field _ _ hnone => cases hnone.symm.trans hid

theorem identity?_eq_none (h : Inner g identity copy path id) (hdeep : path ≠ []) : g.identity? id = none := by
  cases h with
  | top => exact absurd rfl hdeep
  | field _ _ hnone => exact hnone

/-- What is inside and no entity has its container inside. -/
theorem exists_container (h : Inner g identity copy path id) (hid : g.identity? id = none) :
    ∃ above container name, path = above ++ [name] ∧ Inner g identity copy above container ∧
      g.field? container name = some (.node id) := by
  cases h with
  | top hidentity => cases hid.symm.trans hidentity
  | field habove hfield _ => exact ⟨_, _, _, rfl, habove, hfield⟩

theorem eq_copy (h : Inner g identity copy [] id) : id = copy := by
  generalize hpath : ([] : List String) = path at h
  cases h with
  | top => rfl
  | field => cases List.append_ne_nil_of_right_ne_nil _ (List.cons_ne_nil _ _) hpath.symm

/-- What stands under a name is no entity, and it stands there in what is one step less far down. -/
theorem exists_field {name : String} (h : Inner g identity copy (path ++ [name]) id) : g.identity? id = none ∧
    ∃ container, Inner g identity copy path container ∧ g.field? container name = some (.node id) := by
  have hnone := h.identity?_eq_none (List.append_ne_nil_of_right_ne_nil path (List.cons_ne_nil name []))
  obtain ⟨above, container, other, heq, hinner, hfield⟩ := h.exists_container hnone
  obtain ⟨rfl, hname⟩ := List.append_inj' heq rfl
  obtain rfl := List.singleton_inj.mp hname
  exact ⟨hnone, container, hinner, hfield⟩

/-- Every node is inside of one copy at most, and at one path. -/
theorem unique (hunshared : g.Unshared) (h : Inner g identity copy path id) {identity' : String} {copy' : Nat}
    {path' : List String} (h' : Inner g identity' copy' path' id) :
    identity = identity' ∧ copy = copy' ∧ path = path' := by
  induction h generalizing path' with
  | top hidentity =>
      obtain ⟨rfl, rfl, rfl⟩ := h'.of_identity hidentity
      exact ⟨rfl, rfl, rfl⟩
  | field _ hfield hnone ih =>
      obtain ⟨above, container, name, rfl, habove, hother⟩ := h'.exists_container hnone
      rw [← slotAt?_field] at hfield hother
      obtain ⟨rfl, hname⟩ := hunshared _ _ _ _ _ hfield hother
      obtain ⟨rfl, rfl, rfl⟩ := ih habove
      cases hname
      exact ⟨rfl, rfl, rfl⟩

/-- Whatever entity leads inside leads to the copy. -/
theorem reaches_copy (hunshared : g.Unshared) (hg : g.WellFormed) (h : Inner g identity copy path id) {entity : Nat}
    (hentity : (g.identity? entity).isSome = true) (hreach : g.Reaches entity id) : g.Reaches entity copy := by
  induction h with
  | top => exact hreach
  | @field _ container child name _ hfield hnone ih =>
      rcases Relation.ReflTransGen.cases_tail hreach with rfl | ⟨last, hlast, hpoints⟩
      · rw [hnone] at hentity
        cases hentity
      · obtain ⟨position, hslot⟩ := hg.exists_slotAt? hpoints
        rw [← slotAt?_field] at hfield
        obtain ⟨rfl, -⟩ := hunshared _ _ _ _ _ hslot hfield
        exact ih hlast

end Inner

theorem owned_iff_inner : g.Owned id ↔ ∃ identity copy path, Inner g identity copy path id := by
  refine ⟨fun h => ?_, fun ⟨_, _, _, h⟩ => h.owned⟩
  induction h with
  | entity hidentity =>
      obtain ⟨identity, hidentity⟩ := Option.isSome_iff_exists.mp hidentity
      exact ⟨identity, _, [], .top hidentity⟩
  | @field id child name _ hfield ih =>
      obtain ⟨identity, copy, path, hinner⟩ := ih
      cases hidentity : g.identity? child with
      | none => exact ⟨identity, copy, _, hinner.field hfield hidentity⟩
      | some other => exact ⟨other, child, [], .top hidentity⟩

/-! ### What stands at a path -/

/-- A slot stands under the name at the path, in some copy of the entity. -/
def Offered (origin : Graph) (identity : String) (path : List String) (name : String) (slot : Slot) : Prop :=
  ∃ copy id, Inner origin identity copy path id ∧ (name, slot) ∈ origin.fields id

/-- A slot is an element of an array inside of some copy of the entity. -/
def Enumerated (origin : Graph) (identity : String) (slot : Slot) : Prop :=
  ∃ copy path id, Inner origin identity copy path id ∧ slot ∈ origin.items id

/-- A copy of the one entity leads to a copy of the other. -/
def Encloses (g : Graph) (outer inner : String) : Prop :=
  ∃ whole part, g.identity? whole = some outer ∧ g.identity? part = some inner ∧ Relation.TransGen g.Points whole part

/-- The form of what a slot shows. -/
def formOf (g : Graph) : Slot → Form
  | .value value => value.form
  | .node id => if g.isArray id then .array else if (g.identity? id).isNone then .object else .other

/-- A loaded graph in which no entity holds itself, and what copies of an entity hold at one path is of one form. -/
structure Layered (origin : Graph) : Prop where
  source : origin.Source
  acyclic : origin.Acyclic
  stratified : ∀ identity, ¬Relation.TransGen origin.Encloses identity identity
  alike : ∀ {identity path name left right}, Offered origin identity path name left →
    Offered origin identity path name right → left.truthy = true → right.truthy = true →
    origin.formOf left = origin.formOf right

/-- A graph on the way of merging entity after entity: what stands at a path of an entity stood there at first. -/
structure Unifying (origin g : Graph) : Prop where
  endowed : Endowed origin g
  field : ∀ {identity copy path id name slot}, Inner origin identity copy path id → (name, slot) ∈ g.fields id →
    Offered origin identity path name slot
  item : ∀ {identity copy path id slot}, Inner origin identity copy path id → slot ∈ g.items id →
    Enumerated origin identity slot

theorem Unifying.refl (h : origin.Acyclic) : Unifying origin origin :=
  ⟨.refl h, fun hinner hfield => ⟨_, _, hinner, hfield⟩, fun hinner hitem => ⟨_, _, _, hinner, hitem⟩⟩

/-- The node is at or below entities that the entity holds, and not inside of a copy of it. -/
structure Clear (origin : Graph) (identity : String) (id : Nat) : Prop where
  below : ∃ other copy, Relation.ReflTransGen origin.Encloses identity other ∧
    origin.identity? copy = some other ∧ origin.Reaches copy id
  outside : ∀ copy path, ¬Inner origin identity copy path id

namespace Layered

variable (horigin : Layered origin)

include horigin

/-- What a slot of a node that is clear holds is clear too. -/
theorem clear_of_points {container : Nat} {other : String}
    (hencloses : Relation.ReflTransGen origin.Encloses identity other)
    (hcopy : origin.identity? copy = some other) (hreach : origin.Reaches copy container)
    (hpoints : origin.Points container id) (houtside : ∀ copy path, ¬Inner origin identity copy path container) :
    Clear origin identity id := by
  refine ⟨⟨other, copy, hencloses, hcopy, hreach.tail hpoints⟩, fun top path hinner => ?_⟩
  cases hidentity : origin.identity? id with
  | some name =>
      obtain ⟨rfl, -, -⟩ := hinner.of_identity hidentity
      exact horigin.stratified name (.tail' hencloses ⟨copy, id, hcopy, hidentity, .tail' hreach hpoints⟩)
  | none =>
      obtain ⟨above, holder, name, -, hholder, hfield⟩ := hinner.exists_container hidentity
      obtain ⟨position, hslot⟩ := horigin.source.wellFormed.exists_slotAt? hpoints
      rw [← slotAt?_field] at hfield
      obtain ⟨rfl, -⟩ := horigin.source.unshared _ _ _ _ _ hslot hfield
      exact houtside top above hholder

/-- Another entity that stands at a path is clear. -/
theorem clear_of_offered {name : String} (h : Offered origin identity path name (.node id))
    (hid : (origin.identity? id).isSome = true) : Clear origin identity id := by
  obtain ⟨copy, container, hinner, hfield⟩ := h
  have hcopy := hinner.copy_identity
  have hpoints : origin.Points container id := points_iff.mpr (.inl ⟨name, hfield⟩)
  refine ⟨⟨identity, copy, .refl, hcopy, hinner.reaches.tail hpoints⟩, fun top path hother => ?_⟩
  obtain ⟨other, hother'⟩ := Option.isSome_iff_exists.mp hid
  obtain ⟨rfl, -, -⟩ := hother.of_identity hother'
  exact horigin.stratified other (.single ⟨copy, id, hcopy, hother', .tail' hinner.reaches hpoints⟩)

/-- An element of an array inside is clear. -/
theorem clear_of_enumerated (h : Enumerated origin identity (.node id)) : Clear origin identity id := by
  obtain ⟨copy, path, array, hinner, hitem⟩ := h
  have hcopy := hinner.copy_identity
  have hpoints : origin.Points array id := points_iff.mpr (.inr hitem)
  refine ⟨⟨identity, copy, .refl, hcopy, hinner.reaches.tail hpoints⟩, fun top below hother => ?_⟩
  cases hidentity : origin.identity? id with
  | some name =>
      obtain ⟨rfl, -, -⟩ := hother.of_identity hidentity
      exact horigin.stratified name (.single ⟨copy, id, hcopy, hidentity, .tail' hinner.reaches hpoints⟩)
  | none =>
      obtain ⟨_, holder, name, -, -, hfield⟩ := hother.exists_container hidentity
      exact (Endowed.refl horigin.acyclic).not_field_of_item horigin.source.unshared hitem holder name hfield

end Layered

namespace Unifying

variable (h : Unifying origin g) (horigin : Layered origin)

include h

theorem eq_of_not_inner (hid : ∀ identity copy path, ¬Inner origin identity copy path id) :
    g.nodes[id]? = origin.nodes[id]? := by
  refine h.endowed.apart id fun howned => ?_
  obtain ⟨identity, copy, path, hinner⟩ := owned_iff_inner.mp howned
  exact hid identity copy path hinner

include horigin

theorem identity?_eq (id : Nat) : g.identity? id = origin.identity? id := by
  cases hidentity : origin.identity? id with
  | some identity => exact h.endowed.retains.identity? hidentity
  | none =>
      by_cases hinner : ∃ identity copy path, Inner origin identity copy path id
      · obtain ⟨identity, copy, path, hinner⟩ := hinner
        obtain ⟨above, container, name, rfl, -, -⟩ := hinner.exists_container hidentity
        -- a text that comes to be the identity would have been one where it came from
        refine Option.eq_none_iff_forall_ne_some.mpr fun text htext => ?_
        obtain ⟨hfield, htruthy⟩ := identity?_eq_some_iff.mp htext
        obtain ⟨_, source, hsource, hmem⟩ := h.field hinner (mem_of_field? hfield)
        have hnames := (wellFormed_iff.mp horigin.source.wellFormed).2.1
        have hsame := identity?_eq_some_iff.mpr ⟨(mem_fields_iff hnames).mp hmem, htruthy⟩
        cases hsource.exists_field.1.symm.trans hsame
      · have hapart := h.eq_of_not_inner fun identity copy path hin => hinner ⟨identity, copy, path, hin⟩
        rw [identity?_congr hapart, hidentity]

theorem formOf_eq (slot : Slot) : g.formOf slot = origin.formOf slot := by
  cases slot with
  | value value => rfl
  | node id => rw [formOf, formOf, h.endowed.regroups.isArray, h.identity?_eq horigin]

/-- A node that is clear leads to such nodes only. -/
theorem clear_of_reaches {start : Nat} (hstart : Clear origin identity start) (hreach : g.Reaches start id) :
    Clear origin identity id := by
  induction hreach with
  | refl => exact hstart
  | @tail id target _ hpoints ih =>
      obtain ⟨⟨other, copy, hencloses, hcopy, hreach⟩, houtside⟩ := ih
      by_cases hinner : ∃ name top path, Inner origin name top path id
      · obtain ⟨name, top, path, hinner⟩ := hinner
        -- inside of another entity, whatever is held was held by some copy of it
        have hunshared := horigin.source.unshared
        have hne : name ≠ identity := fun heq => houtside top path (heq ▸ hinner)
        have htop := hinner.reaches_copy hunshared horigin.source.wellFormed (by rw [hcopy]; rfl) hreach
        have hnext : Relation.ReflTransGen origin.Encloses identity name := by
          rcases Relation.reflTransGen_iff_eq_or_transGen.mp htop with rfl | hpath
          · cases hinner.copy_identity.symm.trans hcopy
            exact hencloses
          · exact hencloses.tail ⟨copy, top, hcopy, hinner.copy_identity, hpath⟩
        obtain ⟨source, sourceTop, sourcePath, hsource, hheld⟩ : ∃ source sourceTop sourcePath,
            Inner origin name sourceTop sourcePath source ∧ origin.Points source target := by
          rcases points_iff.mp hpoints with ⟨key, hfield⟩ | hitem
          · obtain ⟨sourceTop, source, hsource, hfield⟩ := h.field hinner hfield
            exact ⟨source, sourceTop, path, hsource, points_iff.mpr (.inl ⟨key, hfield⟩)⟩
          · obtain ⟨sourceTop, sourcePath, source, hsource, hitem⟩ := h.item hinner hitem
            exact ⟨source, sourceTop, sourcePath, hsource, points_iff.mpr (.inr hitem)⟩
        refine horigin.clear_of_points hnext hsource.copy_identity hsource.reaches hheld fun top' path' hother => ?_
        exact hne (hsource.unique hunshared hother).1
      · have hsame := h.eq_of_not_inner fun name top path hin => hinner ⟨name, top, path, hin⟩
        rw [Points, targets, hsame] at hpoints
        exact horigin.clear_of_points hencloses hcopy hreach hpoints houtside

end Unifying

end Dossier.Graph
