import Dossier.Proofs.Graph.Attach

/-!
Externalizing a graph without cycles. Every slot that held an entity holds what stands for it, so the root shows
what it did with canonical copies in the places of its entities; and the copies are kept under the root. Main
statement: the compact form of a graph whose merged form shows a value.
-/

namespace Dossier

/-- The name of a field; elements of arrays have none. -/
def Position.name? : Position → Option String
  | .field name => some name
  | .index _ => none

theorem Position.name?_eq_some {position : Position} {name : String} :
    position.name? = some name ↔ position = .field name := by
  cases position <;> simp [Position.name?]

/-- The canonical copies of a value: of each identity inside but its own, a part with that identity. -/
structure Copied (v : Json) (copies : Members) : Prop where
  sorted : copies.Sorted
  part : ∀ identity copy, copies.get? identity = some copy → copy ∈ v.parts ∧ copy.identity? = some identity
  own : ∀ identity, v.identity? = some identity → copies.get? identity = none
  complete : ∀ part ∈ v.parts, ∀ identity, part.identity? = some identity → v.identity? ≠ some identity →
    ∃ copy, copies.get? identity = some copy

/-- A value with canonical copies under it, if it is an object. -/
def Json.withCopies (copies : Members) : Json → Json
  | .object members => .object (withRefs copies members)
  | other => other

namespace Graph

/-- A well-formed graph whose root shows a value. Its plain slots hold no containers. -/
structure Showing (g : Graph) (v : Json) : Prop where
  wellFormed : g.WellFormed
  plain : ∀ id position value, g.slotAt? id position = some (.value value) → value.isContainer = false
  root_plain : ∀ value, g.root = .value value → value.isContainer = false
  shows_root : g.Shows g.root v

namespace Showing

variable {g : Graph} {v : Json} (h : Showing g v)

include h

/-- Reached nodes show parts of the value. -/
theorem exists_part {id : Nat} (hid : g.Reached id) : ∃ value ∈ v.parts, g.Shows (.node id) value := by
  obtain ⟨value, hvalue, hpart⟩ := exists_shows_of_reached h.shows_root hid
  exact ⟨value, hpart, hvalue⟩

/-- The locations to replace are the slots that hold entities. -/
theorem mem_tasks_slot {identity : String} {parent : Nat} {position : Position} :
    (identity, .slot parent position) ∈ tasks (g.scan true) ↔ g.Reached parent ∧
      ∃ id, g.slotAt? parent position = some (.node id) ∧ g.identity? id = some identity := by
  rw [mem_tasks]
  constructor
  · rintro ⟨id, hsighted, hidentity⟩
    obtain ⟨_, _, _, hfaithful⟩ := exists_finished h.wellFormed
    obtain ⟨hparent, hchild, -⟩ := hfaithful _ hsighted
    exact ⟨hparent, id, h.wellFormed.mem_children_iff.mp hchild, hidentity⟩
  · rintro ⟨hparent, id, hslot, hidentity⟩
    exact ⟨id, sighted_of_reached h.wellFormed h.shows_root hparent hslot, hidentity⟩

/-- The root's identity is that of the value. -/
theorem rootIdentity_eq : g.rootIdentity = v.identity? := by
  cases hroot : g.root with
  | value value =>
      have hshows := h.shows_root
      rw [hroot] at hshows
      rw [rootIdentity, hroot, hshows.unique (.value value), value.identity?_normal]
      have hscalar := h.root_plain value hroot
      cases value <;> first | rfl | cases hscalar
  | node root =>
      have hshows := h.shows_root
      rw [hroot] at hshows
      rw [rootIdentity, hroot, hshows.identity]
      rfl

/-! ### Replacement -/

/-- A canonical copy shows an entity of its identity. -/
theorem copy_shows {entry : String × Nat} (hentry : entry ∈ (g.snapshots (g.scan true)).2) :
    ∃ value ∈ v.parts, value.identity? = some entry.1 ∧
      (g.snapshots (g.scan true)).1.Shows (.node entry.2) value := by
  obtain ⟨-, id, hid, hidentity, hshows⟩ := (snapshots_spec h.wellFormed).copies entry hentry
  obtain ⟨value, hpart, hvalue⟩ := h.exists_part hid
  exact ⟨value, hpart, hvalue.identity.trans hidentity, hshows value hvalue⟩

theorem replaced : Replaced (g.snapshots (g.scan true)).1 g.nodes.length (g.snapshots (g.scan true)).2
    (replaceAll (g.scan true) (g.snapshots (g.scan true)).2 (g.snapshots (g.scan true)).1) (tasks (g.scan true)) := by
  have hspec := snapshots_spec h.wellFormed
  have hcopies := (snapshots_outgrow h.wellFormed).2
  refine Replaced.all hspec.outgrows.wellFormed hspec.outgrows.size hspec.closed (fun identity copy hcopy => ?_)
    fun identity parent position htask => ?_
  · have hentry := mem_of_lookup hcopy
    exact ⟨(hspec.copies _ hentry).1, hcopies.known _ hentry⟩
  · obtain ⟨hparent, id, hslot, hidentity⟩ := h.mem_tasks_slot.mp htask
    refine ⟨h.wellFormed.lt_of_reached hparent, ?_, fun other hother => ?_⟩
    · rw [hspec.continued.slotAt? (h.wellFormed.lt_of_reached hparent), hslot]
      rfl
    · obtain ⟨-, id', hslot', hidentity'⟩ := h.mem_tasks_slot.mp hother
      cases hslot.symm.trans hslot'
      exact Option.some_inj.mp (hidentity'.symm.trans hidentity)

/-- What stands for an entity shows what the entity becomes, if its node does. -/
theorem shows_stand {identity : String} {parent id : Nat} {position : Position} {slot : Slot} {value : Json}
    {copies : Members} (hdisplays : Displays (g.snapshots (g.scan true)).1 (g.snapshots (g.scan true)).2 copies)
    {next : Graph} (hparent : g.Reached parent) (hslot : g.slotAt? parent position = some (.node id))
    (hidentity : value.identity? = some identity)
    (hstand : Stand (g.snapshots (g.scan true)).1 next g.nodes.length (g.snapshots (g.scan true)).2 identity parent
      position slot) (hinner : next.Shows (.node id) (value.externalize copies)) :
    next.Shows slot (value.externalizeAt copies position.name?) := by
  have hcopied : ∀ {copy : Nat}, (g.snapshots (g.scan true)).2.lookup identity = some copy →
      ∃ shown, copies.get? identity = some shown ∧ (g.snapshots (g.scan true)).1.Shows (.node copy) shown := by
    intro copy hcopy
    obtain ⟨shown, -, -, hshown⟩ := h.copy_shows (mem_of_lookup hcopy)
    exact ⟨shown, (hdisplays.get? identity shown).mpr ⟨copy, mem_of_lookup hcopy, hshown⟩, hshown⟩
  have hbare : (g.snapshots (g.scan true)).2.lookup identity = none → copies.get? identity = none := by
    intro hnone
    refine Option.eq_none_iff_forall_ne_some.mpr fun shown hget => ?_
    obtain ⟨copy, hcopy, -⟩ := (hdisplays.get? identity shown).mp hget
    have hsome := List.lookup_isSome_iff.mpr ⟨_, hcopy, beq_self_eq_true identity⟩
    rw [hnone] at hsome
    cases hsome
  cases hstand with
  | text copy hcopy hposition hslot =>
      obtain ⟨shown, hget, -⟩ := hcopied hcopy
      rw [Json.externalizeAt_of_copy hidentity hget, if_pos (Position.name?_eq_some.mpr hposition), hslot]
      exact Shows.text.mpr rfl
  | copy copy again hcopy hposition hslot _ hcopies =>
      obtain ⟨shown, hget, hshown⟩ := hcopied hcopy
      rw [Json.externalizeAt_of_copy hidentity hget, if_neg (mt Position.name?_eq_some.mp hposition), hslot]
      exact hcopies shown hshown
  | stub stub hnone hposition hslot _ hstub =>
      rw [Json.externalizeAt_of_stays hidentity (hbare hnone), if_pos (Position.name?_eq_some.mpr hposition), hslot]
      exact hstub
  | kept hnone hposition hkept =>
      rw [(snapshots_spec h.wellFormed).continued.slotAt? (h.wellFormed.lt_of_reached hparent), hslot] at hkept
      rw [Json.externalizeAt_of_stays hidentity (hbare hnone), if_neg (mt Position.name?_eq_some.mp hposition),
        ← Option.some_inj.mp hkept]
      exact hinner

section

variable {next : Graph} (hreplaced : Replaced (g.snapshots (g.scan true)).1 g.nodes.length
  (g.snapshots (g.scan true)).2 next (tasks (g.scan true)))

include hreplaced

/-- Replacement keeps the kinds of nodes, and where they have slots. -/
theorem shape_replaced {id : Nat} (hid : id < g.nodes.length) : next.isObject id = g.isObject id ∧
    ∀ position, (next.slotAt? id position).isSome = (g.slotAt? id position).isSome := by
  have hcontinued := (snapshots_spec h.wellFormed).continued
  constructor
  · rw [hreplaced.isObject id hid, isObject, hcontinued.kept id _ (List.getElem?_eq_getElem hid), isObject,
      List.getElem?_eq_getElem hid]
  · intro position
    rw [hreplaced.there id position hid, hcontinued.slotAt? hid]

variable {copies : Members}
  (hdisplays : Displays (g.snapshots (g.scan true)).1 (g.snapshots (g.scan true)).2 copies)

include hdisplays

/-- Slots of reached nodes show what their values become, if the nodes in them do. -/
theorem slot_replaced {parent : Nat} {position : Position} {slot' : Slot} {value : Json} (hparent : g.Reached parent)
    (hslot' : next.slotAt? parent position = some slot')
    (hshown : ∀ slot, g.slotAt? parent position = some slot → g.Shows slot value)
    (hinner : ∀ id, g.Reached id → g.Shows (.node id) value → next.Shows (.node id) (value.externalize copies)) :
    next.Shows slot' (value.externalizeAt copies position.name?) := by
  have hlt := h.wellFormed.lt_of_reached hparent
  obtain ⟨slot, hslot⟩ := exists_of_isSome_eq ((h.shape_replaced hreplaced hlt).2 position) hslot'
  have hshows := hshown slot hslot
  cases hidentity : value.identity? with
  | some identity =>
      obtain ⟨id, rfl⟩ := exists_node_of_shows (fun w hw => h.plain parent position w (hw ▸ hslot)) hshows
        (Json.isContainer_of_identity? hidentity)
      have htask := h.mem_tasks_slot.mpr ⟨hparent, id, hslot, hshows.identity.symm.trans hidentity⟩
      obtain ⟨found, hfound, hstand⟩ := hreplaced.replaced identity parent position htask
      cases hslot'.symm.trans hfound
      exact h.shows_stand hdisplays hparent hslot hidentity hstand
        (hinner id (hparent.step (points_of_slotAt? hslot)) hshows)
  | none =>
      rw [Json.externalizeAt_of_none hidentity]
      have hnew : ∀ identity, (identity, .slot parent position) ∉ tasks (g.scan true) := by
        intro identity htask
        obtain ⟨-, id, hnode, hsome⟩ := h.mem_tasks_slot.mp htask
        cases hslot.symm.trans hnode
        cases (hidentity.symm.trans hshows.identity).trans hsome
      have hsame := (hreplaced.same parent position hlt hnew).trans
        ((snapshots_spec h.wellFormed).continued.slotAt? hlt position)
      obtain rfl : slot = slot' := Option.some_inj.mp ((hsame.trans hslot).symm.trans hslot')
      cases slot with
      | node id => exact hinner id (hparent.step (points_of_slotAt? hslot)) hshows
      | value w =>
          cases hshows
          rw [Json.externalize_scalar ((Json.isContainer_normal w).trans (h.plain parent position w hslot))]
          exact .value w

/-- Once all locations are replaced, nodes show their values with the entities in them replaced. -/
theorem shows_replaced {id : Nat} {value : Json} (hid : g.Reached id) (hshows : g.Shows (.node id) value) :
    next.Shows (.node id) (value.externalize copies) := by
  have hsize := (snapshots_spec h.wellFormed).continued.size.trans hreplaced.outgrows.size
  induction value using Json.induct generalizing id with
  | scalar value hscalar => cases hshows <;> cases hscalar
  | array items ih =>
      obtain ⟨hobject, hthere⟩ := h.shape_replaced hreplaced hshows.lt
      have harray : next.isObject id = false := by
        rw [hobject]
        cases hshows with
        | array hnode _ _ => rw [isObject, hnode]
      rw [Json.externalize, Json.externalizeItems_eq]
      refine shows_array_of_slots (hshows.lt.trans_le hsize) harray fun k => ?_
      obtain ⟨hsome, hitem⟩ := hshows.item k
      rw [List.getElem?_map, Option.isSome_map, hthere]
      refine ⟨hsome, fun slot' value hslot' hvalue => ?_⟩
      obtain ⟨original, horiginal, rfl⟩ := Option.map_eq_some_iff.mp hvalue
      exact h.slot_replaced hreplaced hdisplays hid hslot' (fun slot hslot => hitem slot original hslot horiginal)
        fun inner => ih original (List.mem_of_getElem? horiginal)
  | object members ih =>
      obtain ⟨hobject, hthere⟩ := h.shape_replaced hreplaced hshows.lt
      rw [Json.externalize]
      refine shows_object_of_slots hreplaced.outgrows.wellFormed (hobject.trans (isObject_of_shows hshows))
        (Json.sorted_externalizeMembers hshows.sorted) fun name => ?_
      obtain ⟨hsome, hfield⟩ := hshows.field name
      rw [← slotAt?_field] at hsome hfield
      rw [Json.get?_externalizeMembers, Option.isSome_map, hthere]
      refine ⟨hsome, fun slot' value hslot' hvalue => ?_⟩
      obtain ⟨original, horiginal, rfl⟩ := Option.map_eq_some_iff.mp hvalue
      exact h.slot_replaced hreplaced hdisplays hid hslot' (fun slot hslot => hfield slot original hslot horiginal)
        fun inner => ih _ (Members.mem_of_get? horiginal)

end

/-! ### Copies -/

/-- The identities of the canonical copies are those of the parts, but for that of the root. -/
theorem mem_names_snapshots {identity : String} : identity ∈ (g.snapshots (g.scan true)).2.map Prod.fst ↔
    v.identity? ≠ some identity ∧ ∃ part ∈ v.parts, part.identity? = some identity := by
  rw [names_snapshots, List.mem_filter, decide_eq_true_iff, h.rootIdentity_eq, and_comm]
  refine and_congr_right fun hother => ?_
  constructor
  · intro hlisted
    obtain ⟨cursor, hcursor, hidentity⟩ := ((identities_spec _).2 identity).mp hlisted
    obtain ⟨value, hpart, hvalue⟩ := h.exists_part (reached_of_cursor h.wellFormed hcursor)
    exact ⟨value, hpart, hvalue.identity.trans ((g.filed_scan.1 cursor hcursor).1.symm.trans hidentity)⟩
  · rintro ⟨part, hpart, hidentity⟩
    rcases h.shows_root.exists_slot h.plain h.root_plain hpart (Json.isContainer_of_identity? hidentity) with
      rfl | ⟨start, parent, position, id, hroot, hreach, hslot, hshows⟩
    · exact absurd hidentity hother
    · have htask := h.mem_tasks_slot.mpr ⟨⟨start, hroot, hreach⟩, id, hslot, hshows.identity.symm.trans hidentity⟩
      obtain ⟨listed, hlisted, hlocations⟩ := List.mem_flatMap.mp htask
      obtain ⟨cursor, -, hlocation⟩ := List.mem_flatMap.mp hlocations
      obtain ⟨_, -, heq⟩ := List.mem_map.mp hlocation
      cases heq
      exact hlisted

theorem exists_displays_snapshots : ∃ copies, Copied v copies ∧
    Displays (g.snapshots (g.scan true)).1 (g.snapshots (g.scan true)).2 copies := by
  obtain ⟨hgrown, hcopies⟩ := snapshots_outgrow h.wellFormed
  obtain ⟨copies, hdisplays, -⟩ := Displays.alloc hgrown.wellFormed hcopies fun entry hentry =>
    (h.copy_shows hentry).imp fun _ hvalue => hvalue.2.2
  have hpart : ∀ identity copy, copies.get? identity = some copy →
      (identity ∈ (g.snapshots (g.scan true)).2.map Prod.fst) ∧ copy ∈ v.parts ∧ copy.identity? = some identity := by
    intro identity copy hget
    obtain ⟨id, hentry, hshows⟩ := (hdisplays.get? identity copy).mp hget
    obtain ⟨value, hvalue, hidentity, hvalueShows⟩ := h.copy_shows hentry
    rw [hshows.unique hvalueShows]
    exact ⟨List.mem_map.mpr ⟨_, hentry, rfl⟩, hvalue, hidentity⟩
  refine ⟨copies, ⟨hdisplays.sorted, fun identity copy hget => (hpart identity copy hget).2, fun identity hown => ?_,
    fun part hmem identity hidentity hother => ?_⟩, hdisplays⟩
  · refine Option.eq_none_iff_forall_ne_some.mpr fun copy hget => ?_
    exact (h.mem_names_snapshots.mp (hpart identity copy hget).1).1 hown
  · obtain ⟨entry, hentry, rfl⟩ := List.mem_map.mp (h.mem_names_snapshots.mpr ⟨hother, part, hmem, hidentity⟩)
    obtain ⟨value, -, -, hshows⟩ := h.copy_shows hentry
    exact ⟨value, (hdisplays.get? entry.1 value).mpr ⟨entry.2, hentry, hshows⟩⟩

/-- **The compact form.** If the merged graph shows a value, the compact one shows that value with canonical copies
in the places of its entities, and with the copies under it. -/
theorem exists_copied {unmerged : Graph} (hunified : unmerged.unified = g) : ∃ copies, Copied v copies ∧
    unmerged.compacted.Shows unmerged.compacted.root ((v.externalize copies).withCopies copies) := by
  obtain ⟨copies, hcopied, hdisplays⟩ := h.exists_displays_snapshots
  refine ⟨copies, hcopied, ?_⟩
  have hspec := snapshots_spec h.wellFormed
  have hcopies := (snapshots_outgrow h.wellFormed).2
  have hreplaced := h.replaced
  generalize hnext : replaceAll (g.scan true) (g.snapshots (g.scan true)).2 (g.snapshots (g.scan true)).1 = next
    at hreplaced
  have hroot : next.root = g.root := hreplaced.outgrows.root.trans hspec.outgrows.root
  have hkept : Copies next (g.snapshots (g.scan true)).2 :=
    ⟨fun entry hentry => (hcopies.known entry hentry).trans_le hreplaced.outgrows.size, hcopies.distinct⟩
  have hshown : ∀ entry ∈ (g.snapshots (g.scan true)).2, ∀ value,
      (g.snapshots (g.scan true)).1.Shows (.node entry.2) value → next.Shows (.node entry.2) value :=
    fun entry hentry value hvalue => hvalue.beyond hspec.closed hreplaced.kept (hspec.copies entry hentry).1
  have hwell := wellFormed_attachCanonical hreplaced.outgrows.wellFormed hkept
  have hexternal : unmerged.externalized = attachCanonical (g.snapshots (g.scan true)).2 next := by
    rw [← hnext, ← hunified]
    rfl
  suffices hattached : (attachCanonical (g.snapshots (g.scan true)).2 next).Shows
      (attachCanonical (g.snapshots (g.scan true)).2 next).root ((v.externalize copies).withCopies copies) by
    rw [compacted, hexternal, severed_self hwell hattached]
    exact hattached
  cases hnode : g.root with
  | value value =>
      have hscalar := h.root_plain value hnode
      have hsame : attachCanonical (g.snapshots (g.scan true)).2 next = next := by
        rw [attachCanonical, hroot, hnode]
      have hv : v = value.normal := (hnode ▸ h.shows_root).unique (.value value)
      have hplain : value.normal.isContainer = false := value.isContainer_normal.trans hscalar
      rw [hsame, hroot, hnode, hv, Json.externalize_scalar hplain]
      cases value <;> first | exact .value _ | cases hscalar
  | node root =>
      have hshows : g.Shows (.node root) v := hnode ▸ h.shows_root
      have hrootShows := h.shows_replaced hreplaced hdisplays ⟨root, hnode, .refl⟩ hshows
      have hsame : ∀ entry ∈ (g.snapshots (g.scan true)).2, ∃ value,
          (g.snapshots (g.scan true)).1.Shows (.node entry.2) value ∧ next.Shows (.node entry.2) value :=
        fun entry hentry => (h.copy_shows hentry).imp fun value hvalue =>
          ⟨hvalue.2.2, hshown entry hentry value hvalue.2.2⟩
      cases v with
      | object members =>
          obtain ⟨hattachedRoot, hattached⟩ := shows_attached hreplaced.outgrows.wellFormed (hroot.trans hnode)
            hshows.lt hrootShows (hspec.outgrows.size.trans hreplaced.outgrows.size) hreplaced.closed hkept
            (fun entry hentry => ⟨(hspec.copies entry hentry).1, (hsame entry hentry).imp fun _ hvalue => hvalue.2⟩)
            (hdisplays.congr hsame)
          rw [hattachedRoot]
          exact hattached
      | array items =>
          have harray : ¬next.isObject root = true := by
            intro hobject
            obtain ⟨members, hmembers⟩ := exists_members_of_shows hrootShows hobject
            cases hmembers
          have hnone : attachCanonical (g.snapshots (g.scan true)).2 next = next := by
            rw [attachCanonical, hroot, hnode]
            exact if_neg fun hattach => harray (Bool.and_eq_true_iff.mp hattach).2
          rw [hnone, hroot, hnode]
          exact hrootShows
      | _ => cases hshows

end Showing

end Graph

end Dossier
