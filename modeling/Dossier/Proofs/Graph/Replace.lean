import Dossier.Proofs.Graph.Snapshot
import Dossier.Proofs.Json.Externalize

/-!
Replacement, one location after another. The nodes that were there before the snapshots keep their slots,
but for those that held an entity with a canonical copy, or stand under the name of their entity; each of these
holds the bare identity or a node of its own now. The new nodes lie behind those that were there and lead to each
other only, so nothing that comes later changes what they show.
-/

namespace Dossier.Graph

/-- The locations of an index, each with the identity of what stands there. -/
def tasks (index : Index) : List (String × Location) :=
  index.identities.flatMap fun identity => (index.cursors identity).flatMap fun cursor =>
    cursor.locations.map fun location => (identity, location)

theorem replaceAll_eq (index : Index) (canonical : List (String × Nat)) (g : Graph) :
    replaceAll index canonical g =
      (tasks index).foldl (fun g task => replaceAt canonical task.1 g task.2) g := by
  simp only [replaceAll, tasks, List.foldl_flatMap, List.foldl_map]

theorem mem_tasks {g : Graph} {identity : String} {location : Location} :
    (identity, location) ∈ tasks (g.scan true) ↔
      ∃ id, ⟨id, location, false⟩ ∈ g.sightings ∧ g.identity? id = some identity := by
  constructor
  · intro h
    obtain ⟨found, -, hfound⟩ := List.mem_flatMap.mp h
    obtain ⟨cursor, hcursor, hlocation⟩ := List.mem_flatMap.mp hfound
    obtain ⟨place, hplace, heq⟩ := List.mem_map.mp hlocation
    cases heq
    obtain ⟨hentity, hidentity⟩ := List.mem_filter.mp hcursor
    have hsame := (g.filed_scan.1 cursor hentity).1.symm.trans (beq_iff_eq.mp hidentity)
    exact ⟨cursor.node, ((lists_entities g _ _).mp ⟨cursor, hentity, rfl, hplace⟩).1, hsame⟩
  · rintro ⟨id, hsighted, hidentity⟩
    obtain ⟨cursor, hentity, rfl, hlocation⟩ := (lists_entities g id location).mpr ⟨hsighted, by rw [hidentity]; rfl⟩
    have hsame := (g.filed_scan.1 cursor hentity).1.trans hidentity
    refine List.mem_flatMap.mpr ⟨identity, ((identities_spec _).2 identity).mpr ⟨cursor, hentity, hsame⟩, ?_⟩
    refine List.mem_flatMap.mpr ⟨cursor, List.mem_filter.mpr ⟨hentity, beq_iff_eq.mpr hsame⟩, ?_⟩
    exact List.mem_map.mpr ⟨location, hlocation, rfl⟩

/-- Nodes of a closed region show what they did. -/
theorem Shows.beyond {g next : Graph} {count : Nat} (hclosed : Closed count g)
    (hkept : ∀ id, count ≤ id → ∀ node : Node, g.nodes[id]? = some node → next.nodes[id]? = some node)
    {id : Nat} {v : Json} (h : g.Shows (.node id) v) (hid : count ≤ id) : next.Shows (.node id) v :=
  h.frame hclosed hkept fun other hother => by
    cases hother
    exact hid

/-- What stands at a location that held an entity. With a canonical copy it is the identity in a field of that
name, and otherwise a copy of the copy. Without one it is an object of the identity in a field of that name, and
otherwise what stood there. -/
inductive Stand (base next : Graph) (count : Nat) (canonical : List (String × Nat)) (identity : String) (parent : Nat)
    (position : Position) (slot : Slot) : Prop
  | text (copy : Nat) : canonical.lookup identity = some copy → position = .field identity → slot = .text identity →
      Stand base next count canonical identity parent position slot
  | copy (copy again : Nat) : canonical.lookup identity = some copy → position ≠ .field identity →
      slot = .node again → count ≤ again → (∀ v, base.Shows (.node copy) v → next.Shows (.node again) v) →
      Stand base next count canonical identity parent position slot
  | stub (stub : Nat) : canonical.lookup identity = none → position = .field identity → slot = .node stub →
      count ≤ stub → next.Shows (.node stub) (Json.stub identity) →
      Stand base next count canonical identity parent position slot
  | kept : canonical.lookup identity = none → position ≠ .field identity → base.slotAt? parent position = some slot →
      Stand base next count canonical identity parent position slot

/-- A graph in which some locations of the first `count` nodes of another are replaced. -/
structure Replaced (base : Graph) (count : Nat) (canonical : List (String × Nat)) (next : Graph)
    (done : List (String × Location)) : Prop where
  outgrows : Outgrows base next
  closed : Closed count next
  kept : ∀ id, count ≤ id → ∀ node : Node, base.nodes[id]? = some node → next.nodes[id]? = some node
  isObject : ∀ id, id < count → next.isObject id = base.isObject id
  there : ∀ id position, id < count → (next.slotAt? id position).isSome = (base.slotAt? id position).isSome
  same : ∀ id position, id < count → (∀ identity, (identity, .slot id position) ∉ done) →
    next.slotAt? id position = base.slotAt? id position
  replaced : ∀ identity id position, (identity, .slot id position) ∈ done →
    ∃ slot, next.slotAt? id position = some slot ∧ Stand base next count canonical identity id position slot

section

variable {base next : Graph} {count : Nat} {canonical : List (String × Nat)} {done : List (String × Location)}

/-- What stands there goes on to stand, as long as new nodes show what they did. -/
theorem Stand.mono {more : Graph} (hshows : ∀ {id v}, count ≤ id → next.Shows (.node id) v → more.Shows (.node id) v)
    {identity : String} {parent : Nat} {position : Position} {slot : Slot}
    (h : Stand base next count canonical identity parent position slot) :
    Stand base more count canonical identity parent position slot := by
  cases h with
  | text copy hcopy hposition hslot => exact .text copy hcopy hposition hslot
  | copy copy again hcopy hposition hslot hle hcopies =>
      exact .copy copy again hcopy hposition hslot hle fun v hv => hshows hle (hcopies v hv)
  | stub stub hnone hposition hslot hle hstub => exact .stub stub hnone hposition hslot hle (hshows hle hstub)
  | kept hnone hposition hslot => exact .kept hnone hposition hslot

/-- More nodes change nothing. -/
theorem Replaced.extend (h : Replaced base count canonical next done) (hcount : count ≤ base.nodes.length)
    {more : Graph} (hmore : Outgrows next more) (hcontinued : Continued next more) (hclosed : Closed count more) :
    Replaced base count canonical more done := by
  have hold : ∀ id, id < count → more.nodes[id]? = next.nodes[id]? := by
    intro id hid
    have hlt := (hid.trans_le hcount).trans_le h.outgrows.size
    rw [List.getElem?_eq_getElem hlt]
    exact hcontinued.kept id _ (List.getElem?_eq_getElem hlt)
  have hslot : ∀ id position, id < count → more.slotAt? id position = next.slotAt? id position :=
    fun id position hid => hcontinued.slotAt? ((hid.trans_le hcount).trans_le h.outgrows.size) position
  refine ⟨h.outgrows.trans hmore, hclosed, fun id hid node hnode => hcontinued.kept id node (h.kept id hid node hnode),
    fun id hid => ?_, fun id position hid => ?_, fun id position hid hnew => ?_, fun identity id position hmem => ?_⟩
  · refine Eq.trans ?_ (h.isObject id hid)
    simp only [Graph.isObject, hold id hid]
  · rw [hslot id position hid]
    exact h.there id position hid
  · rw [hslot id position hid]
    exact h.same id position hid hnew
  · obtain ⟨slot, hat, hstand⟩ := h.replaced identity id position hmem
    obtain ⟨node, hnode, -⟩ := Option.bind_eq_some_iff.mp hat
    have hlt := (List.getElem?_eq_some_iff.mp hnode).1
    exact ⟨slot, (hcontinued.slotAt? hlt position).trans hat, hstand.mono fun _ hv => hv.extend hcontinued.kept⟩

theorem isObject_put_slot (g : Graph) (parent : Nat) (position : Position) (slot : Slot) (id : Nat) :
    (g.put (.slot parent position) slot).isObject id = g.isObject id := by
  rw [isObject, getElem?_put_slot, isObject]
  by_cases hid : id = parent
  · rw [if_pos hid]
    cases g.nodes[id]? with
    | none => rfl
    | some node => cases node <;> cases position <;> rfl
  · rw [if_neg hid]

/-- One more location is replaced. -/
theorem Replaced.put (h : Replaced base count canonical next done) {identity : String} {parent : Nat}
    {position : Position} {slot : Slot} (hparent : parent < count)
    (hthere : (base.slotAt? parent position).isSome) (hslot : slot.Within next.nodes.length)
    (hstand : Stand base next count canonical identity parent position slot)
    (hunique : ∀ other, (other, .slot parent position) ∈ done → other = identity) :
    Replaced base count canonical (next.put (.slot parent position) slot)
      (done ++ [(identity, .slot parent position)]) := by
  have hsome : (next.slotAt? parent position).isSome := (h.there parent position hparent).trans hthere
  have hput := slotAt?_put hsome slot
  have hget := getElem?_put_slot next parent position slot
  have hbeyond : ∀ id, count ≤ id → (next.put (.slot parent position) slot).nodes[id]? = next.nodes[id]? := by
    intro id hid
    rw [hget, if_neg (Nat.ne_of_gt (hparent.trans_le hid))]
  have hshows : ∀ {id v}, count ≤ id → next.Shows (.node id) v →
      (next.put (.slot parent position) slot).Shows (.node id) v := fun hid hv =>
    hv.beyond h.closed (fun id hid node hnode => (hbeyond id hid).trans hnode) hid
  refine ⟨h.outgrows.trans (outgrows_put h.outgrows.wellFormed _ _ hslot), fun a ha b hpoints => ?_,
    fun id hid node hnode => (hbeyond id hid).trans (h.kept id hid node hnode), fun id hid => ?_,
    fun id place hid => ?_, fun id place hid hnew => ?_, fun other id place hmem => ?_⟩
  · rw [Points, targets, hbeyond a ha] at hpoints
    exact h.closed a ha b hpoints
  · rw [isObject_put_slot]
    exact h.isObject id hid
  · rw [hput]
    split
    · rename_i hself
      obtain ⟨rfl, rfl⟩ := hself
      exact hthere.symm
    · exact h.there id place hid
  · rw [hput, if_neg ?_]
    · exact h.same id place hid fun other hmem => hnew other (List.mem_append_left _ hmem)
    · rintro ⟨rfl, rfl⟩
      exact hnew identity (List.mem_append_right _ (List.mem_singleton_self _))
  · by_cases hself : id = parent ∧ place = position
    · obtain ⟨rfl, rfl⟩ := hself
      obtain rfl : other = identity := by
        rcases List.mem_append.mp hmem with hold | hnew
        · exact hunique other hold
        · cases List.mem_singleton.mp hnew
          rfl
      exact ⟨slot, by rw [hput, if_pos ⟨rfl, rfl⟩], hstand.mono hshows⟩
    · have hold : (other, .slot id place) ∈ done := by
        refine (List.mem_append.mp hmem).resolve_right fun hnew => hself ?_
        cases List.mem_singleton.mp hnew
        exact ⟨rfl, rfl⟩
      obtain ⟨slot', hat, hstand'⟩ := h.replaced other id place hold
      exact ⟨slot', by rw [hput, if_neg hself, hat], hstand'.mono hshows⟩

/-- A location is left as it was: no canonical copy could take its place. -/
theorem Replaced.skip (h : Replaced base count canonical next done) {identity : String} {parent : Nat}
    {position : Position} (hparent : parent < count) (hthere : (base.slotAt? parent position).isSome)
    (hnone : canonical.lookup identity = none) (hposition : position ≠ .field identity)
    (hunique : ∀ other, (other, .slot parent position) ∈ done → other = identity) :
    Replaced base count canonical next (done ++ [(identity, .slot parent position)]) := by
  refine ⟨h.outgrows, h.closed, h.kept, h.isObject, h.there, fun id place hid hnew => ?_,
    fun other id place hmem => ?_⟩
  · exact h.same id place hid fun other hmem => hnew other (List.mem_append_left _ hmem)
  · by_cases hold : (other, .slot id place) ∈ done
    · exact h.replaced other id place hold
    · cases List.mem_singleton.mp ((List.mem_append.mp hmem).resolve_left hold)
      obtain ⟨slot, hslot⟩ := Option.isSome_iff_exists.mp hthere
      refine ⟨slot, (h.same parent position hparent fun other hother => ?_).trans hslot, .kept hnone hposition hslot⟩
      exact hold (hunique other hother ▸ hother)

theorem shows_stub (g : Graph) (identity : String) :
    (g.alloc (.object [(identityName, .text identity)])).1.Shows (.node g.nodes.length) (Json.stub identity) := by
  have hnode : (g.alloc (.object [(identityName, .text identity)])).1.nodes[g.nodes.length]? =
      some (.object [(identityName, .text identity)]) := by rw [getElem?_alloc, if_pos rfl]
  change Shows _ _ (Json.ofPairs [(identityName, .string identity)])
  exact shows_ofPairs hnode (List.nodup_singleton _) (.cons ⟨rfl, Shows.text.mpr rfl⟩ .nil)

/-- One more task is done. -/
theorem Replaced.step (h : Replaced base count canonical next done) (hcount : count ≤ base.nodes.length)
    (hclosed : Closed count base)
    (hcanonical : ∀ identity copy, canonical.lookup identity = some copy → count ≤ copy ∧ copy < base.nodes.length)
    {identity : String} {location : Location}
    (hlocation : ∀ parent position, location = .slot parent position → parent < count ∧
      (base.slotAt? parent position).isSome ∧ ∀ other, (other, location) ∈ done → other = identity) :
    Replaced base count canonical (replaceAt canonical identity next location) (done ++ [(identity, location)]) := by
  cases location with
  | root =>
      refine ⟨h.outgrows, h.closed, h.kept, h.isObject, h.there, fun id position hid hnew => ?_,
        fun other id position hmem => ?_⟩
      · exact h.same id position hid fun other hmem => hnew other (List.mem_append_left _ hmem)
      · refine h.replaced other id position ((List.mem_append.mp hmem).resolve_right fun hnew => ?_)
        cases List.mem_singleton.mp hnew
  | slot parent position =>
      obtain ⟨hparent, hthere, hunique⟩ := hlocation parent position rfl
      have hwell := h.outgrows.wellFormed
      have hbehind := hcount.trans h.outgrows.size
      rw [replaceAt]
      cases hlookup : canonical.lookup identity with
      | some copy =>
          obtain ⟨hle, hlt⟩ := hcanonical identity copy hlookup
          dsimp only
          unfold replaceCopied
          split
          · rename_i hposition
            exact h.put hparent hthere (Slot.within_value _ _) (.text copy hlookup hposition rfl) hunique
          · rename_i hposition
            have hlt' := hlt.trans_le h.outgrows.size
            obtain ⟨hgrown, hagain⟩ := outgrows_deepCopy hwell hlt'
            have hmore := h.extend hcount hgrown (continued_deepCopy hwell hlt')
              (closed_deepCopy hwell hlt' hbehind h.closed)
            have hle' : count ≤ (next.deepCopy copy).2 := by
              rw [deepCopy_eq hwell hlt']
              exact hbehind
            refine hmore.put hparent hthere (Slot.within_node hagain)
              (.copy copy _ hlookup hposition rfl hle' fun v hv => ?_) hunique
            exact shows_deepCopy hwell (hv.beyond hclosed h.kept hle)
      | none =>
          dsimp only
          unfold replaceUncopied
          split
          · rename_i hposition
            have hgrown := outgrows_stub hwell identity
            have hmore := h.extend hcount hgrown (continued_alloc next _) (closed_alloc h.closed fun id hid => by
              cases List.mem_singleton.mp hid)
            exact hmore.put hparent hthere (Slot.within_node (shows_stub next identity).lt)
              (.stub _ hlookup hposition rfl hbehind (shows_stub next identity)) hunique
          · rename_i hposition
            exact h.skip hparent hthere hlookup hposition hunique

/-- All locations are replaced. -/
theorem Replaced.all (hbase : base.WellFormed) (hcount : count ≤ base.nodes.length) (hclosed : Closed count base)
    (hcanonical : ∀ identity copy, canonical.lookup identity = some copy → count ≤ copy ∧ copy < base.nodes.length)
    {index : Index}
    (htasks : ∀ identity parent position, (identity, .slot parent position) ∈ tasks index → parent < count ∧
      (base.slotAt? parent position).isSome ∧
      ∀ other, (other, .slot parent position) ∈ tasks index → other = identity) :
    Replaced base count canonical (replaceAll index canonical base) (tasks index) := by
  have hfold : ∀ (todo done : List (String × Location)) (next : Graph), done ++ todo = tasks index →
      Replaced base count canonical next done →
      Replaced base count canonical (todo.foldl (fun g task => replaceAt canonical task.1 g task.2) next)
        (tasks index) := by
    intro todo
    induction todo with
    | nil =>
        intro done next heq h
        rw [List.append_nil] at heq
        exact heq ▸ h
    | cons task rest ih =>
        intro done next heq h
        obtain ⟨identity, location⟩ := task
        have hmem : (identity, location) ∈ tasks index :=
          heq ▸ List.mem_append_right done List.mem_cons_self
        refine ih (done ++ [(identity, location)]) _ (by simpa using heq) (h.step hcount hclosed hcanonical ?_)
        rintro parent position rfl
        obtain ⟨hparent, hthere, hunique⟩ := htasks identity parent position hmem
        exact ⟨hparent, hthere, fun other hother => hunique other (heq ▸ List.mem_append_left _ hother)⟩
  rw [replaceAll_eq]
  refine hfold (tasks index) [] base rfl ?_
  exact ⟨⟨hbase, rfl, Nat.le_refl _⟩, hclosed, fun _ _ _ h => h, fun _ _ => rfl, fun _ _ _ => rfl,
    fun _ _ _ _ => rfl, fun _ _ _ h => absurd h List.not_mem_nil⟩

end

end Dossier.Graph
