import Dossier.Proofs.Graph.Agreement
import Dossier.Proofs.Graph.Loaded
import Dossier.Proofs.Graph.Passes

/-!
Merging what was merged. The graph of merged copies has no cycle, so all copies can be written out again; and since
the merge settled them, another merge of what is written leaves it as it is. **`mergeValues_idempotent`** says so
of any number of copies.
-/

namespace Dossier.Graph

variable {layout : Layout} {first : Nat} {origin g : Graph}

/-! ### Writing merged copies out -/

theorem exists_longest (layout : Layout) (count : Nat) :
    ∃ longest, ∀ id < count, ∀ path, layout.place id = some path → path.length ≤ longest := by
  induction count with
  | zero => exact ⟨0, nofun⟩
  | succ count ih =>
      obtain ⟨longest, hlongest⟩ := ih
      refine ⟨max longest (((layout.place count).map List.length).getD 0), fun id hid path hpath => ?_⟩
      rcases Nat.lt_succ_iff_lt_or_eq.mp hid with hlt | rfl
      · exact (hlongest id hlt path hpath).trans (Nat.le_max_left _ _)
      · rw [hpath]
        exact Nat.le_max_right _ _

/-- Merged copies show values: what stands nowhere shows what it did, and what stands somewhere leads there or
further down only. -/
theorem Midway.exists_shows (h : Midway layout first origin g) (hlaid : Laid layout first origin)
    (hg : origin.WellFormed) (hshown : ∀ id < origin.nodes.length, ∃ v, origin.Shows (.node id) v) {id : Nat}
    (hid : id < origin.nodes.length) : ∃ v, g.Shows (.node id) v := by
  have hnext := h.regroups.wellFormed hg
  have hsize := h.regroups.size
  have hinert : ∀ id < origin.nodes.length, layout.place id = none → ∃ v, g.Shows (.node id) v := by
    intro id hid hnowhere
    obtain ⟨v, hv⟩ := hshown id hid
    refine ⟨v, hv.frame (fun a ha b hpoints => hlaid.place_of_reaches_none (.single hpoints) ha)
      (fun other hother node hnode => (h.inert other hother).trans hnode) fun other hother => ?_⟩
    cases hother
    exact hnowhere
  obtain ⟨longest, hlongest⟩ := exists_longest layout origin.nodes.length
  -- by induction on how much longer paths can get
  have hplaced : ∀ spare id path, id < origin.nodes.length → layout.place id = some path →
      longest < path.length + spare → ∃ v, g.Shows (.node id) v := by
    intro spare
    induction spare with
    | zero =>
        intro id path hid hplace hspare
        exact absurd (hlongest id hid path hplace) (Nat.not_le_of_lt hspare)
    | succ spare ih =>
        intro id path hid hplace hspare
        refine Graph.exists_shows hnext (hsize ▸ hid) fun position slot hslot => ?_
        cases slot with
        | value value => exact ⟨_, .value value⟩
        | node target =>
            have hpoints := points_of_slotAt? hslot
            have hlt := hsize ▸ hnext.lt_of_points hpoints
            rcases h.laid.place_of_points hpoints with hnowhere | ⟨name, hbelow⟩
            · exact hinert target hlt hnowhere
            · rw [hplace, Option.map_some] at hbelow
              exact ih target _ hlt hbelow (by rw [List.length_append, List.length_singleton]; omega)
  cases hplace : layout.place id with
  | none => exact hinert id hid hplace
  | some path => exact hplaced (longest + 1) id path hid hplace (by omega)

/-! ### Settled objects -/

theorem Shows.eq_of_same {left right : Slot} {v w : Json} (hl : g.Shows left v) (hr : g.Shows right w)
    (hsame : left.same right = true) : v = w := by
  cases left with
  | value a =>
      cases right with
      | value b =>
          cases hl
          cases hr
          exact Json.same_iff.mp hsame
      | node b => cases hsame
  | node a =>
      cases right with
      | value b => cases hsame
      | node b =>
          rw [Graph.eq_of_same hsame] at hl
          exact hl.unique hr

/-- Nodes with the same slots show the same. -/
theorem Shows.of_node {x y : Nat} {v : Json} (h : g.Shows (.node x) v) (heq : g.nodes[y]? = g.nodes[x]?) :
    g.Shows (.node y) v := by
  cases h with
  | object hnode hdistinct hsorted hnames hfields => exact .object (heq.trans hnode) hdistinct hsorted hnames hfields
  | array hnode hlength hitems => exact .array (heq.trans hnode) hlength hitems

theorem isArray_of_shows {id : Nat} {values : List Json} (h : g.Shows (.node id) (.array values)) :
    g.isArray id = true := by
  cases h with
  | array hnode _ _ => rw [isArray, hnode]

section

variable (hplain : ∀ id position w, g.slotAt? id position = some (.value w) → w.isContainer = false)

include hplain

/-- A container in a field is shown by a node. -/
theorem exists_node_of_field {id : Nat} {name : String} {slot : Slot} {v : Json}
    (hslot : g.field? id name = some slot) (hshows : g.Shows slot v) (hv : v.isContainer = true) :
    ∃ target, slot = .node target := by
  refine exists_node_of_shows (fun w hw => hplain id (.field name) w ?_) hshows hv
  rw [slotAt?_field, hslot, hw]

/-- Slots that a union leaves as they are show values that a merge leaves as they are, if that holds of the objects
below. -/
theorem Agree.stable {a b : Nat} {name : String} {left right : Slot} {v w : Json} (h : g.Agree left right)
    (hleft : g.field? a name = some left) (hright : g.field? b name = some right) (hl : g.Shows left v)
    (hr : g.Shows right w) (hunited : ∀ x y, g.United a b name x y → ∀ ms ns, g.Shows (.node x) (.object ms) →
      g.Shows (.node y) (.object ns) → Unmoved ms ns) : Stable v w := by
  cases h with
  | same hsame =>
      rw [hl.eq_of_same hr hsame]
      exact .same w
  | nothing hv hw => exact .nothing (hl.truthy.symm.trans hv) (hr.truthy.symm.trans hw)
  | something hv hw hitems =>
      by_cases harrays : ∃ vs ws, v = .array vs ∧ w = .array ws
      · obtain ⟨vs, ws, rfl, rfl⟩ := harrays
        obtain ⟨x, rfl⟩ := exists_node_of_field hplain hleft hl rfl
        obtain ⟨y, rfl⟩ := exists_node_of_field hplain hright hr rfl
        have hx := isArray_of_shows hl
        have hy := isArray_of_shows hr
        have hnode : g.nodes[x]? = g.nodes[y]? := by
          rw [isArray_iff.mp hx, isArray_iff.mp hy, hitems x y rfl rfl hx hy]
        rw [hl.unique (hr.of_node hnode)]
        exact .same _
      by_cases hobjects : ∃ ms ns, v = .object ms ∧ w = .object ns ∧ (v.identity? = none ∨ w.identity? = none)
      · obtain ⟨ms, ns, rfl, rfl, hinline⟩ := hobjects
        obtain ⟨x, rfl⟩ := exists_node_of_field hplain hleft hl rfl
        obtain ⟨y, rfl⟩ := exists_node_of_field hplain hright hr rfl
        rw [hl.identity, hr.identity] at hinline
        have hunmoved := hunited x y ⟨hleft, hright, isObject_of_shows hl, isObject_of_shows hr, hinline⟩ ms ns hl hr
        exact .objects hunmoved.names hunmoved.members
      · refine .apart (hl.truthy.symm.trans hv) (hr.truthy.symm.trans hw) (fun vs ws hvs hws => ?_)
          fun ms ns hms hns => ⟨fun hnone => ?_, fun hnone => ?_⟩
        · exact harrays ⟨vs, ws, hvs, hws⟩
        · exact hobjects ⟨ms, ns, hms, hns, .inl hnone⟩
        · exact hobjects ⟨ms, ns, hms, hns, .inr hnone⟩

/-- Settled objects show members that a merge leaves as they are. -/
theorem Settled.unmoved {a b : Nat} (h : g.Settled a b) {ms ns : Members} (ha : g.Shows (.node a) (.object ms))
    (hb : g.Shows (.node b) (.object ns)) : Unmoved ms ns := by
  induction h generalizing ms ns with
  | self a =>
      cases ha.unique hb
      exact .refl ms
  | @fields a b hnames hagree _ ih =>
      refine ⟨fun name => ?_, fun name v w hv hw => ?_⟩
      · rw [← (ha.field name).1, ← (hb.field name).1, hnames]
      · obtain ⟨hasome, hashows⟩ := ha.field name
        obtain ⟨hbsome, hbshows⟩ := hb.field name
        obtain ⟨left, hleft⟩ := exists_of_isSome_eq hasome.symm hv
        obtain ⟨right, hright⟩ := exists_of_isSome_eq hbsome.symm hw
        exact (hagree name left right hleft hright).stable hplain hleft hright (hashows left v hleft hv)
          (hbshows right w hright hw) fun x y hunited ms ns hx hy => ih name x y hunited hx hy

end

/-! ### Merging values -/

/-- Containers that a merge leaves as they are. -/
structure Merged (values : List Json) : Prop where
  ordered : ∀ value ∈ values, value.Ordered
  container : ∀ value ∈ values, value.isContainer = true
  unmoved : ∀ first others, values = first :: others → ∀ other ∈ others, ∀ ms ns,
    first.normal = .object ms → other.normal = .object ns → Unmoved ms ns

/-- The graph into which values are loaded for a merge. -/
theorem loaded_spec {values : List Json} (hordered : ∀ value ∈ values, value.Ordered) :
    (loadNodes empty values).1.Loading (.array values) ∧ (loadNodes empty values).1.WellFormed ∧
      List.Forall₂ (fun id value => (loadNodes empty values).1.Shows (.node id) value.normal)
        (loadNodes empty values).2 (values.filter Json.isContainer) ∧
      ∃ layout, Planted layout (loadNodes empty values).1 ∧ (loadNodes empty values).2.Nodup ∧
        ∀ id ∈ (loadNodes empty values).2, layout.place id = some [] ∧ layout.copy id = id := by
  have hparts : ∀ value ∈ values, value ∈ (Json.array values).parts := fun value hvalue =>
    Json.parts_of_mem_items hvalue value.self_mem_parts
  have hempty : Planted ⟨fun _ => none, id⟩ empty := ⟨nofun, nofun⟩
  obtain ⟨hgrown, hloading, hshows⟩ := loadNodes_spec hordered hparts (loading_empty (.array values))
  obtain ⟨layout, -, hplanted, hdistinct, hstands⟩ :=
    loadNodes_planted hordered hparts (loading_empty (.array values)) hempty
  refine ⟨hloading, ⟨?_, hloading.nodes⟩, hshows, layout, hplanted, hdistinct, fun id hid => (hstands id hid).2⟩
  rw [hgrown.root]
  exact Slot.within_value _ _

/-- Nodes that show values are written out one by one. -/
theorem exists_written {ids : List Nat} (h : ∀ id ∈ ids, ∃ v, g.Shows (.node id) v) :
    ∃ written, ids.mapM g.nodeJson? = .ok written ∧
      List.Forall₂ (fun id value => g.Shows (.node id) value.normal) ids written := by
  obtain ⟨written, hwritten⟩ : ∃ written, List.Forall₂ (fun id value =>
      g.nodeJson? id = .ok value ∧ g.Shows (.node id) value.normal) ids written := by
    refine exists_forall₂ fun id hid => ?_
    obtain ⟨v, hv⟩ := h id hid
    obtain ⟨value, hvalue, rfl⟩ := hv.nodeJson?
    exact ⟨value, hvalue, hv⟩
  exact ⟨written, mapM_eq_ok_iff.mpr (hwritten.imp fun _ _ h => h.1), hwritten.imp fun _ _ h => h.2⟩

theorem mergeValues_eq (values : List Json) : mergeValues values = (loadNodes empty values).2.mapM
    ((loadNodes empty values).1.merge (loadNodes empty values).2).nodeJson? := rfl

/-- Values in order can be merged, and what comes of it is merged. -/
theorem exists_merged {values : List Json} (hordered : ∀ value ∈ values, value.Ordered) :
    ∃ merged, mergeValues values = .ok merged ∧ Merged merged := by
  obtain ⟨hloading, hg, hloaded, layout, hplanted, hdistinct, hstands⟩ := loaded_spec hordered
  rw [mergeValues_eq]
  generalize (loadNodes empty values).1 = origin at *
  generalize (loadNodes empty values).2 = ids at *
  cases ids with
  | nil => exact ⟨[], rfl, nofun, nofun, nofun⟩
  | cons first others =>
      have hfirst := hstands first List.mem_cons_self
      have hlaid := hplanted.laid hg hfirst.1
      have hothers : ∀ other ∈ others, Beside layout first other := by
        intro other hother
        obtain ⟨hplace, hcopy⟩ := hstands other (List.mem_cons_of_mem _ hother)
        refine ⟨?_, hplace, hcopy⟩
        rintro rfl
        exact (List.nodup_cons.mp hdistinct).1 hother
      have hstart : Midway layout first origin origin := ⟨hlaid, .refl origin, fun _ _ => rfl⟩
      have hmidway := hstart.merge hothers
      have hnative := hmidway.regroups.native hloading.native
      have hid : ∀ id ∈ first :: others, id < origin.nodes.length := fun id hmem => by
        obtain ⟨value, -, hvalue⟩ := exists_of_mem_forall₂ hloaded hmem
        exact hvalue.lt
      obtain ⟨merged, hwritten, hmerged⟩ := exists_written (g := origin.merge (first :: others)) fun id hmem =>
        hmidway.exists_shows hlaid hg (fun _ => hloading.exists_shows hg) (hid id hmem)
      have hback : ∀ value ∈ merged, ∃ id, (origin.merge (first :: others)).Shows (.node id) value.normal := by
        intro value hvalue
        obtain ⟨id, -, hshows⟩ := exists_of_mem_forall₂ hmerged.flip hvalue
        exact ⟨id, hshows⟩
      refine ⟨merged, hwritten, fun value hvalue => ?_, fun value hvalue => ?_,
        fun v rest heq w hw ms ns hms hns => ?_⟩
      · obtain ⟨id, hshows⟩ := hback value hvalue
        exact Json.ordered_normal.mp (ordered_of_shows hnative hshows)
      · obtain ⟨id, hshows⟩ := hback value hvalue
        rw [← value.isContainer_normal]
        exact hshows.isContainer
      · subst heq
        cases hmerged with
        | cons hv hrest =>
            obtain ⟨other, hother, hshows⟩ := exists_of_mem_forall₂ hrest.flip hw
            have hv := hms ▸ hv
            rw [hns] at hshows
            have hobject : ∀ {id : Nat} {ms : Members}, (origin.merge (first :: others)).Shows (.node id)
                (.object ms) → origin.isObject id = true := fun h =>
              (hmidway.regroups.isObject _).symm.trans (isObject_of_shows h)
            exact (merge_spec (hobject hv) hothers (List.nodup_cons.mp hdistinct).2 hstart other hother
              (hobject hshows)).unmoved (fun _ _ _ => hnative.plain) hv hshows

/-- What was merged stays as it is when it is merged again. -/
theorem Merged.again {merged : List Json} (h : Merged merged) :
    ∃ again, mergeValues merged = .ok again ∧ Json.sameItems again merged = true := by
  obtain ⟨hloading, -, hloaded, -⟩ := loaded_spec h.ordered
  rw [mergeValues_eq]
  rw [List.filter_eq_self.mpr h.container] at hloaded
  generalize (loadNodes empty merged).1 = g at *
  generalize (loadNodes empty merged).2 = ids at *
  have hkeeps : Keeps g (g.merge ids) := by
    cases hloaded with
    | nil => exact .refl g
    | cons hfirst hothers =>
        refine keeps_merge hloading.native.items hfirst fun other hother => ?_
        obtain ⟨value, hvalue, hshows⟩ := exists_of_mem_forall₂ hothers hother
        exact ⟨value.normal, hshows, h.unmoved _ _ rfl value hvalue⟩
  obtain ⟨again, hwritten, hagain⟩ := exists_written (g := g.merge ids) fun id hid => by
    obtain ⟨value, -, hshows⟩ := exists_of_mem_forall₂ hloaded hid
    exact ⟨_, hkeeps.shown _ _ hshows⟩
  refine ⟨again, hwritten, ?_⟩
  have hunique : Relator.RightUnique fun id v => (g.merge ids).Shows (.node id) v := fun _ _ _ h h' => h.unique h'
  rw [Json.sameItems_iff, Json.normalItems_eq, Json.normalItems_eq]
  exact List.right_unique_forall₂' hunique (List.forall₂_map_right_iff.mpr hagain)
    (List.forall₂_map_right_iff.mpr (hloaded.imp fun _ _ h => hkeeps.shown _ _ h))

/-- **Merging is idempotent.** However many copies there are and however they nest, their merge succeeds, and so does
a merge of what came of it, which gives the same values. -/
theorem mergeValues_idempotent {values : List Json} (hordered : ∀ value ∈ values, value.Ordered) :
    ∃ merged again, mergeValues values = .ok merged ∧ mergeValues merged = .ok again ∧
      Json.sameItems again merged = true := by
  obtain ⟨merged, hmerged, hstill⟩ := exists_merged hordered
  obtain ⟨again, hagain, hsame⟩ := hstill.again
  exact ⟨merged, again, hmerged, hagain, hsame⟩

/-- The owner told without an identity takes that of the second copy, and then it is another than the third's. -/
theorem mergeValues_idempotent_owners :
    let copies : List Json := [
      .object [("id", .string "u"), ("owner", .object [("name", .string "Ann")]), ("tags", .array [.int 1])],
      .object [("note", .null), ("owner", .object [("id", .string "a")]), ("tags", .array [.int 2, .int 1])],
      .object [("note", .string "x"), ("owner", .object [("id", .string "b")]), ("tags", .array [.int 3])]]
    let told (owner : Json) : Json := .object [("id", .string "u"), ("note", .string "x"), ("owner", owner),
      ("tags", .array [.int 1, .int 2, .int 3])]
    let named : Json := .object [("id", .string "a"), ("name", .string "Ann")]
    let merged : List Json := [told named, told named, told (.object [("id", .string "b")])]
    (∀ copy ∈ copies, copy.Ordered) ∧ mergeValues copies = .ok merged ∧
      ∃ again, mergeValues merged = .ok again ∧ Json.sameItems again merged = true := by
  intro copies told named merged
  have hordered : ∀ copy ∈ copies, copy.Ordered := by decide
  have hvalue : mergeValues copies = .ok merged := by rfl
  obtain ⟨merged', again, hmerged, hagain, hsame⟩ := mergeValues_idempotent hordered
  cases hvalue.symm.trans hmerged
  exact ⟨hordered, hvalue, again, hagain, hsame⟩

end Dossier.Graph
