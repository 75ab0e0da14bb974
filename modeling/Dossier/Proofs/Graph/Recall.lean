import Dossier.Proofs.Graph.Expand
import Dossier.Proofs.Graph.Layout
import Dossier.Proofs.Graph.Owned

/-!
Where expansion closes a cycle. A canonical copy is put in place of a text without a look at where the copy leads. In a
graph that was put together node by node the root can lead to copies by other ways as well, and so to texts below them
that make way for copies in turn. **`expanded_iff_not_tangled`**: inlining closes a cycle exactly when the copies recall
one another in a circle. Otherwise the expanded graph can be written out, and if the circle runs along fields alone it
cannot, since no merge takes a field away that holds something.
-/

namespace Dossier.Graph

variable {g : Graph} {lead : Nat → Nat → Prop} {root refs a b : Nat}

/-- The root leads to the object, and a text there is the name of its own field and of a canonical copy. -/
def Awaits (g : Graph) (lead : Nat → Nat → Prop) (root refs id : Nat) (name : String) : Prop :=
  Relation.ReflTransGen lead root id ∧ g.field? id name = some (.text name) ∧
    ∃ copy, g.field? refs name = some (.node copy)

/-- The canonical copy of the first name leads to an object that awaits the copy of the other. -/
def Recalls (g : Graph) (lead : Nat → Nat → Prop) (root refs : Nat) (name other : String) : Prop :=
  ∃ copy id, g.field? refs name = some (.node copy) ∧ Relation.ReflTransGen lead copy id ∧
    g.Awaits lead root refs id other

/-- Without the field that holds them, the canonical copies recall one another in a circle. -/
def Tangled (lead : Graph → Nat → Nat → Prop) (g : Graph) : Prop :=
  ∃ root refs name, g.root = .node root ∧ g.field? root refsName = some (.node refs) ∧
    Relation.TransGen ((g.removeField root refsName).Recalls (lead (g.removeField root refsName)) root refs) name name

/-! ### What inlining adds -/

theorem getElem?_inlineField (g : Graph) (refs : Nat) {id other : Nat} (field : String × Slot) (hother : other ≠ id) :
    (g.inlineField refs id field).nodes[other]? = g.nodes[other]? := by
  unfold inlineField
  split
  · split
    · split
      · by_cases hobject : g.isObject id = true
        · rw [getElem?_setField hobject, if_neg hother]
        · rw [setField_of_not_isObject hobject]
      · rfl
    · rfl
  · rfl

/-- Nodes that the root does not lead to are as they were. -/
theorem getElem?_inlineAll (g : Graph) (refs : Nat) {root id : Nat} (hapart : ¬g.Reaches root id) :
    (g.inlineAll refs root).nodes[id]? = g.nodes[id]? := by
  refine List.foldlRecOn (motive := fun next : Graph => next.nodes[id]? = g.nodes[id]?) _ _ rfl ?_
  intro middle hmiddle visited hvisited
  have hne : id ≠ visited := fun heq => hapart (heq ▸ mem_reachable_iff.mp hvisited)
  refine List.foldlRecOn (motive := fun next : Graph => next.nodes[id]? = g.nodes[id]?) _ _ hmiddle ?_
  intro next hnext field _
  rw [getElem?_inlineField next refs field hne, hnext]

section

variable (hg : g.WellFormed)

include hg

/-- A field that holds a node is no text, so it holds it still. -/
theorem carries_inlineAll (hcarries : g.Carries a b) : (g.inlineAll refs root).Carries a b := by
  obtain ⟨name, hfield⟩ := hcarries
  obtain ⟨hinlines, -⟩ : Inlines g refs (g.inlineAll refs root) ∧ _ := inlines_all hg root
  rcases hinlines.field a name with hsame | ⟨_, htext, -, -⟩
  · exact ⟨name, hsame.trans hfield⟩
  · cases hfield.symm.trans htext

theorem carries_of_awaits {name : String} (hawaits : g.Awaits g.Points root refs a name)
    (hcopy : g.field? refs name = some (.node b)) : (g.inlineAll refs root).Carries a b := by
  obtain ⟨hreach, htext, -⟩ := hawaits
  obtain ⟨-, hinlined⟩ : Inlines g refs (g.inlineAll refs root) ∧ _ := inlines_all hg root
  exact ⟨name, hinlined a hreach name _ htext hcopy⟩

/-- Inlining adds pointers to canonical copies where they are awaited, and takes none away. -/
theorem points_inlineAll_iff : (g.inlineAll refs root).Points a b ↔
    g.Points a b ∨ ∃ name, g.Awaits g.Points root refs a name ∧ g.field? refs name = some (.node b) := by
  obtain ⟨hinlines, -⟩ : Inlines g refs (g.inlineAll refs root) ∧ _ := inlines_all hg root
  have hnames := (wellFormed_iff.mp hg).2.1
  constructor
  · intro hpoints
    by_cases hreach : g.Reaches root a
    · rcases points_iff.mp hpoints with ⟨name, hfield⟩ | hitem
      · have hnow := (mem_fields_iff (hinlines.regroups.names hnames)).mp hfield
        rcases hinlines.field a name with hsame | ⟨canonical, htext, hcopy, hinlined⟩
        · exact .inl (points_iff.mpr (.inl ⟨name, mem_of_field? (hsame.symm.trans hnow)⟩))
        · cases hnow.symm.trans hinlined
          exact .inr ⟨name, ⟨hreach, htext, b, hcopy⟩, hcopy⟩
      · exact .inl (points_iff.mpr (.inr (hinlines.items a ▸ hitem)))
    · rw [Points, targets, getElem?_inlineAll g refs hreach] at hpoints
      exact .inl hpoints
  · rintro (hpoints | ⟨name, hawaits, hcopy⟩)
    · rcases points_iff.mp hpoints with ⟨name, hfield⟩ | hitem
      · exact (carries_inlineAll hg ⟨name, (mem_fields_iff hnames).mp hfield⟩).points
      · exact points_iff.mpr (.inr (hinlines.items a ▸ hitem))
    · exact (carries_of_awaits hg hawaits hcopy).points

/-! ### Circles of copies -/

/-- A path in the inlined graph is an old one, or it goes over copies each of which recalls the next. -/
theorem recalls_of_path (hpath : Relation.TransGen (g.inlineAll refs root).Points a b) :
    Relation.TransGen g.Points a b ∨ ∃ id first last copy, g.Reaches a id ∧ g.Awaits g.Points root refs id first ∧
      Relation.ReflTransGen (g.Recalls g.Points root refs) first last ∧ g.field? refs last = some (.node copy) ∧
      g.Reaches copy b := by
  induction hpath with
  | single hstep =>
      rcases (points_inlineAll_iff hg).mp hstep with hold | ⟨name, hawaits, hcopy⟩
      · exact .inl (.single hold)
      · exact .inr ⟨a, name, name, _, .refl, hawaits, .refl, hcopy, .refl⟩
  | tail _ hstep ih =>
      rcases (points_inlineAll_iff hg).mp hstep with hold | ⟨name, hawaits, hcopy⟩
      · rcases ih with hbefore | ⟨id, first, last, copy, hid, hfirst, hchain, hlast, hreach⟩
        · exact .inl (hbefore.tail hold)
        · exact .inr ⟨id, first, last, copy, hid, hfirst, hchain, hlast, hreach.tail hold⟩
      · rcases ih with hbefore | ⟨id, first, last, copy, hid, hfirst, hchain, hlast, hreach⟩
        · exact .inr ⟨_, name, name, _, hbefore.to_reflTransGen, hawaits, .refl, hcopy, .refl⟩
        · exact .inr ⟨id, first, name, _, hid, hfirst, hchain.tail ⟨copy, _, hlast, hreach, hawaits⟩, hcopy, .refl⟩

omit hg in
/-- Where old ways last and awaited copies are put, copies that recall one another lead to one another. -/
theorem path_of_recalls {step : Nat → Nat → Prop} (hkept : ∀ a b, lead a b → step a b)
    (hput : ∀ id name copy, g.Awaits lead root refs id name → g.field? refs name = some (.node copy) → step id copy)
    {name other : String} (hchain : Relation.TransGen (g.Recalls lead root refs) name other) {first last : Nat}
    (hfirst : g.field? refs name = some (.node first)) (hlast : g.field? refs other = some (.node last)) :
    Relation.TransGen step first last := by
  have hone : ∀ {name other first last}, g.Recalls lead root refs name other →
      g.field? refs name = some (.node first) → g.field? refs other = some (.node last) →
      Relation.TransGen step first last := by
    rintro name other first last ⟨copy, id, hcopy, hreach, hawaits⟩ hfirst hlast
    cases hcopy.symm.trans hfirst
    exact .tail' (Relation.ReflTransGen.mono hkept _ _ hreach) (hput id other last hawaits hlast)
  induction hchain generalizing last with
  | single hrecalls => exact hone hrecalls hfirst hlast
  | tail _ hrecalls ih =>
      have ⟨copy, _, hcopy, _⟩ := hrecalls
      exact (ih hcopy).trans (hone hrecalls hcopy hlast)

/-- Inlining closes a cycle exactly when canonical copies recall one another in a circle. -/
theorem Acyclic.inlineAll_iff (h : g.Acyclic) :
    (g.inlineAll refs root).Acyclic ↔ ∀ name, ¬Relation.TransGen (g.Recalls g.Points root refs) name name := by
  constructor
  · intro hacyclic name hcircle
    obtain ⟨_, ⟨copy, _, hcopy, -, -⟩, -⟩ := Relation.TransGen.head'_iff.mp hcircle
    refine hacyclic copy (path_of_recalls (fun a b hpoints => (points_inlineAll_iff hg).mpr (.inl hpoints))
      (fun id name copy hawaits hcopy => ?_) hcircle hcopy hcopy)
    exact (carries_of_awaits hg hawaits hcopy).points
  · intro huntangled id hcycle
    rcases recalls_of_path hg hcycle with hold | ⟨target, first, last, copy, hid, hfirst, hchain, hlast, hback⟩
    · exact h id hold
    · exact huntangled first (.tail' hchain ⟨copy, target, hlast, hback.trans hid, hfirst⟩)

end

/-! ### Taking the copies off the root -/

theorem fields_removeField (hobject : g.isObject root = true) (name : String) (id : Nat) :
    (g.removeField root name).fields id = if id = root then Node.remove name (g.fields root) else g.fields id := by
  rw [fields, getElem?_removeField hobject]
  by_cases hid : id = root
  · simp [hid]
  · simp [hid, fields]

theorem items_removeField (hobject : g.isObject root = true) (name : String) (id : Nat) :
    (g.removeField root name).items id = g.items id := by
  rw [items, getElem?_removeField hobject]
  by_cases hid : id = root
  · simp [hid, items, isObject_iff.mp hobject]
  · simp [hid, items]

theorem points_of_points_removeField (hobject : g.isObject root = true) {name : String} {a b : Nat}
    (h : (g.removeField root name).Points a b) : g.Points a b := by
  rw [points_iff, fields_removeField hobject, items_removeField hobject] at h
  rcases h with ⟨key, hfield⟩ | hitem
  · split at hfield
    · rename_i ha
      exact points_iff.mpr (.inl ⟨key, ha ▸ mem_remove hfield⟩)
    · exact points_iff.mpr (.inl ⟨key, hfield⟩)
  · exact points_iff.mpr (.inr hitem)


/-- The root's field is moved to its end, if it holds no canonical copies. -/
theorem moveField_spec (g : Graph) {name : String} {slot : Slot} (hfield : g.field? root name = some slot) :
    Regroups g ((g.removeField root name).setField root name slot) ∧
      ∀ a b, ((g.removeField root name).setField root name slot).Points a b → g.Points a b := by
  have hmem := mem_of_field? hfield
  have hobject := isObject_of_mem_fields hmem
  have hregroups := regroups_removeField g root name
  refine ⟨hregroups.setField hmem root, fun a b hpoints => ?_⟩
  have hstill : (g.removeField root name).isObject root = true := (hregroups.isObject root).trans hobject
  rw [points_iff, fields_setField hstill, items_setField hstill, items_removeField hobject] at hpoints
  rcases hpoints with ⟨key, hslot⟩ | hitem
  · split at hslot
    · rename_i ha
      subst ha
      rcases Node.mem_assign hslot with heq | hold
      · cases heq
        exact points_iff.mpr (.inl ⟨_, hmem⟩)
      · exact points_of_points_removeField hobject (points_iff.mpr (.inl ⟨key, hold⟩))
    · exact points_of_points_removeField hobject (points_iff.mpr (.inl ⟨key, hslot⟩))
  · exact points_iff.mpr (.inr hitem)

/-- There are canonical copies to inline, or pointers stay or go. -/
theorem inlineRefs_cases (g : Graph) :
    (∃ root refs, g.root = .node root ∧ g.field? root refsName = some (.node refs) ∧ g.isObject root = true ∧
      g.inlineRefs = (g.removeField root refsName).inlineAll refs root) ∨
    ¬g.Tangled Points ∧ Regroups g g.inlineRefs ∧ ∀ a b, g.inlineRefs.Points a b → g.Points a b := by
  have hfree : ∀ {root}, g.root = .node root → (∀ refs, g.field? root refsName = some (.node refs) →
      g.isObject refs = false) → ¬g.Tangled Points := by
    rintro root hroot hnone ⟨top, refs, name, htop, hfield, hcircle⟩
    cases hroot.symm.trans htop
    obtain ⟨_, ⟨copy, id, hcopy, -, -⟩, -⟩ := Relation.TransGen.head'_iff.mp hcircle
    have hobject := isObject_of_mem_fields (mem_of_field? hcopy)
    rw [(regroups_removeField g root refsName).isObject, hnone refs hfield] at hobject
    cases hobject
  unfold inlineRefs
  split
  · rename_i value hroot
    refine .inr ⟨?_, .refl g, fun _ _ => id⟩
    rintro ⟨top, _, _, htop, -, -⟩
    cases hroot.symm.trans htop
  · rename_i root hroot
    split
    · rename_i hnone
      exact .inr ⟨hfree hroot fun refs hfield => (by cases hnone.symm.trans hfield), .refl g, fun _ _ => id⟩
    · rename_i refs hfield
      split
      · exact .inl ⟨root, refs, hroot, hfield, isObject_of_mem_fields (mem_of_field? hfield), rfl⟩
      · rename_i hother
        refine .inr ⟨hfree hroot fun refs' hfield' => ?_, g.moveField_spec hfield⟩
        cases hfield.symm.trans hfield'
        exact Bool.eq_false_iff.mpr hother
    · rename_i other hother hfield
      exact .inr ⟨hfree hroot fun refs hfield' => absurd (Option.some_inj.mp (hfield.symm.trans hfield'))
        (hother refs), g.moveField_spec hfield⟩

theorem regroups_inlineRefs (hg : g.WellFormed) : Regroups g g.inlineRefs := by
  rcases g.inlineRefs_cases with ⟨root, refs, -, -, -, heq⟩ | ⟨-, hregroups, -⟩
  · have hbare := regroups_removeField g root refsName
    rw [heq]
    exact hbare.trans (inlines_all (hbare.wellFormed hg) root).1.regroups
  · exact hregroups

theorem Acyclic.inlineRefs_iff (h : g.Acyclic) (hg : g.WellFormed) : g.inlineRefs.Acyclic ↔ ¬g.Tangled Points := by
  rcases g.inlineRefs_cases with ⟨root, refs, hroot, hfield, hobject, heq⟩ | ⟨hfree, -, hfewer⟩
  · have hwell := (regroups_removeField g root refsName).wellFormed hg
    have hacyclic : (g.removeField root refsName).Acyclic :=
      h.mono fun a b => points_of_points_removeField hobject
    rw [heq, hacyclic.inlineAll_iff hwell]
    refine ⟨fun huntangled ⟨top, held, name, htop, hheld, hcircle⟩ => ?_, fun huntangled name hcircle => ?_⟩
    · cases hroot.symm.trans htop
      cases hfield.symm.trans hheld
      exact huntangled name hcircle
    · exact huntangled ⟨root, refs, name, hroot, hfield, hcircle⟩
  · exact iff_of_true (h.mono hfewer) hfree

/-! ### Expanding -/

/-- A circle along fields outlasts all merges. -/
theorem Tangled.exists_cycle (hg : g.WellFormed) (h : g.Tangled Carries) :
    ∃ root id, g.root = .node root ∧ g.expanded.Reaches root id ∧ Relation.TransGen g.expanded.Points id id := by
  obtain ⟨root, refs, name, hroot, hfield, hcircle⟩ := h
  have hbare := (regroups_removeField g root refsName).wellFormed hg
  have hwell := (regroups_inlineRefs hg).wellFormed hg
  have hretains := retains_unified hwell
  obtain ⟨last, -, ⟨_, id, -, -, hreach, htext, copy, hcopy⟩⟩ := Relation.TransGen.tail'_iff.mp hcircle
  have hrefs : g.isObject refs = true :=
    (regroups_removeField g root refsName).isObject refs ▸ isObject_of_mem_fields (mem_of_field? hcopy)
  have heq := inlineRefs_of_node hroot hfield hrefs
  generalize g.removeField root refsName = bare at *
  have hkept : ∀ a b, bare.Carries a b → g.expanded.Carries a b := fun a b hcarries =>
    hretains.carries (heq ▸ carries_inlineAll hbare hcarries)
  have hput : ∀ id name copy, bare.Awaits bare.Carries root refs id name →
      bare.field? refs name = some (.node copy) → g.expanded.Carries id copy := by
    rintro id name copy ⟨hreach, hawaits⟩ hcopy
    have hpoints := Relation.ReflTransGen.mono (fun _ _ => Carries.points) _ _ hreach
    exact hretains.carries (heq ▸ carries_of_awaits hbare ⟨hpoints, hawaits⟩ hcopy)
  have hdown : Relation.ReflTransGen g.expanded.Carries root copy :=
    .tail (Relation.ReflTransGen.mono hkept _ _ hreach) (hput id name copy ⟨hreach, htext, copy, hcopy⟩ hcopy)
  have haround : Relation.TransGen g.expanded.Carries copy copy := path_of_recalls hkept hput hcircle hcopy hcopy
  exact ⟨root, copy, hroot, Relation.ReflTransGen.mono (fun _ _ => Carries.points) _ _ hdown,
    Relation.TransGen.mono (fun _ _ => Carries.points) _ _ haround⟩

/-- Then the expanded graph cannot be written out. -/
theorem Tangled.not_written (hg : g.WellFormed) (h : g.Tangled Carries) (value : Json) :
    g.expanded.toJson? ≠ .ok value := by
  intro hwritten
  obtain ⟨root, id, hroot, hreach, hcycle⟩ := h.exists_cycle hg
  have hregroups := (regroups_inlineRefs hg).trans (regroups_unified g.inlineRefs)
  exact not_cyclic_of_toJson? (hregroups.wellFormed hg) (hregroups.root.trans hroot) hwritten hreach hcycle

/-- **Expansion closes a cycle where canonical copies recall one another in a circle, and nowhere else.** A graph of
which they do not is written out once it is expanded. One of which they do along fields is not: its root leads to a
cycle. -/
theorem expanded_iff_not_tangled (hg : g.WellFormed) (hacyclic : g.Acyclic) :
    (g.inlineRefs.Acyclic ↔ ¬g.Tangled Points) ∧
    (¬g.Tangled Points → g.expanded.Acyclic ∧ ∃ value, g.expanded.toJson? = .ok value) ∧
    (g.Tangled Carries → (∃ root id, g.root = .node root ∧ g.expanded.Reaches root id ∧
      Relation.TransGen g.expanded.Points id id) ∧ ∀ value, g.expanded.toJson? ≠ .ok value) := by
  have hwell := (regroups_inlineRefs hg).wellFormed hg
  have hinlined := hacyclic.inlineRefs_iff hg
  refine ⟨hinlined, fun huntangled => ?_, fun htangled => ⟨htangled.exists_cycle hg, htangled.not_written hg⟩⟩
  have hexpanded : g.expanded.Acyclic := (hinlined.mpr huntangled).unified
  obtain ⟨v, hv⟩ := hexpanded.exists_shows ((regroups_unified _).wellFormed hwell)
  obtain ⟨value, hvalue, -⟩ := hv.toJson?
  exact ⟨hexpanded, value, hvalue⟩

/-- The root leads to the copy of `b` past the other copies as well, and the copy recalls nothing. -/
theorem expanded_iff_not_tangled_shared :
    let shared : Graph := ⟨[.object [("id", .text "b"), ("a", .text "a")], .object [("b", .node 0)],
      .object [("$refs", .node 1), ("x", .node 0), ("b", .text "b")]], .node 2⟩
    shared.WellFormed ∧ shared.Acyclic ∧ ¬shared.Tangled Points ∧
      shared.expanded.Acyclic ∧ ∃ value, shared.expanded.toJson? = .ok value := by
  intro shared
  have hwell : shared.WellFormed := by decide
  have hacyclic : shared.Acyclic := acyclic_of_lt (by decide)
  have hinlined : shared.inlineRefs.Acyclic := acyclic_of_lt (by decide)
  obtain ⟨hiff, hwritten, -⟩ := expanded_iff_not_tangled hwell hacyclic
  have huntangled := hiff.mp hinlined
  exact ⟨hwell, hacyclic, huntangled, hwritten huntangled⟩

/-- The copy of `a` has the text `a` in a field of that name. The root leads to it past the copies too, so the copy is
put there and holds itself. -/
theorem expanded_cyclic_of_shared :
    let shared : Graph := ⟨[.object [("id", .text "a"), ("a", .text "a")], .object [("a", .node 0)],
      .object [("$refs", .node 1), ("x", .node 0)]], .node 2⟩
    shared.WellFormed ∧ shared.Acyclic ∧ (∃ root id, shared.root = .node root ∧ shared.expanded.Reaches root id ∧
      Relation.TransGen shared.expanded.Points id id) ∧ ∀ value, shared.expanded.toJson? ≠ .ok value := by
  intro shared
  have hwell : shared.WellFormed := by decide
  have hbelow : (shared.removeField 2 refsName).Carries 2 0 := ⟨"x", rfl⟩
  have hawaits : (shared.removeField 2 refsName).Awaits (shared.removeField 2 refsName).Carries 2 1 0 "a" :=
    ⟨.single hbelow, rfl, 0, rfl⟩
  have htangled : shared.Tangled Carries := ⟨2, 1, "a", rfl, rfl, .single ⟨0, 0, rfl, .refl, hawaits⟩⟩
  exact ⟨hwell, acyclic_of_lt (by decide), htangled.exists_cycle hwell, htangled.not_written hwell⟩

end Dossier.Graph
