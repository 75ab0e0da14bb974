import Dossier.Proofs.Graph.Expansion
import Dossier.Proofs.Graph.Join

/-!
What a merge goes on leading to. From every node a merged graph leads to the identities that it led to before, unless
the way there passes through an entity that is listed twice: of the elements of arrays that belong to entities two with
one identity count as one, and what only one of them led to is gone.
-/

namespace Dossier.Graph

variable {origin g next : Graph} {loose : Nat → String → Prop} {identity : String}

/-- An entity or another container is an element of an array that belongs to an entity. -/
def Listed (g : Graph) (child : Nat) : Prop := ∃ array, g.Owned array ∧ Slot.node child ∈ g.items array

/-- Another element of such an array has the identity of this one. -/
def Contested (g : Graph) (child : Nat) : Prop :=
  ∃ other identity, other ≠ child ∧ g.Listed other ∧ g.identity? child = some identity ∧
    g.identity? other = some identity

/-- A node leads to an object with the identity, through no loose field, and from no array that belongs to an entity to
a contested element. -/
inductive Bears (origin g : Graph) (loose : Nat → String → Prop) (identity : String) : Nat → Prop
  | here {id : Nat} : ¬loose id identityName → g.identity? id = some identity → Bears origin g loose identity id
  | field {id child : Nat} {name : String} : ¬loose id name → g.field? id name = some (.node child) →
      Bears origin g loose identity child → Bears origin g loose identity id
  | item {id child : Nat} : Slot.node child ∈ g.items id → (origin.Owned id → ¬origin.Contested child) →
      Bears origin g loose identity child → Bears origin g loose identity id

namespace Bears

/-- Whatever fields hold that are not loose, and whatever stands in arrays, is enough. -/
theorem mono {less : Nat → String → Prop} {id : Nat} (h : Bears origin g loose identity id)
    (hfields : ∀ id name slot, slot.truthy = true → ¬loose id name → g.field? id name = some slot →
      ¬less id name ∧ next.field? id name = some slot)
    (hitems : ∀ id child, Slot.node child ∈ g.items id → Slot.node child ∈ next.items id) :
    Bears origin next less identity id := by
  induction h with
  | here hfirm hidentity =>
      obtain ⟨hfield, htruthy⟩ := identity?_eq_some_iff.mp hidentity
      obtain ⟨hfirm', hfield'⟩ := hfields _ _ _ htruthy hfirm hfield
      exact .here hfirm' (identity?_eq_some_iff.mpr ⟨hfield', htruthy⟩)
  | field hfirm hfield _ ih =>
      obtain ⟨hfirm', hfield'⟩ := hfields _ _ _ rfl hfirm hfield
      exact .field hfirm' hfield' ih
  | item hitem hfree _ ih => exact .item (hitems _ _ hitem) hfree ih

theorem lt_length {id : Nat} (h : Bears origin g loose identity id) : id < g.nodes.length := by
  have hnone : ¬id < g.nodes.length → g.nodes[id]? = none := fun hge => List.getElem?_eq_none (Nat.not_lt.mp hge)
  by_contra hge
  have hfield : ∀ name, g.field? id name = none := fun name => by
    rw [field?, fields, hnone hge]
    rfl
  cases h with
  | here _ hidentity => rw [identity?, hfield] at hidentity; cases hidentity
  | field _ hchild _ => rw [hfield] at hchild; cases hchild
  | item hitem _ _ => rw [items, hnone hge] at hitem; cases hitem

/-- What leads to an object with the identity reaches one. -/
theorem exists_reached {id : Nat} (h : Bears origin g loose identity id) :
    ∃ object, g.Reaches id object ∧ g.identity? object = some identity := by
  induction h with
  | here _ hidentity => exact ⟨_, .refl, hidentity⟩
  | field _ hfield _ ih =>
      obtain ⟨object, hreach, hidentity⟩ := ih
      exact ⟨object, .head (Carries.points ⟨_, hfield⟩) hreach, hidentity⟩
  | item hitem _ _ ih =>
      obtain ⟨object, hreach, hidentity⟩ := ih
      exact ⟨object, .head (points_iff.mpr (.inr hitem)) hreach, hidentity⟩

end Bears

/-! ### Nodes that show the same -/

namespace Endowed

variable (h : Endowed origin g) (hunshared : origin.Unshared)

include h hunshared

theorem not_owned_item {array child : Nat} (hitem : Slot.node child ∈ g.items array)
    (hnone : g.identity? child = none) : ¬origin.Owned child := by
  rw [h.owned_item_iff hunshared hitem, hnone]
  exact Bool.false_ne_true

/-- A rival of an element is one of another element with its identity, or it is that other, which is listed too. -/
theorem not_contested_twin {container other child twin : Nat} (hitem : Slot.node child ∈ g.items container)
    (htwin : Slot.node twin ∈ g.items other) (howned : origin.Owned other)
    (hsame : g.identity? child = g.identity? twin) (hclear : ¬origin.Contested child) : ¬origin.Contested twin := by
  rintro ⟨rival, text, hne, hlisted, htext, hrival⟩
  have hchildText : origin.identity? child = some text := by
    rw [← h.identity?_item hunshared hitem, hsame, h.identity?_item hunshared htwin, htext]
  by_cases hself : rival = child
  · exact hclear ⟨twin, text, hself ▸ hne.symm, h.listed other _ howned htwin, hchildText, htext⟩
  · exact hclear ⟨rival, text, hself, hlisted, hchildText, hrival⟩

end Endowed

/-- Nodes that show one value, and belong to entities or do not, lead to the same identities. -/
theorem Bears.transfer (hendowed : Endowed origin g) (hunshared : origin.Unshared)
    (hplain : ∀ id position w, g.slotAt? id position = some (.value w) → w.isContainer = false) {id : Nat}
    (h : Bears origin g loose identity id) {other : Nat} {v : Json} (hid : g.Shows (.node id) v)
    (hother : g.Shows (.node other) v) (howned : origin.Owned id ↔ origin.Owned other)
    (hfirm : ∀ below, g.Reaches other below → ∀ name, ¬loose below name) : Bears origin g loose identity other := by
  induction h generalizing other v with
  | here _ hidentity =>
      refine .here (hfirm other .refl _) ?_
      rw [← hother.identity, hid.identity, hidentity]
  | @field id child name _ hfield _ ih =>
      obtain ⟨members, rfl⟩ := exists_members_of_shows hid (isObject_of_mem_fields (mem_of_field? hfield))
      obtain ⟨hsome, hshown⟩ := hid.field name
      obtain ⟨hsome', hshown'⟩ := hother.field name
      obtain ⟨value, hvalue⟩ := exists_of_isSome_eq hsome hfield
      obtain ⟨slot, hslot⟩ := exists_of_isSome_eq hsome'.symm hvalue
      have hchild := hshown _ value hfield hvalue
      have hslotShows := hshown' slot value hslot hvalue
      obtain ⟨twin, rfl⟩ := exists_node_of_field hplain hslot hslotShows hchild.isContainer
      have hcarries : g.Carries other twin := ⟨name, hslot⟩
      refine .field (hfirm other .refl name) hslot (ih hchild hslotShows ?_ fun below hreach =>
        hfirm below (.head hcarries.points hreach))
      by_cases hentity : origin.Owned id
      · exact iff_of_true (hendowed.closed id child hentity ⟨name, hfield⟩)
          (hendowed.closed other twin (howned.mp hentity) hcarries)
      · rw [hendowed.owned_field_iff hunshared hentity ⟨name, hfield⟩,
          hendowed.owned_field_iff hunshared (fun h => hentity (howned.mpr h)) hcarries, ← hchild.identity,
          hslotShows.identity]
  | @item id child hitem hfree _ ih =>
      obtain ⟨k, hk⟩ := exists_index_of_mem_items hitem
      obtain ⟨values, rfl⟩ := exists_values_of_shows hid (isArray_of_mem_items hitem)
      obtain ⟨hsome, hshown⟩ := hid.item k
      obtain ⟨hsome', hshown'⟩ := hother.item k
      obtain ⟨value, hvalue⟩ := exists_of_isSome_eq hsome hk
      obtain ⟨slot, hslot⟩ := exists_of_isSome_eq hsome'.symm hvalue
      have hchild := hshown _ value hk hvalue
      have hslotShows := hshown' slot value hslot hvalue
      obtain ⟨twin, rfl⟩ := exists_node_of_shows (fun w hw => hplain other _ w (hw ▸ hslot)) hslotShows
        hchild.isContainer
      have htwin : Slot.node twin ∈ g.items other := mem_items_of_slotAt? hslot
      have hsame : origin.Owned child ↔ origin.Owned twin := by
        rw [hendowed.owned_item_iff hunshared hitem, hendowed.owned_item_iff hunshared htwin, ← hchild.identity,
          hslotShows.identity]
      refine .item htwin (fun hentity => ?_) (ih hchild hslotShows hsame fun below hreach =>
        hfirm below (.head (points_iff.mpr (.inr htwin)) hreach))
      exact hendowed.not_contested_twin hunshared hitem htwin hentity
        (hchild.identity.symm.trans hslotShows.identity) (hfree (howned.mpr hentity))

/-! ### Joined arrays -/

/-- Elements that count as one are one, or have one identity, or have none and show the same. -/
theorem sameElement_cases (hg : g.WellFormed) {child : Nat} {w : Json} (hw : g.Shows (.node child) w) {kept : Slot}
    (h : g.sameElement kept (.node child) = true) : ∃ twin, kept = .node twin ∧
      (twin = child ∨ (∃ text, g.identity? twin = some text ∧ g.identity? child = some text) ∨
        g.identity? twin = none ∧ g.Shows (.node twin) w) := by
  cases kept with
  | value value => cases h
  | node twin =>
      refine ⟨twin, rfl, ?_⟩
      rw [sameElement] at h
      rcases Bool.or_eq_true_iff.mp h with hself | hsame
      · exact .inl (beq_iff_eq.mp hself)
      · refine .inr ?_
        cases hidentity : g.identity? twin with
        | some text =>
            cases hother : g.identity? child with
            | some other =>
                rw [hidentity, hother] at hsame
                obtain rfl := beq_iff_eq.mp hsame
                exact .inl ⟨text, rfl, rfl⟩
            | none =>
                rw [hidentity, hother] at hsame
                cases hsame
        | none =>
            cases hother : g.identity? child with
            | some other =>
                rw [hidentity, hother] at hsame
                cases hsame
            | none =>
                rw [hidentity, hother] at hsame
                dsimp only at hsame
                obtain ⟨value, hvalue, rfl⟩ := hw.nodeJson?
                rw [hvalue] at hsame
                split at hsame
                · rename_i shown other hshown hother
                  cases hother
                  rw [← Json.same_iff.mp hsame]
                  exact .inr ⟨rfl, shows_of_slotJson hg hshown⟩
                · cases hsame

section

variable (hacyclic : g.Acyclic) {x y : Nat} (hx : g.isArray x = true)

include hacyclic hx

/-- What stands in one array and is too small to lead to another does not lead there when the array has got more. -/
theorem not_reaches_adoptItems {v w : Json} (hv : g.Shows (.node y) v) {twin : Nat} (htwin : Slot.node twin ∈ g.items x)
    (hw : g.Shows (.node twin) w) (hlt : sizeOf w < sizeOf v) :
    ¬(g.adoptItems x (g.joinedItems x y)).Reaches twin y := by
  have hkept : Slot.node twin ∈ (g.adoptItems x (g.joinedItems x y)).items x :=
    (node_mem_adoptItems_iff hx).mpr ⟨(prefix_joinedItems g x y).subset htwin, .inl htwin⟩
  have hnext := hacyclic.adoptItems hx (g.joinedItems x y)
  -- a way from the element never passes the array that it stands in
  have hold : ∀ {b}, (g.adoptItems x (g.joinedItems x y)).Reaches twin b → g.Reaches twin b := by
    intro b hreach
    induction hreach with
    | refl => exact .refl
    | @tail c b hbefore hstep ih =>
        have hne : c ≠ x := by
          rintro rfl
          exact hnext c (.head' (points_iff.mpr (.inr hkept)) hbefore)
        refine ih.tail ?_
        rw [points_iff, adoptItems, fields_setArray hx, items_setArray hx, if_neg hne] at hstep
        exact points_iff.mpr hstep
  intro hreach
  obtain ⟨u, hu, hpart⟩ := hw.of_reaches (hold hreach)
  rw [hv.unique hu] at hlt
  exact absurd (Json.sizeOf_part_le hpart) (Nat.not_le_of_lt hlt)

/-- Both arrays keep their elements but for some of the second, in place of which they have elements with the same
identity, or elements without one that show the same. -/
theorem exists_item_joined (hg : g.WellFormed) (hy : g.isArray y = true) (hxy : x ≠ y) {id child : Nat}
    (hitem : Slot.node child ∈ g.items id) {v w : Json} (hv : g.Shows (.node id) v) (hw : g.Shows (.node child) w)
    (hlt : sizeOf w < sizeOf v) :
    Slot.node child ∈ ((g.adoptItems x (g.joinedItems x y)).adoptItems y (g.joinedItems x y)).items id ∨
      id = y ∧ ∃ twin, (Slot.node twin ∈ g.items x ∨ Slot.node twin ∈ g.items y) ∧
        ((twin ≠ child ∧ ∃ text, g.identity? twin = some text ∧ g.identity? child = some text) ∨
          g.identity? twin = none ∧ g.Shows (.node twin) w ∧
            Slot.node twin ∈ ((g.adoptItems x (g.joinedItems x y)).adoptItems y (g.joinedItems x y)).items y) := by
  have hy' := isArray_adoptItems hx (g.joinedItems x y) hy
  have hitems : (g.adoptItems x (g.joinedItems x y)).items y = g.items y := items_adoptItems_of_ne hx _ (Ne.symm hxy)
  by_cases hid : id = y
  · subst hid
    obtain ⟨kept, hkept, hsame⟩ := exists_same_of_mem_items (x := x) hitem
    obtain ⟨twin, rfl, hcases⟩ := sameElement_cases hg hw hsame
    by_cases hself : twin = child
    · subst hself
      exact .inl ((node_mem_adoptItems_iff hy').mpr ⟨hkept, .inl (hitems ▸ hitem)⟩)
    · refine .inr ⟨rfl, twin, mem_joinedItems hkept, ?_⟩
      rcases hcases with heq | htexts | ⟨hnone, hshows⟩
      · exact absurd heq hself
      · exact .inl ⟨hself, htexts⟩
      · refine .inr ⟨hnone, hshows, (node_mem_adoptItems_iff hy').mpr ⟨hkept, ?_⟩⟩
        rw [hitems]
        exact (mem_joinedItems hkept).symm.imp_right fun hfirst =>
          not_reaches_adoptItems hacyclic hx hv hfirst hshows hlt
  · refine .inl ?_
    rw [items_adoptItems_of_ne hy' _ hid]
    by_cases hself : id = x
    · subst hself
      exact (node_mem_adoptItems_iff hx).mpr ⟨(prefix_joinedItems g id y).subset hitem, .inl hitem⟩
    · rwa [items_adoptItems_of_ne hx _ hself]

end

/-- A node of a graph without cycles shows a value. -/
theorem Acyclic.exists_shows_node (h : g.Acyclic) (hg : g.WellFormed) {id : Nat} (hid : id < g.nodes.length) :
    ∃ v, g.Shows (.node id) v := by
  have hwell : ({ g with root := .node id } : Graph).WellFormed := ⟨Slot.within_node hid, hg.nodes⟩
  have hfree : ({ g with root := .node id } : Graph).Acyclic := h
  obtain ⟨v, hv⟩ := hfree.exists_shows hwell
  have hkept : ∀ (other : Nat) (node : Node), ({ g with root := .node id } : Graph).nodes[other]? = some node →
      g.nodes[other]? = some node := fun _ _ hnode => hnode
  exact ⟨v, hv.extend hkept⟩

/-- The graph of a document, of which a merge makes others. -/
structure Source (origin : Graph) : Prop where
  wellFormed : origin.WellFormed
  unshared : origin.Unshared
  native : ∃ whole, origin.Native whole

namespace Endowed

variable (h : Endowed origin g) (horigin : origin.Source)

include h horigin

theorem wellFormed : g.WellFormed := h.regroups.wellFormed horigin.wellFormed

theorem plain {id : Nat} {position : Position} {w : Json} (hslot : g.slotAt? id position = some (.value w)) :
    w.isContainer = false := by
  obtain ⟨whole, hnative⟩ := horigin.native
  exact (h.regroups.native hnative).plain hslot

omit h horigin in
/-- Below what shows less than a node no field is loose, if loose fields lead to that node. -/
theorem firm_of_smaller {top node : Nat} {v w : Json} (hloose : ∀ id name, loose id name → g.Reaches id top)
    (hv : g.Shows (.node top) v) (hw : g.Shows (.node node) w) (hlt : sizeOf w < sizeOf v) :
    ∀ below, g.Reaches node below → ∀ name, ¬loose below name := by
  intro below hreach name hname
  obtain ⟨u, hu, hpart⟩ := hw.of_reaches (hreach.trans (hloose below name hname))
  rw [hv.unique hu] at hlt
  exact absurd (Json.sizeOf_part_le hpart) (Nat.not_le_of_lt hlt)

/-- Joining two arrays that belong to entities leaves no identity out, as long as no loose field is below the second. -/
theorem bears_joined {x y : Nat} (hx : g.isArray x = true) (hy : g.isArray y = true) (hxy : x ≠ y)
    (hxowned : origin.Owned x) (hyowned : origin.Owned y) (hloose : ∀ id name, loose id name → g.Reaches id y)
    {id : Nat} (hbears : Bears origin g loose identity id) : Bears origin
      ((g.adoptItems x (g.joinedItems x y)).adoptItems y (g.joinedItems x y)) loose identity id := by
  have hg := h.wellFormed horigin
  have hunshared := horigin.unshared
  have hfields : ∀ id name, ((g.adoptItems x (g.joinedItems x y)).adoptItems y (g.joinedItems x y)).field? id name =
      g.field? id name := fun id name => by
    rw [field?, Graph.adoptItems, fields_setArray (isArray_adoptItems hx _ hy), Graph.adoptItems,
      fields_setArray hx, field?]
  -- by the size of what is shown, since an element may make way for another that shows the same
  obtain ⟨v, hv⟩ := h.acyclic.exists_shows_node hg hbears.lt_length
  induction hsize : sizeOf v using Nat.strong_induction_on generalizing id v with
  | _ size ih =>
      subst hsize
      cases hbears with
      | here hfirm hidentity =>
          refine .here hfirm ?_
          rwa [identity?, hfields, ← identity?]
      | @field _ child name hfirm hfield hchild =>
          obtain ⟨w, hw, -, hlt⟩ := hv.of_points (Carries.points ⟨name, hfield⟩)
          exact .field hfirm ((hfields id name).trans hfield) (ih _ hlt hchild w hw rfl)
      | @item _ child hitem hfree hchild =>
          obtain ⟨w, hw, -, hlt⟩ := hv.of_points (points_iff.mpr (.inr hitem))
          rcases exists_item_joined h.acyclic hx hg hy hxy hitem hv hw hlt with
            hkept | ⟨rfl, twin, hsource, ⟨hne, text, htwinText, htext⟩ | ⟨hnone, hshows, htwin⟩⟩
          · exact .item hkept hfree (ih _ hlt hchild w hw rfl)
          · -- the other element contests this one
            have hlisted : origin.Listed twin := hsource.elim (h.listed x _ hxowned) (h.listed id _ hyowned)
            have hsame : g.identity? twin = origin.identity? twin :=
              hsource.elim (h.identity?_item hunshared) (h.identity?_item hunshared)
            refine absurd ⟨twin, text, hne, hlisted, ?_, ?_⟩ (hfree hyowned)
            · rw [← h.identity?_item hunshared hitem, htext]
            · rw [← hsame, htwinText]
          · -- the other element shows the same, and leads to the identity too
            have hapart : ¬origin.Owned twin := hsource.elim (fun hmem => h.not_owned_item hunshared hmem hnone)
              fun hmem => h.not_owned_item hunshared hmem hnone
            have hchildNone : g.identity? child = none := by rw [← hw.identity, hshows.identity, hnone]
            have hmoved := hchild.transfer h hunshared (fun _ _ _ => h.plain horigin) hw hshows
              (iff_of_false (h.not_owned_item hunshared hitem hchildNone) hapart) (firm_of_smaller hloose hv hshows hlt)
            refine .item htwin (fun _ => ?_) (ih _ hlt hmoved w hshows rfl)
            rintro ⟨rival, text, -, -, htext, -⟩
            exact hapart (.entity (htext ▸ rfl))

end Endowed

end Dossier.Graph
