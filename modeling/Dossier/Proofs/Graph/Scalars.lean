import Dossier.Proofs.Graph.Filling
import Dossier.Proofs.Graph.Idempotent

/-!
Plain values in merged copies. At one key a union makes of two slots what holds something of the two, if one does;
so two passes leave every copy its own value, unless that is nothing and some copy has something. Main statement:
**`mergeValues_settles`**, which tells the value of each copy at a key where no copy holds a container.
-/

namespace Dossier

/-! ### Two values and many -/

section

variable {α : Type} (full : α → Bool)

/-- The first of the two, unless it is nothing and the second is something. -/
def filled : Option α → Option α → Option α
  | none, other => other
  | some own, none => some own
  | some own, some other => if !full own && full other then some other else some own

/-- What stands for all of them: the first that is something, or else the first. -/
def preferred (row : List α) : Option α := (row.find? full).or row.head?

variable {full}

theorem filled_none (x : Option α) : filled full x none = x := by cases x <;> rfl

theorem filled_self (x : Option α) : filled full x x = x := by
  cases x with
  | none => rfl
  | some a => cases h : full a <;> simp [filled, h]

theorem filled_assoc (x y z : Option α) : filled full (filled full x y) z = filled full x (filled full y z) := by
  cases x with
  | none => rfl
  | some a =>
      cases y with
      | none => rfl
      | some b =>
          cases z with
          | none => rw [filled_none, filled_none]
          | some c => cases ha : full a <;> cases hb : full b <;> cases hc : full c <;> simp [filled, ha, hb, hc]

/-- What has come before makes no difference after. -/
theorem filled_again (x y : Option α) : filled full (filled full x y) x = filled full x y := by
  cases x with
  | none => exact filled_none y
  | some a =>
      cases y with
      | none => exact filled_self (some a)
      | some b => cases ha : full a <;> cases hb : full b <;> simp [filled, ha, hb]

theorem filled_eq_or (x y : Option α) : filled full x y = x ∨ filled full x y = y := by
  match x, y with
  | none, y => exact .inr rfl
  | some a, none => exact .inl rfl
  | some a, some b =>
      rw [filled]
      split
      · exact .inr rfl
      · exact .inl rfl

theorem filled_eq_none_iff {x y : Option α} : filled full x y = none ↔ x = none ∧ y = none := by
  cases x <;> cases y <;> simp [filled]
  split <;> simp

theorem preferred_eq_none_iff {row : List α} : preferred full row = none ↔ row = [] := by
  rw [preferred, Option.or_eq_none_iff, List.head?_eq_none_iff]
  refine and_iff_right_of_imp ?_
  rintro rfl
  rfl

theorem preferred_cons (a : α) (row : List α) :
    preferred full (a :: row) = filled full (some a) (preferred full row) := by
  cases ha : full a with
  | true => cases h : preferred full row <;> simp [preferred, filled, ha]
  | false =>
      cases hfind : row.find? full with
      | some found =>
          have hfound : full found = true := List.find?_some hfind
          simp [preferred, filled, ha, hfind, hfound]
      | none =>
          cases row with
          | nil => simp [preferred, filled, ha]
          | cons b rest =>
              have hb : full b = false := by simpa using List.find?_eq_none.mp hfind b List.mem_cons_self
              simp [preferred, filled, ha, hfind, hb]

end

namespace Graph

variable {g middle : Graph} {key : String}

/-! ### A union at one key -/

/-- No slot leads to the node. -/
def Free (g : Graph) (id : Nat) : Prop := ∀ source, ¬g.Points source id

/-- What two nodes make of their slots, among those of all nodes. -/
def exchange (a b : Nat) (row : Nat → Option Slot) (id : Nat) : Option Slot :=
  if id = a then filled Slot.truthy (row a) (row b)
  else if id = b then filled Slot.truthy (row b) (row a)
  else row id

/-- Below fields and elements a union leaves alone what no slot leads to. -/
theorem getElem?_unite_free (hg : g.WellFormed) (hregroups : Regroups g middle) (depth : Nat)
    (active : List (Nat × Nat)) {x y : Nat} (hx : ¬g.Free x) (hy : ¬g.Free y) {id : Nat} (hid : g.Free id) :
    (unite depth active x y middle).nodes[id]? = middle.nodes[id]? := by
  have hfree : ∀ id, (∃ source, g.Points source id) ↔ ¬g.Free id := fun id => by
    rw [Free, not_forall_not]
  have hclosed : ∀ a b, ¬g.Free a → middle.Points a b → ¬g.Free b := fun a b _ hpoints =>
    (hfree b).mp (hregroups.exists_points hpoints)
  have hfills := (survives_fills (hregroups.wellFormed hg) fun id => ¬g.Free id).unite depth active (.refl middle)
    (.refl hclosed) hx hy
  exact hfills.outside id (not_not_intro hid)

theorem field?_adopt_other (g : Graph) (target : Nat) {name : String} (hname : name ≠ key) (slot : Slot) (id : Nat) :
    (g.adopt target name slot).field? id key = g.field? id key := by
  rcases g.field?_adopt target name slot id key with hsame | ⟨-, hkey, -⟩
  · exact hsame
  · exact absurd hkey.symm hname

/-- A plain slot is always adopted. -/
theorem field?_adopt_plain {g : Graph} {target : Nat} (hobject : g.isObject target = true) {slot : Slot}
    (hslot : slot.target? = none) (id : Nat) :
    (g.adopt target key slot).field? id key = if id = target then some slot else g.field? id key := by
  cases slot with
  | node id => cases hslot
  | value value =>
      have hadopt : g.adopt target key (.value value) = g.setField target key (.value value) :=
        if_neg Bool.false_ne_true
      rw [hadopt, field?_setField hobject]
      by_cases hid : id = target
      · rw [if_pos ⟨hid, rfl⟩, if_pos hid]
      · rw [if_neg fun h => hid h.1, if_neg hid]

section

variable {unite : Nat → Nat → Graph → Graph}
  (hunite : ∀ x y middle, Regroups g middle → ¬g.Free x → ¬g.Free y → ∀ id, g.Free id →
    (unite x y middle).nodes[id]? = middle.nodes[id]?)

include hunite

theorem field?_settle_other (hregroups : Regroups g middle) {a b : Nat} {name : String} (hname : name ≠ key)
    {left right : Slot} (hleft : ∃ source, (name, left) ∈ g.fields source)
    (hright : ∃ source, (name, right) ∈ g.fields source) {id : Nat} (hid : g.Free id) :
    (middle.settle unite a b name left right).field? id key = middle.field? id key := by
  have hbelow : ∀ {target}, (∃ source, (name, Slot.node target) ∈ g.fields source) → ¬g.Free target :=
    fun ⟨source, hsource⟩ hfree => hfree source (points_iff.mpr (.inl ⟨name, hsource⟩))
  unfold settle
  split
  · exact middle.field?_adopt_other a hname right id
  · exact middle.field?_adopt_other b hname left id
  · rfl
  · split
    · rename_i x y _ _
      split
      · rename_i harrays
        obtain ⟨hx, hy⟩ := Bool.and_eq_true_iff.mp harrays
        have hy' := isArray_adoptItems hx (middle.joinedItems x y) hy
        rw [adoptItems, field?, fields_setArray hy', adoptItems, fields_setArray hx, field?]
      · split
        · split
          · rw [field?, fields, hunite x y middle hregroups (hbelow hleft) (hbelow hright) id hid, field?, fields]
          · rfl
        · rfl
    · rfl

/-- A field of another name leaves the key alone. -/
theorem field?_offer_other (hregroups : Regroups g middle) {a b : Nat} {field : String × Slot}
    (hfield : ∃ source, field ∈ g.fields source) (hname : field.1 ≠ key) {id : Nat} (hid : g.Free id) :
    (middle.offer unite a b field).field? id key = middle.field? id key := by
  unfold offer
  split
  · exact middle.field?_adopt_other a hname field.2 id
  · rename_i existing hexisting
    split
    · rfl
    · exact field?_settle_other hunite hregroups hname (hregroups.fields a _ (mem_of_field? hexisting)) hfield hid

end

theorem field?_complete_other (middle : Graph) (b : Nat) {field : String × Slot} (hname : field.1 ≠ key) (id : Nat) :
    (complete b middle field).field? id key = middle.field? id key := by
  unfold complete
  split
  · exact middle.field?_adopt_other b hname field.2 id
  · rfl

section

variable {a b : Nat} {row : Nat → Option Slot}

theorem exchange_of_kept (ha : filled Slot.truthy (row a) (row b) = row a)
    (hb : filled Slot.truthy (row b) (row a) = row b) (id : Nat) : exchange a b row id = row id := by
  unfold exchange
  split
  · rename_i hid
    rw [hid, ha]
  · split
    · rename_i hid
      rw [hid, hb]
    · rfl

theorem exchange_of_taken (ha : filled Slot.truthy (row a) (row b) = row b)
    (hb : filled Slot.truthy (row b) (row a) = row b) (id : Nat) :
    exchange a b row id = if id = a then row b else row id := by
  unfold exchange
  rw [ha, hb]
  split
  · rfl
  · split
    · rename_i hid
      rw [hid]
    · rfl

theorem exchange_of_given (ha : filled Slot.truthy (row a) (row b) = row a)
    (hb : filled Slot.truthy (row b) (row a) = row a) (id : Nat) :
    exchange a b row id = if id = b then row a else row id := by
  unfold exchange
  rw [ha, hb]
  split
  · rename_i hid
    rw [hid, ite_self]
  · rfl

theorem exchange_congr {other : Nat → Option Slot} {id : Nat} (ha : row a = other a) (hb : row b = other b)
    (hid : row id = other id) : exchange a b row id = exchange a b other id := by
  rw [exchange, exchange, ha, hb, hid]

/-- The field of the key is settled between the two. -/
theorem field?_offer_key (unite : Nat → Nat → Graph → Graph) (ha : middle.isObject a = true)
    (hb : middle.isObject b = true) {right : Slot} (hright : middle.field? b key = some right)
    (hplain : ∀ id slot, id = a ∨ id = b → middle.field? id key = some slot → slot.target? = none) (id : Nat) :
    (middle.offer unite a b (key, right)).field? id key = exchange a b (middle.field? · key) id := by
  have htakes : (middle.adopt a key right).field? id key = if id = a then some right else middle.field? id key :=
    field?_adopt_plain ha (hplain b right (.inr rfl) hright) id
  unfold offer
  cases hleft : middle.field? a key with
  | none =>
      rw [exchange_of_taken (by simp [filled, hleft]) (by simp [filled, hleft, hright]), hright]
      exact htakes
  | some left =>
      have hgives : (middle.adopt b key left).field? id key = if id = b then some left else middle.field? id key :=
        field?_adopt_plain hb (hplain a left (.inl rfl) hleft) id
      dsimp only
      split
      · rename_i hsame
        have htruthy := truthy_of_same hsame
        rw [exchange_of_kept (by simp [filled, hleft, hright, htruthy]) (by simp [filled, hleft, hright, htruthy])]
      · unfold settle
        split
        · rename_i hl hr
          rw [exchange_of_taken (by simp [filled, hleft, hright, hl, hr]) (by simp [filled, hleft, hright, hl, hr]),
            htakes, hright]
        · rename_i hl hr
          rw [exchange_of_given (by simp [filled, hleft, hright, hl, hr]) (by simp [filled, hleft, hright, hl, hr]),
            hgives, hleft]
        · rename_i hl hr
          rw [exchange_of_kept (by simp [filled, hleft, hright, hl, hr]) (by simp [filled, hleft, hright, hl, hr])]
        · rename_i hl hr
          rw [exchange_of_kept (by simp [filled, hleft, hright, hl, hr]) (by simp [filled, hleft, hright, hl, hr])]
          split
          · cases hplain a _ (.inl rfl) hleft
          · rfl

theorem field?_complete_key (hb : middle.isObject b = true) {slot : Slot} (hslot : slot.target? = none) (id : Nat) :
    (complete b middle (key, slot)).field? id key =
      if id = b then (middle.field? b key).or (some slot) else middle.field? id key := by
  unfold complete
  cases hown : middle.field? b key with
  | none => exact field?_adopt_plain hb hslot id
  | some own =>
      dsimp only
      rw [Option.isNone_some, if_neg Bool.false_ne_true, Option.some_or]
      split
      · rename_i hid
        rw [hid, hown]
      · rfl

end

/-- Of steps for fields of different names, only one is about the key. -/
theorem foldl_fields (key : String) (step : Graph → String × Slot → Graph) {motive : Graph → Prop}
    {l : List (String × Slot)} (hnames : (l.map Prod.fst).Nodup)
    (hstep : ∀ field ∈ l, ∀ middle, motive middle → motive (step middle field))
    (hother : ∀ field ∈ l, field.1 ≠ key → ∀ middle, motive middle → ∀ id, g.Free id →
      (step middle field).field? id key = middle.field? id key) {start : Graph} (hstart : motive start) :
    motive (l.foldl step start) ∧
      ((Node.find? l key = none ∧ ∀ id, g.Free id → (l.foldl step start).field? id key = start.field? id key) ∨
        ∃ slot middle, Node.find? l key = some slot ∧ motive middle ∧
          (∀ id, g.Free id → middle.field? id key = start.field? id key) ∧
          ∀ id, g.Free id → (l.foldl step start).field? id key = (step middle (key, slot)).field? id key) := by
  induction l generalizing start with
  | nil => exact ⟨hstart, .inl ⟨rfl, fun _ _ => rfl⟩⟩
  | cons field rest ih =>
      obtain ⟨name, slot⟩ := field
      rw [List.map_cons, List.nodup_cons] at hnames
      have hfirst := hstep _ List.mem_cons_self start hstart
      obtain ⟨hrest, hcase⟩ := ih hnames.2 (fun field hfield => hstep field (List.mem_cons_of_mem _ hfield))
        (fun field hfield => hother field (List.mem_cons_of_mem _ hfield)) hfirst
      refine ⟨hrest, ?_⟩
      by_cases hname : name = key
      · subst hname
        refine .inr ⟨slot, start, by rw [Node.find?, if_pos rfl], hstart, fun _ _ => rfl, fun id hid => ?_⟩
        rcases hcase with ⟨-, hsame⟩ | ⟨slot', -, hfind, -⟩
        · exact hsame id hid
        · exact absurd (List.mem_map_of_mem (f := Prod.fst) (Node.mem_of_find? hfind)) hnames.1
      · have hskip := hother _ List.mem_cons_self hname start hstart
        rw [Node.find?, if_neg hname]
        rcases hcase with ⟨hnone, hsame⟩ | ⟨slot', middle, hfind, hmiddle, hsame, hlast⟩
        · exact .inl ⟨hnone, fun id hid => (hsame id hid).trans (hskip id hid)⟩
        · exact .inr ⟨slot', middle, hfind, hmiddle, fun id hid => (hsame id hid).trans (hskip id hid), hlast⟩

section

variable (hg : g.WellFormed) {a b : Nat} (ha : g.isObject a = true) (hb : g.isObject b = true) (hfa : g.Free a)
  (hfb : g.Free b) (hplain : ∀ id slot, id = a ∨ id = b → g.field? id key = some slot → slot.target? = none)

include hg ha hb hfa hfb hplain

/-- What the second object has at the key is settled, if it has something there. -/
theorem field?_offered (depth : Nat) :
    let offered := (g.fields b).foldl (offer (unite depth [(a, b)]) a b) g
    Regroups g offered ∧
      ((g.field? b key = none ∧ ∀ id, g.Free id → offered.field? id key = g.field? id key) ∨
        ∃ right, g.field? b key = some right ∧
          ∀ id, g.Free id → offered.field? id key = exchange a b (g.field? · key) id) := by
  have hunite : ∀ x y middle, Regroups g middle → ¬g.Free x → ¬g.Free y → ∀ id, g.Free id →
      (unite depth [(a, b)] x y middle).nodes[id]? = middle.nodes[id]? := fun x y middle hmiddle hx hy id hid =>
    getElem?_unite_free hg hmiddle depth _ hx hy hid
  obtain ⟨hregroups, hcase⟩ := foldl_fields key (offer (unite depth [(a, b)]) a b) ((wellFormed_iff.mp hg).2.1 b)
    (fun field hfield middle hmiddle => Regroups.offer (regroups_unite depth _) hmiddle ⟨b, hfield⟩)
    (fun field hfield hname middle hmiddle id hid => field?_offer_other hunite hmiddle ⟨b, hfield⟩ hname hid) (.refl g)
  refine ⟨hregroups, hcase.imp_right ?_⟩
  rintro ⟨right, middle, hright, hmiddle, hsame, hlast⟩
  refine ⟨right, hright, fun id hid => (hlast id hid).trans ?_⟩
  rw [field?_offer_key _ (hmiddle.isObject a ▸ ha) (hmiddle.isObject b ▸ hb) ((hsame b hfb).trans hright)]
  · exact exchange_congr (hsame a hfa) (hsame b hfb) (hsame id hid)
  · rintro other slot (rfl | rfl) hslot
    · exact hplain other slot (.inl rfl) ((hsame other hfa).symm.trans hslot)
    · exact hplain other slot (.inr rfl) ((hsame other hfb).symm.trans hslot)

/-- A union settles a key between two objects that no slot leads to, and leaves it alone in all others. -/
theorem field?_union (hne : a ≠ b) {id : Nat} (hid : g.Free id) :
    (g.union a b).field? id key = exchange a b (g.field? · key) id := by
  have hactive : (a == b || !g.isObject a || !g.isObject b || ([] : List (Nat × Nat)).contains (a, b)) = false := by
    rw [ha, hb, beq_eq_false_iff_ne.mpr hne]
    rfl
  rw [union, unite, hactive, if_neg Bool.false_ne_true]
  dsimp only
  obtain ⟨hregroups, hoffered⟩ := field?_offered hg ha hb hfa hfb hplain (g.objectCount * g.objectCount)
  generalize (g.fields b).foldl (offer _ a b) g = offered at *
  obtain ⟨-, hcase⟩ := foldl_fields key (complete b) (motive := Regroups offered)
    (hregroups.names (wellFormed_iff.mp hg).2.1 a)
    (fun field hfield middle hmiddle => hmiddle.complete ⟨a, hfield⟩ b)
    (fun field hfield hname middle hmiddle id hid => field?_complete_other middle b hname id) (.refl offered)
  rcases hcase with ⟨hnone, hsame⟩ | ⟨slot, middle, hslot, hmiddle, hsame, hlast⟩
  · rw [hsame id hid]
    rcases hoffered with ⟨hright, hrow⟩ | ⟨right, hright, hrow⟩
    · have hleft : g.field? a key = none := (hrow a hfa).symm.trans hnone
      rw [hrow id hid, exchange_of_kept (by simp [hleft, hright, filled]) (by simp [hleft, hright, filled])]
    · exact hrow id hid
  · have hslotPlain : slot.target? = none := by
      rcases hoffered with ⟨-, hrow⟩ | ⟨-, -, hrow⟩
      · exact hplain a slot (.inl rfl) ((hrow a hfa).symm.trans hslot)
      · have hrow := (hrow a hfa).symm.trans hslot
        rw [exchange, if_pos rfl] at hrow
        rcases filled_eq_or (g.field? a key) (g.field? b key) with hown | hother
        · exact hplain a slot (.inl rfl) (hown.symm.trans hrow)
        · exact hplain b slot (.inr rfl) (hother.symm.trans hrow)
    have hbmiddle : middle.isObject b = true := (hmiddle.isObject b).trans ((hregroups.isObject b).trans hb)
    rw [hlast id hid, field?_complete_key hbmiddle hslotPlain, hsame b hfb, hsame id hid]
    rcases hoffered with ⟨hright, hrow⟩ | ⟨right, hright, hrow⟩
    · have hleft : g.field? a key = some slot := (hrow a hfa).symm.trans hslot
      rw [hrow b hfb, hrow id hid, hright, Option.none_or,
        exchange_of_given (by simp [hleft, hright, filled]) (by simp [hleft, hright, filled]), hleft]
    · have hsome : (exchange a b (g.field? · key) b).or (some slot) = exchange a b (g.field? · key) b := by
        cases hown : exchange a b (g.field? · key) b with
        | some own => rfl
        | none =>
            rw [exchange, if_neg hne.symm, if_pos rfl, filled_eq_none_iff, hright] at hown
            cases hown.1
      rw [hrow b hfb, hrow id hid, hsome]
      split
      · rename_i hself
        rw [hself]
      · rfl

end

/-! ### Two passes -/

theorem exchange_mem (a b : Nat) (row : Nat → Option Slot) (id : Nat) :
    exchange a b row id = row id ∨ exchange a b row id = row a ∨ exchange a b row id = row b := by
  unfold exchange
  split
  · exact .inr (filled_eq_or _ _)
  · split
    · exact .inr (filled_eq_or _ _).symm
    · exact .inl rfl

/-- Objects that no slot leads to and that hold no container at the key. -/
structure Peers (g : Graph) (key : String) (ids : List Nat) : Prop where
  wellFormed : g.WellFormed
  isObject : ∀ id ∈ ids, g.isObject id = true
  free : ∀ id ∈ ids, g.Free id
  plain : ∀ id ∈ ids, ∀ slot, g.field? id key = some slot → slot.target? = none

/-- What stands for all slots of the nodes at the key. -/
def combined (g : Graph) (key : String) (ids : List Nat) : Option Slot :=
  (ids.map (g.field? · key)).foldr (filled Slot.truthy) none

theorem combined_cons (g : Graph) (key : String) (id : Nat) (ids : List Nat) :
    g.combined key (id :: ids) = filled Slot.truthy (g.field? id key) (g.combined key ids) := rfl

theorem combined_congr {next : Graph} {ids : List Nat} (h : ∀ id ∈ ids, next.field? id key = g.field? id key) :
    next.combined key ids = g.combined key ids := by
  rw [combined, combined, List.map_congr_left h]

namespace Peers

variable {ids others : List Nat} {a b first : Nat}

theorem field?_union (h : Peers g key ids) (ha : a ∈ ids) (hb : b ∈ ids) (hne : a ≠ b) {id : Nat} (hid : id ∈ ids) :
    (g.union a b).field? id key = exchange a b (g.field? · key) id := by
  refine Graph.field?_union h.wellFormed (h.isObject a ha) (h.isObject b hb) (h.free a ha) (h.free b hb) ?_ hne
    (h.free id hid)
  rintro other slot (rfl | rfl) hslot
  · exact h.plain other ha slot hslot
  · exact h.plain other hb slot hslot

theorem union (h : Peers g key ids) (ha : a ∈ ids) (hb : b ∈ ids) (hne : a ≠ b) : Peers (g.union a b) key ids := by
  have hregroups : Regroups g (g.union a b) := regroups_unite _ _ _ _ _
  refine ⟨hregroups.wellFormed h.wellFormed, fun id hid => (hregroups.isObject id).trans (h.isObject id hid),
    fun id hid source hpoints => ?_, fun id hid slot hslot => ?_⟩
  · obtain ⟨source, hsource⟩ := hregroups.exists_points hpoints
    exact h.free id hid source hsource
  · rw [h.field?_union ha hb hne hid] at hslot
    rcases exchange_mem a b (g.field? · key) id with heq | heq | heq
    · exact h.plain id hid slot (heq.symm.trans hslot)
    · exact h.plain a ha slot (heq.symm.trans hslot)
    · exact h.plain b hb slot (heq.symm.trans hslot)

theorem union_first (h : Peers g key ids) (ha : a ∈ ids) (hb : b ∈ ids) (hne : a ≠ b) :
    (g.union a b).field? a key = filled Slot.truthy (g.field? a key) (g.field? b key) := by
  rw [h.field?_union ha hb hne ha, exchange, if_pos rfl]

theorem union_second (h : Peers g key ids) (ha : a ∈ ids) (hb : b ∈ ids) (hne : a ≠ b) :
    (g.union a b).field? b key = filled Slot.truthy (g.field? b key) (g.field? a key) := by
  rw [h.field?_union ha hb hne hb, exchange, if_neg hne.symm, if_pos rfl]

theorem union_apart (h : Peers g key ids) (ha : a ∈ ids) (hb : b ∈ ids) (hne : a ≠ b) {id : Nat} (hid : id ∈ ids)
    (hida : id ≠ a) (hidb : id ≠ b) : (g.union a b).field? id key = g.field? id key := by
  rw [h.field?_union ha hb hne hid, exchange, if_neg hida, if_neg hidb]

/-- After one pass the first has what stands for all. Every other has taken what stood for those before it. -/
theorem pass (h : Peers g key ids) (hfirst : first ∈ ids) (hothers : ∀ other ∈ others, other ∈ ids)
    (hnew : first ∉ others) (hdistinct : others.Nodup) :
    Peers (mergePass first others g) key ids ∧
      (mergePass first others g).field? first key = g.combined key (first :: others) ∧
      (∀ other ∈ others, ∃ before,
        (mergePass first others g).field? other key = filled Slot.truthy (g.field? other key) before ∧
          filled Slot.truthy before (g.combined key (first :: others)) = g.combined key (first :: others)) ∧
      (∀ other ∈ others, filled Slot.truthy (g.combined key (first :: others))
        ((mergePass first others g).field? other key) = g.combined key (first :: others)) ∧
      ∀ id ∈ ids, id ≠ first → id ∉ others → (mergePass first others g).field? id key = g.field? id key := by
  induction others generalizing g with
  | nil => exact ⟨h, (filled_none _).symm, nofun, nofun, fun _ _ _ _ => rfl⟩
  | cons other rest ih =>
      obtain ⟨hne, hfresh⟩ := not_or.mp (mt List.mem_cons.mpr hnew)
      obtain ⟨hother, hrest⟩ := List.nodup_cons.mp hdistinct
      have hmem := hothers other List.mem_cons_self
      have hrestMem : ∀ id ∈ rest, id ∈ ids := fun id hid => hothers id (List.mem_cons_of_mem _ hid)
      have hrestRow : ∀ id ∈ rest, (g.union first other).field? id key = g.field? id key := fun id hid =>
        h.union_apart hfirst hmem hne (hrestMem id hid) (fun heq => hfresh (heq ▸ hid)) fun heq => hother (heq ▸ hid)
      have hall : (g.union first other).combined key (first :: rest) = g.combined key (first :: other :: rest) := by
        rw [combined_cons, h.union_first hfirst hmem hne, combined_congr hrestRow, filled_assoc]
        rfl
      obtain ⟨hpeers, hlast, htaken, hcovered, hkept⟩ := ih (h.union hfirst hmem hne) hrestMem hfresh hrest
      rw [hall] at hlast htaken hcovered
      have hotherKept := (hkept other hmem (Ne.symm hne) hother).trans (h.union_second hfirst hmem hne)
      refine ⟨hpeers, hlast, fun id hid => ?_, fun id hid => ?_, fun id hid hidFirst hidNew => ?_⟩
      · rcases List.mem_cons.mp hid with rfl | hid
        · refine ⟨g.field? first key, hotherKept, ?_⟩
          rw [combined_cons, ← filled_assoc, filled_self]
        · rw [← hrestRow id hid]
          exact htaken id hid
      · rcases List.mem_cons.mp hid with rfl | hid
        · have hown : filled Slot.truthy (g.combined key (first :: id :: rest)) (g.field? id key) =
              g.combined key (first :: id :: rest) := by
            rw [combined_cons, combined_cons, filled_assoc, filled_again]
          rw [mergePass, List.foldl_cons, ← mergePass, hotherKept, ← filled_assoc, hown, combined_cons, filled_again]
        · exact hcovered id hid
      · obtain ⟨hidOther, hidRest⟩ := not_or.mp (mt List.mem_cons.mpr hidNew)
        exact (hkept id hid hidFirst hidRest).trans (h.union_apart hfirst hmem hne hid hidFirst hidOther)

/-- Where the first has what stands for all already, one pass gives it to each other that lacks something. -/
theorem pass_again (h : Peers g key ids) (hfirst : first ∈ ids) (hothers : ∀ other ∈ others, other ∈ ids)
    (hnew : first ∉ others) (hdistinct : others.Nodup) (hcovered : ∀ other ∈ others,
      filled Slot.truthy (g.field? first key) (g.field? other key) = g.field? first key) :
    (mergePass first others g).field? first key = g.field? first key ∧
      (∀ other ∈ others,
        (mergePass first others g).field? other key = filled Slot.truthy (g.field? other key) (g.field? first key)) ∧
      ∀ id ∈ ids, id ≠ first → id ∉ others → (mergePass first others g).field? id key = g.field? id key := by
  induction others generalizing g with
  | nil => exact ⟨rfl, nofun, fun _ _ _ _ => rfl⟩
  | cons other rest ih =>
      obtain ⟨hne, hfresh⟩ := not_or.mp (mt List.mem_cons.mpr hnew)
      obtain ⟨hother, hrest⟩ := List.nodup_cons.mp hdistinct
      have hmem := hothers other List.mem_cons_self
      have hrestMem : ∀ id ∈ rest, id ∈ ids := fun id hid => hothers id (List.mem_cons_of_mem _ hid)
      have hrestRow : ∀ id ∈ rest, (g.union first other).field? id key = g.field? id key := fun id hid =>
        h.union_apart hfirst hmem hne (hrestMem id hid) (fun heq => hfresh (heq ▸ hid)) fun heq => hother (heq ▸ hid)
      have hfirstRow : (g.union first other).field? first key = g.field? first key :=
        (h.union_first hfirst hmem hne).trans (hcovered other List.mem_cons_self)
      obtain ⟨hlast, htaken, hkept⟩ := ih (h.union hfirst hmem hne) hrestMem hfresh hrest fun id hid => by
        rw [hfirstRow, hrestRow id hid, hcovered id (List.mem_cons_of_mem _ hid)]
      rw [hfirstRow] at hlast htaken
      refine ⟨hlast, fun id hid => ?_, fun id hid hidFirst hidNew => ?_⟩
      · rcases List.mem_cons.mp hid with rfl | hid
        · exact (hkept id hmem (Ne.symm hne) hother).trans (h.union_second hfirst hmem hne)
        · rw [← hrestRow id hid]
          exact htaken id hid
      · obtain ⟨hidOther, hidRest⟩ := not_or.mp (mt List.mem_cons.mpr hidNew)
        exact (hkept id hid hidFirst hidRest).trans (h.union_apart hfirst hmem hne hid hidFirst hidOther)

/-- A merge leaves each of its objects its own slot, unless that is nothing and what stands for all is something. -/
theorem merge (h : Peers g key ids) (hdistinct : ids.Nodup) :
    ∀ id ∈ ids, (g.merge ids).field? id key = filled Slot.truthy (g.field? id key) (g.combined key ids) := by
  cases ids with
  | nil => exact nofun
  | cons first others =>
      have hfirst : first ∈ first :: others := List.mem_cons_self
      have hothers : ∀ other ∈ others, other ∈ first :: others := fun _ => List.mem_cons_of_mem first
      obtain ⟨hnew, hdistinct⟩ := List.nodup_cons.mp hdistinct
      obtain ⟨hpeers, hlast, htaken, hcovered, -⟩ := h.pass hfirst hothers hnew hdistinct
      rw [← hlast] at hcovered
      obtain ⟨hlast', htaken', -⟩ := hpeers.pass_again hfirst hothers hnew hdistinct hcovered
      intro id hid
      rcases List.mem_cons.mp hid with rfl | hid
      · refine (hlast'.trans hlast).trans ?_
        rw [combined_cons, ← filled_assoc, filled_self]
      · obtain ⟨before, hbefore, habsorbed⟩ := htaken id hid
        refine (htaken' id hid).trans ?_
        rw [hbefore, hlast, filled_assoc, habsorbed]

end Peers

/-! ### Loading and writing -/

/-- The object has the plain members of the value as fields. -/
def Mirrors (g : Graph) (id : Nat) (value : Json) : Prop :=
  ∀ key, (∀ held, value.get? key = some held → held.isContainer = false) →
    g.field? id key = (value.get? key).map Slot.value

theorem find?_of_holds {fields : List (String × Slot)} {members : Members}
    (h : List.Forall₂ (fun (field : String × Slot) member => field.1 = member.1 ∧ g.Holds field.2 member.2)
      fields members) (hplain : ∀ held, members.get? key = some held → held.isContainer = false) :
    Node.find? fields key = (members.get? key).map Slot.value := by
  induction h with
  | nil => rfl
  | @cons field member fields members hfirst _ ih =>
      obtain ⟨name, slot⟩ := field
      obtain ⟨name', held⟩ := member
      obtain ⟨hname, hholds⟩ := hfirst
      dsimp only at hname hholds
      subst hname
      rw [Members.get?] at hplain ⊢
      rw [Node.find?]
      by_cases hkey : name = key
      · rw [if_pos hkey] at hplain
        rw [if_pos hkey, if_pos hkey]
        have hscalar := hplain held rfl
        cases slot with
        | value value =>
            obtain ⟨rfl, -⟩ := hholds.plain value rfl
            rfl
        | node id =>
            have hcontainer := hholds.shows_it.isContainer
            rw [held.isContainer_normal, hscalar] at hcontainer
            cases hcontainer
      · rw [if_neg hkey] at hplain
        rw [if_neg hkey, if_neg hkey]
        exact ih hplain

/-- Objects that are loaded have fields for their members. -/
theorem loadNodes_mirrors {whole : Json} {values : List Json} (hordered : ∀ value ∈ values, value.Ordered)
    (hparts : ∀ value ∈ values, value ∈ whole.parts) (hobjects : ∀ value ∈ values, ∃ members, value = .object members)
    (hg : g.Loading whole) : List.Forall₂ (loadNodes g values).1.Mirrors (loadNodes g values).2 values := by
  induction values generalizing g with
  | nil => exact .nil
  | cons value rest ih =>
      have hrestOrdered : ∀ value ∈ rest, value.Ordered := fun _ h => hordered _ (List.mem_cons_of_mem _ h)
      have hrestParts : ∀ value ∈ rest, value ∈ whole.parts := fun _ h => hparts _ (List.mem_cons_of_mem _ h)
      have hown := hordered value List.mem_cons_self
      have hpart := hparts value List.mem_cons_self
      obtain ⟨-, hloading, -⟩ := loadsInto hown hpart g hg
      obtain ⟨hmore, -, -⟩ := loadNodes_spec hrestOrdered hrestParts hloading
      have hrest := ih hrestOrdered hrestParts (fun _ h => hobjects _ (List.mem_cons_of_mem _ h)) hloading
      obtain ⟨members, rfl⟩ := hobjects value List.mem_cons_self
      obtain ⟨-, -, hholds⟩ := loadMembers_spec (fun member hmember =>
        loadsInto ((Json.ordered_object.mp hown).2 member hmember)
          (Json.mem_parts_trans hpart (Json.parts_of_mem_members hmember (Json.self_mem_parts _)))) hg
      refine .cons (fun key hplain => ?_) hrest
      have hnode : (g.load (.object members)).1.nodes[(g.loadMembers members).1.nodes.length]? =
          some (.object (g.loadMembers members).2) := (getElem?_alloc _ _ _).trans (if_pos rfl)
      have hfields : (loadNodes (g.load (.object members)).1 rest).1.fields (g.loadMembers members).1.nodes.length =
          (g.loadMembers members).2 := by rw [fields, hmore.kept _ _ hnode]
      change Node.find? ((loadNodes (g.load (.object members)).1 rest).1.fields
        (g.loadMembers members).1.nodes.length) key = (Members.get? members key).map Slot.value
      rw [hfields]
      exact find?_of_holds hholds hplain

/-- A plain field is written out as it is. -/
theorem get?_of_nodeJson? {id : Nat} {value : Json} (hwritten : g.nodeJson? id = .ok value)
    (hobject : g.isObject id = true) (hnames : ((g.fields id).map Prod.fst).Nodup) {held : Option Json}
    (hfield : g.field? id key = held.map Slot.value) : value.get? key = held := by
  have hnode := isObject_iff.mp hobject
  rw [field?] at hfield
  generalize g.fields id = fields at *
  rw [nodeJson?, slotJson, List.contains_nil, if_neg Bool.false_ne_true, hnode] at hwritten
  obtain ⟨members, hmembers, hvalue⟩ := bind_eq_ok_iff.mp hwritten
  cases hvalue
  have hall : List.Forall₂ (fun (field : String × Slot) (member : String × Json) => field.1 = member.1 ∧
      g.slotJson g.nodes.length [id] field.2 = .ok member.2) fields members := by
    refine (mapM_eq_ok_iff.mp hmembers).imp fun field member hmember => ?_
    obtain ⟨written, hwritten, heq⟩ := bind_eq_ok_iff.mp hmember
    cases heq
    exact ⟨rfl, hwritten⟩
  have hsame : members.map Prod.fst = fields.map Prod.fst := by
    clear * - hall
    induction hall with
    | nil => rfl
    | cons hfirst _ ih => rw [List.map_cons, List.map_cons, hfirst.1, ih]
  have hget : (Json.ofPairs members).get? key = Members.get? members key := Members.get?_ofList (hsame ▸ hnames) key
  rw [hget]
  clear * - hall hfield
  induction hall with
  | nil =>
      cases held with
      | none => rfl
      | some _ => cases hfield
  | @cons field member fields members hfirst _ ih =>
      obtain ⟨name, slot⟩ := field
      obtain ⟨name', value⟩ := member
      obtain ⟨hname, hslot⟩ := hfirst
      dsimp only at hname hslot
      subst hname
      rw [Node.find?] at hfield
      rw [Members.get?]
      by_cases hkey : name = key
      · rw [if_pos hkey] at hfield ⊢
        obtain ⟨own, rfl, rfl⟩ := Option.map_eq_some_iff.mp hfield.symm
        rw [slotJson] at hslot
        cases hslot
        rfl
      · rw [if_neg hkey] at hfield ⊢
        exact ih hfield

end Graph

/-! ### Merging values -/

/-- The value is something: it is not null, false, zero or the empty text. -/
def Json.truthy (value : Json) : Bool := (Slot.value value).truthy

/-- The value of a copy at a key after a merge of copies that have these values there, in the order of the copies: its
own, unless that is nothing and another is something; then, and where it has none, the first that is something; and
the first of all where none is. -/
def Json.settled (row : List Json) (own : Option Json) : Option Json :=
  match own, row.find? Json.truthy with
  | some value, some other => some (if value.truthy then value else other)
  | some value, none => some value
  | none, some other => some other
  | none, none => row.head?

theorem Json.settled_eq (row : List Json) (own : Option Json) :
    settled row own = filled truthy own (preferred truthy row) := by
  unfold settled preferred
  cases hfind : row.find? truthy with
  | some other =>
      have hother : truthy other = true := List.find?_some hfind
      cases own with
      | none => rfl
      | some value => cases hvalue : truthy value <;> simp [filled, hvalue, hother]
  | none =>
      cases own with
      | none => rfl
      | some value =>
          cases row with
          | nil => rfl
          | cons first rest =>
              have hfirst : truthy first = false := by simpa using List.find?_eq_none.mp hfind first List.mem_cons_self
              simp [filled, hfirst]

theorem filled_map_value (x y : Option Json) :
    filled Slot.truthy (x.map Slot.value) (y.map Slot.value) = (filled Json.truthy x y).map Slot.value := by
  match x, y with
  | none, y => rfl
  | some a, none => rfl
  | some a, some b =>
      change (if !a.truthy && b.truthy then some (Slot.value b) else some (Slot.value a)) = _
      rw [filled]
      split <;> rfl

namespace Graph

variable {g : Graph} {key : String}

theorem combined_eq_preferred {ids : List Nat} {values : List Json} (h : List.Forall₂ g.Mirrors ids values)
    (hplain : ∀ value ∈ values, ∀ held, value.get? key = some held → held.isContainer = false) :
    g.combined key ids = (preferred Json.truthy (values.filterMap (·.get? key))).map Slot.value := by
  induction h with
  | nil => rfl
  | @cons id value ids values hfirst _ ih =>
      rw [List.forall_mem_cons] at hplain
      rw [combined_cons, ih hplain.2, hfirst key hplain.1, filled_map_value, List.filterMap_cons]
      cases value.get? key with
      | none => rfl
      | some held =>
          dsimp only
          rw [preferred_cons]

theorem Planted.free {layout : Layout} (h : Planted layout g) {id : Nat} (hplace : layout.place id = some []) :
    g.Free id := by
  intro source hpoints
  rcases points_iff.mp hpoints with ⟨name, hfield⟩ | hitem
  · have heq := (h.field hfield).1
    rw [hplace, eq_comm, Option.map_eq_some_iff] at heq
    obtain ⟨path, -, hpath⟩ := heq
    exact List.append_ne_nil_of_right_ne_nil path (List.cons_ne_nil name []) hpath
  · cases hplace.symm.trans (h.item hitem)

/-- **Plain values in merged copies.** Objects are merged into as many values. At a key where none of them holds a
container each has its own value, unless that is nothing and another's is something. Where it has none, or gives its
own up, it has the first that is something, or the first at all; and it has none only where none of them has one. -/
theorem mergeValues_settles {values : List Json} (hordered : ∀ value ∈ values, value.Ordered)
    (hobjects : ∀ value ∈ values, ∃ members, value = .object members) {key : String}
    (hplain : ∀ value ∈ values, ∀ held, value.get? key = some held → held.isContainer = false) :
    ∃ merged, mergeValues values = .ok merged ∧ List.Forall₂ (fun own result =>
      result.get? key = Json.settled (values.filterMap (·.get? key)) (own.get? key) ∧
        (result.get? key = none → ∀ value ∈ values, value.get? key = none)) values merged := by
  obtain ⟨merged, hmerged, -⟩ := exists_merged hordered
  refine ⟨merged, hmerged, ?_⟩
  have hparts : ∀ value ∈ values, value ∈ (Json.array values).parts := fun value hvalue =>
    Json.parts_of_mem_items hvalue value.self_mem_parts
  have hmirrors := loadNodes_mirrors hordered hparts hobjects (loading_empty (.array values))
  obtain ⟨-, hg, hshows, layout, hplanted, hdistinct, hstands⟩ := loaded_spec hordered
  rw [mergeValues_eq] at hmerged
  have hwritten := mapM_eq_ok_iff.mp hmerged
  generalize (loadNodes empty values).1 = origin at *
  generalize (loadNodes empty values).2 = ids at *
  have hpeers : Peers origin key ids := by
    refine ⟨hg, fun id hid => ?_, fun id hid => hplanted.free (hstands id hid).1, fun id hid slot hslot => ?_⟩
    · obtain ⟨value, hvalue, hshown⟩ := exists_of_mem_forall₂ hshows hid
      obtain ⟨members, rfl⟩ := hobjects value (List.mem_of_mem_filter hvalue)
      exact isObject_of_shows hshown
    · obtain ⟨value, hvalue, hmirror⟩ := exists_of_mem_forall₂ hmirrors hid
      rw [hmirror key (hplain value hvalue), Option.map_eq_some_iff] at hslot
      obtain ⟨held, -, rfl⟩ := hslot
      rfl
  have hregroups := regroups_merge origin ids
  refine forall₂_through hmirrors hwritten fun id hid own hvalue result hown hresult => ?_
  have hfield : (origin.merge ids).field? id key =
      (Json.settled (values.filterMap (·.get? key)) (own.get? key)).map Slot.value := by
    rw [hpeers.merge hdistinct id hid, hown key (hplain own hvalue), combined_eq_preferred hmirrors hplain,
      filled_map_value, Json.settled_eq]
  have hget := get?_of_nodeJson? hresult ((hregroups.isObject id).trans (hpeers.isObject id hid))
    (hregroups.names (wellFormed_iff.mp hg).2.1 id) hfield
  refine ⟨hget, fun hnone value hmem => ?_⟩
  rw [hget, Json.settled_eq, filled_eq_none_iff, preferred_eq_none_iff, List.filterMap_eq_nil_iff] at hnone
  exact hnone.2 value hmem

/-- Null and zero give way to the first number that is not zero, which is also taken where nothing is held; the other
number stays. -/
theorem mergeValues_settles_numbers :
    let copies : List Json := [.object [("n", .null)], .object [("m", .int 1)], .object [("n", .int 0)],
      .object [("n", .int 3)], .object [("n", .int 4)]]
    ∃ merged, mergeValues copies = .ok merged ∧
      merged.map (·.get? "n") = [some (.int 3), some (.int 3), some (.int 3), some (.int 3), some (.int 4)] := by
  intro copies
  have hordered : ∀ copy ∈ copies, copy.Ordered := by decide
  have hobjects : ∀ copy ∈ copies, ∃ members, copy = .object members := by simp [copies]
  have hplain : ∀ copy ∈ copies, ∀ held, copy.get? "n" = some held → held.isContainer = false := by
    simp [copies, Json.get?, Members.get?, Json.isContainer, Json.int]
  obtain ⟨merged, hmerged, hsettled⟩ := mergeValues_settles hordered hobjects hplain
  refine ⟨merged, hmerged, ?_⟩
  have hvalues : List.Forall₂ (· = ·) (merged.map (·.get? "n"))
      (copies.map fun own => Json.settled (copies.filterMap (·.get? "n")) (own.get? "n")) := by
    rw [List.forall₂_map_left_iff, List.forall₂_map_right_iff]
    exact (hsettled.imp fun _ _ h => h.1).flip
  rw [List.forall₂_eq_eq_eq] at hvalues
  rw [hvalues]
  rfl

end Graph

end Dossier
