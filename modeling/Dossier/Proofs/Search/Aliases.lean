import Dossier.Proofs.Record.Columns
import Dossier.Proofs.Search.Description

/-!
Names of selected fields. A column has its own name, a field of the payload is named by its position, and the
related documents have one name; a row keeps one value for each name, the last one. Main statement: which fields
of a selection have one name although their expressions differ, and which of them keep their values in a row.
-/

namespace Dossier

open Sql (Predicate)

/-- A name has its value in a row if it comes with no other. -/
theorem Members.get?_ofList_of_agree {pairs : List (String × Json)} {name : String} {value : Json}
    (h : (name, value) ∈ pairs) (hagree : ∀ pair ∈ pairs, pair.1 = name → pair.2 = value) :
    get? (ofList pairs) name = some value := by
  induction pairs using List.reverseRecOn with
  | nil => cases h
  | append_singleton pairs last ih =>
      rw [ofList, List.foldl_append, List.foldl_cons, List.foldl_nil, ← ofList, get?_insert]
      by_cases hname : name = last.1
      · rw [if_pos hname, hagree last (List.mem_append_right _ List.mem_cons_self) hname.symm]
      · rw [if_neg hname]
        have hmem : (name, value) ∈ pairs := by
          rcases List.mem_append.mp h with h | h
          · exact h
          · exact absurd (congrArg Prod.fst (List.mem_singleton.mp h)) hname
        exact ih hmem fun pair hpair => hagree pair (List.mem_append_left _ hpair)

/-! ### Names -/

/-- The two fields stand in one place of the record: in a column, or both among what is related. -/
inductive Landing.Shares : Landing → Landing → Prop
  | column (name : String) : Shares (.column name) (.column name)
  | related : Shares .related .related

theorem Kind.column_ne_mark {kind : Kind} {c : Column} (hc : c ∈ kind.columns) :
    c.name.toList.head? ≠ some '_' ∧ c.name.toList.head? ≠ some '$' := by
  have hall : ∀ c ∈ kind.columns, c.name.toList.head? ≠ some '_' ∧ c.name.toList.head? ≠ some '$' := by
    cases kind <;> decide
  exact hall c hc

namespace Query

theorem toString_inj {i j : Nat} (h : toString i = toString j) : i = j := by
  have hdigits := congrArg (fun text : String => Nat.ofDigitChars 10 text.toList 0) h
  simpa only [Nat.toString_eq_repr, Nat.toList_repr, Nat.ofDigitChars_toDigits (by decide : 1 < 10) (by decide)]
    using hdigits

theorem resultName_eq_of_shares {s t : Landing} (h : s.Shares t) (i j : Nat) : resultName i s = resultName j t := by
  cases h <;> rfl

/-- Fields at different positions have one name exactly if they stand in one place of the record. -/
theorem resultName_eq_iff {kind : Kind} {s t : Landing} (hs : s.IsOf kind) (ht : t.IsOf kind) {i j : Nat}
    (hij : i ≠ j) : resultName i s = resultName j t ↔ s.Shares t := by
  have hposition : ∀ n : Nat, ("_f" ++ toString n).toList.head? = some '_' := by
    intro n
    rw [String.toList_append]
    rfl
  have hrelated : relatedName.toList.head? = some '$' := by decide
  refine ⟨fun h => ?_, fun h => resultName_eq_of_shares h i j⟩
  have hhead := congrArg (·.toList.head?) h
  cases s with
  | column name =>
      obtain ⟨c, hc, rfl⟩ := hs
      obtain ⟨hmark, hdollar⟩ := Kind.column_ne_mark hc
      cases t with
      | column other =>
          obtain rfl : c.name = other := h
          exact .column _
      | payload column path => exact absurd (hhead.trans (hposition j)) hmark
      | related => exact absurd (hhead.trans hrelated) hdollar
  | payload column path =>
      cases t with
      | column other =>
          obtain ⟨c, hc, rfl⟩ := ht
          exact absurd (hhead.symm.trans (hposition i)) (Kind.column_ne_mark hc).1
      | payload other path' =>
          have hsame : "_f" ++ toString i = "_f" ++ toString j := h
          rw [← String.toList_inj, String.toList_append, String.toList_append, List.append_cancel_left_eq,
            String.toList_inj] at hsame
          exact absurd (toString_inj hsame) hij
      | related => exact absurd ((hposition i).symm.trans (hhead.trans hrelated)) (by decide)
  | related =>
      cases t with
      | column other =>
          obtain ⟨c, hc, rfl⟩ := ht
          exact absurd (hhead.symm.trans hrelated) (Kind.column_ne_mark hc).2
      | payload other path => exact absurd (hrelated.symm.trans (hhead.trans (hposition j))) (by decide)
      | related => exact .related

/-! ### Fields -/

/-- The fields ask for one column, plain and in milliseconds, or both for related documents. -/
inductive Clash (kind : Kind) : Json → Json → Prop
  | forms {a b : String} {c : Column} {epoch : Bool} (ha : Key.ofText? kind a = .ok (.column c epoch))
      (hb : Key.ofText? kind b = .ok (.column c !epoch)) : Clash kind (.string a) (.string b)
  | related (relations others : List Json) :
      Clash kind (.object [(relatedName, .array relations)]) (.object [(relatedName, .array others)])

variable {target : Target} {field other : Json} {s t : Predicate × Landing}

theorem compileField_cases (h : target.compileField field = .ok s) :
    (∃ text key, field = .string text ∧ Key.ofText? target.kind text = .ok key ∧
      s = (Predicate.ofFragment (target.extraction key true), target.landing key)) ∨
    ∃ relations p, field = .object [(relatedName, .array relations)] ∧ s = (p, .related) := by
  unfold Target.compileField at h
  split at h
  · obtain ⟨key, hkey, h⟩ := bind_eq_ok_iff.mp h
    cases h
    exact .inl ⟨_, key, rfl, hkey, rfl⟩
  · split at h
    · rename_i hname
      obtain ⟨p, -, h⟩ := bind_eq_ok_iff.mp h
      cases h
      cases hname
      exact .inr ⟨_, p, rfl, rfl⟩
    · cases h
  · cases h

/-- A key of a column is selected as the column. -/
theorem landing_of_column {text : String} {c : Column} {epoch : Bool}
    (h : target.compileField (.string text) = .ok s) (hkey : Key.ofText? target.kind text = .ok (.column c epoch)) :
    s.2 = .column c.name := by
  rcases compileField_cases h with ⟨a, key, htext, hown, rfl⟩ | ⟨relations, p, htext, -⟩
  · cases htext
    rw [hkey] at hown
    cases hown
    rfl
  · cases htext

theorem landing_of_relations {relations : List Json}
    (h : target.compileField (.object [(relatedName, .array relations)]) = .ok s) : s.2 = .related := by
  rcases compileField_cases h with ⟨a, key, htext, -, -⟩ | ⟨relations, p, -, rfl⟩
  · cases htext
  · rfl

/-- The text of the expression, and what is bound in it. -/
def expressionOf (s : Predicate × Landing) : String × List Json := (s.1.format, s.1.params)

/-- Fields with different expressions stand in one place of the record exactly if they clash. -/
theorem shares_iff_clash (hs : target.compileField field = .ok s) (ht : target.compileField other = .ok t)
    (hdiffer : expressionOf s ≠ expressionOf t) : s.2.Shares t.2 ↔ Clash target.kind field other := by
  constructor
  · intro hshares
    rcases compileField_cases hs with ⟨a, key, rfl, hkey, rfl⟩ | ⟨relations, p, rfl, rfl⟩
    · rcases compileField_cases ht with ⟨b, key', rfl, hkey', rfl⟩ | ⟨relations, p, rfl, rfl⟩
      · cases key with
        | path segments => cases key' <;> nomatch hshares
        | column c epoch =>
            cases key' with
            | path segments => nomatch hshares
            | column d epoch' =>
                have hname : c.name = d.name := by
                  generalize hc : target.landing (.column c epoch) = u at hshares
                  generalize hd : target.landing (.column d epoch') = v at hshares
                  cases hshares with
                  | column name => exact (Landing.column.inj hc).trans (Landing.column.inj hd).symm
                  | related => cases hc
                obtain rfl := Kind.eq_of_name_eq (Key.isOf_of_ofText? hkey) (Key.isOf_of_ofText? hkey') hname
                have hepoch : epoch' = !epoch := by
                  rw [Bool.eq_not]
                  rintro rfl
                  exact hdiffer rfl
                exact .forms hkey (hepoch ▸ hkey')
      · cases key <;> nomatch hshares
    · rcases compileField_cases ht with ⟨b, key', rfl, -, rfl⟩ | ⟨others, q, rfl, rfl⟩
      · cases key' <;> nomatch hshares
      · exact .related relations others
  · intro hclash
    cases hclash with
    | forms ha hb =>
        rw [landing_of_column hs ha, landing_of_column ht hb]
        exact .column _
    | related relations others =>
        rw [landing_of_relations hs, landing_of_relations ht]
        exact .related

theorem isOf_of_compileField (h : target.compileField field = .ok s) : s.2.IsOf target.kind :=
  (Target.counts_compileField h).2

/-- Field number `i` of the list is compiled to `s`. -/
def IsCompiled (fields : List Json) (selected : List (Predicate × Landing)) (i : Nat) (field : Json)
    (s : Predicate × Landing) : Prop := fields[i]? = some field ∧ selected[i]? = some s

/-- Two fields of the list, whose expressions differ, clash. -/
def HasClash (kind : Kind) (fields : List Json) (selected : List (Predicate × Landing)) : Prop :=
  ∃ i j field other s t, i ≠ j ∧ IsCompiled fields selected i field s ∧ IsCompiled fields selected j other t ∧
    expressionOf s ≠ expressionOf t ∧ Clash kind field other

/-- The row in which each field has the value of its expression; of the values of one name the last is left. -/
def rowOf (value : String × List Json → Json) (selected : List (Predicate × Landing)) : Row :=
  Members.ofList (selected.mapIdx fun i s => (resultName i s.2, value (expressionOf s)))

variable {fields : List Json} {selected : List (Predicate × Landing)}

theorem IsCompiled.compileField {i : Nat} (hi : IsCompiled fields selected i field s)
    (h : List.Forall₂ (fun field s => target.compileField field = .ok s) fields selected) :
    target.compileField field = .ok s := by
  obtain ⟨hfield, hs⟩ := hi
  obtain ⟨hlt, rfl⟩ := List.getElem?_eq_some_iff.mp hfield
  obtain ⟨hlt', rfl⟩ := List.getElem?_eq_some_iff.mp hs
  exact h.get hlt hlt'

theorem exists_isCompiled (h : List.Forall₂ (fun field s => target.compileField field = .ok s) fields selected)
    {i : Nat} (hs : selected[i]? = some s) : ∃ field, IsCompiled fields selected i field s :=
  ⟨_, List.getElem?_eq_getElem (h.length_eq ▸ (List.getElem?_eq_some_iff.mp hs).1), hs⟩

/-- **Names of fields.** A list of fields that are accepted one by one is selected. Two fields with different
expressions have one name exactly if they ask for one column, plain and in milliseconds, or both for related
documents. In all rows, whatever the expressions are worth, each field has the value of its expression under its
name, exactly if there are no two such fields. -/
theorem names_of_fields (h : List.Forall₂ (fun field s => target.compileField field = .ok s) fields selected) :
    ∃ query, addSelection target { kind := target.kind, dialect := target.dialect } (.fields fields) = .ok query ∧
      query.landings = selected.mapIdx namedLanding ∧
      (∀ i j field other s t, i ≠ j → IsCompiled fields selected i field s → IsCompiled fields selected j other t →
        expressionOf s ≠ expressionOf t → (resultName i s.2 = resultName j t.2 ↔ Clash target.kind field other)) ∧
      ((∀ value (i : Nat) s, selected[i]? = some s →
          Members.get? (rowOf value selected) (resultName i s.2) = some (value (expressionOf s))) ↔
        ¬ HasClash target.kind fields selected) := by
  have hnames : ∀ i j field other s t, i ≠ j → IsCompiled fields selected i field s →
      IsCompiled fields selected j other t → expressionOf s ≠ expressionOf t →
        (resultName i s.2 = resultName j t.2 ↔ Clash target.kind field other) := by
    intro i j field other s t hij hi hj hdiffer
    have hs := hi.compileField h
    have ht := hj.compileField h
    rw [resultName_eq_iff (isOf_of_compileField hs) (isOf_of_compileField ht) hij]
    exact shares_iff_clash hs ht hdiffer
  refine ⟨_, addFields_of_compiles h, by simp [select], hnames, ?_⟩
  constructor
  · rintro hkeeps ⟨i, j, field, other, s, t, hij, hi, hj, hdiffer, hclash⟩
    have hname := (hnames i j field other s t hij hi hj hdiffer).mpr hclash
    classical
    -- the two expressions may be worth different values, and only one of these is left
    let value : String × List Json → Json := fun e => .bool (decide (e = expressionOf s))
    have hboth := (hkeeps value i s hi.2).symm.trans ((congrArg _ hname).trans (hkeeps value j t hj.2))
    simp [value, hdiffer.symm] at hboth
  · intro hclear value i s hs
    obtain ⟨field, hi⟩ := exists_isCompiled h hs
    refine Members.get?_ofList_of_agree (List.mem_mapIdx.mpr ?_) fun pair hpair hname => ?_
    · obtain ⟨hlt, rfl⟩ := List.getElem?_eq_some_iff.mp hs
      exact ⟨i, hlt, rfl⟩
    · obtain ⟨j, hlt, rfl⟩ := List.mem_mapIdx.mp hpair
      obtain ⟨other, hj⟩ := exists_isCompiled h (List.getElem?_eq_getElem hlt)
      by_contra hvalue
      have hdiffer : expressionOf s ≠ expressionOf selected[j] := fun heq => hvalue (by rw [heq])
      have hij : i ≠ j := by
        rintro rfl
        exact hdiffer (by rw [Option.some.inj (hs.symm.trans hj.2)])
      exact hclear ⟨i, j, field, other, s, _, hij, hi, hj, hdiffer,
        (hnames i j field other s _ hij hi hj hdiffer).mp hname.symm⟩

theorem names_of_fields_apart :
    let target : Target := ⟨.document, .empty, .postgres⟩
    let fields : List Json := [.string "$created:ms", .string "a.b", .string "a", .string "$id", .string "$id"]
    ∃ selected, List.Forall₂ (fun field s => target.compileField field = .ok s) fields selected ∧
      (selected.mapIdx namedLanding).map Prod.fst = ["created", "_f1", "_f2", "id", "id"] ∧
      ∀ value (i : Nat) s, selected[i]? = some s →
        Members.get? (rowOf value selected) (resultName i s.2) = some (value (expressionOf s)) := by
  intro target fields
  obtain ⟨selected, hselected, hnames⟩ : ∃ selected, fields.mapM target.compileField = .ok selected ∧
      (selected.mapIdx namedLanding).map Prod.fst = ["created", "_f1", "_f2", "id", "id"] := ⟨_, rfl, by decide⟩
  have hall := mapM_eq_ok_iff.mp hselected
  obtain ⟨query, -, -, -, hkeeps⟩ := names_of_fields hall
  refine ⟨selected, hall, hnames, hkeeps.mpr ?_⟩
  rintro ⟨i, j, field, other, s, t, -, ⟨hfield, -⟩, ⟨hother, -⟩, -, hclash⟩
  have hfields := List.mem_of_getElem? hfield
  have hothers := List.mem_of_getElem? hother
  cases hclash with
  | related => simp [fields] at hfields
  | forms ha hb =>
      simp only [fields, List.mem_cons, List.not_mem_nil, Json.string.injEq, or_false, or_self] at hfields hothers
      rcases hfields with rfl | rfl | rfl | rfl <;> cases ha <;>
        rcases hothers with rfl | rfl | rfl | rfl <;> exact absurd (congrArg Except.toOption hb) (by decide)

/-- A column and its milliseconds have one name, and a row keeps one value of the two. -/
theorem names_of_fields_created :
    let target : Target := ⟨.document, .empty, .postgres⟩
    let value : String × List Json → Json := fun e => .string e.1
    ∃ s t, target.compileField (.string "$created") = .ok s ∧ target.compileField (.string "$created:ms") = .ok t ∧
      expressionOf s ≠ expressionOf t ∧ resultName 0 s.2 = resultName 1 t.2 ∧
      rowOf value [s, t] = [("created", .string "(extract(epoch from \"created\") * 1000)::bigint")] :=
  ⟨_, _, rfl, rfl, fun h => absurd (congrArg Prod.fst h) (by decide), rfl, rfl⟩

end Query

end Dossier
