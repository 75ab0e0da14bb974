import Dossier.Proofs.Filter.Entries
import Dossier.Search.Query

/-!
Statements of searches. Every predicate that a query collects has one placeholder for each of its
parameters, and so has every clause; nothing that stands between them looks like a placeholder. Main
statement: a query that traits describe compiles unless it selects nothing, and the placeholders of its
statement are `$1`, `$2`, … up to the number of its parameters.
-/

namespace Dossier

open Sql (Counts Fragment Predicate StopsDigits quoteIdentifier renumber)

/-- The column that the field lands in, if it lands in one, has no name that looks like a placeholder. -/
def Landing.IsUnnumbered : Landing → Prop
  | .column name => Sql.Unnumbered name.toList
  | _ => True

theorem Landing.IsOf.isUnnumbered {kind : Kind} {landing : Landing} (h : landing.IsOf kind) :
    landing.IsUnnumbered := by
  cases landing with
  | column name =>
      obtain ⟨c, hc, rfl⟩ := h
      have hall : ∀ c ∈ kind.columns, '$' ∉ c.name.toList := by cases kind <;> decide
      exact Sql.unnumbered_of_not_mem (hall c hc)
  | payload name path => exact trivial
  | related => exact trivial

/-- How many fields a selection asks for. -/
def Selection.size (kind : Kind) : Selection → Nat
  | .all => kind.columns.length
  | .fields list => list.length

namespace Query

open Target (dollar_not_mem_append)

variable {target : Target} {query next : Query}

/-! ### Collecting -/

/-- What a query collects: predicates with one placeholder for each parameter. -/
structure Collected (query : Query) : Prop where
  fields : ∀ p ∈ query.fields, Counts p.format p.params
  filters : ∀ p ∈ query.filters, ∃ text, p.Spells text
  groups : ∀ p ∈ query.groups, Counts p.format p.params
  orders : ∀ p ∈ query.orders, Counts p.format p.params

theorem forall_mem_concat {P : Predicate → Prop} {l : List Predicate} {p : Predicate} (h : ∀ q ∈ l, P q) (hp : P p) :
    ∀ q ∈ l ++ [p], P q := List.forall_mem_append.mpr ⟨h, List.forall_mem_singleton.mpr hp⟩

/-- The name of a result column is no placeholder. -/
theorem unnumbered_resultName {landing : Landing} (h : landing.IsUnnumbered) (position : Nat) :
    Sql.Unnumbered (resultName position landing).toList := by
  cases landing with
  | column name => exact h
  | payload name path =>
      exact Sql.unnumbered_of_not_mem (dollar_not_mem_append (by decide) (Sql.dollar_not_mem_toString position))
  | related =>
      have hname : relatedName.toList = '$' :: "related".toList := by decide
      rw [resultName, hname]
      exact Sql.unnumbered_cons.mpr
        ⟨fun _ => Sql.stopsDigits_cons _ (by decide), Sql.unnumbered_of_not_mem (by decide)⟩

theorem renders_name {landing : Landing} (h : landing.IsUnnumbered) (position : Nat) :
    Sql.Renders (quoteIdentifier (resultName position landing)) []
      (quoteIdentifier (resultName position landing)) :=
  Sql.renders_quoteIdentifier (unnumbered_resultName h position)

theorem renders_field {expression : Predicate} {landing : Landing}
    (hcounts : Counts expression.format expression.params) (hname : landing.IsUnnumbered) (position : Nat) :
    Sql.Renders (expression.format ++ " AS " ++ quoteIdentifier (resultName position landing)) expression.params
      (expression.rendered ++ " AS " ++ quoteIdentifier (resultName position landing)) := by
  have halias := (renders_name hname position).plain_append (a := " AS ") (by decide)
  have hall := hcounts.renders.append halias (Sql.stopsDigits_text _ (by decide))
  rwa [List.append_nil, ← String.append_assoc, ← String.append_assoc] at hall

theorem Collected.addField (h : query.Collected) {expression : Predicate} {landing : Landing}
    (hcounts : Counts expression.format expression.params) (hname : landing.IsUnnumbered) :
    (query.addField expression landing).Collected :=
  { h with fields := forall_mem_concat h.fields ⟨_, renders_field hcounts hname _⟩ }

theorem length_fields_addField (query : Query) (expression : Predicate) (landing : Landing) :
    (query.addField expression landing).fields.length = query.fields.length + 1 :=
  List.length_append

theorem Collected.addColumns {columns : List Column} {kind : Kind} (hcolumns : ∀ c ∈ columns, c ∈ kind.columns)
    (h : query.Collected) : (columns.foldl addColumn query).Collected ∧
      (columns.foldl addColumn query).fields.length = query.fields.length + columns.length := by
  induction columns generalizing query with
  | nil => exact ⟨h, rfl⟩
  | cons c rest ih =>
      have hc := hcolumns c List.mem_cons_self
      have hof : (Landing.column c.name).IsOf kind := ⟨c, hc, rfl⟩
      have hadded : (query.addColumn c).Collected :=
        h.addField (.plain (Kind.dollar_not_mem_column hc)) hof.isUnnumbered
      obtain ⟨hall, hlength⟩ := ih (fun d hd => hcolumns d (List.mem_cons_of_mem c hd)) hadded
      refine ⟨hall, hlength.trans ?_⟩
      rw [addColumn, length_fields_addField, List.length_cons]
      omega

theorem Collected.addFields {fields : List Json} (h : query.Collected)
    (hadd : addSelection target query (.fields fields) = .ok next) :
    next.Collected ∧ next.fields.length = query.fields.length + fields.length := by
  induction fields generalizing query with
  | nil =>
      cases hadd
      exact ⟨h, rfl⟩
  | cons field rest ih =>
      rw [addSelection, List.foldlM_cons] at hadd
      obtain ⟨added, hfield, hadd⟩ := bind_eq_ok_iff.mp hadd
      obtain ⟨⟨expression, landing⟩, hcompile, hfield⟩ := bind_eq_ok_iff.mp hfield
      cases hfield
      obtain ⟨hcounts, hof⟩ := Target.counts_compileField hcompile
      obtain ⟨hall, hlength⟩ := ih (h.addField hcounts hof.isUnnumbered) hadd
      refine ⟨hall, hlength.trans ?_⟩
      rw [length_fields_addField, List.length_cons]
      omega

theorem Collected.addSelection {selection : Selection} (h : query.Collected)
    (hadd : addSelection target query selection = .ok next) :
    next.Collected ∧ next.fields.length = query.fields.length + selection.size query.kind := by
  cases selection with
  | all =>
      cases hadd
      exact h.addColumns fun c (hc : c ∈ query.kind.columns) => hc
  | fields list => exact h.addFields hadd

theorem Collected.addFilter {predicate : Predicate} (h : query.Collected)
    (hspells : ∃ text, predicate.Spells text) : (query.addFilter predicate).Collected := by
  unfold Query.addFilter
  split
  · exact h
  · exact { h with filters := forall_mem_concat h.filters hspells }

theorem fields_addFilter (query : Query) (predicate : Predicate) :
    (query.addFilter predicate).fields = query.fields := by
  unfold addFilter
  split <;> rfl

/-- Entries of orderings and groupings, however each of them is added. -/
theorem Collected.addEntries (add : Query → Predicate → Query) {matchAny : Bool} {entries : List Json}
    (hkeeps : ∀ {q : Query} {p : Predicate}, q.Collected → Counts p.format p.params →
      (add q p).Collected ∧ (add q p).fields = q.fields)
    (h : query.Collected)
    (hadd : entries.foldlM (fun q entry => return add q (← target.compileOrder matchAny entry)) query = .ok next) :
    next.Collected ∧ next.fields = query.fields := by
  refine foldlM_invariant (P := fun q => q.Collected ∧ q.fields = query.fields) hadd ⟨h, rfl⟩ ?_
  rintro q entry q' ⟨hq, hfields⟩ hstep
  obtain ⟨predicate, hcompile, hstep⟩ := bind_eq_ok_iff.mp hstep
  cases hstep
  obtain ⟨hadded, hkept⟩ := hkeeps hq (Target.counts_compileOrder hcompile)
  exact ⟨hadded, hkept.trans hfields⟩

theorem Collected.addGroups {matchAny : Bool} {entries : List Json} (h : query.Collected)
    (hadd : query.addGroups target matchAny entries = .ok next) :
    next.Collected ∧ next.fields = query.fields :=
  h.addEntries addGroup (fun hq hp => ⟨{ hq with groups := forall_mem_concat hq.groups hp }, rfl⟩) hadd

theorem Collected.addOrders {matchAny : Bool} {entries : List Json} (h : query.Collected)
    (hadd : query.addOrders target matchAny entries = .ok next) :
    next.Collected ∧ next.fields = query.fields :=
  h.addEntries addOrder (fun hq hp => ⟨{ hq with orders := forall_mem_concat hq.orders hp }, rfl⟩) hadd

/-- Traits describe a query with as many fields as they select. -/
theorem collected_of_ofTraits? {filter : Json} {traits : Traits}
    (h : ofTraits? target filter traits = .ok query) :
    query.Collected ∧ query.count = traits.count ∧
      query.fields.length = traits.fields.size target.kind := by
  unfold ofTraits? at h
  obtain ⟨selected, hselected, h⟩ := bind_eq_ok_iff.mp h
  obtain ⟨predicate, hpredicate, h⟩ := bind_eq_ok_iff.mp h
  obtain ⟨grouped, hgrouped, h⟩ := bind_eq_ok_iff.mp h
  obtain ⟨ordered, hordered, h⟩ := bind_eq_ok_iff.mp h
  cases h
  have hempty : ∀ {P : Predicate → Prop}, ∀ p ∈ ([] : List Predicate), P p :=
    fun _ hp => absurd hp List.not_mem_nil
  obtain ⟨hfields, hlength⟩ := Collected.addSelection ⟨hempty, hempty, hempty, hempty⟩ hselected
  have hfiltered := hfields.addFilter (Target.spells_of_compile hpredicate)
  obtain ⟨hgroups, hkept⟩ := hfiltered.addGroups hgrouped
  obtain ⟨horders, hkept'⟩ := hgroups.addOrders hordered
  refine ⟨⟨horders.fields, horders.filters, horders.groups, horders.orders⟩, rfl, ?_⟩
  change ordered.fields.length = _
  rw [hkept', hkept, fields_addFilter, hlength]
  exact Nat.zero_add _

/-! ### Statements -/

theorem of_statement?_eq_ok {statement : Statement} (h : query.statement? = .ok statement) :
    statement.sql = (renumber query.draft).1 ∧ statement.params = query.params := by
  unfold statement? at h
  dsimp only at h
  split at h
  · cases h
  · split at h
    · cases h
    · obtain rfl := Except.ok.inj h
      exact ⟨rfl, rfl⟩

/-! ### Clauses -/

/-- A list renders to the list of what is rendered. -/
theorem renders_listed {predicates : List Predicate} (h : ∀ p ∈ predicates, Counts p.format p.params) :
    Sql.Renders (listed predicates) (predicates.flatMap (·.params))
      (String.intercalate ", " (predicates.map (·.rendered))) := by
  refine .intercalate (by decide) (by decide) (List.forall₂_map_right_iff.mpr (List.forall₂_same.mpr ?_))
  exact fun p hp => (h p hp).renders

theorem counts_listed {predicates : List Predicate} (h : ∀ p ∈ predicates, Counts p.format p.params) :
    Counts (listed predicates) (predicates.flatMap (·.params)) := ⟨_, renders_listed h⟩

/-- A clause begins with a space, if there is one. -/
def IsClause (sql : String) (params : List Json) : Prop := Counts sql params ∧ StopsDigits sql.toList

theorem isClause_plain {sql : String} (h : '$' ∉ sql.toList ∧ StopsDigits sql.toList) : IsClause sql [] :=
  ⟨.plain h.1, h.2⟩

theorem isClause_none : IsClause "" [] := isClause_plain ⟨by decide, Sql.stopsDigits_nil⟩

/-- A clause that is a word and what it introduces. -/
theorem isClause_word {word sql : String} {params : List Json} (hplain : '$' ∉ word.toList)
    (hfirst : word.toList.head?.any (!Text.isDecimalDigit ·) = true) (h : Counts sql params) :
    IsClause (word ++ sql) params := ⟨h.plain_append hplain, Sql.stopsDigits_text _ hfirst⟩

theorem IsClause.append {a b : String} {ps qs : List Json} (ha : IsClause a ps) (hb : IsClause b qs) :
    IsClause (a ++ b) (ps ++ qs) := by
  refine ⟨ha.1.append hb.1 hb.2, ?_⟩
  rw [String.toList_append]
  exact ha.2.append hb.2

theorem dollar_not_mem_table (kind : Kind) : '$' ∉ (quoteIdentifier kind.table).toList := by
  cases kind <;> decide

theorem Collected.selectText (h : query.Collected) :
    Counts query.selectText (if query.count then [] else query.fields.flatMap (·.params)) := by
  have hfrom : IsClause (" FROM " ++ quoteIdentifier query.kind.table) [] :=
    isClause_word (by decide) (by decide) (.plain (dollar_not_mem_table query.kind))
  have hselected : Counts (if query.count then "COUNT(*) AS \"count\"" else listed query.fields)
      (if query.count then [] else query.fields.flatMap (·.params)) := by
    split
    · exact .plain (by decide)
    · exact counts_listed h.fields
  have hselect := (hselected.plain_append (a := "SELECT ") (by decide)).append hfrom.1 hfrom.2
  rwa [List.append_nil, ← String.append_assoc] at hselect

theorem Collected.whereText (h : query.Collected) :
    IsClause query.whereText (Predicate.join query.filters Connective.and.word).params := by
  unfold Query.whereText
  split
  · rename_i hnone
    rw [List.isEmpty_iff.mp hnone]
    exact isClause_none
  · obtain ⟨texts, htexts⟩ := exists_forall₂ h.filters
    exact isClause_word (by decide) (by decide) (Sql.Predicate.spells_join (by decide) htexts).counts

theorem Collected.groupText (h : query.Collected) :
    IsClause query.groupText (query.groups.flatMap (·.params)) := by
  unfold Query.groupText
  split
  · rename_i hnone
    rw [List.isEmpty_iff.mp hnone]
    exact isClause_none
  · exact isClause_word (by decide) (by decide) (counts_listed h.groups)

theorem plain_limitText (query : Query) :
    '$' ∉ query.limitText.toList ∧ StopsDigits query.limitText.toList := by
  unfold limitText
  split
  · exact ⟨dollar_not_mem_append (by decide) (Sql.dollar_not_mem_toString _),
      Sql.stopsDigits_text _ (by decide)⟩
  · exact ⟨by decide, Sql.stopsDigits_cons _ (by decide)⟩
  · exact ⟨by decide, Sql.stopsDigits_cons _ (by decide)⟩

theorem plain_offsetText (query : Query) :
    '$' ∉ query.offsetText.toList ∧ StopsDigits query.offsetText.toList := by
  unfold offsetText
  split
  · exact ⟨dollar_not_mem_append (by decide) (Sql.dollar_not_mem_toString _),
      Sql.stopsDigits_text _ (by decide)⟩
  · exact ⟨by decide, Sql.stopsDigits_nil⟩

theorem Collected.orderText (h : query.Collected) :
    IsClause query.orderText (if query.count then [] else query.orders.flatMap (·.params)) := by
  unfold Query.orderText
  split
  · exact isClause_none
  · have horder : IsClause (if query.orders.isEmpty then "" else " ORDER BY " ++ listed query.orders)
        (query.orders.flatMap (·.params)) := by
      split
      · rename_i hnone
        rw [List.isEmpty_iff.mp hnone]
        exact isClause_none
      · exact isClause_word (by decide) (by decide) (counts_listed h.orders)
    have hall := (horder.append (isClause_plain (plain_limitText query))).append
      (isClause_plain (plain_offsetText query))
    rwa [List.append_nil, List.append_nil] at hall

theorem Collected.draft (h : query.Collected) : Counts query.draft query.params := by
  have htail := (h.whereText.append h.groupText).append h.orderText
  have hall := h.selectText.append htail.1 htail.2
  rw [← String.append_assoc, ← String.append_assoc, ← List.append_assoc, ← List.append_assoc] at hall
  exact hall

/-- **Placeholders of a search.** A query that traits describe fails to compile only where it selects no
field and does not count. Otherwise the placeholders of its statement, from left to right, are `$1`, `$2`, …
up to the number of its parameters. -/
theorem statement?_of_ofTraits? {filter : Json} {traits : Traits}
    (h : ofTraits? target filter traits = .ok query) :
    (query.statement? = .error (.compile .noFields) ∧ traits.count = false ∧ traits.fields = .fields []) ∨
      ∃ statement, query.statement? = .ok statement ∧
        ¬(traits.count = false ∧ traits.fields = .fields []) ∧
        Sql.placeholders statement.sql = (List.range statement.params.length).map Sql.numbered := by
  obtain ⟨hcollected, hcount, hlength⟩ := collected_of_ofTraits? h
  have hfound : (renumber query.draft).2 = query.params.length := hcollected.draft.countPlaceholders_eq
  have hnone : query.fields.isEmpty = true ↔ traits.fields = .fields [] := by
    rw [List.isEmpty_iff_length_eq_zero, hlength]
    cases traits.fields with
    | all => simp [Selection.size, Kind.columns]
    | fields list => simp [Selection.size]
  have hrefused : (!query.count && query.fields.isEmpty) = true ↔
      traits.count = false ∧ traits.fields = .fields [] := by
    rw [Bool.and_eq_true, Bool.not_eq_true', hcount, hnone]
  by_cases hfields : traits.count = false ∧ traits.fields = .fields []
  · refine .inl ⟨?_, hfields⟩
    rw [statement?, if_pos (hrefused.mpr hfields)]
  · refine .inr ⟨⟨(renumber query.draft).1, query.params, if query.count then [] else query.landings,
      query.kind, query.count, query.dialect⟩, ?_, hfields, ?_⟩
    · rw [statement?, if_neg (mt hrefused.mp hfields)]
      dsimp only
      rw [if_neg (by simp [hfound])]
    · rw [Sql.placeholders_renumber, ← hfound]
      rfl

theorem statement?_of_ofTraits?_grouped :
    let filter : Json := .array [.string "or", .object [("a", .nat 1)],
      .array [.string "BIND", .string "b", .object [("$fn", .string "$1")]]]
    let traits : Traits :=
      { Traits.default with fields := .fields [.string "$id", .string "c.d"], group := [.string "e"] }
    ∃ query, ofTraits? ⟨.document, .empty, .sqlite⟩ filter traits = .ok query ∧ query.params.length = 7 ∧
      ∃ statement, query.statement? = .ok statement ∧
        Sql.placeholders statement.sql = (List.range statement.params.length).map Sql.numbered := by
  intro filter traits
  obtain ⟨query, hquery, hparams⟩ : ∃ query, ofTraits? ⟨.document, .empty, .sqlite⟩ filter traits = .ok query ∧
      query.params.length = 7 := ⟨_, rfl, rfl⟩
  refine ⟨query, hquery, hparams, ?_⟩
  rcases statement?_of_ofTraits? hquery with ⟨-, -, hfields⟩ | ⟨statement, hstatement, -, hplaceholders⟩
  · cases hfields
  · exact ⟨statement, hstatement, hplaceholders⟩

end Query

end Dossier
