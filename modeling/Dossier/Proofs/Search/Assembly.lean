import Dossier.Proofs.Search.Statement
import Dossier.Search.Result

/-!
Queries that builder calls put together. Parameters are collected clause by clause, and placeholders are
numbered anew when all text is there. Since every fragment has its placeholders to itself, wherever it
stands, what a statement renders to is told from what its fragments render to one by one: each call adds its
own rendered texts to the clauses. Main statement: `statement?_built`.
-/

namespace Dossier

open Sql (Counts Dialect Predicate quoteIdentifier render renumber)
open Sql.Predicate (inParentheses)

/-! ### Clauses -/

/-- What stands in the clauses of a statement, with every value in its place. -/
structure Clauses where
  fields : List String := []
  filters : List String := []
  groups : List String := []
  orders : List String := []
  limit : Limit := .all
  offset : Option Nat := none
  count : Bool := false

namespace Clauses

/-- A clause with a word before it, which is left out if nothing stands in it. -/
def clause (word separator : String) (texts : List String) : String :=
  if texts.isEmpty then "" else word ++ String.intercalate separator texts

def limitText (dialect : Dialect) : Limit → String
  | .rows count => " LIMIT " ++ toString count
  | .all => if dialect = .sqlite then " LIMIT -1" else " LIMIT ALL"

def offsetText (offset : Option Nat) : String := (offset.map fun rows => " OFFSET " ++ toString rows).getD ""

def selection (clauses : Clauses) : String :=
  if clauses.count then "COUNT(*) AS \"count\"" else String.intercalate ", " clauses.fields

/-- Ordering and paging, which a count does without. -/
def paging (dialect : Dialect) (clauses : Clauses) : String :=
  if clauses.count then ""
  else clause " ORDER BY " ", " clauses.orders ++ limitText dialect clauses.limit ++ offsetText clauses.offset

/-- The statement that the clauses make up. -/
def text (kind : Kind) (dialect : Dialect) (clauses : Clauses) : String :=
  "SELECT " ++ clauses.selection ++ " FROM " ++ quoteIdentifier kind.table ++
    clause " WHERE " " AND " (clauses.filters.map inParentheses) ++ clause " GROUP BY " ", " clauses.groups ++
    clauses.paging dialect

def addFields (clauses : Clauses) (texts : List String) : Clauses :=
  { clauses with fields := clauses.fields ++ texts }

theorem addFields_nil (clauses : Clauses) : clauses.addFields [] = clauses := by
  rw [addFields, List.append_nil]

theorem addFields_addFields (clauses : Clauses) (texts more : List String) :
    (clauses.addFields texts).addFields more = clauses.addFields (texts ++ more) := by
  rw [addFields, addFields, addFields, List.append_assoc]

end Clauses

namespace Query

/-! ### Builder calls -/

inductive Call where
  | field (expression : Predicate) (landing : Landing)
  | allFields
  | filter (predicate : Predicate)
  | group (predicate : Predicate)
  | order (predicate : Predicate)
  | limit (limit : Limit)
  | offset (offset : Option Nat)
  | count (count : Bool)

def call (query : Query) : Call → Query
  | .field expression landing => query.addField expression landing
  | .allFields => query.addAllFields
  | .filter predicate => query.addFilter predicate
  | .group predicate => query.addGroup predicate
  | .order predicate => query.addOrder predicate
  | .limit limit => { query with limit }
  | .offset offset => { query with offset }
  | .count count => { query with count }

/-- The query after the calls, one after another. -/
def built (kind : Kind) (dialect : Dialect) (calls : List Call) : Query := calls.foldl call { kind, dialect }

/-- A predicate with as many placeholders as parameters. -/
def IsCounted (predicate : Predicate) : Prop :=
  Sql.countPlaceholders (Sql.scan predicate.format.toList) = predicate.params.length

/-- Predicates are counted, and no name of a column has a dollar sign before a digit. -/
def Call.IsSound : Call → Prop
  | .field expression landing => IsCounted expression ∧ landing.IsUnnumbered
  | .filter predicate | .group predicate | .order predicate => IsCounted predicate
  | .allFields | .limit _ | .offset _ | .count _ => True

/-- A field under its name in the result. -/
def fieldText (expression name : String) : String := expression ++ " AS " ++ quoteIdentifier name

/-- The clauses with what one call adds to them, its predicate rendered by itself. -/
def clausesAfter (kind : Kind) (clauses : Clauses) : Call → Clauses
  | .field expression landing =>
    clauses.addFields [fieldText expression.rendered (resultName clauses.fields.length landing)]
  | .allFields => clauses.addFields (kind.columns.map fun c => fieldText (quoteIdentifier c.name) c.name)
  | .filter predicate =>
    if predicate.isEmpty then clauses else { clauses with filters := clauses.filters ++ [predicate.rendered] }
  | .group predicate => { clauses with groups := clauses.groups ++ [predicate.rendered] }
  | .order predicate => { clauses with orders := clauses.orders ++ [predicate.rendered] }
  | .limit limit => { clauses with limit }
  | .offset offset => { clauses with offset }
  | .count count => { clauses with count }

def clausesOf (kind : Kind) (calls : List Call) : Clauses := calls.foldl (clausesAfter kind) {}

/-! ### What a query has collected -/

/-- The clauses of a query, each fragment rendered by itself. -/
def clauses (query : Query) : Clauses where
  fields := query.fields.map (·.rendered)
  filters := query.filters.map (·.rendered)
  groups := query.groups.map (·.rendered)
  orders := query.orders.map (·.rendered)
  limit := query.limit
  offset := query.offset
  count := query.count

/-- What builder calls collect: no filter is empty. -/
structure Built (query : Query) : Prop extends Collected query where
  kept : ∀ p ∈ query.filters, p.isEmpty = false

variable {query : Query}

theorem length_clauses_fields (query : Query) : query.clauses.fields.length = query.fields.length :=
  List.length_map _

theorem IsCounted.counts {predicate : Predicate} (h : IsCounted predicate) :
    Counts predicate.format predicate.params := .of_countPlaceholders h

theorem clauses_addField {expression : Predicate} {landing : Landing} (hcounted : IsCounted expression)
    (hname : landing.IsUnnumbered) : (query.addField expression landing).clauses =
      query.clauses.addFields [fieldText expression.rendered (resultName query.fields.length landing)] := by
  have hrendered := (renders_field hcounted.counts hname query.fields.length).render_eq
  rw [fieldText, ← hrendered, clauses, addField]
  dsimp only
  rw [List.map_append]
  rfl

theorem clauses_addColumns {columns : List Column} (hcolumns : ∀ c ∈ columns, c ∈ query.kind.columns) :
    (columns.foldl addColumn query).clauses =
      query.clauses.addFields (columns.map fun c => fieldText (quoteIdentifier c.name) c.name) := by
  induction columns generalizing query with
  | nil => exact (Clauses.addFields_nil _).symm
  | cons c rest ih =>
      have hc := hcolumns c List.mem_cons_self
      have hplain := Kind.dollar_not_mem_column hc
      have hrendered : (Predicate.ofParts (quoteIdentifier c.name) []).rendered = quoteIdentifier c.name :=
        (Sql.Renders.plain hplain).render_eq
      have hcounted : IsCounted (Predicate.ofParts (quoteIdentifier c.name) []) :=
        (Counts.plain hplain).countPlaceholders_eq
      have hname : (Landing.column c.name).IsUnnumbered := Landing.IsOf.isUnnumbered ⟨c, hc, rfl⟩
      have hadded : (query.addColumn c).clauses =
          query.clauses.addFields [fieldText (quoteIdentifier c.name) c.name] := by
        rw [addColumn, clauses_addField hcounted hname, hrendered, resultName]
      have hrest : (rest.foldl addColumn (query.addColumn c)).clauses = _ :=
        ih fun d hd => hcolumns d (List.mem_cons_of_mem c hd)
      rw [List.foldl_cons, hrest, hadded, Clauses.addFields_addFields, List.map_cons, List.singleton_append]

/-- One call adds its own rendered texts to the clauses. -/
theorem clauses_call {call : Call} (h : call.IsSound) :
    (query.call call).clauses = clausesAfter query.kind query.clauses call := by
  cases call with
  | field expression landing =>
      rw [clausesAfter, length_clauses_fields]
      exact clauses_addField h.1 h.2
  | allFields => exact clauses_addColumns fun c hc => hc
  | filter predicate =>
      rw [Query.call, clausesAfter, addFilter]
      split
      · rfl
      · rw [clauses]
        dsimp only
        rw [List.map_append]
        rfl
  | group predicate =>
      rw [Query.call, clausesAfter, addGroup, clauses]
      dsimp only
      rw [List.map_append]
      rfl
  | order predicate =>
      rw [Query.call, clausesAfter, addOrder, clauses]
      dsimp only
      rw [List.map_append]
      rfl
  | limit limit => rfl
  | offset offset => rfl
  | count count => rfl

theorem built_new (kind : Kind) (dialect : Dialect) : Built { kind, dialect } where
  fields := fun _ hp => absurd hp List.not_mem_nil
  filters := fun _ hp => absurd hp List.not_mem_nil
  groups := fun _ hp => absurd hp List.not_mem_nil
  orders := fun _ hp => absurd hp List.not_mem_nil
  kept := fun _ hp => absurd hp List.not_mem_nil

/-- Columns are fields, and nothing else of a query. -/
theorem addColumns_keeps (columns : List Column) (query : Query) :
    (columns.foldl addColumn query).filters = query.filters ∧
      (columns.foldl addColumn query).kind = query.kind ∧
      (columns.foldl addColumn query).dialect = query.dialect := by
  induction columns generalizing query with
  | nil => exact ⟨rfl, rfl, rfl⟩
  | cons c rest ih => exact ih (query.addColumn c)

theorem Built.call (h : query.Built) {call : Call} (hsound : call.IsSound) : (query.call call).Built := by
  cases call with
  | field expression landing => exact ⟨h.addField hsound.1.counts hsound.2, h.kept⟩
  | allFields =>
      refine ⟨(h.toCollected.addColumns fun c hc => hc).1, ?_⟩
      rw [Query.call, addAllFields, (addColumns_keeps _ query).1]
      exact h.kept
  | filter predicate =>
      refine ⟨h.addFilter ⟨_, hsound.counts.spells⟩, ?_⟩
      rw [Query.call, addFilter]
      split
      · exact h.kept
      · rename_i hne
        exact forall_mem_concat h.kept (Bool.eq_false_iff.mpr hne)
  | group predicate => exact ⟨{ h with groups := forall_mem_concat h.groups hsound.counts }, h.kept⟩
  | order predicate => exact ⟨{ h with orders := forall_mem_concat h.orders hsound.counts }, h.kept⟩
  | limit limit => exact ⟨{ h with }, h.kept⟩
  | offset offset => exact ⟨{ h with }, h.kept⟩
  | count count => exact ⟨{ h with }, h.kept⟩

theorem kind_call (query : Query) (call : Call) :
    (query.call call).kind = query.kind ∧ (query.call call).dialect = query.dialect := by
  cases call with
  | allFields => exact (addColumns_keeps _ query).2
  | filter predicate =>
      rw [Query.call, addFilter]
      split <;> exact ⟨rfl, rfl⟩
  | _ => exact ⟨rfl, rfl⟩

/-- A run of calls adds what its calls add, one after another. -/
theorem Built.calls (h : query.Built) {calls : List Call} (hsound : ∀ call ∈ calls, call.IsSound) :
    (calls.foldl Query.call query).Built ∧
      (calls.foldl Query.call query).clauses = calls.foldl (clausesAfter query.kind) query.clauses ∧
      (calls.foldl Query.call query).kind = query.kind ∧
      (calls.foldl Query.call query).dialect = query.dialect := by
  induction calls generalizing query with
  | nil => exact ⟨h, rfl, rfl, rfl⟩
  | cons call rest ih =>
      have hcall := hsound call List.mem_cons_self
      obtain ⟨hkind, hdialect⟩ := kind_call query call
      obtain ⟨hbuilt, hclauses, hkind', hdialect'⟩ :=
        ih (h.call hcall) fun other hother => hsound other (List.mem_cons_of_mem call hother)
      rw [clauses_call hcall, hkind] at hclauses
      exact ⟨hbuilt, hclauses, hkind'.trans hkind, hdialect'.trans hdialect⟩

/-! ### The statement -/

theorem Collected.renders_selectText (h : query.Collected) :
    Sql.Renders query.selectText (if query.count then [] else query.fields.flatMap (·.params))
      ("SELECT " ++ query.clauses.selection ++ " FROM " ++ quoteIdentifier query.kind.table) := by
  have hselected : Sql.Renders (if query.count then "COUNT(*) AS \"count\"" else listed query.fields)
      (if query.count then [] else query.fields.flatMap (·.params)) query.clauses.selection := by
    rw [Clauses.selection, clauses]
    dsimp only
    split
    · exact .plain (by decide)
    · exact renders_listed h.fields
  have htable : '$' ∉ (" FROM " ++ quoteIdentifier query.kind.table).toList :=
    Target.dollar_not_mem_append (by decide) (dollar_not_mem_table query.kind)
  have hall := (hselected.plain_append (a := "SELECT ") (by decide)).append_plain htable
    (Sql.stopsDigits_text _ (by decide))
  rwa [← String.append_assoc, ← String.append_assoc] at hall

theorem Built.renders_whereText (h : query.Built) :
    Sql.Renders query.whereText (Predicate.join query.filters Connective.and.word).params
      (Clauses.clause " WHERE " " AND " (query.clauses.filters.map inParentheses)) := by
  rw [whereText, Clauses.clause, clauses]
  dsimp only
  rw [List.isEmpty_map, List.isEmpty_map]
  split
  · rename_i hnone
    rw [List.isEmpty_iff.mp hnone]
    exact .plain (by decide)
  · have hspells : ∀ p ∈ query.filters, p.Spells p.rendered := by
      intro p hp
      obtain ⟨text, htext⟩ := h.filters p hp
      exact htext.counts.spells
    have hkept : (query.filters.map (·.rendered)).filter (!·.isEmpty) = query.filters.map (·.rendered) := by
      rw [List.filter_eq_self]
      intro text htext
      obtain ⟨p, hp, rfl⟩ := List.mem_map.mp htext
      rw [← (hspells p hp).isEmpty_eq, h.kept p hp]
      rfl
    have hjoin := Sql.Predicate.spells_join (show '$' ∉ Connective.and.word.toList by decide)
      (List.forall₂_map_right_iff.mpr (List.forall₂_same.mpr hspells))
    rw [hkept] at hjoin
    exact Sql.Renders.plain_append (by decide) hjoin.2

theorem renders_listClause (word : String) (hword : '$' ∉ word.toList) {predicates : List Predicate}
    (h : ∀ p ∈ predicates, Counts p.format p.params) :
    Sql.Renders (if predicates.isEmpty then "" else word ++ listed predicates) (predicates.flatMap (·.params))
      (Clauses.clause word ", " (predicates.map (·.rendered))) := by
  rw [Clauses.clause, List.isEmpty_map]
  split
  · rename_i hnone
    rw [List.isEmpty_iff.mp hnone]
    exact .plain (by decide)
  · exact (renders_listed h).plain_append hword

theorem limitText_eq (query : Query) : query.limitText = Clauses.limitText query.dialect query.limit := by
  unfold limitText Clauses.limitText
  cases query.limit <;> cases query.dialect <;> rfl

theorem offsetText_eq (query : Query) : query.offsetText = Clauses.offsetText query.offset := by
  rw [offsetText, Clauses.offsetText]
  cases query.offset <;> rfl

theorem Collected.renders_orderText (h : query.Collected) :
    Sql.Renders query.orderText (if query.count then [] else query.orders.flatMap (·.params))
      (query.clauses.paging query.dialect) := by
  rw [Query.orderText, Clauses.paging, clauses]
  dsimp only
  split
  · exact .plain (by decide)
  · have hlist := renders_listClause " ORDER BY " (by decide) h.orders
    obtain ⟨hlimit, hlimit'⟩ := plain_limitText query
    obtain ⟨hoffset, hoffset'⟩ := plain_offsetText query
    rw [← limitText_eq, ← offsetText_eq]
    exact (hlist.append_plain hlimit hlimit').append_plain hoffset hoffset'

theorem Built.renders_draft (h : query.Built) :
    Sql.Renders query.draft query.params (query.clauses.text query.kind query.dialect) := by
  have hwhere := h.renders_selectText.append h.renders_whereText h.whereText.2
  have hgroup := hwhere.append (renders_listClause " GROUP BY " (by decide) h.groups) h.groupText.2
  exact hgroup.append h.renders_orderText h.orderText.2

/-- A query that counts or has a field compiles, and its statement renders to its clauses. -/
theorem Built.exists_statement (h : query.Built) (hselects : query.count = true ∨ query.fields ≠ []) :
    ∃ statement, query.statement? = .ok statement ∧
      statement.rendered = query.clauses.text query.kind query.dialect := by
  have hfound : (renumber query.draft).2 = query.params.length := Sql.Fills.countPlaceholders_eq h.renders_draft
  have hselected : ¬(!query.count && query.fields.isEmpty) = true := by
    rw [Bool.and_eq_true, Bool.not_eq_true', List.isEmpty_iff]
    rintro ⟨hcount, hfields⟩
    rcases hselects with hcount' | hfields'
    · exact absurd (hcount'.symm.trans hcount) (by decide)
    · exact hfields' hfields
  refine ⟨⟨(renumber query.draft).1, query.params, if query.count then [] else query.landings,
    query.kind, query.count, query.dialect⟩, ?_, ?_⟩
  · rw [statement?, if_neg hselected]
    dsimp only
    rw [if_neg (by simp [hfound])]
  · rw [Statement.rendered, Sql.render_renumber, h.renders_draft.render_eq]

/-- **Statements are assembled from rendered fragments.** Whatever calls build a query, of predicates that
have a placeholder for each parameter, it compiles if it counts or has a field. With the parameters in their
places its statement is the one that is made of the fragments, each rendered by itself, clause by clause. -/
theorem statement?_built {kind : Kind} {dialect : Dialect} {calls : List Call}
    (hsound : ∀ call ∈ calls, call.IsSound)
    (hselects : (clausesOf kind calls).count = true ∨ (clausesOf kind calls).fields ≠ []) :
    ∃ statement, (built kind dialect calls).statement? = .ok statement ∧
      statement.rendered = (clausesOf kind calls).text kind dialect := by
  obtain ⟨hbuilt, hclauses, hkind, hdialect⟩ := (built_new kind dialect).calls hsound
  have hnew : calls.foldl (clausesAfter kind) (Query.clauses { kind, dialect }) = clausesOf kind calls := rfl
  rw [hnew] at hclauses
  rw [← hclauses] at hselects
  obtain ⟨statement, hstatement, hrendered⟩ := hbuilt.exists_statement
    (hselects.imp_right fun hfields hnil => hfields (by rw [clauses, hnil]; rfl))
  rw [hclauses, hkind, hdialect] at hrendered
  exact ⟨statement, hstatement, hrendered⟩

theorem statement?_built_numbered :
    let calls : List Call :=
      [.filter (.ofParts "\"a\" = $7" [.string "$1"]),
        .field (.ofParts "\"p\"->$1" [.string "k"]) (.payload "p" ["k"]), .filter .empty,
        .group (.ofParts "$2 || $2" [.string "x", .nat 3]), .field (.ofParts "1" []) (.column "$"),
        .order (.ofParts "$" []), .offset (some 2), .filter (.ofParts "1" [])]
    (∀ call ∈ calls, call.IsSound) ∧
      (clausesOf .lib calls).text .lib .postgres =
        "SELECT \"p\"->'k' AS \"_f0\", 1 AS \"$\" FROM \"lib\" WHERE (\"a\" = '$1') AND (1)" ++
          " GROUP BY 'x' || 3 ORDER BY $ LIMIT ALL OFFSET 2" ∧
      ∃ statement, (built .lib .postgres calls).statement? = .ok statement ∧
        statement.rendered = (clausesOf .lib calls).text .lib .postgres := by
  intro calls
  have hsound : ∀ call ∈ calls, call.IsSound := by
    simp only [calls, List.forall_mem_cons]
    refine ⟨rfl, ⟨rfl, trivial⟩, rfl, rfl, ⟨rfl, List.isChain_singleton _⟩, rfl, trivial, rfl, ?_⟩
    exact fun _ h => absurd h List.not_mem_nil
  exact ⟨hsound, by decide +kernel, statement?_built hsound (.inr (List.cons_ne_nil _ _))⟩

end Query

end Dossier
