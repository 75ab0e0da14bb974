import Dossier.Proofs.Search.Admission
import Dossier.Proofs.Session.Refusal
import Dossier.Proofs.Session.Types

/-!
Searches for documents of a type. The type is looked up first, and then storage is asked once at most; time that passes
meanwhile asks it nothing. **`searchDocuments_restricted`**: what storage is asked is restricted to the type.
**`search_cast`**: a search whose filter names a type is cast by its schema, and which documents the search can find is
for the operators of the filter to say.
-/

namespace Dossier

open Sql (Predicate)

/-- The statement of a query, with its parameters. -/
def Call.statement? : Call → Option (String × List Json)
  | .query sql params => some (sql, params)
  | _ => none

namespace Session

variable {α β : Type} {s : Session}

/-- The statements that storage was asked so far. -/
def queries (s : Session) : List (String × List Json) := s.connection.log.filterMap Call.statement?

/-! ### What asks storage -/

theorem queries_perform (request : Call) (s : Session) :
    (s.perform request).2.queries = s.queries ++ request.statement?.toList := by
  have hlog : (s.perform request).2.connection.log = s.connection.log ++ [request] := (made_perform request s).1
  rw [queries, hlog, List.filterMap_append, queries]
  cases request <;> rfl

/-- The watchdog ends transactions, and queries nothing. -/
theorem queries_watch (s : Session) : s.watch.queries = s.queries := by
  refine elapse_induction (R := fun s next => next.queries = s.queries) (fun _ => rfl)
    (fun hab hbc => hbc.trans hab) (fun _ _ _ _ _ => rfl) (fun moment s _ => ?_) s.now (s.now + 1) s
  rw [expire, queries_perform, queries_perform]
  exact (List.append_nil _).trans (List.append_nil _)

theorem queries_query (operation : Operation) (sql : String) (params : List Json) (hactive : s.phase = .active) :
    ((query operation sql params).run s).2.queries = s.queries ++ [(sql, params)] := by
  obtain ⟨samples, hsamples⟩ := exists_sample operation.name (some (sql, params)) (s.perform (.query sql params)).2
  rw [run_query hactive]
  change (sample _ _ _).watch.queries = _
  rw [queries_watch, hsamples]
  exact queries_perform (.query sql params) s

theorem SameCourse.queries {next : Session} (h : SameCourse s next) : next.queries = s.queries := by
  rw [Session.queries, Session.queries, h.connection]

/-- The statement of a search, if its filter and its traits come to one. -/
def Composes (target : Target) (filter : Json) (traits : Traits) (built : Query) (statement : Statement) : Prop :=
  Query.ofTraits? target filter traits = .ok built ∧ built.statement? = .ok statement

variable {target : Target} {filter : Json} {traits : Traits} {built : Query} {statement : Statement}

/-- On an open session a search asks its statement and no other. -/
theorem queries_select (hactive : s.phase = .active) (h : Composes target filter traits built statement) :
    ((select target filter traits).run s).2.queries = s.queries ++ [(statement.sql, statement.params)] := by
  have hasked := queries_query .search statement.sql statement.params hactive
  unfold select
  rw [run_bind, run_attempt, h.1]
  dsimp only [Except.mapError]
  rw [run_bind, run_attempt, h.2]
  dsimp only
  rw [run_bind]
  rcases hrun : (query .search statement.sql statement.params).run s with ⟨answer, next⟩
  rw [hrun] at hasked
  cases answer with
  | error fault => exact hasked
  | ok rows => exact (sameCourse_collect statement rows next).queries.trans hasked

/-- A search without a statement asks nothing. -/
theorem run_select_of_not_composes (h : ¬∃ built statement, Composes target filter traits built statement) :
    ((select target filter traits).run s).2 = s := by
  unfold select
  rw [run_bind, run_attempt]
  cases hbuilt : Query.ofTraits? target filter traits with
  | error fault => rfl
  | ok built =>
      dsimp only [Except.mapError]
      rw [run_bind, run_attempt]
      cases hstatement : built.statement? with
      | error fault => rfl
      | ok statement => exact absurd ⟨built, statement, hbuilt, hstatement⟩ h

/-- The result of a search is queued behind all that asks storage. -/
theorem queries_selectResult (kind : Kind) (schema : Schema) (filter : Json) (traits : Traits) (s : Session) :
    ((selectResult kind schema filter traits).run s).2.queries =
      ((select (s.targetOf kind schema) filter traits).run s).2.queries := by
  unfold selectResult
  rw [run_bind, run_get]
  dsimp only
  rw [run_bind]
  rcases (select (s.targetOf kind schema) filter traits).run s with ⟨answer, next⟩
  cases answer <;> rfl

/-! ### Searches of a type -/

/-- A search for documents of a type comes to a statement: the type could be looked up, by its schema the filter and the
traits make a statement, and the session is open. -/
structure Issues (s : Session) (typeName : String) (filter : Json) (traits : Traits) (schema : Schema)
    (built : Query) (statement : Statement) : Prop where
  looked : ((typeSchema typeName).run s).1 = .ok schema
  composes : Composes (((typeSchema typeName).run s).2.targetOf .document schema) (typedFilter typeName filter) traits
    built statement
  active : ((typeSchema typeName).run s).2.phase = .active

/-- **Searches for documents of a type ask for no other.** A search asks storage its statement, once the type is looked
up, or nothing at all. The condition of the statement is the demand for the type, alone or joined by `AND` to a balanced
group of what the caller's filter is compiled to; the name of the type is bound to it; and whatever comparisons are
worth, a document that meets the condition meets the demand. -/
theorem searchDocuments_restricted (s : Session) (typeName : String) (filter : Json) (traits : Traits) :
    let looked := ((typeSchema typeName).run s).2
    let searched := ((searchDocuments typeName filter traits).run s).2
    (∀ schema built statement, s.Issues typeName filter traits schema built statement →
      searched.queries = looked.queries ++ [(statement.sql, statement.params)] ∧
      ∃ own condition, (looked.targetOf .document schema).compile traits.matchAny filter = .ok own ∧
        built.Restricts statement typeName own condition) ∧
    ((¬∃ schema built statement, s.Issues typeName filter traits schema built statement) →
      searched.queries = looked.queries) := by
  intro looked searched
  have hlooked : (typeSchema typeName).run s = (((typeSchema typeName).run s).1, looked) := rfl
  have hsearched : ∀ {schema}, ((typeSchema typeName).run s).1 = .ok schema → searched.queries =
      ((select (looked.targetOf .document schema) (typedFilter typeName filter) traits).run looked).2.queries := by
    intro schema hschema
    rw [hschema] at hlooked
    rw [← queries_selectResult]
    change ((searchDocuments typeName filter traits).run s).2.queries = _
    rw [searchDocuments, run_bind, hlooked]
  refine ⟨fun schema built statement h => ⟨?_, ?_⟩, fun hnone => ?_⟩
  · rw [hsearched h.looked, queries_select h.active h.composes]
  · exact Query.restricts_of_ofTraits? rfl h.composes.1 h.composes.2
  · cases hschema : ((typeSchema typeName).run s).1 with
    | error fault =>
        rw [hschema] at hlooked
        change ((searchDocuments typeName filter traits).run s).2.queries = _
        rw [searchDocuments, run_bind, hlooked]
    | ok schema =>
        rw [hsearched hschema]
        by_cases hactive : looked.phase = .active
        · rw [run_select_of_not_composes]
          rintro ⟨built, statement, hcomposes⟩
          exact hnone ⟨schema, built, statement, hschema, hcomposes, hactive⟩
        · obtain ⟨fault, hrun⟩ := refuses_select (bne_iff_ne.mpr hactive) (looked.targetOf .document schema)
            (typedFilter typeName filter) traits
          rw [hrun]

/-- A count of the documents of a type that is known, by a filter of two alternatives. -/
theorem searchDocuments_restricted_alternatives :
    let s := { opened Settings.default (.ofBackend (.scripted [])) true with types := [("User", none)] }
    let filter : Json := .object [("a", .nat 1), ("b", .null)]
    let traits : Traits := { Traits.counting with matchAny := true }
    ∃ statement : Statement, statement.params.head? = some (.string "User") ∧
      ((searchDocuments "User" filter traits).run s).2.queries = [(statement.sql, statement.params)] := by
  intro s filter traits
  have hlooked : (typeSchema "User").run s = (.ok Schema.empty, s) := rfl
  obtain ⟨built, hbuilt⟩ : ∃ built, Query.ofTraits? (s.targetOf .document Schema.empty) (typedFilter "User" filter)
      traits = .ok built := ⟨_, rfl⟩
  have hcount : built.count = true := (Query.collected_of_ofTraits? hbuilt).2.1
  obtain ⟨statement, hstatement, -⟩ := (Query.built_of_ofTraits? hbuilt).exists_statement (.inl hcount)
  have hissues : s.Issues "User" filter traits Schema.empty built statement := by
    refine ⟨?_, ?_, ?_⟩ <;> rw [hlooked]
    · exact ⟨hbuilt, hstatement⟩
    · rfl
  obtain ⟨hqueries, own, condition, -, hrestricts⟩ :=
    (searchDocuments_restricted s "User" filter traits).1 _ _ _ hissues
  have hbound := hrestricts.bound
  rw [Query.selectedParams, hcount, if_pos rfl] at hbound
  exact ⟨statement, List.head?_eq_getElem?.trans hbound, hqueries⟩

/-! ### Searches whose filter asks for a type -/

/-- A search for documents comes to a statement: the type that its filter asks for could be looked up, by its schema the
filter and the traits make a statement, and the session is open. -/
structure Casts (s : Session) (typeName : String) (filter : Json) (traits : Traits) (schema : Schema)
    (built : Query) (statement : Statement) : Prop where
  looked : ((typeSchema typeName).run s).1 = .ok schema
  composes : Composes (((typeSchema typeName).run s).2.targetOf .document schema) filter traits built statement
  active : ((typeSchema typeName).run s).2.phase = .active

variable {typeName : String} {schema : Schema}

theorem search_eq (traits : Traits) (hasks : typeFilter filter = some typeName) :
    search .document filter traits = (do selectResult .document (← typeSchema typeName) filter traits) := by
  unfold search
  rw [hasks]

/-- **Searches are cast by the type that their filter asks for on its surface.** Documents of a type can meet what such
a filter is compiled to exactly if its operators admit the type; where the filter demands the type that it names, beside
all else that it asks, only documents of that type can. A search whose filter names a type on its surface asks storage
its statement, made by the schema of the type that is named, and the statement carries the filter. -/
theorem search_cast (s : Session) (traits : Traits) (hasks : typeFilter filter = some typeName) :
    (∀ (target : Target) (matchAny : Bool) (p : Predicate), target.kind = .document →
      target.compile matchAny filter = .ok p →
        Target.Narrows matchAny filter typeName p.params (Sql.numberedFrom 0 p.format.toList)) ∧
    let looked := ((typeSchema typeName).run s).2
    ∀ schema built statement, s.Casts typeName filter traits schema built statement →
      ((search .document filter traits).run s).2.queries = looked.queries ++ [(statement.sql, statement.params)] ∧
      ∃ p, (looked.targetOf .document schema).compile traits.matchAny filter = .ok p ∧ built.Carries statement p ∧
        Target.Narrows traits.matchAny filter typeName statement.params
          (Sql.numberedFrom built.selectedParams.length p.format.toList) := by
  refine ⟨fun target matchAny p hkind hp => Target.narrows_of_compile typeName hkind hp (List.prefix_refl _), ?_⟩
  intro looked schema built statement h
  have hlooked : (typeSchema typeName).run s = (.ok schema, looked) := Prod.ext h.looked rfl
  obtain ⟨p, hp, -⟩ := Query.filters_of_ofTraits? h.composes.1
  have hcarries := Query.carries_of_ofTraits? h.composes.1 h.composes.2 hp (Target.isEmpty_of_typeFilter hasks hp)
  have hbound : p.params <+: statement.params.drop built.selectedParams.length := by
    rw [hcarries.params, List.drop_left]
    exact List.prefix_append _ _
  refine ⟨?_, p, hp, hcarries, Target.narrows_of_compile typeName rfl hp hbound⟩
  rw [← queries_select h.active h.composes, ← queries_selectResult, search_eq traits hasks, run_bind, hlooked]

/-- A count of the documents of a type that is known, by their type and an attribute. -/
theorem search_cast_demanded :
    let s := { opened Settings.default (.ofBackend (.scripted [])) true with types := [("User", none)] }
    let filter : Json := .object [("$type", .string "User"), ("age", .nat 30)]
    ∃ (statement : Statement) (p : Predicate),
      ((search .document filter Traits.counting).run s).2.queries = [(statement.sql, statement.params)] ∧
        ∀ type, Target.Finds statement.params (Sql.numberedFrom 0 p.format.toList) type ↔ type = some "User" := by
  intro s filter
  have hlooked : (typeSchema "User").run s = (.ok Schema.empty, s) := rfl
  obtain ⟨built, hbuilt⟩ : ∃ built, Query.ofTraits? (s.targetOf .document Schema.empty) filter Traits.counting =
      .ok built := ⟨_, rfl⟩
  have hcount : built.count = true := (Query.collected_of_ofTraits? hbuilt).2.1
  obtain ⟨statement, hstatement, -⟩ := (Query.built_of_ofTraits? hbuilt).exists_statement (.inl hcount)
  have hcasts : s.Casts "User" filter Traits.counting Schema.empty built statement := by
    refine ⟨?_, ?_, ?_⟩ <;> rw [hlooked]
    · exact ⟨hbuilt, hstatement⟩
    · rfl
  obtain ⟨hqueries, p, -, -, hnarrows⟩ := (search_cast s Traits.counting rfl).2 _ _ _ hcasts
  rw [Query.selectedParams, hcount, if_pos rfl] at hnarrows
  obtain ⟨condition, hread, hadmitted⟩ := hnarrows.admitted
  cases hread
  refine ⟨statement, p, hqueries, fun type => ⟨hnarrows.demanded (.object rfl (.inl rfl)) type, ?_⟩⟩
  rintro rfl
  exact (hadmitted _).mpr rfl

/-- Of two alternatives one may name a type: documents of another type can meet the other. -/
theorem typeFilter_alternative :
    let filter : Json := .array [.string "OR", .object [("$type", .string "A")], .object [("x", .nat 1)]]
    typeFilter filter = some "A" ∧ ∃ p, (⟨.document, .empty, .sqlite⟩ : Target).compile false filter = .ok p ∧
      Target.Finds p.params (Sql.numberedFrom 0 p.format.toList) (some "B") := by
  intro filter
  let condition : Condition := .group .or
    [.group .and [.equal (.column .typeName false) (.string "A")], .group .and [.equal (.path ["x"]) (.nat 1)]]
  have hread : Condition.ofJson? .document .and filter = .ok condition := rfl
  have hkeys : condition.KeysOf Kind.document := (Condition.keysOf_of_read _).1 filter condition hread
  refine ⟨rfl, _, map_eq_ok_iff.mpr ⟨condition, hread, rfl⟩, ?_⟩
  apply (Condition.finds_iff_admits rfl hkeys (List.prefix_refl _)).mpr
  rfl

end Session

end Dossier
