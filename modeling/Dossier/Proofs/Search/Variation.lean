import Dossier.Proofs.Filter.Variation
import Dossier.Search.Query

/-!
Searches whose filters vary in their values. A query keeps the filter as a predicate, and the rest of it comes
from the traits; its statement takes of a predicate the text, and puts the parameters beside it. Main statement:
what stands in a filter as a value never gets into the text of a statement.
-/

namespace Dossier

open Sql (Predicate)

/-- The statement with null in the place of every parameter. -/
def Statement.blank (statement : Statement) : Statement :=
  { statement with params := statement.params.map fun _ => .null }

theorem Statement.exists_params_of_blank_eq {statement other : Statement} (h : statement.blank = other.blank) :
    ∃ params, params.length = statement.params.length ∧ other = { statement with params := params } := by
  have hparams : statement.params.map (fun _ => Json.null) = other.params.map fun _ => .null :=
    congrArg Statement.params h
  refine ⟨other.params, by simpa using (congrArg List.length hparams).symm, ?_⟩
  cases statement
  cases other
  simp only [blank, Statement.mk.injEq] at h ⊢
  exact ⟨h.1.symm, trivial, h.2.2.1.symm, h.2.2.2.1.symm, h.2.2.2.2.1.symm, h.2.2.2.2.2.symm⟩

namespace Query

/-- The query with null in the place of every parameter of its filters. -/
def blank (query : Query) : Query := { query with filters := query.filters.map Predicate.blank }

variable {target : Target} {query other : Query}

/-! ### Collecting -/

theorem blank_addFilter (query : Query) (p : Predicate) :
    (query.addFilter p).blank = query.blank.addFilter p.blank := by
  unfold addFilter
  rw [Predicate.isEmpty_blank]
  split
  · rfl
  · rw [blank, blank, List.map_append]
    rfl

/-- Entries are added to queries that agree but for their parameters, and they still do. -/
theorem blank_addEntries {matchAny : Bool} {entries : List Json} {add : Query → Predicate → Query}
    (hadd : ∀ query p, (add query p).blank = add query.blank p) (h : query.blank = other.blank) :
    (entries.foldlM (fun q entry => return add q (← target.compileOrder matchAny entry)) query).map blank =
      (entries.foldlM (fun q entry => return add q (← target.compileOrder matchAny entry)) other).map blank := by
  induction entries generalizing query other with
  | nil => exact congrArg Except.ok h
  | cons entry rest ih =>
      rw [List.foldlM_cons, List.foldlM_cons]
      cases target.compileOrder matchAny entry with
      | error fault => rfl
      | ok p => exact ih (by rw [hadd, hadd, h])

theorem blank_addGroups {matchAny : Bool} {entries : List Json} (h : query.blank = other.blank) :
    (query.addGroups target matchAny entries).map blank = (other.addGroups target matchAny entries).map blank :=
  blank_addEntries (fun _ _ => rfl) h

theorem blank_addOrders {matchAny : Bool} {entries : List Json} (h : query.blank = other.blank) :
    (query.addOrders target matchAny entries).map blank = (other.addOrders target matchAny entries).map blank :=
  blank_addEntries (fun _ _ => rfl) h

/-- Traits and filters that vary describe queries that agree but for the parameters of their filters. -/
theorem blank_ofTraits? {filter filter' : Json} (h : Condition.Varies filter filter') (traits : Traits) :
    (ofTraits? target filter traits).map blank = (ofTraits? target filter' traits).map blank := by
  refine map_bind_eq_map_bind (f := id) rfl ?_
  rintro selected _ rfl
  refine map_bind_eq_map_bind (Target.blank_compile h traits.matchAny) fun p p' hp => ?_
  have hfiltered : (selected.addFilter p).blank = (selected.addFilter p').blank := by
    rw [blank_addFilter, blank_addFilter, hp]
  refine map_bind_eq_map_bind (blank_addGroups hfiltered) fun grouped grouped' hgrouped => ?_
  refine map_bind_eq_map_bind (blank_addOrders hgrouped) fun ordered ordered' hordered => ?_
  cases ordered
  cases ordered'
  simp only [blank, Query.mk.injEq] at hordered
  change Except.ok _ = Except.ok _
  simp [blank, hordered]

/-! ### Statements -/

theorem join_blank (query : Query) : Predicate.join query.blank.filters Connective.and.word =
    (Predicate.join query.filters Connective.and.word).blank :=
  (Predicate.blank_join query.filters _).symm

theorem draft_blank (query : Query) : query.blank.draft = query.draft := by
  have hempty : query.blank.filters.isEmpty = query.filters.isEmpty := List.isEmpty_map
  have hwhere : query.blank.whereText = query.whereText := by
    rw [whereText, whereText, join_blank, hempty]
    rfl
  rw [draft, draft, hwhere]
  rfl

theorem params_blank (query : Query) :
    query.blank.params.map (fun _ => Json.null) = query.params.map fun _ => .null := by
  have hfilters : (Predicate.join query.blank.filters Connective.and.word).params.map (fun _ => Json.null) =
      (Predicate.join query.filters Connective.and.word).params.map fun _ => .null := by
    rw [join_blank, Predicate.blank, List.map_map]
    rfl
  rw [params, params, List.map_append, List.map_append, List.map_append, hfilters, ← List.map_append,
    ← List.map_append, ← List.map_append]
  rfl

theorem statement?_blank (query : Query) :
    query.blank.statement?.map Statement.blank = query.statement?.map Statement.blank := by
  have hlength : query.blank.params.length = query.params.length := by
    simpa using congrArg List.length query.params_blank
  unfold statement?
  rw [draft_blank]
  dsimp only
  rw [hlength]
  change Except.map _ (if (!query.count && query.fields.isEmpty) = true then _ else _) = _
  split
  · rfl
  · split
    · rfl
    · change Except.ok _ = Except.ok _
      rw [Statement.blank, Statement.blank, params_blank]
      rfl

/-- **Values stay out of the text.** Two searches whose filters differ only in the values they compare with,
each of them null, a scalar or a container in both, and in the functions and extra values of their calls, are
refused with the same fault. Or both are queries, which compile to statements with the same text and the same
landings, and with equally many parameters; or neither compiles, for the same reason. -/
theorem statement?_of_varies {filter filter' : Json} (h : Condition.Varies filter filter') (target : Target)
    (traits : Traits) :
    (∃ fault, ofTraits? target filter traits = .error fault ∧ ofTraits? target filter' traits = .error fault) ∨
      ∃ query query', ofTraits? target filter traits = .ok query ∧ ofTraits? target filter' traits = .ok query' ∧
        ((∃ fault, query.statement? = .error fault ∧ query'.statement? = .error fault) ∨
          ∃ statement params, query.statement? = .ok statement ∧ params.length = statement.params.length ∧
            query'.statement? = .ok { statement with params := params }) := by
  rcases map_eq_map_cases (blank_ofTraits? h traits) with hfault | ⟨query, query', hquery, hquery', hblank⟩
  · exact .inl hfault
  · have hstatements : query.statement?.map Statement.blank = query'.statement?.map Statement.blank := by
      rw [← statement?_blank, hblank, statement?_blank]
    refine .inr ⟨query, query', hquery, hquery', ?_⟩
    rcases map_eq_map_cases hstatements with hfault | ⟨statement, statement', hstatement, hstatement', hblank⟩
    · exact .inl hfault
    · obtain ⟨params, hlength, rfl⟩ := Statement.exists_params_of_blank_eq hblank
      exact .inr ⟨statement, params, hstatement, hlength, hstatement'⟩

theorem statement?_of_varies_quoted :
    let target : Target := ⟨.document, .empty, .sqlite⟩
    let filter : Json := .array [.string "or", .object [("a", .nat 1), ("b", .null), ("c", .array [])],
      .array [.string "BIND", .string "$id", .object [("$fn", .string "x")], .nat 2]]
    let filter' : Json := .array [.string "or",
      .object [("a", .string "\"; $1 OR 1=1 --"), ("b", .null), ("c", .object [("d", .string "$2")])],
      .array [.string "BIND", .string "$id", .object [("$fn", .string "'")]]]
    Condition.Varies filter filter' ∧
      ∃ query query', ofTraits? target filter .default = .ok query ∧ ofTraits? target filter' .default = .ok query' ∧
        ∃ statement params, query.statement? = .ok statement ∧ params.length = statement.params.length ∧
          query'.statement? = .ok { statement with params := params } := by
  intro target filter filter'
  have hentry : Condition.Varies (.object [("a", .nat 1), ("b", .null), ("c", .array [])])
      (.object [("a", .string "\"; $1 OR 1=1 --"), ("b", .null), ("c", .object [("d", .string "$2")])]) := by
    refine .object (.cons ⟨rfl, ?_, rfl⟩ (.cons ⟨rfl, ?_, rfl⟩ (.cons ⟨rfl, ?_, rfl⟩ .nil)))
    all_goals simp [Json.nat]
  have hcall : Condition.Varies (.array [.string "BIND", .string "$id", .object [("$fn", .string "x")], .nat 2])
      (.array [.string "BIND", .string "$id", .object [("$fn", .string "'")]]) :=
    @Condition.Varies.call "BIND" .boolean [.string "$id"] _ _ _ _ rfl rfl rfl
  have hvaries : Condition.Varies filter filter' := by
    refine .array ?_ rfl ?_
    · rintro ⟨returns, h⟩
      cases h
    · simp only [List.zip_cons_cons, List.zip_nil_left, List.forall_mem_cons]
      exact ⟨.same _, hentry, hcall, nofun⟩
  have hcompiles : ((ofTraits? target filter .default).toOption.bind (·.statement?.toOption)).isSome = true := by
    decide +kernel
  refine ⟨hvaries, ?_⟩
  rcases statement?_of_varies hvaries target .default with
    ⟨fault, hfault, -⟩ | ⟨query, query', hquery, hquery', ⟨fault, hfault, -⟩ | hstatement⟩
  · rw [hfault] at hcompiles
    cases hcompiles
  · rw [hquery] at hcompiles
    change query.statement?.toOption.isSome = true at hcompiles
    rw [hfault] at hcompiles
    cases hcompiles
  · exact ⟨query, query', hquery, hquery', hstatement⟩

end Query

end Dossier
