import Dossier.Proofs.Search.Statement

/-!
What traits describe, part by part. The selected expressions stand under their names, in the order of the
selection; the filter stands there unless every record meets it; groups and orderings are compiled entry by
entry. Main statement: `describes_of_ofTraits?`.
-/

namespace Dossier

open Sql (Predicate quoteIdentifier)

/-- What a selection compiles to: the columns of the kind, or field by field what is listed. -/
def Selection.Compiles (target : Target) (selected : List (Predicate × Landing)) : Selection → Prop
  | .all => selected = target.kind.columns.map fun c =>
      (Predicate.ofParts (quoteIdentifier c.name) [], Landing.column c.name)
  | .fields list => List.Forall₂ (fun field compiled => target.compileField field = .ok compiled) list selected

namespace Query

/-- A selected expression under its name. -/
def namedField (position : Nat) (selected : Predicate × Landing) : Predicate :=
  Predicate.ofParts (selected.1.format ++ " AS " ++ quoteIdentifier (resultName position selected.2)) selected.1.params

/-- The name of a selected expression, and where it lands. -/
def namedLanding (position : Nat) (selected : Predicate × Landing) : String × Landing :=
  (resultName position selected.2, selected.2)

/-- The query is what the filter and the traits describe, with `selected` as its expressions and `own` as its
filter. -/
structure Describes (query : Query) (target : Target) (filter : Json) (traits : Traits)
    (selected : List (Predicate × Landing)) (own : Predicate) : Prop where
  kind : query.kind = target.kind
  dialect : query.dialect = target.dialect
  compiles : traits.fields.Compiles target selected
  fields : query.fields = selected.mapIdx namedField
  landings : query.landings = selected.mapIdx namedLanding
  filter : target.compile traits.matchAny filter = .ok own
  filters : query.filters = if own.isEmpty then [] else [own]
  groups : List.Forall₂ (fun entry p => target.compileOrder traits.matchAny entry = .ok p) traits.group query.groups
  orders : List.Forall₂ (fun entry p => target.compileOrder traits.matchAny entry = .ok p) traits.order query.orders
  limit : query.limit = traits.limit
  offset : query.offset = traits.offset
  count : query.count = traits.count

variable {target : Target} {query next : Query}

/-- The query with more selected expressions behind its own. -/
def select (query : Query) (selected : List (Predicate × Landing)) : Query :=
  { query with
    fields := query.fields ++ selected.mapIdx fun i => namedField (query.fields.length + i)
    landings := query.landings ++ selected.mapIdx fun i => namedLanding (query.fields.length + i) }

theorem select_nil (query : Query) : query.select [] = query := by
  rw [select, List.mapIdx_nil, List.mapIdx_nil, List.append_nil, List.append_nil]

theorem select_addField (query : Query) (expression : Predicate) (landing : Landing)
    (rest : List (Predicate × Landing)) :
    (query.addField expression landing).select rest = query.select ((expression, landing) :: rest) := by
  have hlength : ∀ i, query.fields.length + 1 + i = query.fields.length + (i + 1) := fun i => by omega
  simp only [select, length_fields_addField, List.mapIdx_cons, hlength]
  simp only [addField, namedField, namedLanding, List.append_assoc, List.singleton_append, Nat.add_zero]

theorem foldl_addColumn (query : Query) (columns : List Column) : columns.foldl addColumn query =
    query.select (columns.map fun c => (Predicate.ofParts (quoteIdentifier c.name) [], Landing.column c.name)) := by
  induction columns generalizing query with
  | nil => exact (select_nil query).symm
  | cons c rest ih => rw [List.foldl_cons, ih, addColumn, select_addField, List.map_cons]

theorem exists_select_of_addFields {list : List Json} (h : addSelection target query (.fields list) = .ok next) :
    ∃ selected, (Selection.fields list).Compiles target selected ∧ next = query.select selected := by
  induction list generalizing query with
  | nil =>
      cases h
      exact ⟨[], .nil, (select_nil _).symm⟩
  | cons field rest ih =>
      rw [addSelection, List.foldlM_cons] at h
      obtain ⟨added, hfield, h⟩ := bind_eq_ok_iff.mp h
      obtain ⟨⟨expression, landing⟩, hcompile, hfield⟩ := bind_eq_ok_iff.mp hfield
      cases hfield
      obtain ⟨selected, hselected, rfl⟩ := ih h
      exact ⟨(expression, landing) :: selected, .cons hcompile hselected, select_addField _ _ _ _⟩

/-- Fields that are accepted one by one are selected. -/
theorem addFields_of_compiles {list : List Json} {selected : List (Predicate × Landing)}
    (h : (Selection.fields list).Compiles target selected) :
    addSelection target query (.fields list) = .ok (query.select selected) := by
  rw [addSelection]
  induction h generalizing query with
  | nil => exact congrArg Except.ok (select_nil query).symm
  | @cons field compiled rest others hfield _ ih =>
      rw [List.foldlM_cons, bind_eq_ok_iff]
      refine ⟨query.addField compiled.1 compiled.2, bind_eq_ok_iff.mpr ⟨compiled, hfield, rfl⟩, ?_⟩
      rw [ih, select_addField]

theorem exists_select_of_addSelection {selection : Selection} (hkind : query.kind = target.kind)
    (h : addSelection target query selection = .ok next) :
    ∃ selected, selection.Compiles target selected ∧ next = query.select selected := by
  cases selection with
  | all =>
      cases h
      refine ⟨_, rfl, ?_⟩
      rw [← hkind]
      exact foldl_addColumn query _
  | fields list => exact exists_select_of_addFields h

/-- Entries are compiled one by one and added in their order. -/
theorem exists_of_addEntries (add : Query → Predicate → Query) {matchAny : Bool} {entries : List Json}
    (h : entries.foldlM (fun q entry => return add q (← target.compileOrder matchAny entry)) query = .ok next) :
    ∃ compiled, List.Forall₂ (fun entry p => target.compileOrder matchAny entry = .ok p) entries compiled ∧
      next = compiled.foldl add query := by
  induction entries generalizing query with
  | nil =>
      cases h
      exact ⟨[], .nil, rfl⟩
  | cons entry rest ih =>
      rw [List.foldlM_cons] at h
      obtain ⟨added, hentry, h⟩ := bind_eq_ok_iff.mp h
      obtain ⟨p, hcompile, hentry⟩ := bind_eq_ok_iff.mp hentry
      cases hentry
      obtain ⟨compiled, hcompiled, rfl⟩ := ih h
      exact ⟨p :: compiled, .cons hcompile hcompiled, rfl⟩

theorem foldl_addGroup (query : Query) (compiled : List Predicate) :
    compiled.foldl addGroup query = { query with groups := query.groups ++ compiled } := by
  induction compiled generalizing query with
  | nil => rw [List.foldl_nil, List.append_nil]
  | cons p rest ih => rw [List.foldl_cons, ih, addGroup, List.append_assoc, List.singleton_append]

theorem foldl_addOrder (query : Query) (compiled : List Predicate) :
    compiled.foldl addOrder query = { query with orders := query.orders ++ compiled } := by
  induction compiled generalizing query with
  | nil => rw [List.foldl_nil, List.append_nil]
  | cons p rest ih => rw [List.foldl_cons, ih, addOrder, List.append_assoc, List.singleton_append]

theorem addFilter_eq (query : Query) (p : Predicate) :
    query.addFilter p = { query with filters := query.filters ++ if p.isEmpty then [] else [p] } := by
  rw [addFilter]
  split
  · rw [List.append_nil]
  · rfl

/-- What traits describe is described part by part. -/
theorem describes_of_ofTraits? {filter : Json} {traits : Traits} (h : ofTraits? target filter traits = .ok query) :
    ∃ selected own, query.Describes target filter traits selected own := by
  unfold ofTraits? at h
  obtain ⟨selection, hselection, h⟩ := bind_eq_ok_iff.mp h
  obtain ⟨own, hown, h⟩ := bind_eq_ok_iff.mp h
  obtain ⟨grouped, hgrouped, h⟩ := bind_eq_ok_iff.mp h
  obtain ⟨ordered, hordered, h⟩ := bind_eq_ok_iff.mp h
  obtain ⟨selected, hselected, rfl⟩ := exists_select_of_addSelection rfl hselection
  obtain ⟨groups, hgroups, rfl⟩ := exists_of_addEntries addGroup hgrouped
  obtain ⟨orders, horders, rfl⟩ := exists_of_addEntries addOrder hordered
  rw [addFilter_eq, foldl_addGroup, foldl_addOrder] at h
  cases h
  exact ⟨selected, own, rfl, rfl, hselected, by simp [select], by simp [select], hown, rfl, hgroups, horders,
    rfl, rfl, rfl⟩

end Query

end Dossier
