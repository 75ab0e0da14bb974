import Dossier.Proofs.Record.Columns
import Dossier.Proofs.Session.Reading
import Dossier.Proofs.Session.Work
import Dossier.Session.Records
import Mathlib

/-!
Creation of records. A record is partitioned into columns, each column that may be written is bound to a
parameter, and the row that storage gives back is decoded and flattened. Main statement: a record whose row
comes back as it was written is what its creation gives.
-/

namespace Dossier.Session

open Sql (Dialect)

variable {kind : Kind} {record : Members}

/-! ### What is written -/

/-- The columns that an insertion may set. -/
def isInserted (name : String) : Bool := Kind.writable name || name == identityName

/-- The column that an attribute of a row is assigned to. -/
def assignee? (kind : Kind) (name : String) : Option Column :=
  if isInserted name then kind.columns.find? (·.name == name) else none

theorem assignee?_eq_some_iff {name : String} {c : Column} :
    assignee? kind name = some c ↔ c ∈ kind.columns ∧ c.name = name ∧ isInserted name = true := by
  unfold assignee?
  constructor
  · intro h
    split at h
    · rename_i hinserted
      have hname := List.find?_some h
      exact ⟨List.mem_of_find?_eq_some h, eq_of_beq hname, hinserted⟩
    · cases h
  · rintro ⟨hc, rfl, hinserted⟩
    rw [if_pos hinserted]
    cases hfind : kind.columns.find? (·.name == c.name) with
    | none => exact absurd (beq_self_eq_true c.name) (List.find?_eq_none.mp hfind c hc)
    | some d =>
        have hname := List.find?_some hfind
        rw [Kind.eq_of_name_eq (List.mem_of_find?_eq_some hfind) hc (eq_of_beq hname)]

theorem insertedColumns_eq (row : Row) :
    insertedColumns kind row = row.filterMap fun member => (assignee? kind member.1).map (·, member.2) := by
  unfold insertedColumns assignee?
  congr 1
  funext member
  change (if isInserted member.1 then _ else none) = _
  split <;> rfl

/-- The column's name with the parameter that is bound for it. -/
def Assignment.bound (assignment : Assignment) : String × Json := (assignment.1.name, assignment.param)

theorem bound_cons (name : String) (value : Json) (row : Row) :
    (insertedColumns kind ((name, value) :: row)).map Assignment.bound =
      ((assignee? kind name).map fun c => (name, columnParam c.type value)).toList ++
        (insertedColumns kind row).map Assignment.bound := by
  rw [insertedColumns_eq, insertedColumns_eq, List.filterMap_cons]
  cases hassignee : assignee? kind name with
  | none => rfl
  | some c =>
      rw [← (assignee?_eq_some_iff.mp hassignee).2.1]
      rfl

theorem mem_columns_of_insertedColumns {row : Row} {assignment : Assignment}
    (h : assignment ∈ insertedColumns kind row) : assignment.1 ∈ kind.columns := by
  rw [insertedColumns_eq] at h
  obtain ⟨member, -, hstep⟩ := List.mem_filterMap.mp h
  obtain ⟨c, hassignee, rfl⟩ := Option.map_eq_some_iff.mp hstep
  exact (assignee?_eq_some_iff.mp hassignee).1

/-- Columns are assigned in the order of the row. -/
theorem names_bound_sublist (row : Row) :
    (Members.names ((insertedColumns kind row).map Assignment.bound)).Sublist row.names := by
  induction row with
  | nil => exact .slnil
  | cons member row ih =>
      obtain ⟨name, value⟩ := member
      rw [bound_cons]
      cases assignee? kind name with
      | none => exact ih.cons name
      | some c => exact ih.cons_cons name

theorem sorted_bound {row : Row} (h : row.Sorted) :
    Members.Sorted ((insertedColumns kind row).map Assignment.bound) := h.sublist (names_bound_sublist row)

/-- A column that may be set is bound to the parameter for its value. -/
theorem get?_bound {c : Column} (hc : c ∈ kind.columns) (row : Row) :
    Members.get? ((insertedColumns kind row).map Assignment.bound) c.name =
      (if isInserted c.name then Members.get? row c.name else none).map (columnParam c.type) := by
  induction row with
  | nil => cases isInserted c.name <;> rfl
  | cons member row ih =>
      obtain ⟨name, value⟩ := member
      rw [bound_cons, Members.get?]
      by_cases hname : name = c.name
      · subst hname
        rw [if_pos rfl]
        cases hinserted : isInserted c.name with
        | false =>
            have hnone : assignee? kind c.name = none := by
              rw [assignee?, hinserted]
              rfl
            rw [hnone]
            rw [hinserted] at ih
            exact ih
        | true =>
            rw [assignee?_eq_some_iff.mpr ⟨hc, rfl, hinserted⟩]
            exact if_pos rfl
      · rw [if_neg hname, ← ih]
        cases assignee? kind name with
        | none => rfl
        | some d => exact if_neg hname

/-- The written row has the parameters of the columns that may be set, and nothing else. -/
theorem fills_bound {row : Row} (h : row.Sorted) :
    kind.Fills ((insertedColumns kind row).map Assignment.bound) fun c =>
      (if isInserted c.name then Members.get? row c.name else none).map (columnParam c.type) where
  sorted := sorted_bound h
  columns := fun c hc => get?_bound hc row
  others := by
    intro name hname
    rw [Members.get?_eq_none_iff]
    intro hmem
    obtain ⟨value, hmember⟩ := Members.mem_names_iff.mp hmem
    obtain ⟨assignment, hassignment, hbound⟩ := List.mem_map.mp hmember
    cases hbound
    exact hname (List.mem_map.mpr ⟨_, mem_columns_of_insertedColumns hassignment, rfl⟩)

/-- A stored row has a payload, which is inserted with it. -/
theorem insertedColumns_partition_ne_nil (record : Members) : insertedColumns kind (kind.partition record) ≠ [] := by
  intro hnil
  have hpayload := get?_bound kind.payloadColumn_mem (kind.partition record)
  rw [hnil, isInserted, kind.writable_payload, Bool.true_or, if_pos rfl, Kind.get?_partition_payload] at hpayload
  cases hpayload

/-! ### What is read back -/

/-- A value is read back from its parameter if its JSON text is. -/
theorem decoded?_columnParam {c : Column} {value : Json}
    (h : c.type = .json → Json.ofText? value.text = some value) :
    c.decoded? (columnParam c.type value) = some value := by
  by_cases hjson : c.type = .json
  · rw [hjson, columnParam, Column.decoded?, if_pos hjson, h hjson]
  · have hparam : columnParam c.type value = value := by
      cases htype : c.type with
      | json => exact absurd htype hjson
      | _ => rfl
    rw [hparam, Column.decoded?_of_ne_json hjson]

/-- A flat record of which creation drops nothing: no attribute is named like the payload column, and none is
a timestamp of the kind. -/
structure Creatable (kind : Kind) (record : Members) : Prop where
  sorted : record.Sorted
  free : kind.payload ∉ record.names
  timeless : ∀ name ∈ ["created", "modified"], kind.isReserved name = true → name ∉ record.names

/-- The values that are written as JSON text are read back from it. -/
def ReadsBack (kind : Kind) (record : Members) : Prop :=
  ∀ c ∈ kind.columns, c.type = .json → ∀ value, Members.get? (kind.partition record) c.name = some value →
    Json.ofText? value.text = some value

theorem Creatable.get?_partition (h : Creatable kind record) {name : String} (hname : kind.isReserved name = true) :
    (if isInserted name then Members.get? (kind.partition record) name else none) = record.get? name := by
  rw [Kind.get?_partition_of_isReserved record hname]
  split
  · rfl
  · rename_i hnot
    rw [isInserted, Kind.writable] at hnot
    have htimestamp : name ∈ ["created", "modified"] := by
      by_cases hcreated : name = "created"
      · exact hcreated ▸ List.mem_cons_self
      · by_cases hmodified : name = "modified"
        · exact hmodified ▸ List.mem_cons_of_mem _ List.mem_cons_self
        · by_cases hid : name = identityName <;> simp [hcreated, hmodified, hid] at hnot
    exact (Members.get?_eq_none_iff.mpr (h.timeless name htimestamp hname)).symm

theorem Creatable.get?_gathered (h : Creatable kind record) {name : String} (hname : kind.isReserved name = false) :
    (kind.gathered record).get? name = record.get? name := by
  have hfree := Members.get?_eq_none_iff.mpr h.free
  rw [Kind.get?_gathered h.sorted, hname, if_neg Bool.false_ne_true, Kind.explicit, hfree]
  by_cases hself : name = kind.payload
  · rw [if_pos hself, hself, hfree]
    rfl
  · rw [if_neg hself]
    exact Option.or_none

/-- The row as it was written is decoded and flattened to the record. -/
theorem firstRecord_bound (h : Creatable kind record) (hreads : ReadsBack kind record) :
    firstRecord kind [(insertedColumns kind (kind.partition record)).map Assignment.bound] =
      .ok (some (.object record)) := by
  let value (c : Column) : Option Json :=
    if isInserted c.name then Members.get? (kind.partition record) c.name else none
  have hbound : kind.Fills _ fun c => (value c).map (columnParam c.type) :=
    fills_bound (Kind.sorted_partition h.sorted)
  have hback : ∀ c ∈ kind.columns, ∀ v, value c = some v → c.decoded? (columnParam c.type v) = some v := by
    intro c hc v hv
    obtain ⟨-, hget⟩ := Option.ite_none_right_eq_some.mp hv
    exact decoded?_columnParam fun hjson => hreads c hc hjson v hget
  obtain ⟨decoded, hdecode, hdecoded⟩ := hbound.exists_decoded fun c hc param hparam => by
    obtain ⟨v, hv, rfl⟩ := Option.map_eq_some_iff.mp hparam
    rw [hback c hc v hv]
    rfl
  have hfills : kind.Fills decoded value := by
    refine ⟨hdecoded.sorted, fun c hc => ?_, hdecoded.others⟩
    rw [hdecoded.columns c hc]
    cases hv : value c with
    | none => rfl
    | some v => exact hback c hc v hv
  have hpayload : value ⟨kind.payload, .json⟩ = some (.object (kind.gathered record)) := by
    have hinserted : isInserted kind.payload = true := by rw [isInserted, kind.writable_payload, Bool.true_or]
    exact (if_pos hinserted).trans (Kind.get?_partition_payload kind record)
  have hstored : Members.get? decoded kind.payload = some (.object (kind.gathered record)) :=
    (hfills.columns ⟨kind.payload, .json⟩ kind.payloadColumn_mem).trans hpayload
  have hflat : kind.flatten decoded = record := by
    refine (Kind.sorted_flatten hfills.sorted hstored).ext h.sorted fun name => ?_
    rw [hfills.get?_flatten hpayload]
    cases hreserved : kind.isReserved name with
    | true =>
        obtain ⟨c, hc, rfl⟩ := List.mem_map.mp (Kind.mem_columns_of_isReserved hreserved)
        exact (hfills.columns c hc).trans (h.get?_partition hreserved)
    | false => exact h.get?_gathered hreserved
  rw [firstRecord, hdecode]
  exact congrArg (fun flat => Except.ok (some (Json.object flat))) hflat

/-! ### Runs -/

/-- Keeping a record and adding it to the queue never fails. -/
theorem run_keep (created : Json) (s : Session) :
    ∃ next, (do
      remember created
      push created
      return created : Work Json).run s = (.ok created, next) := by
  unfold remember
  split <;> exact ⟨_, rfl⟩

theorem run_create {s : Session} {sql : String} {params : List Json}
    (hstatement : insertion s.settings.dialect kind (kind.partition record) = (sql, params)) :
    (create kind (.object record)).run s = (do
      let rows ← query .create sql params
      let created := (← attempt (firstRecord kind rows)).getD .null
      remember created
      push created
      return created : Work Json).run s := by
  unfold create
  rw [run_bind, run_attempt]
  dsimp only [asObject]
  rw [run_bind, run_get]
  dsimp only
  rw [hstatement]

/-- **Created records come back.** Where storage answers an insertion with the row that it asks for, a record
comes back from its creation exactly as it is, in either dialect and for every kind, provided that the session
is open and outlasts the call. -/
theorem create_eq_record_iff {s : Session} (h : Creatable kind record) (hreads : ReadsBack kind record)
    (hanswer : let statement := insertion s.settings.dialect kind (kind.partition record)
      ∀ row, inserted? statement.1 statement.2 = some row →
        (s.perform (.query statement.1 statement.2)).1 = .ok [row]) :
    let statement := insertion s.settings.dialect kind (kind.partition record)
    ((create kind (.object record)).run s).1 = .ok (.object record) ↔
      s.Outlasts (.query statement.1 statement.2) := by
  have hwritten : inserted? (insertion s.settings.dialect kind (kind.partition record)).1
      (insertion s.settings.dialect kind (kind.partition record)).2 =
        some ((insertedColumns kind (kind.partition record)).map Assignment.bound) := by
    rw [inserted?_insertion s.settings.dialect (insertedColumns_partition_ne_nil record)
      fun _ => mem_columns_of_insertedColumns]
    exact congrArg some (Members.ofList_of_sorted (sorted_bound (Kind.sorted_partition h.sorted)))
  rcases hstatement : insertion s.settings.dialect kind (kind.partition record) with ⟨sql, params⟩
  rw [hstatement] at hanswer hwritten
  rw [run_create hstatement, run_bind]
  dsimp only
  obtain ⟨hlasts, next, hquery⟩ | ⟨hover, fault, next, hquery⟩ := query_cases .create (hanswer _ hwritten)
  · rw [hquery]
    dsimp only
    rw [run_bind, run_attempt, firstRecord_bound h hreads]
    dsimp only [Option.getD_some]
    obtain ⟨kept, hkept⟩ := run_keep (.object record) next
    rw [hkept]
    exact iff_of_true rfl hlasts
  · rw [hquery]
    exact iff_of_false nofun hover

theorem create_eq_record_iff_schema :
    let record : Members :=
      [("age", .nat 36), ("id", .string "t1"), ("name", .string "T"), ("schema", .object [("a", .bool true)])]
    let stored : Row := [("id", .string "t1"), ("meta", .string "\x7b\"age\":36\x7d"), ("name", .string "T"),
      ("schema", .string "\x7b\"a\":true\x7d")]
    let s := opened { Settings.default with dialect := .postgres } (.ofBackend (.scripted [.ok [stored]])) true
    let statement := insertion s.settings.dialect .type (Kind.type.partition record)
    Creatable .type record ∧ ReadsBack .type record ∧
      (∀ row, inserted? statement.1 statement.2 = some row →
        (s.perform (.query statement.1 statement.2)).1 = .ok [row]) ∧
      ((create .type (.object record)).run s).1 = .ok (.object record) := by
  intro record stored s statement
  have h : Creatable .type record := ⟨by decide, by decide, by decide⟩
  have hreads : ReadsBack .type record := by
    intro c hc hjson value hget
    simp only [Kind.columns, Kind.reserved, List.cons_append, List.nil_append, List.mem_cons, List.not_mem_nil,
      or_false] at hc
    rcases hc with rfl | rfl | rfl | rfl | rfl | rfl
    · cases hjson
    · cases hjson
    · cases hjson
    · cases hjson
    · change some (Json.object [("a", .bool true)]) = some value at hget
      cases hget
      cbv
    · change some (Json.object [("age", .nat 36)]) = some value at hget
      cases hget
      cbv
  have hanswer : ∀ row, inserted? statement.1 statement.2 = some row →
      (s.perform (.query statement.1 statement.2)).1 = .ok [row] := by
    intro row hrow
    have hinserted : inserted? statement.1 statement.2 = some stored := by cbv
    cases hinserted.symm.trans hrow
    rfl
  have hlasts : s.Outlasts (.query statement.1 statement.2) := ⟨rfl, by cbv⟩
  exact ⟨h, hreads, hanswer, (create_eq_record_iff h hreads hanswer).mpr hlasts⟩

end Dossier.Session
