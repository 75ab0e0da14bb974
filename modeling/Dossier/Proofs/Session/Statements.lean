import Dossier.Proofs.Session.Creation
import Dossier.Proofs.Session.Documents
import Dossier.Proofs.Session.Update
import Dossier.Proofs.Sql.Renumber

/-!
The statements that write records. Their placeholders count the parameters, and each column that they name has its own
value at its placeholder. A creation asks its insertion, and an update asks its modification once it has read the
record, unless no column's text would change. Main statement: `statements_written`.
-/

namespace Dossier.Session

open Sql (Dialect quoteIdentifier)

/-! ### Numbers of placeholders -/

/-- The placeholders of a statement are `$1`, `$2`, … from left to right, one for each parameter. -/
def Numbered (statement : String × List Json) : Prop :=
  Sql.placeholders statement.1 = (List.range statement.2.length).map Sql.numbered

theorem placeholders_placeholder (dialect : Dialect) (type : ColumnType) (k : Nat) :
    Sql.placeholders (placeholder dialect type (k + 1)) = [Sql.numbered k] := by
  obtain ⟨cast, hcast, heq⟩ := placeholder_eq dialect type (k + 1)
  have hplain : '$' ∉ cast.toList ∧ Sql.StopsDigits cast.toList := by
    simp only [List.mem_cons, List.not_mem_nil, or_false] at hcast
    rcases hcast with rfl | rfl | rfl
    · exact ⟨by decide, Sql.stopsDigits_nil⟩
    · exact ⟨by decide, Sql.stopsDigits_cons _ (by decide)⟩
    · exact ⟨by decide, Sql.stopsDigits_cons _ (by decide)⟩
  have htext : ("$" ++ toString (k + 1)).toList = Sql.numbered k := by
    rw [String.toList_append, Nat.toString_eq_repr, Nat.toList_repr]
    rfl
  have hscan : Sql.placeholders ("$" ++ toString (k + 1)) = [Sql.numbered k] := by
    have hrest := Sql.scan_numbered k Sql.stopsDigits_nil
    rw [List.append_nil] at hrest
    rw [Sql.placeholders, htext, hrest]
    rfl
  rw [heq, Sql.placeholders_append hplain.2, hscan, Sql.placeholders_plain hplain.1, List.append_nil]

theorem not_mem_quoted_column {kind : Kind} {c : Column} (hc : c ∈ kind.columns) :
    '$' ∉ (quoteIdentifier c.name).toList := by
  have hall : ∀ c ∈ kind.columns, '$' ∉ (quoteIdentifier c.name).toList := by cases kind <;> decide
  exact hall c hc

theorem placeholders_setting {kind : Kind} {c : Column} (hc : c ∈ kind.columns) (dialect : Dialect) (k : Nat) :
    Sql.placeholders (setting dialect c (k + 1)) = [Sql.numbered k] := by
  rw [setting, String.append_assoc, Sql.placeholders_plain_append (not_mem_quoted_column hc),
    Sql.placeholders_plain_append (by decide), placeholders_placeholder]

theorem numbered_insertion (dialect : Dialect) {kind : Kind} {row : Row} (hsome : insertedColumns kind row ≠ [])
    (hcolumns : ∀ assignment ∈ insertedColumns kind row, assignment.1 ∈ kind.columns) :
    Numbered (insertion dialect kind row) := by
  have hplain : ∀ kind : Kind, '$' ∉ ("INSERT INTO " ++ quoteIdentifier kind.table ++ " (").toList := by
    intro kind
    cases kind <;> decide
  have hnames : '$' ∉ (String.intercalate ", " (columnNames (insertedColumns kind row))).toList := by
    intro hmem
    rcases Text.mem_intercalate hmem with hmem | ⟨text, htext, hmem⟩
    · exact absurd hmem (by decide)
    · obtain ⟨assignment, hassignment, rfl⟩ := List.mem_map.mp htext
      exact not_mem_quoted_column (hcolumns assignment hassignment) hmem
  have hplaces := Sql.flatMap_placeholders
    (f := fun pair : Assignment × Nat => placeholder dialect pair.1.1.type (pair.2 + 1))
    (insertedColumns kind row) (fun assignment _ => placeholders_placeholder dialect assignment.1.type) 0
  have hbefore : '$' ∉ ("INSERT INTO " ++ quoteIdentifier kind.table ++ " (" ++
      String.intercalate ", " (columnNames (insertedColumns kind row)) ++ ") VALUES (").toList := by
    rw [String.toList_append, String.toList_append, List.mem_append, List.mem_append, not_or, not_or]
    exact ⟨⟨hplain kind, hnames⟩, by decide⟩
  rw [Numbered, insertion_eq dialect hsome, List.length_map, List.range_eq_range', ← hplaces]
  dsimp only
  rw [Sql.placeholders_append_plain (by decide) (by decide), Sql.placeholders_plain_append hbefore,
    Sql.placeholders_intercalate]
  rfl

theorem numbered_modification (dialect : Dialect) {kind : Kind} {assignments : List Assignment}
    (hcolumns : ∀ assignment ∈ assignments, assignment.1 ∈ kind.columns) (id : String) :
    Numbered (modification dialect kind assignments id) := by
  have hplain : ∀ kind : Kind, '$' ∉ ("UPDATE " ++ quoteIdentifier kind.table ++ " SET ").toList := by
    intro kind
    cases kind <;> decide
  have hsettings := Sql.flatMap_placeholders
    (f := fun pair : Assignment × Nat => setting dialect pair.1.1 (pair.2 + 1))
    assignments (fun assignment hassignment => placeholders_setting (hcolumns assignment hassignment) dialect) 0
  have hidentity : Column.identity ∈ kind.columns := by cases kind <;> decide
  rw [Numbered, modification_eq, List.length_append, List.length_map, List.length_singleton, List.range_succ,
    List.map_append, List.range_eq_range', ← hsettings, List.map_singleton]
  have hkey : Sql.StopsDigits (setting dialect Column.identity (assignments.length + 1)).toList := by
    rw [setting, String.append_assoc]
    exact Sql.stopsDigits_text _ (by decide)
  dsimp only
  rw [Sql.placeholders_append_plain (by decide) (by decide), Sql.placeholders_append hkey,
    Sql.placeholders_append_plain (by decide) (by decide), Sql.placeholders_plain_append (hplain kind),
    placeholders_setting hidentity, settingsFrom, Sql.placeholders_intercalate]

/-! ### What statements write -/

variable {kind : Kind}

/-- Of the columns of a row, the entries hold those that are admitted, each of them once and with its own value; values
of JSON columns go as their text. -/
structure Writes (kind : Kind) (row : Row) (admitted : String → Prop) (entries : Members) : Prop where
  nodup : entries.names.Nodup
  columns : ∀ name ∈ entries.names, name ∈ kind.columns.map (·.name) ∧ admitted name
  own : ∀ c ∈ kind.columns, ∀ param, entries.get? c.name = some param ↔ admitted c.name ∧
    ∃ value, row.get? c.name = some value ∧ param = if c.type = .json then .string value.text else value

theorem columnParam_eq (type : ColumnType) (value : Json) :
    columnParam type value = if type = .json then .string value.text else value := by
  cases type <;> rfl

/-- The parameters of assignments are those of the values that are assigned. -/
theorem get?_map_bound {assignments : List Assignment} (h : ∀ assignment ∈ assignments, assignment.1 ∈ kind.columns)
    {c : Column} (hc : c ∈ kind.columns) : Members.get? (assignments.map Assignment.bound) c.name =
      (Members.get? (assignments.map Assignment.member) c.name).map (columnParam c.type) := by
  induction assignments with
  | nil => rfl
  | cons assignment rest ih =>
      rw [List.map_cons, List.map_cons, Assignment.bound, Assignment.member, Members.get?, Members.get?]
      by_cases hname : assignment.1.name = c.name
      · rw [if_pos hname, if_pos hname, Assignment.param,
          Kind.eq_of_name_eq (h assignment List.mem_cons_self) hc hname, Option.map_some]
      · rw [if_neg hname, if_neg hname, ih fun other hother => h other (List.mem_cons_of_mem assignment hother)]

/-- Entries are described by what is found under the name of each column. -/
theorem writes_of_get? {row : Row} {assignments : List Assignment} {admitted : String → Prop}
    (value : Column → Option Json) (hcolumns : ∀ assignment ∈ assignments, assignment.1 ∈ kind.columns)
    (hnames : (Members.names (assignments.map Assignment.bound)).Nodup)
    (hget : ∀ c ∈ kind.columns,
      Members.get? (assignments.map Assignment.bound) c.name = (value c).map (columnParam c.type))
    (hvalue : ∀ c ∈ kind.columns, ∀ v, value c = some v ↔ admitted c.name ∧ row.get? c.name = some v) :
    Writes kind row admitted (assignments.map Assignment.bound) where
  nodup := hnames
  columns := by
    intro name hname
    obtain ⟨param, hmember⟩ := Members.mem_names_iff.mp hname
    obtain ⟨assignment, hassignment, hbound⟩ := List.mem_map.mp hmember
    obtain ⟨rfl, rfl⟩ := Prod.mk.inj hbound
    have hc := hcolumns assignment hassignment
    refine ⟨List.mem_map_of_mem hc, ?_⟩
    have hsome := Members.isSome_get?_iff.mpr hname
    rw [hget _ hc, Option.isSome_map] at hsome
    obtain ⟨v, hv⟩ := Option.isSome_iff_exists.mp hsome
    exact ((hvalue _ hc v).mp hv).1
  own := by
    intro c hc param
    rw [hget c hc, Option.map_eq_some_iff]
    constructor
    · rintro ⟨v, hv, rfl⟩
      obtain ⟨hadmitted, hrow⟩ := (hvalue c hc v).mp hv
      exact ⟨hadmitted, v, hrow, columnParam_eq c.type v⟩
    · rintro ⟨hadmitted, v, hrow, rfl⟩
      exact ⟨v, (hvalue c hc v).mpr ⟨hadmitted, hrow⟩, columnParam_eq c.type v⟩

/-- A statement inserts a record: it names the columns that the record has a value for, all but the timestamps. -/
structure Inserts (kind : Kind) (record : Members) (statement : String × List Json) : Prop where
  numbered : Numbered statement
  named : ∃ entries, named? statement.1 statement.2 = some entries ∧ statement.2 = entries.map Prod.snd ∧
    Writes kind (kind.partition record) (fun name => name ≠ "created" ∧ name ≠ "modified") entries

theorem isInserted_iff (name : String) : isInserted name = true ↔ name ≠ "created" ∧ name ≠ "modified" := by
  by_cases hid : name = identityName
  · subst hid
    decide
  · simp [isInserted, Kind.writable, hid]

theorem inserts_insertion (dialect : Dialect) (kind : Kind) {record : Members} (h : record.Sorted) :
    Inserts kind record (insertion dialect kind (kind.partition record)) := by
  have hsome : insertedColumns kind (kind.partition record) ≠ [] := insertedColumns_partition_ne_nil record
  have hcolumns : ∀ assignment ∈ insertedColumns kind (kind.partition record), assignment.1 ∈ kind.columns :=
    fun _ => mem_columns_of_insertedColumns
  refine ⟨numbered_insertion dialect hsome hcolumns, _, named?_insertion dialect hsome hcolumns, ?_, ?_⟩
  · rw [insertion_eq dialect hsome, List.map_map]
    rfl
  · refine writes_of_get? _ hcolumns ((sorted_bound (Kind.sorted_partition h)).imp ne_of_lt)
      (fun c hc => get?_bound hc (kind.partition record)) fun c hc v => ?_
    rw [Option.ite_none_right_eq_some, isInserted_iff]

/-- A column may be written, and its text is another once the record is overlaid with changes. -/
def Differs (kind : Kind) (current changes : Members) (name : String) : Prop :=
  Kind.writable name = true ∧ (Members.get? (kind.partition current) name).map Json.text ≠
    (Members.get? (kind.partition (overlay current changes)) name).map Json.text

/-- A statement updates a record: it sets the columns that differ, and the identity, bound last, is what the record is
found by. -/
structure Updates (kind : Kind) (current changes : Members) (id : String) (statement : String × List Json) : Prop where
  numbered : Numbered statement
  modified : ∃ settings, modified? statement.1 statement.2 = some (settings, [(identityName, .string id)]) ∧
    statement.2 = settings.map Prod.snd ++ [.string id] ∧
    Writes kind (kind.partition (overlay current changes)) (Differs kind current changes) settings

variable {current changes : Members}

/-- An overlaid record has a value in each column that the record has one in. -/
theorem get?_partition_overlay (h : changes.Sorted) {name : String} (hname : name ∈ kind.columns.map (·.name))
    (hnone : Members.get? (kind.partition (overlay current changes)) name = none) :
    Members.get? (kind.partition current) name = none := by
  rcases Kind.eq_payload_or_isReserved hname with rfl | hreserved
  · rw [Kind.get?_partition_payload] at hnone
    cases hnone
  · rw [Kind.get?_partition_of_isReserved _ hreserved] at hnone ⊢
    rw [get?_overlay h] at hnone
    exact (Option.or_eq_none_iff.mp hnone).2

theorem changed?_eq_none_iff {name : String} :
    changed? (kind.partition current) (kind.partition (overlay current changes)) name = none ↔
      ¬Differs kind current changes name := by
  rw [changed?, Differs, not_and_or, Bool.not_eq_true, not_not]
  simp only [ite_eq_left_iff, reduceCtorEq, imp_false, not_not, Bool.or_eq_true, Bool.not_eq_true', beq_iff_eq]

/-- A column is assigned exactly if it differs, to the value that it has in the overlaid record. -/
theorem changed?_eq_some_iff (h : changes.Sorted) {c : Column} (hc : c ∈ kind.columns) (value : Json) :
    changed? (kind.partition current) (kind.partition (overlay current changes)) c.name = some value ↔
      Differs kind current changes c.name ∧
        Members.get? (kind.partition (overlay current changes)) c.name = some value := by
  by_cases hdiffer : Differs kind current changes c.name
  · have hsome := mt changed?_eq_none_iff.mp (not_not.mpr hdiffer)
    rw [and_iff_right hdiffer]
    cases hafter : Members.get? (kind.partition (overlay current changes)) c.name with
    | none =>
        -- a value that is missing now was missing before, and then no text differs
        have hbefore := get?_partition_overlay h (List.mem_map_of_mem hc) hafter
        exact absurd (by rw [hafter, hbefore]) hdiffer.2
    | some next =>
        rw [changed?, hafter] at hsome ⊢
        rw [if_neg fun hsame => hsome (if_pos hsame)]
        rfl
  · rw [changed?_eq_none_iff.mpr hdiffer]
    exact iff_of_false (fun hnone => by cases hnone) fun hboth => hdiffer hboth.1

/-- What an update assigns to the columns of the record that it found. -/
abbrev differences (kind : Kind) (current changes : Members) : List Assignment :=
  changedColumns kind (kind.partition current) (kind.partition (overlay current changes))

theorem mem_columns_of_differences {assignment : Assignment} (h : assignment ∈ differences kind current changes) :
    assignment.1 ∈ kind.columns := by
  rw [differences, changedColumns_eq] at h
  obtain ⟨c, hc, hstep⟩ := List.mem_filterMap.mp h
  obtain ⟨value, -, rfl⟩ := Option.map_eq_some_iff.mp hstep
  exact hc

theorem differences_eq_nil_iff :
    differences kind current changes = [] ↔ ∀ c ∈ kind.columns, ¬Differs kind current changes c.name := by
  rw [differences, changedColumns_eq, List.filterMap_eq_nil_iff]
  refine forall₂_congr fun c _ => ?_
  rw [Option.map_eq_none_iff, changed?_eq_none_iff]

theorem updates_modification (dialect : Dialect) (h : changes.Sorted) (hsome : differences kind current changes ≠ [])
    (id : String) :
    Updates kind current changes id (modification dialect kind (differences kind current changes) id) := by
  have hcolumns : ∀ assignment ∈ differences kind current changes, assignment.1 ∈ kind.columns :=
    fun _ => mem_columns_of_differences
  let change := changed? (kind.partition current) (kind.partition (overlay current changes))
  have hmembers : (differences kind current changes).map Assignment.member = columnSettings change kind.columns := by
    rw [differences, changedColumns_eq, columnSettings]
  have hnames : Members.names ((differences kind current changes).map Assignment.bound) =
      Members.names (columnSettings change kind.columns) := by
    rw [← hmembers, Members.names, Members.names, List.map_map, List.map_map]
    rfl
  refine ⟨numbered_modification dialect hcolumns id, _, modified?_modification dialect hsome hcolumns id, ?_, ?_⟩
  · rw [List.map_map]
    rfl
  · refine writes_of_get? (fun c => change c.name) hcolumns ?_ (fun c hc => ?_) fun c hc v => ?_
    · rw [hnames]
      exact kind.nodup_columns.sublist (names_columnSettings_sublist change kind.columns)
    · rw [get?_map_bound hcolumns hc, hmembers, get?_columnSettings, if_pos (List.mem_map_of_mem hc)]
    · exact changed?_eq_some_iff h hc v

/-! ### Runs -/

variable {s : Session}

/-- What follows a query, and keeps to results and caches, asks nothing more. -/
theorem queries_query_bind {α : Type} (operation : Operation) (sql : String) (params : List Json)
    {rest : List Row → Work α} (hrest : ∀ rows, Respects SameCourse (rest rows)) (hactive : s.phase = .active) :
    ((query operation sql params >>= rest).run s).2.queries = s.queries ++ [(sql, params)] := by
  have hasked := queries_query operation sql params hactive
  rw [run_bind]
  rcases hrun : (query operation sql params).run s with ⟨answer, next⟩
  rw [hrun] at hasked
  cases answer with
  | error fault => exact hasked
  | ok rows => exact (hrest rows next).queries.trans hasked

/-- The record of the row that storage gave is kept and added to the queue. -/
theorem respects_keep (kind : Kind) (rows : List Row) : Respects SameCourse (do
    let written := (← attempt (firstRecord kind rows)).getD .null
    remember written
    push written
    return written : Work Json) :=
  .bind (fun _ _ _ => .trans) .refl fun _ => .bind (fun _ _ _ => .trans) (sameCourse_remember _) fun _ =>
    .bind (fun _ _ _ => .trans) (.change fun _ => ⟨rfl, rfl, rfl, rfl, rfl, rfl, rfl, rfl, rfl, rfl⟩) fun _ => .refl

theorem queries_create (kind : Kind) (record : Members) :
    ((create kind (.object record)).run s).2.queries = s.queries ++
      if s.phase = .active then [insertion s.settings.dialect kind (kind.partition record)] else [] := by
  split
  · rename_i hactive
    rw [run_create rfl]
    exact queries_query_bind .create _ _ (respects_keep kind) hactive
  · rename_i hactive
    obtain ⟨fault, hrun⟩ := refuses_create (bne_iff_ne.mpr hactive) kind (.object record)
    rw [hrun, List.append_nil]

theorem queries_writeChanges {id : String} {before after : Row} (hactive : s.phase = .active)
    (hsome : changedColumns kind before after ≠ []) :
    ((writeChanges kind id before after).run s).2.queries =
      s.queries ++ [modification s.settings.dialect kind (changedColumns kind before after) id] := by
  unfold writeChanges
  split
  · rename_i hnone
    exact absurd hnone hsome
  · rw [run_bind, run_get]
    exact queries_query_bind .update _ _ (respects_keep kind) hactive

theorem composes_of_select_ok {target : Target} {filter : Json} {traits : Traits} {records : List Json}
    (h : ((select target filter traits).run s).1 = .ok records) :
    s.phase = .active ∧ ∃ built statement, Composes target filter traits built statement := by
  constructor
  · by_contra hactive
    obtain ⟨fault, hrun⟩ := refuses_select (bne_iff_ne.mpr hactive) target filter traits
    rw [hrun] at h
    cases h
  · unfold select at h
    obtain ⟨built, hbuilt, hrest⟩ := run_bind_ok h
    rw [hrest] at h
    obtain ⟨statement, hstatement, -⟩ := run_bind_ok h
    refine ⟨built, statement, ?_, hstatement⟩
    rw [run_attempt] at hbuilt
    cases hquery : Query.ofTraits? target filter traits with
    | ok query =>
        rw [hquery] at hbuilt
        cases hbuilt
        rfl
    | error fault =>
        rw [hquery] at hbuilt
        cases hbuilt

/-- A record that is found was read by one statement. -/
theorem queries_find {next : Session} {id : String} {found : Option Json}
    (h : (find kind id).run s = (.ok found, next)) :
    ∃ built statement, Composes (s.targetOf kind Schema.empty) (.object [("$id", .string id)]) single built statement ∧
      next.queries = s.queries ++ [(statement.sql, statement.params)] := by
  have hselect : (find kind id).run s =
      (select (s.targetOf kind Schema.empty) (.object [("$id", .string id)]) single >>=
        fun records => pure records.head?).run s := rfl
  have hok : ((find kind id).run s).1 = .ok found := by rw [h]
  rw [hselect] at hok h
  obtain ⟨records, hrecords, -⟩ := run_bind_ok hok
  obtain ⟨hactive, built, statement, hcomposes⟩ := composes_of_select_ok hrecords
  refine ⟨built, statement, hcomposes, ?_⟩
  rw [← queries_select hactive hcomposes, ← run_bind_pure _ List.head?, h]

/-- A record is found by the identity in the changes to it. -/
structure Finds (s : Session) (kind : Kind) (changes : Members) (id : String) (current : Members) (next : Session) :
    Prop where
  identity : changes.get? identityName = some (.string id)
  found : (find kind id).run s = (.ok (some (.object current)), next)

/-- An update that does not find its record fails, and asks nothing but to find it. -/
theorem update_cases (s : Session) (kind : Kind) (changes : Members) :
    (∃ id current next, s.Finds kind changes id current next) ∨
      ∃ fault next, (update kind (.object changes)).run s = (.error fault, next) ∧
        (next = s ∨ ∃ id, next = ((find kind id).run s).2) := by
  unfold update
  rw [run_bind, run_attempt]
  dsimp only [asObject]
  split
  · exact .inr ⟨_, s, rfl, .inl rfl⟩
  · rename_i id hbind
    rw [run_bind]
    rcases hrun : (find kind id).run s with ⟨answer, next⟩
    have hnext : next = ((find kind id).run s).2 := by rw [hrun]
    rcases answer with fault | found
    · exact .inr ⟨fault, next, rfl, .inr ⟨id, hnext⟩⟩
    · rcases found with _ | record
      · exact .inr ⟨_, next, rfl, .inr ⟨id, hnext⟩⟩
      · cases record with
        | object current =>
            obtain ⟨value, hget, hvalue⟩ := Option.bind_eq_some_iff.mp hbind
            obtain rfl : value = .string id := by
              cases value <;> cases hvalue
              rfl
            exact .inl ⟨id, current, next, hget, hrun⟩
        | _ => exact .inr ⟨_, next, rfl, .inr ⟨id, hnext⟩⟩

/-- **Writes ask what they are meant to.** On an open session the creation of a record asks its insertion, and nothing
more. An update reads the record that it changes by one statement; if columns differ, it then asks the modification that
sets them, and if none does, it leaves storage alone. An update that does not find its record asks nothing but to find
it. -/
theorem statements_written (kind : Kind) (s : Session) {record : Members} (h : record.Sorted) :
    let created := ((create kind (.object record)).run s).2
    let updated := ((update kind (.object record)).run s).2
    (∃ statement, Inserts kind record statement ∧
      created.queries = s.queries ++ if s.phase = .active then [statement] else []) ∧
    (∀ id current next, s.Finds kind record id current next →
      (∃ built read, Composes (s.targetOf kind Schema.empty) (.object [("$id", .string id)]) single built read ∧
        next.queries = s.queries ++ [(read.sql, read.params)]) ∧
      ((∃ c ∈ kind.columns, Differs kind current record c.name) → ∃ statement,
        Updates kind current record id statement ∧ updated.queries = next.queries ++ [statement]) ∧
      ((∀ c ∈ kind.columns, ¬Differs kind current record c.name) → updated.connection = next.connection)) ∧
    ((¬∃ id current next, s.Finds kind record id current next) →
      updated = s ∨ ∃ id, updated = ((find kind id).run s).2) := by
  intro created updated
  refine ⟨⟨_, inserts_insertion s.settings.dialect kind h, queries_create kind record⟩,
    fun id current next hfinds => ⟨queries_find hfinds.found, fun ⟨c, hc, hdiffers⟩ => ?_, fun hnone => ?_⟩,
    fun hnone => ?_⟩
  · have hsome : differences kind current record ≠ [] := fun hnil => differences_eq_nil_iff.mp hnil c hc hdiffers
    refine ⟨_, updates_modification next.settings.dialect h hsome id, ?_⟩
    dsimp only [updated]
    rw [run_update hfinds.identity hfinds.found]
    exact queries_writeChanges (phase_of_find_ok hfinds.found) hsome
  · dsimp only [updated]
    rw [run_update hfinds.identity hfinds.found]
    exact connection_writeChanges (differences_eq_nil_iff.mpr hnone)
  · obtain hfinds | ⟨fault, next, hrun, hnext⟩ := update_cases s kind record
    · exact absurd hfinds hnone
    · dsimp only [updated]
      rwa [hrun]

/-- A document is renamed: one statement reads it, one sets its payload. To create it takes one statement. -/
theorem statements_written_rename :
    let changes : Members := [("id", .string "d1"), ("name", .string "Bea")]
    let created := ((create .document (.object changes)).run nameSession).2
    let updated := ((update .document (.object changes)).run nameSession).2
    changes.Sorted ∧
      (∃ statement, Inserts .document changes statement ∧ created.queries = [statement]) ∧
      ∃ next statement, nameSession.Finds .document changes "d1" (Kind.document.flatten nameRow) next ∧
        Differs .document (Kind.document.flatten nameRow) changes "content" ∧
        Updates .document (Kind.document.flatten nameRow) changes "d1" statement ∧
        updated.queries = next.queries ++ [statement] := by
  intro changes created updated
  have hsorted : changes.Sorted := by decide
  obtain ⟨next, hfound⟩ := find_nameRow
  have hfinds : nameSession.Finds .document changes "d1" (Kind.document.flatten nameRow) next := ⟨rfl, hfound⟩
  have hdiffers : Differs .document (Kind.document.flatten nameRow) changes "content" := ⟨by decide, by decide⟩
  obtain ⟨hinserts, hupdates, -⟩ := statements_written .document nameSession hsorted
  obtain ⟨-, hwrites, -⟩ := hupdates "d1" _ next hfinds
  obtain ⟨statement, hstatement, hqueries⟩ := hwrites ⟨⟨"content", .json⟩, by decide, hdiffers⟩
  exact ⟨hsorted, hinserts, next, statement, hfinds, hdiffers, hstatement, hqueries⟩

end Dossier.Session
