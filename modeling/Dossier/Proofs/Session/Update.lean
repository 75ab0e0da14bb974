import Dossier.Proofs.Json.Texts
import Dossier.Proofs.Record.Partition
import Dossier.Proofs.Session.Ledger

/-!
Updates. The record found in storage is flattened, overlaid with the changes and partitioned again, and the
columns whose text differs are written. Main statement: what an update writes, and the row it leaves behind.
-/

namespace Dossier.Session

variable {kind : Kind} {stored payload changes : Members}

/-! ### Assigned columns -/

theorem get?_overlay (h : changes.Sorted) (current : Members) (name : String) :
    (overlay current changes).get? name = (changes.get? name).or (current.get? name) :=
  Members.foldl_insert (h.imp ne_of_lt) current name

theorem sorted_overlay {current : Members} (h : current.Sorted) (changes : Members) :
    (overlay current changes).Sorted := Members.sorted_foldl_insert changes h

/-- The column's name with the value assigned to it. -/
def Assignment.member (assignment : Assignment) : String × Json := (assignment.1.name, assignment.2)

/-- The row that assignments leave behind: a column without one keeps what is stored. -/
def assigned (stored : Row) (assignments : List Assignment) : Row :=
  overlay stored (assignments.map Assignment.member)

/-- What a column is set to, if its text differs between two rows and it may be written. -/
def changed? (before after : Row) (name : String) : Option Json :=
  if !Kind.writable name || (Members.get? before name).map Json.text == (Members.get? after name).map Json.text
  then none else some ((Members.get? after name).getD .null)

theorem changedColumns_eq (before after : Row) :
    changedColumns kind before after =
      kind.columns.filterMap fun column => (changed? before after column.name).map (column, ·) := by
  unfold changedColumns changed?
  congr 1
  funext column
  dsimp only
  split <;> rfl

/-- Settings of some columns, each under the column's name. -/
def columnSettings (f : String → Option Json) (columns : List Column) : Members :=
  (columns.filterMap fun column => (f column.name).map (column, ·)).map Assignment.member

theorem columnSettings_cons (f : String → Option Json) (column : Column) (columns : List Column) :
    columnSettings f (column :: columns) =
      ((f column.name).map (column.name, ·)).toList ++ columnSettings f columns := by
  unfold columnSettings
  rw [List.filterMap_cons]
  cases f column.name <;> rfl

theorem get?_columnSettings (f : String → Option Json) (columns : List Column) (name : String) :
    (columnSettings f columns).get? name = if name ∈ columns.map (·.name) then f name else none := by
  induction columns with
  | nil => rfl
  | cons column columns ih =>
      rw [columnSettings_cons]
      simp only [List.map_cons, List.mem_cons]
      by_cases hname : name = column.name
      · subst hname
        cases hf : f column.name with
        | none => simp [ih, hf]
        | some value => simp [Members.get?]
      · cases hf : f column.name with
        | none => simp [ih, hname]
        | some value => simp [Members.get?, ih, hname, Ne.symm hname]

theorem names_columnSettings_sublist (f : String → Option Json) (columns : List Column) :
    (columnSettings f columns).names.Sublist (columns.map (·.name)) := by
  induction columns with
  | nil => exact .slnil
  | cons column columns ih =>
      rw [columnSettings_cons]
      cases f column.name with
      | none => exact ih.cons _
      | some value => exact ih.cons_cons _

theorem get?_assigned (before after : Row) (name : String) :
    (assigned stored (changedColumns kind before after)).get? name =
      (if name ∈ kind.columns.map (·.name) then changed? before after name else none).or (stored.get? name) := by
  have hsettings : (changedColumns kind before after).map Assignment.member =
      columnSettings (changed? before after) kind.columns := by rw [changedColumns_eq, columnSettings]
  rw [assigned, hsettings, ← get?_columnSettings]
  exact Members.foldl_insert (kind.nodup_columns.sublist (names_columnSettings_sublist _ _)) stored name

/-- A column that may be written has its new value, or keeps the stored one because the texts are the same. -/
theorem get?_assigned_cases (stored : Row) {before after : Row} {name : String}
    (hcolumn : name ∈ kind.columns.map (·.name)) (hwritable : Kind.writable name = true)
    (hkept : after.get? name = none → before.get? name = none) :
    (assigned stored (changedColumns kind before after)).get? name = after.get? name ∨
      (assigned stored (changedColumns kind before after)).get? name = stored.get? name ∧
        (before.get? name).map Json.text = (after.get? name).map Json.text := by
  rw [get?_assigned, if_pos hcolumn, changed?, hwritable]
  by_cases hsame : (before.get? name).map Json.text = (after.get? name).map Json.text
  · exact .inr ⟨by simp [hsame], hsame⟩
  · refine .inl ?_
    rw [if_neg (by simpa using hsame), Option.some_or]
    cases hafter : after.get? name with
    | none => exact absurd (by rw [hafter, hkept hafter]) hsame
    | some value => rfl

/-! ### What the columns hold -/

/-- What an update assigns to the columns of a stored row. -/
def updates (kind : Kind) (stored changes : Members) : List Assignment :=
  changedColumns kind (kind.partition (kind.flatten stored))
    (kind.partition (overlay (kind.flatten stored) changes))

/-- A row is the stored one overlaid with changes, up to the text of columns and attributes. Writable columns
take what the changes give them. In the payload, loose changes win over what is stored, and what is stored
wins over what the changes give inside of a payload object. -/
structure Overlaid (kind : Kind) (stored payload changes row : Members) : Prop where
  column : ∀ name, kind.isReserved name = true → (row.get? name).map Json.text =
    ((if Kind.writable name then changes.get? name else none).or (stored.get? name)).map Json.text
  payload : ∃ held : Members, row.get? kind.payload = some (.object held) ∧ ∀ name, kind.isReserved name = false →
    (held.get? name).map Json.text = ((Members.get? (kind.looseAttributes changes) name).or
      ((payload.get? name).or (Members.get? (kind.explicitPayload changes) name))).map Json.text

section

variable (hstores : kind.Stores stored payload) (hpayload : kind.payload ∉ payload.names)

include hstores hpayload

/-- The payload gathered from the record before the changes is the stored one, without reserved names. -/
theorem get?_gathered_before {name : String} (hname : kind.isReserved name = false) :
    (kind.gathered (kind.flatten stored)).get? name = payload.get? name := by
  have hnone := Members.get?_eq_none_iff.mpr hpayload
  rw [hstores.get?_gathered_flatten, hname, if_neg Bool.false_ne_true, Kind.explicit, hnone]
  by_cases hself : name = kind.payload
  · rw [if_pos hself, hself, hnone]
    rfl
  · rw [if_neg hself]
    exact Option.or_none

theorem get?_gathered_after (hchanges : changes.Sorted) {name : String} (hname : kind.isReserved name = false) :
    (kind.gathered (overlay (kind.flatten stored) changes)).get? name =
      (Members.get? (kind.looseAttributes changes) name).or
        ((payload.get? name).or (Members.get? (kind.explicitPayload changes) name)) := by
  have hnone := Members.get?_eq_none_iff.mpr hpayload
  have hflat := Kind.sorted_flatten hstores.sorted hstores.get?_payload
  have hexplicit : kind.explicit (overlay (kind.flatten stored) changes) = kind.explicit changes := by
    rw [Kind.explicit, Kind.explicit, get?_overlay hchanges, hstores.get?_flatten, kind.isReserved_payload,
      if_neg Bool.false_ne_true, hnone, Option.or_none]
  rw [Kind.get?_gathered (sorted_overlay hflat changes), hexplicit, hname, if_neg Bool.false_ne_true,
    get?_overlay hchanges, hstores.get?_flatten, hname, if_neg Bool.false_ne_true, Kind.explicitPayload_eq,
    Members.get?_filter (!kind.isReserved ·), hname, Kind.looseAttributes,
    Members.get?_filter fun name => !kind.isReserved name && name != kind.payload, hname]
  by_cases hself : name = kind.payload
  · simp [hself, hnone]
  · simp [hself, Option.or_assoc]

theorem overlaid_updates (hchanges : changes.Sorted) :
    Overlaid kind stored payload changes (assigned stored (updates kind stored changes)) where
  column := by
    intro name hname
    let before := kind.partition (kind.flatten stored)
    let after := kind.partition (overlay (kind.flatten stored) changes)
    have hbefore : before.get? name = stored.get? name := by
      rw [Kind.get?_partition_of_isReserved _ hname, hstores.get?_flatten, if_pos hname]
    have hafter : after.get? name = (changes.get? name).or (stored.get? name) := by
      rw [Kind.get?_partition_of_isReserved _ hname, get?_overlay hchanges, hstores.get?_flatten, if_pos hname]
    cases hwritable : Kind.writable name with
    | false =>
        rw [updates, get?_assigned, changed?, hwritable]
        simp
    | true =>
        have hkept : after.get? name = none → before.get? name = none := by
          rw [hafter, hbefore, Option.or_eq_none_iff]
          exact And.right
        rw [if_pos rfl, ← hafter]
        rcases get?_assigned_cases stored (Kind.mem_columns_of_isReserved hname) hwritable hkept with
          hnew | ⟨hold, hsame⟩
        · exact congrArg (Option.map Json.text) hnew
        · calc ((assigned stored (updates kind stored changes)).get? name).map Json.text
              _ = (stored.get? name).map Json.text := congrArg (Option.map Json.text) hold
              _ = (before.get? name).map Json.text := by rw [hbefore]
              _ = (after.get? name).map Json.text := hsame
  payload := by
    have hbefore := Kind.get?_partition_payload kind (kind.flatten stored)
    have hafter := Kind.get?_partition_payload kind (overlay (kind.flatten stored) changes)
    have hkept : Members.get? (kind.partition (overlay (kind.flatten stored) changes)) kind.payload = none →
        Members.get? (kind.partition (kind.flatten stored)) kind.payload = none := by
      intro hnone
      cases hnone.symm.trans hafter
    rcases get?_assigned_cases stored kind.payload_mem_columns kind.writable_payload hkept with
      hnew | ⟨hold, hsame⟩
    · refine ⟨_, hnew.trans hafter, fun name hname => ?_⟩
      rw [get?_gathered_after hstores hpayload hchanges hname]
    · -- nothing is assigned: the payload held is the stored one, and its text is the new one
      refine ⟨payload, hold.trans hstores.get?_payload, fun name hname => ?_⟩
      rw [hbefore, hafter] at hsame
      calc (payload.get? name).map Json.text
          _ = (Members.get? (kind.gathered (kind.flatten stored)) name).map Json.text := by
            rw [get?_gathered_before hstores hpayload hname]
          _ = (Members.get? (kind.gathered (overlay (kind.flatten stored) changes)) name).map Json.text :=
            Json.text_get?_of_text_object (Option.some.inj hsame) name
          _ = _ := by rw [get?_gathered_after hstores hpayload hchanges hname]

end

/-! ### Runs -/

theorem Continues.log_prefix {s next : Session} (h : Continues s next) :
    s.connection.log <+: next.connection.log := by
  have hlog : ∀ {calls}, Made s.connection next calls → s.connection.log <+: next.connection.log :=
    fun hmade => ⟨_, hmade.1.symm⟩
  cases h with
  | stillOpen _ _ _ hmade => exact hlog hmade
  | ended _ _ _ _ hmade => exact hlog hmade
  | settled _ _ hmade => exact hlog hmade

theorem log_query {operation : Operation} {sql : String} {params : List Json} {s : Session}
    (hactive : s.phase = .active) : s.connection.log ++ [.query sql params] <+:
      ((query operation sql params).run s).2.connection.log := by
  have hlog : (s.perform (.query sql params)).2.connection.log = s.connection.log ++ [.query sql params] :=
    (made_perform (.query sql params) s).1
  have hover : Continues (s.perform (.query sql params)).2 ((query operation sql params).run s).2 := by
    rw [run_query hactive]
    exact ((sameCourse_sample _ _ _).continues.trans (continues_watch _)).trans (admits_continues.touch _)
  exact hlog ▸ hover.log_prefix

/-! ### Records found -/

theorem phase_of_find_ok {s next : Session} {id : String} {found : Option Json}
    (h : (find kind id).run s = (.ok found, next)) : next.phase = .active := by
  have hok : ((find kind id).run s).1 = .ok found := by rw [h]
  suffices hphase : ((find kind id).run s).2.phase = .active by rwa [h] at hphase
  clear h
  unfold find lookup at hok ⊢
  obtain ⟨_, -, hget⟩ := run_bind_ok hok
  rw [hget] at hok ⊢
  obtain ⟨records, hrecords, hselect⟩ := run_bind_ok hok
  rw [hselect]
  unfold select at hrecords ⊢
  obtain ⟨_, -, hquery⟩ := run_bind_ok hrecords
  rw [hquery] at hrecords ⊢
  obtain ⟨_, -, hstatement⟩ := run_bind_ok hrecords
  rw [hstatement] at hrecords ⊢
  obtain ⟨rows, hrows, hcollect⟩ := run_bind_ok hrecords
  rw [hcollect]
  exact (sameCourse_collect _ rows _).phase.trans (phase_of_run_ok hrows)

theorem run_update {s next : Session} {id : String} {found : Members}
    (hid : changes.get? identityName = some (.string id))
    (hfound : (find kind id).run s = (.ok (some (.object found)), next)) :
    (update kind (.object changes)).run s =
      (writeChanges kind id (kind.partition found) (kind.partition (overlay found changes))).run next := by
  unfold update
  rw [run_bind, run_attempt]
  dsimp only [asObject]
  rw [hid]
  dsimp only [Option.bind_some, Json.string?]
  rw [run_bind, hfound]
  rfl

theorem log_writeChanges {s : Session} {id : String} {before after : Row} (hactive : s.phase = .active)
    (hchanged : changedColumns kind before after ≠ []) :
    ∃ sql params, modification s.settings.dialect kind (changedColumns kind before after) id = (sql, params) ∧
      s.connection.log ++ [.query sql params] <+:
        ((writeChanges kind id before after).run s).2.connection.log := by
  rcases hstatement : modification s.settings.dialect kind (changedColumns kind before after) id with ⟨sql, params⟩
  refine ⟨sql, params, rfl, ?_⟩
  unfold writeChanges
  split
  · rename_i hnone
    exact absurd hnone hchanged
  · rename_i assignments hassignments
    rw [run_bind, run_get]
    dsimp only
    rw [hstatement]
    refine (log_query hactive).trans (Continues.log_prefix (carries_continues.bindRest (fun rows => ?_) s))
    exact carries_continues.bind (carries_continues.attempt _) fun _ => carries_continues.bind
      (carries_continues.remember _) fun _ => carries_continues.bind (carries_continues.push _) fun _ =>
        carries_continues.pure _

theorem connection_writeChanges {s : Session} {id : String} {before after : Row}
    (hnone : changedColumns kind before after = []) :
    ((writeChanges kind id before after).run s).2.connection = s.connection := by
  unfold writeChanges
  rw [hnone]
  rfl

/-- **Updates overlay the stored row.** Once the record is found, an update makes no call if no column's text
changes; otherwise its next call writes the columns whose text does. The row it leaves behind is the stored one
overlaid with the changes, where attributes inside of a payload object of the changes give way to stored ones. -/
theorem update_overlays (hstores : kind.Stores stored payload) (hpayload : kind.payload ∉ payload.names)
    (hchanges : changes.Sorted) {s next : Session} {id : String}
    (hid : changes.get? identityName = some (.string id))
    (hfound : (find kind id).run s = (.ok (some (.object (kind.flatten stored))), next)) :
    let written := updates kind stored changes
    let ended := ((update kind (.object changes)).run s).2
    (written = [] → ended.connection = next.connection) ∧
      (written ≠ [] → ∃ sql params, modification next.settings.dialect kind written id = (sql, params) ∧
        next.connection.log ++ [.query sql params] <+: ended.connection.log) ∧
      Overlaid kind stored payload changes (assigned stored written) := by
  dsimp only
  rw [run_update hid hfound]
  exact ⟨connection_writeChanges, log_writeChanges (phase_of_find_ok hfound),
    overlaid_updates hstores hpayload hchanges⟩

/-- The row of a document, and a session whose storage gives it to the first query. -/
def nameRow : Members :=
  [("content", .object [("name", .string "Ada")]), ("created", .null), ("id", .string "d1"), ("modified", .null),
    ("type", .null)]

def nameSession : Session := opened .default (.ofBackend (.scripted [.ok [nameRow]])) true

theorem stores_nameRow : Kind.document.Stores nameRow [("name", .string "Ada")] :=
  ⟨by decide, by decide, rfl, by decide⟩

set_option maxRecDepth 1000 in
theorem find_nameRow : ∃ next, (find .document "d1").run nameSession =
    (.ok (some (.object (Kind.document.flatten nameRow))), next) := ⟨_, Prod.ext rfl rfl⟩

theorem update_overlays_loose :
    let changes : Members := [("age", .nat 36), ("id", .string "d1"), ("name", .string "Bea")]
    let written := updates .document nameRow changes
    ∃ next, (find .document "d1").run nameSession =
        (.ok (some (.object (Kind.document.flatten nameRow))), next) ∧
      (∃ sql params, modification next.settings.dialect .document written "d1" = (sql, params) ∧
        next.connection.log ++ [.query sql params] <+:
          ((update .document (.object changes)).run nameSession).2.connection.log) ∧
      Overlaid .document nameRow [("name", .string "Ada")] changes (assigned nameRow written) := by
  intro changes written
  obtain ⟨next, hfound⟩ := find_nameRow
  have hsorted : changes.Sorted := by decide
  obtain ⟨-, hwrites, hleft⟩ := update_overlays stores_nameRow (by decide) hsorted rfl hfound
  have hsome : written.isEmpty = false := by decide
  refine ⟨next, hfound, hwrites fun hnone => ?_, hleft⟩
  exact absurd (List.isEmpty_iff.mpr hnone) (Bool.not_eq_true _ ▸ hsome)

/-- A change inside of a payload object is lost where storage has the attribute: nothing is written. -/
theorem update_explicit_attribute :
    let changes : Members := [("content", .object [("name", .string "Bea")]), ("id", .string "d1")]
    let left := assigned nameRow (updates .document nameRow changes)
    ∃ next, (find .document "d1").run nameSession =
        (.ok (some (.object (Kind.document.flatten nameRow))), next) ∧
      ((update .document (.object changes)).run nameSession).2.connection = next.connection ∧
      Members.get? (Kind.document.looseAttributes changes) "name" = none ∧
      Members.get? (Kind.document.explicitPayload changes) "name" = some (.string "Bea") ∧
      ((Members.get? left "content").bind (·.get? "name")) = some (.string "Ada") := by
  intro changes left
  obtain ⟨next, hfound⟩ := find_nameRow
  have hnone : updates .document nameRow changes = [] := List.isEmpty_iff.mp (by decide)
  have hid : Members.get? changes identityName = some (.string "d1") := rfl
  refine ⟨next, hfound, ?_, rfl, rfl, ?_⟩
  · rw [run_update hid hfound]
    exact connection_writeChanges hnone
  · change (Members.get? (assigned nameRow (updates .document nameRow changes)) "content").bind _ = _
    rw [hnone]
    rfl

end Dossier.Session
