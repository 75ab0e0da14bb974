import Dossier.Proofs.Record.Partition
import Dossier.Proofs.Results

/-!
Decoding of stored rows, column by column. Main statements: a row is decoded if every text in a JSON column is
JSON, and the decoded row has in each column what the column's value stands for.
-/

namespace Dossier

/-- What a value in the column stands for: text in a JSON column is read, and may not be JSON. -/
def Column.decoded? (column : Column) : Json → Option Json
  | .string text => if column.type = .json then Json.ofText? text else some (.string text)
  | value => some value

theorem Column.decoded?_of_ne_json {column : Column} (h : column.type ≠ .json) (value : Json) :
    column.decoded? value = some value := by
  cases value <;> first | exact if_neg h | rfl

theorem Column.decoded?_of_ne_string (column : Column) {value : Json} (h : ∀ text, value ≠ .string text) :
    column.decoded? value = some value := by
  cases value with
  | string text => exact absurd rfl (h text)
  | _ => rfl

namespace Kind

variable {kind : Kind} {columns : List Column} {row decoded : Row}

/-- Columns of a kind that have one name are one column. -/
theorem eq_of_name_eq {c d : Column} (hc : c ∈ kind.columns) (hd : d ∈ kind.columns) (h : c.name = d.name) :
    c = d :=
  List.inj_on_of_nodup_map kind.nodup_columns hc hd h

theorem payloadColumn_mem (kind : Kind) : (⟨kind.payload, .json⟩ : Column) ∈ kind.columns :=
  List.mem_append_right _ List.mem_cons_self

/-- No other column has the payload's name. -/
theorem eq_payloadColumn {c : Column} (hc : c ∈ kind.columns) (h : c.name = kind.payload) :
    c = ⟨kind.payload, .json⟩ :=
  eq_of_name_eq hc kind.payloadColumn_mem h

theorem eq_payload_or_isReserved {name : String} (h : name ∈ kind.columns.map (·.name)) :
    name = kind.payload ∨ kind.isReserved name = true := by
  obtain ⟨c, hc, rfl⟩ := List.mem_map.mp h
  rcases List.mem_append.mp hc with hc | hc
  · exact .inr (List.find?_isSome.mpr ⟨c, hc, beq_self_eq_true _⟩)
  · exact .inl (List.mem_singleton.mp hc ▸ rfl)

/-- A column is decoded by itself, before the rest: its text is read, or it stays as it is. -/
theorem decodeColumns_cons_cases (kind : Kind) (row : Row) (c : Column) (rest : List Column) :
    (∃ value, (Members.get? row c.name).bind c.decoded? = some value ∧
        kind.decodeColumns row (c :: rest) = kind.decodeColumns (Members.insert c.name value row) rest) ∨
      (∃ fault value, Members.get? row c.name = some value ∧ c.decoded? value = none ∧
        kind.decodeColumns row (c :: rest) = .error fault) ∨
      ((Members.get? row c.name).bind c.decoded? = Members.get? row c.name ∧
        kind.decodeColumns row (c :: rest) = kind.decodeColumns row rest) := by
  rw [decodeColumns]
  by_cases hjson : c.type = .json
  · rw [if_pos hjson]
    split
    · rename_i text hget
      have hdecoded : c.decoded? (.string text) = Json.ofText? text := if_pos hjson
      cases hread : Json.ofText? text with
      | some value => exact .inl ⟨value, by rw [hget, Option.bind_some, hdecoded, hread], rfl⟩
      | none => exact .inr (.inl ⟨_, .string text, hget, hdecoded.trans hread, rfl⟩)
    · rename_i hother
      refine .inr (.inr ⟨?_, rfl⟩)
      cases hget : Members.get? row c.name with
      | none => rfl
      | some value => exact c.decoded?_of_ne_string fun text htext => hother text (htext ▸ hget)
  · rw [if_neg hjson]
    refine .inr (.inr ⟨?_, rfl⟩)
    cases hget : Members.get? row c.name with
    | none => rfl
    | some value => exact Column.decoded?_of_ne_json hjson value

/-- A row whose texts in JSON columns are JSON is decoded. -/
theorem exists_decodeColumns (hnames : (columns.map (·.name)).Nodup)
    (h : ∀ c ∈ columns, ∀ value, Members.get? row c.name = some value → (c.decoded? value).isSome) :
    ∃ decoded, kind.decodeColumns row columns = .ok decoded := by
  induction columns generalizing row with
  | nil => exact ⟨row, rfl⟩
  | cons c rest ih =>
      obtain ⟨hnew, hrest⟩ := List.nodup_cons.mp hnames
      have htail : ∀ d ∈ rest, ∀ value, Members.get? row d.name = some value → (d.decoded? value).isSome :=
        fun d hd => h d (List.mem_cons_of_mem c hd)
      rcases decodeColumns_cons_cases kind row c rest with ⟨value, -, hstep⟩ | ⟨fault, value, hget, hnone, -⟩ |
        ⟨-, hstep⟩
      · rw [hstep]
        refine ih hrest fun d hd old hold => htail d hd old ?_
        have hne : d.name ≠ c.name := fun heq => hnew (List.mem_map.mpr ⟨d, hd, heq⟩)
        rwa [Members.get?_insert, if_neg hne] at hold
      · have hsome := h c List.mem_cons_self value hget
        rw [hnone] at hsome
        cases hsome
      · rw [hstep]
        exact ih hrest htail

/-- A decoded row has in each column what its value stands for, and everything else as it was. -/
theorem get?_decodeColumns (hnames : (columns.map (·.name)).Nodup) (hrow : row.Sorted)
    (h : kind.decodeColumns row columns = .ok decoded) :
    decoded.Sorted ∧
      (∀ c ∈ columns, Members.get? decoded c.name = (Members.get? row c.name).bind c.decoded?) ∧
      ∀ name ∉ columns.map (·.name), Members.get? decoded name = Members.get? row name := by
  induction columns generalizing row with
  | nil =>
      cases h
      exact ⟨hrow, nofun, fun _ _ => rfl⟩
  | cons c rest ih =>
      obtain ⟨hnew, hrest⟩ := List.nodup_cons.mp hnames
      rcases decodeColumns_cons_cases kind row c rest with ⟨value, hvalue, hstep⟩ | ⟨fault, value, -, -, hstep⟩ |
        ⟨hsame, hstep⟩
      · rw [hstep] at h
        obtain ⟨hsorted, hcolumns, hothers⟩ := ih hrest (Members.sorted_insert hrow c.name value) h
        refine ⟨hsorted, fun d hd => ?_, fun name hname => ?_⟩
        · rcases List.mem_cons.mp hd with rfl | hd
          · rw [hothers d.name hnew, Members.get?_insert, if_pos rfl, hvalue]
          · have hne : d.name ≠ c.name := fun heq => hnew (List.mem_map.mpr ⟨d, hd, heq⟩)
            rw [hcolumns d hd, Members.get?_insert, if_neg hne]
        · rw [List.map_cons, List.mem_cons, not_or] at hname
          rw [hothers name hname.2, Members.get?_insert, if_neg hname.1]
      · rw [hstep] at h
        cases h
      · rw [hstep] at h
        obtain ⟨hsorted, hcolumns, hothers⟩ := ih hrest hrow h
        refine ⟨hsorted, fun d hd => ?_, fun name hname => ?_⟩
        · rcases List.mem_cons.mp hd with rfl | hd
          · rw [hothers d.name hnew, hsame]
          · exact hcolumns d hd
        · rw [List.map_cons, List.mem_cons, not_or] at hname
          exact hothers name hname.2

/-! ### Rows of columns -/

/-- The row has the value of each column that has one, and nothing else. -/
structure Fills (kind : Kind) (row : Row) (value : Column → Option Json) : Prop where
  sorted : row.Sorted
  columns : ∀ c ∈ kind.columns, Members.get? row c.name = value c
  others : ∀ name ∉ kind.columns.map (·.name), Members.get? row name = none

namespace Fills

variable {row other : Row} {value value' : Column → Option Json}

/-- Rows are determined by the values of their columns. -/
theorem ext (h : kind.Fills row value) (h' : kind.Fills other value') (hsame : ∀ c ∈ kind.columns, value c = value' c) :
    row = other := by
  refine h.sorted.ext h'.sorted fun name => ?_
  by_cases hname : name ∈ kind.columns.map (·.name)
  · obtain ⟨c, hc, rfl⟩ := List.mem_map.mp hname
    rw [h.columns c hc, h'.columns c hc, hsame c hc]
  · rw [h.others name hname, h'.others name hname]

/-- A decoded row has what the values of its columns stand for. -/
theorem decode (h : kind.Fills row value) (hdecode : kind.decodeRow row = .ok other) :
    kind.Fills other fun c => (value c).bind c.decoded? := by
  obtain ⟨hsorted, hcolumns, hothers⟩ := get?_decodeColumns kind.nodup_columns h.sorted hdecode
  exact ⟨hsorted, fun c hc => (hcolumns c hc).trans (by rw [h.columns c hc]),
    fun name hname => (hothers name hname).trans (h.others name hname)⟩

/-- A row is decoded if the values of its columns stand for something. -/
theorem exists_decoded (h : kind.Fills row value)
    (hvalue : ∀ c ∈ kind.columns, ∀ v, value c = some v → (c.decoded? v).isSome) :
    ∃ decoded, kind.decodeRow row = .ok decoded ∧ kind.Fills decoded fun c => (value c).bind c.decoded? := by
  obtain ⟨decoded, hdecode⟩ : ∃ decoded, kind.decodeRow row = .ok decoded :=
    exists_decodeColumns kind.nodup_columns fun c hc v hv => hvalue c hc v ((h.columns c hc).symm.trans hv)
  exact ⟨decoded, hdecode, h.decode hdecode⟩

/-- The flat record has the reserved attributes of the row, and the other members of its payload. -/
theorem get?_flatten {payload : Members} (h : kind.Fills row value)
    (hvalue : value ⟨kind.payload, .json⟩ = some (.object payload)) (name : String) :
    Members.get? (kind.flatten row) name =
      if kind.isReserved name then Members.get? row name else payload.get? name := by
  have hpayload : Members.get? row kind.payload = some (.object payload) := by
    rw [← hvalue]
    exact h.columns ⟨kind.payload, .json⟩ kind.payloadColumn_mem
  rw [Kind.get?_flatten h.sorted hpayload]
  cases hreserved : kind.isReserved name with
  | true => simp [ne_payload_of_isReserved hreserved]
  | false =>
      by_cases hname : name = kind.payload
      · simp [hname]
      · have hout : name ∉ kind.columns.map (·.name) := by
          intro hmem
          rcases eq_payload_or_isReserved hmem with heq | hreserved'
          · exact hname heq
          · rw [hreserved] at hreserved'
            cases hreserved'
        simp [hname, h.others name hout]

end Fills

/-- A flat record has the reserved attributes of the row, whatever its payload. -/
theorem get?_flatten_of_isReserved (hrow : row.Sorted) {name : String} (h : kind.isReserved name = true) :
    Members.get? (kind.flatten row) name = Members.get? row name := by
  have herased : Members.get? (Members.erase kind.payload row) name = Members.get? row name := by
    rw [Members.get?_erase hrow, if_neg (ne_payload_of_isReserved h)]
  unfold flatten
  split
  · rw [get?_lift, if_pos h, Option.or_none, herased]
  · exact herased

end Kind

end Dossier
