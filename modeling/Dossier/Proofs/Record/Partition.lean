import Dossier.Proofs.Json.Parts
import Dossier.Record.Payload

/-!
Flat records and stored rows, attribute by attribute. A flat record shows the columns of a row, and the
attributes of its payload that no column hides. Partitioning gathers the attributes without a column into a
payload again. Main statement: a row comes back from its flat record, unless its payload has an attribute
named like the payload column.
-/

namespace Dossier.Kind

variable (kind : Kind)

theorem nodup_columns : (kind.columns.map (·.name)).Nodup := by
  cases kind <;> decide

theorem payload_mem_columns : kind.payload ∈ kind.columns.map (·.name) :=
  List.mem_map.mpr ⟨⟨kind.payload, .json⟩, List.mem_append_right _ List.mem_cons_self, rfl⟩

theorem writable_payload : writable kind.payload = true := by
  cases kind <;> decide

theorem isReserved_payload : kind.isReserved kind.payload = false := by
  cases kind <;> decide

variable {kind}

theorem mem_columns_of_isReserved {name : String} (h : kind.isReserved name = true) :
    name ∈ kind.columns.map (·.name) := by
  obtain ⟨column, hcolumn, hname⟩ := List.find?_isSome.mp h
  exact List.mem_map.mpr ⟨column, List.mem_append_left _ hcolumn, eq_of_beq hname⟩

theorem ne_payload_of_isReserved {name : String} (h : kind.isReserved name = true) : name ≠ kind.payload := by
  rintro rfl
  exact absurd (kind.isReserved_payload.symm.trans h) Bool.false_ne_true

/-! ### Flat records -/

/-- Attributes of a payload are lifted unless they are reserved or there already. -/
theorem get?_lift (row payload : Members) (name : String) :
    Members.get? (kind.lift row payload) name =
      (Members.get? row name).or (if kind.isReserved name then none else payload.get? name) := by
  induction payload generalizing row with
  | nil => simp [lift, Members.get?]
  | cons member rest ih =>
      obtain ⟨key, value⟩ := member
      rw [lift]
      split
      · rename_i hskipped
        rw [ih, Members.get?]
        by_cases hkey : key = name
        · subst hkey
          rw [if_pos rfl]
          cases hreserved : kind.isReserved key with
          | true => simp
          | false =>
              rw [hreserved, Bool.false_or, Members.contains, Option.isSome_iff_exists] at hskipped
              obtain ⟨old, hold⟩ := hskipped
              rw [hold, Option.some_or, Option.some_or]
        · rw [if_neg hkey]
      · rename_i hlifted
        rw [Bool.or_eq_true, not_or, Bool.not_eq_true, Bool.not_eq_true] at hlifted
        obtain ⟨hreserved, hfresh⟩ := hlifted
        rw [ih, Members.get?_insert, Members.get?]
        by_cases hkey : key = name
        · subst hkey
          rw [Members.contains, Option.isSome_eq_false_iff, Option.isNone_iff_eq_none] at hfresh
          simp [hreserved, hfresh]
        · rw [if_neg hkey, if_neg (Ne.symm hkey)]

theorem sorted_lift {row : Members} (h : row.Sorted) (payload : Members) :
    Members.Sorted (kind.lift row payload) := by
  induction payload generalizing row with
  | nil => exact h
  | cons member rest ih =>
      rw [lift]
      split
      · exact ih h
      · exact ih (Members.sorted_insert h _ _)

theorem flatten_eq {row payload : Members} (hpayload : row.get? kind.payload = some (.object payload)) :
    kind.flatten row = kind.lift (Members.erase kind.payload row) payload := by
  rw [flatten, hpayload]

/-- A flat record has the columns of the row, and the attributes of its payload that are not reserved. -/
theorem get?_flatten {row payload : Members} (hrow : row.Sorted)
    (hpayload : row.get? kind.payload = some (.object payload)) (name : String) :
    Members.get? (kind.flatten row) name =
      (if name = kind.payload then none else row.get? name).or
        (if kind.isReserved name then none else payload.get? name) := by
  rw [flatten_eq hpayload, get?_lift, Members.get?_erase hrow]

theorem sorted_flatten {row payload : Members} (hrow : row.Sorted)
    (hpayload : row.get? kind.payload = some (.object payload)) : Members.Sorted (kind.flatten row) := by
  rw [flatten_eq hpayload]
  exact sorted_lift (Members.sorted_erase hrow _) payload

/-! ### Stored rows -/

variable (kind)

/-- The members of an explicit payload object, reserved ones included. -/
def explicit (record : Members) : Members := ((record.get? kind.payload).bind Json.object?).getD []

/-- The payload that partitioning gathers. -/
def gathered (record : Members) : Members :=
  (kind.looseAttributes record).foldl (fun payload member => Members.insert member.1 member.2 payload)
    (kind.explicitPayload record)

variable {kind}

theorem explicitPayload_eq (record : Members) :
    kind.explicitPayload record = (kind.explicit record).filter fun member => !kind.isReserved member.1 := by
  unfold explicitPayload explicit
  split
  · rename_i members hget
    rw [hget]
    rfl
  · rename_i hnone
    cases hget : Members.get? record kind.payload with
    | none => rfl
    | some value =>
        cases value with
        | object members => exact absurd hget (hnone members)
        | _ => rfl

/-- Loose attributes win over those of an explicit payload; reserved names stay outside. -/
theorem get?_gathered {record : Members} (h : record.Sorted) (name : String) :
    (kind.gathered record).get? name = if kind.isReserved name then none else
      (if name = kind.payload then none else record.get? name).or ((kind.explicit record).get? name) := by
  have hloose : Members.Sorted (kind.looseAttributes record) := Members.sorted_filter h _
  rw [gathered, Members.foldl_insert (hloose.imp ne_of_lt), explicitPayload_eq,
    Members.get?_filter (!kind.isReserved ·), looseAttributes,
    Members.get?_filter fun name => !kind.isReserved name && name != kind.payload]
  cases kind.isReserved name <;> by_cases hname : name = kind.payload <;> simp [hname]

theorem sorted_gathered {record : Members} (h : Members.Sorted (kind.explicit record)) :
    (kind.gathered record).Sorted := by
  refine Members.sorted_foldl_insert _ ?_
  rw [explicitPayload_eq]
  exact Members.sorted_filter h _

/-- A stored row has the reserved attributes of the record, and the payload gathered from the others. -/
theorem get?_partition (kind : Kind) (record : Members) (name : String) :
    Members.get? (kind.partition record) name =
      if name = kind.payload then some (.object (kind.gathered record))
      else if kind.isReserved name then record.get? name else none := by
  change (Members.insert kind.payload (.object (kind.gathered record)) _).get? name = _
  rw [Members.get?_insert]
  by_cases hname : name = kind.payload
  · rw [if_pos hname, if_pos hname]
  · rw [if_neg hname, if_neg hname, Members.get?_filter fun name => kind.isReserved name && name != kind.payload]
    simp [hname]

theorem get?_partition_of_isReserved (record : Members) {name : String} (h : kind.isReserved name = true) :
    Members.get? (kind.partition record) name = record.get? name := by
  rw [get?_partition, if_neg (ne_payload_of_isReserved h), if_pos h]

theorem get?_partition_payload (kind : Kind) (record : Members) :
    Members.get? (kind.partition record) kind.payload = some (.object (kind.gathered record)) := by
  rw [get?_partition, if_pos rfl]

theorem sorted_partition {record : Members} (h : record.Sorted) : Members.Sorted (kind.partition record) :=
  Members.sorted_insert (Members.sorted_filter h _) _ _

/-! ### Round trip -/

variable {row payload : Members}

/-- A stored row of the kind: nothing but columns, and an object in the payload column. -/
structure Stores (kind : Kind) (row payload : Members) : Prop where
  sorted : row.Sorted
  columns : ∀ name ∈ row.names, name ∈ kind.columns.map (·.name)
  get?_payload : row.get? kind.payload = some (.object payload)
  ordered : payload.Sorted

namespace Stores

variable (h : kind.Stores row payload)

include h

theorem get?_eq_none {name : String} (hname : name ≠ kind.payload) (hreserved : kind.isReserved name = false) :
    row.get? name = none := by
  rw [Members.get?_eq_none_iff]
  intro hmem
  obtain ⟨column, hcolumn, rfl⟩ := List.mem_map.mp (h.columns name hmem)
  rcases List.mem_append.mp hcolumn with hcolumn | hcolumn
  · have hsome : (kind.column? column.name).isSome = true :=
      List.find?_isSome.mpr ⟨column, hcolumn, beq_self_eq_true _⟩
    exact absurd (hreserved.symm.trans hsome) Bool.false_ne_true
  · exact hname (List.mem_singleton.mp hcolumn ▸ rfl)

/-- The flat record has the reserved attributes of the row, and the other attributes of its payload. -/
theorem get?_flatten (name : String) : Members.get? (kind.flatten row) name =
    if kind.isReserved name then row.get? name else payload.get? name := by
  rw [Kind.get?_flatten h.sorted h.get?_payload]
  cases hreserved : kind.isReserved name with
  | true => simp [ne_payload_of_isReserved hreserved]
  | false =>
      by_cases hname : name = kind.payload
      · simp [hname]
      · simp [hname, h.get?_eq_none hname hreserved]

/-- The attributes of the payload come back, all but the one named like the payload column: that one is
taken for the payload. -/
theorem get?_gathered_flatten (name : String) : (kind.gathered (kind.flatten row)).get? name =
    if kind.isReserved name then none else
      (if name = kind.payload then none else payload.get? name).or ((kind.explicit payload).get? name) := by
  have hexplicit : kind.explicit (kind.flatten row) = kind.explicit payload := by
    rw [explicit, explicit, h.get?_flatten, kind.isReserved_payload]
    rfl
  rw [get?_gathered (sorted_flatten h.sorted h.get?_payload), hexplicit, h.get?_flatten]
  cases kind.isReserved name <;> rfl

theorem gathered_flatten_iff (hfree : ∀ name ∈ payload.names, kind.isReserved name = false) :
    kind.gathered (kind.flatten row) = payload ↔ kind.payload ∉ payload.names := by
  constructor
  · intro heq hmem
    obtain ⟨value, hvalue⟩ := Option.isSome_iff_exists.mp (Members.isSome_get?_iff.mpr hmem)
    have hinside : (kind.explicit payload).get? kind.payload = some value := by
      have hget := h.get?_gathered_flatten kind.payload
      rw [heq, kind.isReserved_payload, if_neg Bool.false_ne_true, if_pos rfl, Option.none_or, hvalue] at hget
      exact hget.symm
    -- the value would have to be an object that contains itself
    cases value with
    | object members =>
        rw [explicit, hvalue] at hinside
        exact (Json.sizeOf_member_lt (Members.mem_of_get? hinside)).false.elim
    | _ =>
        rw [explicit, hvalue] at hinside
        cases hinside
  · intro hmem
    have hnone := Members.get?_eq_none_iff.mpr hmem
    refine (sorted_gathered ?_).ext h.ordered fun name => ?_
    · rw [explicit, h.get?_flatten, kind.isReserved_payload]
      rw [if_neg Bool.false_ne_true, hnone]
      exact List.Pairwise.nil
    · rw [h.get?_gathered_flatten, explicit, hnone]
      cases hreserved : kind.isReserved name with
      | true =>
          refine Eq.symm (Members.get?_eq_none_iff.mpr fun hmem => ?_)
          exact absurd ((hfree name hmem).symm.trans hreserved) Bool.false_ne_true
      | false =>
          by_cases hname : name = kind.payload
          · simp [hname, hnone, Members.get?]
          · simp [hname, Members.get?]

/-- **A row comes back from its flat record** exactly when no attribute of its payload is named like the
payload column. Whatever such an attribute holds, it is lost or its members move up. -/
theorem partition_flatten_iff (hfree : ∀ name ∈ payload.names, kind.isReserved name = false) :
    kind.partition (kind.flatten row) = row ↔ kind.payload ∉ payload.names := by
  rw [← h.gathered_flatten_iff hfree]
  constructor
  · intro heq
    have hget := get?_partition_payload kind (kind.flatten row)
    rw [heq, h.get?_payload] at hget
    cases hget
    rfl
  · intro heq
    refine (sorted_partition (sorted_flatten h.sorted h.get?_payload)).ext h.sorted fun name => ?_
    rw [get?_partition, heq, h.get?_flatten]
    by_cases hname : name = kind.payload
    · rw [if_pos hname, hname, h.get?_payload]
    · rw [if_neg hname]
      cases hreserved : kind.isReserved name with
      | true => rfl
      | false => exact (h.get?_eq_none hname hreserved).symm

end Stores

theorem partition_flatten_iff_tagged :
    let payload : Members := [("name", .string "Ada"), ("tags", .array [.nat 1])]
    let row : Members := [("content", .object payload), ("id", .string "a")]
    Kind.document.partition (Kind.document.flatten row) = row := by
  intro payload row
  have hstores : Kind.document.Stores row payload := ⟨by decide, by decide, rfl, by decide⟩
  exact (Stores.partition_flatten_iff hstores (by decide)).mpr (by decide)

/-- An attribute named like the payload column is lost, unless it is an object. -/
theorem partition_flatten_column_name :
    let payload : Members := [("content", .nat 5)]
    let row : Members := [("content", .object payload), ("id", .string "a")]
    Kind.document.Stores row payload ∧ (∀ name ∈ payload.names, Kind.document.isReserved name = false) ∧
      Kind.document.partition (Kind.document.flatten row) = [("content", .object []), ("id", .string "a")] ∧
      Kind.document.partition (Kind.document.flatten row) ≠ row := by
  intro payload row
  have hlost : Kind.document.partition (Kind.document.flatten row) =
      [("content", .object []), ("id", .string "a")] := rfl
  refine ⟨⟨by decide, by decide, rfl, by decide⟩, by decide, hlost, fun hsame => ?_⟩
  exact absurd (hlost.symm.trans hsame) (by simp [row, payload])

end Dossier.Kind
