import Dossier.Proofs.Filter.Entries
import Dossier.Proofs.Filter.Keys
import Dossier.Proofs.Record.Columns
import Dossier.Proofs.Search.Description
import Dossier.Search.Result

/-!
Selections of keys. A statement that selects keys lands each of them in its column or at its path in the payload,
in their order. Main statements: what every search for keys has in common as a statement, and what the record
has in each column, and in the payload, before it is decoded.
-/

namespace Dossier

/-! ### Keys as fields -/

namespace Key

/-- Where a selected key lands. -/
def landing (kind : Kind) : Key → Landing
  | .column c _ => .column c.name
  | .path segments => .payload kind.payload segments

/-- The name of a selected key in result rows. -/
def resultName (kind : Kind) (position : Nat) (key : Key) : String := Query.resultName position (key.landing kind)

/-- The key selects the column. -/
def selects (column : Column) : Key → Bool
  | .column c _ => c = column
  | .path _ => false

/-- The key may be a field of a record of the kind: one of its columns, or a path. -/
def IsField (kind : Kind) : Key → Prop
  | .column c _ => c ∈ kind.columns
  | .path segments => segments ≠ []

theorem isField_of_ofText? {kind : Kind} {text : String} {key : Key} (h : Key.ofText? kind text = .ok key) :
    key.IsField kind := by
  have hof := isOf_of_ofText? h
  cases key with
  | column c epoch => exact hof
  | path segments =>
      unfold ofText? at h
      split at h
      · dsimp only at h
        split at h
        · cases h
        · split at h <;> cases h
      · split at h
        · rename_i found hfound
          cases h
          exact (segments?_eq_some_iff.mp hfound).1
        · cases h

end Key

/-! ### Statements -/

namespace Statement

/-- The statement is what some search compiles to that selects the keys of these texts, and does not count. -/
def IsSearch (statement : Statement) (target : Target) (keys : List Key) : Prop :=
  ∃ (texts : List String) (filter : Json) (traits : Traits) (query : Query),
    texts.mapM (Key.ofText? target.kind) = .ok keys ∧
    traits.fields = .fields (texts.map .string) ∧ traits.count = false ∧
    Query.ofTraits? target filter traits = .ok query ∧ query.statement? = .ok statement

/-- What all statements that select the keys have in common. -/
structure Selects (statement : Statement) (target : Target) (keys : List Key) : Prop where
  kind : statement.kind = target.kind
  dialect : statement.dialect = target.dialect
  count : statement.count = false
  landings : statement.landings =
    keys.zipIdx.map fun entry => (entry.1.resultName target.kind entry.2, entry.1.landing target.kind)
  fields : ∀ key ∈ keys, key.IsField target.kind

end Statement

/-- Texts of keys are selected as the keys they name, in their order. -/
theorem Query.landings_of_keys {target : Target} {texts : List String} {keys : List Key}
    {selected : List (Sql.Predicate × Landing)}
    (hkeys : List.Forall₂ (fun text key => Key.ofText? target.kind text = .ok key) texts keys)
    (hselected : List.Forall₂ (fun field s => target.compileField field = .ok s) (texts.map .string) selected) :
    selected.map (·.2) = keys.map (·.landing target.kind) := by
  induction hkeys generalizing selected with
  | nil =>
      cases hselected
      rfl
  | @cons text key texts keys hkey _ ih =>
      obtain ⟨s, rest, hcompile, hrest, rfl⟩ := List.forall₂_cons_left_iff.mp hselected
      obtain ⟨key', hkey', hs⟩ := bind_eq_ok_iff.mp hcompile
      rw [hkey] at hkey'
      cases hkey'
      cases hs
      have hlanding : target.landing key = key.landing target.kind := by cases key <;> rfl
      rw [List.map_cons, List.map_cons, ih hrest, hlanding]

namespace Statement

variable {statement : Statement} {target : Target} {keys : List Key}

/-- A search for keys compiles to a statement that selects them. -/
theorem IsSearch.selects (h : statement.IsSearch target keys) : statement.Selects target keys := by
  obtain ⟨texts, filter, traits, query, hkeys, hfields, hcount, hquery, hstatement⟩ := h
  have hall := mapM_eq_ok_iff.mp hkeys
  obtain ⟨selected, own, hdescribes⟩ := Query.describes_of_ofTraits? hquery
  have hcompiles := hdescribes.compiles
  rw [hfields] at hcompiles
  have hlandings : query.landings = keys.zipIdx.map
      fun entry => (entry.1.resultName target.kind entry.2, entry.1.landing target.kind) := by
    have hplaced : ∀ l : List (Sql.Predicate × Landing), l.mapIdx Query.namedLanding =
        (l.map (·.2)).zipIdx.map fun entry => (Query.resultName entry.2 entry.1, entry.1) := by
      intro l
      rw [List.mapIdx_eq_zipIdx_map, List.zipIdx_map, List.map_map]
      rfl
    rw [hdescribes.landings, hplaced, Query.landings_of_keys hall hcompiles, List.zipIdx_map, List.map_map]
    rfl
  have hnone : query.count = false := hdescribes.count.trans hcount
  unfold Query.statement? at hstatement
  dsimp only at hstatement
  split at hstatement
  · cases hstatement
  · split at hstatement
    · cases hstatement
    · obtain rfl := Except.ok.inj hstatement
      refine ⟨hdescribes.kind, hdescribes.dialect, hnone, ?_, ?_⟩
      · rw [if_neg (by simp [hnone])]
        exact hlandings
      · intro key hkey
        obtain ⟨text, -, htext⟩ := exists_of_mem_mapM hkeys hkey
        exact Key.isField_of_ofText? htext

theorem exists_isSearch (target : Target) (texts : List String) (filter : Json) (traits : Traits)
    (hkeys : texts.mapM (Key.ofText? target.kind) = .ok keys) (hfields : traits.fields = .fields (texts.map .string))
    (hcount : traits.count = false)
    (h : ((Query.ofTraits? target filter traits).toOption.bind (·.statement?.toOption)).isSome = true) :
    ∃ statement : Statement, statement.IsSearch target keys := by
  cases hquery : Query.ofTraits? target filter traits with
  | error fault =>
      rw [hquery] at h
      cases h
  | ok query =>
      rw [hquery] at h
      change query.statement?.toOption.isSome = true at h
      cases hstatement : query.statement? with
      | error fault =>
          rw [hstatement] at h
          cases h
      | ok statement => exact ⟨statement, texts, filter, traits, query, hkeys, hfields, hcount, hquery, hstatement⟩

/-- The selection of the keys, as a statement without text. -/
def selecting (target : Target) (keys : List Key) : Statement where
  sql := ""
  params := []
  landings := keys.zipIdx.map fun entry => (entry.1.resultName target.kind entry.2, entry.1.landing target.kind)
  kind := target.kind
  count := false
  dialect := target.dialect

/-- How rows are decoded depends on nothing but the selected keys. -/
theorem Selects.decode_selecting (h : statement.Selects target keys) (row : Row) :
    statement.decode row = (selecting target keys).decode row := by
  obtain ⟨hkind, hdialect, hcount, hlandings, -⟩ := h
  cases statement
  cases hkind
  cases hdialect
  cases hcount
  cases hlandings
  rfl

/-! ### Rows -/

/-- The row gives every selected key its value. -/
def Gives (kind : Kind) (keys : List Key) (value : Key → Json) (row : Row) : Prop :=
  ∀ position key, keys[position]? = some key → Members.get? row (key.resultName kind position) = some (value key)

/-- The record after the value of one key landed on it. -/
def landKey (statement : Statement) (value : Key → Json) (record : Row) (key : Key) : Row :=
  statement.land record (key.landing statement.kind) (value key)

variable {value : Key → Json} {row : Row}

theorem Selects.gather_eq (h : statement.Selects target keys) (hrow : Gives target.kind keys value row) :
    statement.gather row = keys.foldl (statement.landKey value) [] := by
  have hgather : statement.gather row =
      keys.zipIdx.foldl (fun record entry => statement.landKey value record entry.1) [] := by
    rw [gather, h.landings, List.foldl_map]
    refine List.foldl_ext _ _ _ fun record entry hentry => ?_
    dsimp only
    rw [hrow entry.2 entry.1 (List.mem_zipIdx_iff_getElem?.mp hentry), landKey, h.kind]
    rfl
  rw [hgather, ← List.foldl_map (f := Prod.fst) (g := statement.landKey value), List.zipIdx_map_fst]

/-- Decoding a row is decoding the record that the values of its keys make. -/
theorem Selects.decode_eq (h : statement.Selects target keys) (hrow : Gives target.kind keys value row) :
    statement.decode row = (target.kind.decodeRow (keys.foldl (statement.landKey value) [])).map
      fun record => .object (target.kind.flatten record) := by
  rw [decode, h.count, if_neg Bool.false_ne_true, h.gather_eq hrow, h.kind]

theorem sorted_landKeys {record : Row} (h : record.Sorted) :
    Members.Sorted (keys.foldl (statement.landKey value) record) := by
  induction keys generalizing record with
  | nil => exact h
  | cons key rest ih =>
      apply ih
      cases key <;> exact Members.sorted_insert h _ _

/-- A column other than the payload's has the value of a key for it, or nothing. -/
theorem get?_landKeys_column (statement : Statement) (keys : List Key) (value : Key → Json) {name : String}
    (hname : name ≠ statement.kind.payload) (record : Row) :
    (∃ c epoch, .column c epoch ∈ keys ∧ c.name = name ∧
        Members.get? (keys.foldl (statement.landKey value) record) name = some (value (.column c epoch))) ∨
      ((∀ c epoch, .column c epoch ∈ keys → c.name ≠ name) ∧
        Members.get? (keys.foldl (statement.landKey value) record) name = record.get? name) := by
  induction keys generalizing record with
  | nil => exact .inr ⟨nofun, rfl⟩
  | cons key rest ih =>
      rw [List.foldl_cons]
      rcases ih (statement.landKey value record key) with ⟨c, epoch, hmem, hc, hget⟩ | ⟨hnone, hget⟩
      · exact .inl ⟨c, epoch, List.mem_cons_of_mem key hmem, hc, hget⟩
      · rw [hget]
        cases key with
        | column c epoch =>
            have hland : Members.get? (statement.landKey value record (.column c epoch)) name =
                if name = c.name then some (value (.column c epoch)) else record.get? name :=
              Members.get?_insert _ _ _ _
            rw [hland]
            by_cases hc : name = c.name
            · exact .inl ⟨c, epoch, List.mem_cons_self, hc.symm, if_pos hc⟩
            · refine .inr ⟨fun d e hmem => ?_, if_neg hc⟩
              rcases List.mem_cons.mp hmem with heq | hmem
              · cases heq
                exact Ne.symm hc
              · exact hnone d e hmem
        | path segments =>
            have hland : Members.get? (statement.landKey value record (.path segments)) name = record.get? name :=
              (Members.get?_insert _ _ _ _).trans (if_neg hname)
            refine .inr ⟨fun d e hmem => ?_, hland⟩
            rcases List.mem_cons.mp hmem with heq | hmem
            · cases heq
            · exact hnone d e hmem

/-- What the payload column holds after one key: the value of a key for the column, or what it held, with the
value of a path put into it. -/
def slotAfter (statement : Statement) (value : Key → Json) (slot : Option Json) : Key → Option Json
  | .column c epoch => if c.name = statement.kind.payload then some (value (.column c epoch)) else slot
  | .path segments =>
    some (Json.nest segments (statement.extracted (value (.path segments))) (slot.getD (.object [])))

theorem get?_landKeys_payload (statement : Statement) (keys : List Key) (value : Key → Json) (record : Row) :
    Members.get? (keys.foldl (statement.landKey value) record) statement.kind.payload =
      keys.foldl (statement.slotAfter value) (record.get? statement.kind.payload) := by
  induction keys generalizing record with
  | nil => rfl
  | cons key rest ih =>
      rw [List.foldl_cons, List.foldl_cons, ih]
      congr 1
      cases key with
      | column c epoch =>
          refine (Members.get?_insert _ _ _ _).trans ?_
          rw [slotAfter]
          by_cases hc : c.name = statement.kind.payload
          · rw [if_pos hc, if_pos hc.symm]
          · rw [if_neg hc, if_neg (Ne.symm hc)]
      | path segments => exact (Members.get?_insert _ _ _ _).trans (if_pos rfl)

/-- What the record has in a column before it is decoded. -/
def landed (statement : Statement) (keys : List Key) (value : Key → Json) (c : Column) : Option Json :=
  if c.name = statement.kind.payload then keys.foldl (statement.slotAfter value) none
  else if keys.any (·.selects c) then some (value (.column c false)) else none

/-- The values of the keys make a row of columns. -/
theorem Selects.fills (h : statement.Selects target keys)
    (hepoch : ∀ c epoch, value (.column c epoch) = value (.column c false)) :
    target.kind.Fills (keys.foldl (statement.landKey value) []) (statement.landed keys value) := by
  have hpayload := get?_landKeys_payload statement keys value []
  have hcolumn : ∀ {name : String}, name ≠ statement.kind.payload → _ :=
    fun hname => get?_landKeys_column statement keys value hname []
  rw [h.kind] at hpayload hcolumn
  refine ⟨sorted_landKeys Members.sorted_nil, fun c hc => ?_, fun name hname => ?_⟩
  · rw [landed, h.kind]
    by_cases hname : c.name = target.kind.payload
    · rw [if_pos hname, hname, hpayload]
      rfl
    · rw [if_neg hname]
      rcases hcolumn hname with ⟨d, epoch, hmem, hd, hget⟩ | ⟨hnone, hget⟩
      · obtain rfl : d = c := Kind.eq_of_name_eq (h.fields _ hmem) hc hd
        have hselected : keys.any (·.selects d) = true :=
          List.any_eq_true.mpr ⟨_, hmem, decide_eq_true rfl⟩
        rw [hget, if_pos hselected, hepoch]
      · have hselected : ¬ keys.any (·.selects c) = true := by
          intro hany
          obtain ⟨key, hkey, hselects⟩ := List.any_eq_true.mp hany
          cases key with
          | column d epoch => exact hnone d epoch hkey (congrArg Column.name (of_decide_eq_true hselects))
          | path segments => cases hselects
        rw [hget, if_neg hselected]
        rfl
  · have hne : name ≠ target.kind.payload := fun heq => hname (heq ▸ target.kind.payload_mem_columns)
    rcases hcolumn hne with ⟨d, epoch, hmem, rfl, -⟩ | ⟨-, hget⟩
    · exact absurd (List.mem_map.mpr ⟨d, h.fields _ hmem, rfl⟩) hname
    · exact hget

end Statement

end Dossier
