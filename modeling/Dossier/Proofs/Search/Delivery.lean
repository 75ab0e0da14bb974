import Dossier.Proofs.Json.Places
import Dossier.Proofs.Json.Reading
import Dossier.Proofs.Search.Selection
import Mathlib

/-!
Rows as the dialects deliver them. SQLite hands JSON back as text and Postgres as values, and decoding is to make
the same record of both. It does where no path is selected behind the whole payload, and no JSON column besides
the payload holds a string. Main statement: such a string tells the records apart, and so does whatever the
payload holds besides the paths behind it.
-/

namespace Dossier

open Sql (Dialect)

/-! ### Deliveries -/

namespace Key

/-- The key selects JSON. -/
def isJson : Key → Bool
  | .column c _ => c.type = .json
  | .path _ => true

/-- The key selects the payload as a whole. -/
def isWhole (kind : Kind) : Key → Bool
  | .column c _ => c.name = kind.payload
  | .path _ => false

/-- The key for the payload as a whole. -/
theorem eq_of_isWhole {kind : Kind} {key : Key} (hfield : key.IsField kind) (h : key.isWhole kind = true) :
    ∃ epoch, key = .column ⟨kind.payload, .json⟩ epoch := by
  cases key with
  | column c epoch =>
      have hpayload : c = ⟨kind.payload, .json⟩ := Kind.eq_payloadColumn hfield (of_decide_eq_true h)
      exact ⟨epoch, congrArg (Key.column · epoch) hpayload⟩
  | path segments => cases h

end Key

/-- A value as a dialect delivers it: JSON is text in SQLite. -/
def delivered (dialect : Dialect) (json : Bool) (value : Json) : Json :=
  match dialect, json with
  | .sqlite, true => .string value.text
  | _, _ => value

/-- What a stored record holds, as far as keys can tell: its columns, and what is extracted by paths. -/
structure Holdings where
  columns : Row
  extracted : List String → Option Json

namespace Holdings

variable (holdings : Holdings)

def value? : Key → Option Json
  | .column c _ => holdings.columns.get? c.name
  | .path segments => holdings.extracted segments

/-- What a dialect hands back for a key; null where there is nothing. -/
def handed (dialect : Dialect) (key : Key) : Json :=
  ((holdings.value? key).map (delivered dialect key.isJson)).getD .null

/-- The JSON that the keys select reads back from its text. -/
def ReadsBack (keys : List Key) : Prop :=
  ∀ key ∈ keys, key.isJson = true → ∀ value, holdings.value? key = some value → Json.ofText? value.text = some value

theorem handed_postgres (key : Key) : holdings.handed .postgres key = (holdings.value? key).getD .null := by
  have hsame : delivered .postgres key.isJson = id := by
    funext value
    cases key.isJson <;> rfl
  rw [handed, hsame, Option.map_id, id]

theorem handed_column (dialect : Dialect) (c : Column) (epoch : Bool) :
    holdings.handed dialect (.column c epoch) = holdings.handed dialect (.column c false) := rfl

variable {holdings}

/-- A column that SQLite hands back stands for what it holds. -/
theorem decoded?_handed_sqlite {keys : List Key} (hback : holdings.ReadsBack keys) {c : Column} {epoch : Bool}
    (hkey : .column c epoch ∈ keys) : c.decoded? (holdings.handed .sqlite (.column c false)) =
      some ((holdings.columns.get? c.name).getD .null) := by
  have hvalue : holdings.value? (.column c epoch) = holdings.columns.get? c.name := rfl
  rw [← holdings.handed_column .sqlite c epoch, handed, hvalue]
  cases hget : holdings.columns.get? c.name with
  | none => rfl
  | some value =>
      rw [Option.map_some, Option.getD_some, Option.getD_some]
      by_cases hjson : c.type = .json
      · have htext := hback _ hkey (decide_eq_true hjson) value (hvalue.trans hget)
        have hdelivered : delivered .sqlite (Key.column c epoch).isJson value = .string value.text := by
          rw [Key.isJson, decide_eq_true hjson]
          rfl
        rw [hdelivered]
        exact (if_pos hjson).trans htext
      · have hdelivered : delivered .sqlite (Key.column c epoch).isJson value = value := by
          rw [Key.isJson, decide_eq_false hjson]
          rfl
        rw [hdelivered]
        exact Column.decoded?_of_ne_json hjson value

/-- A value that a path extracts lands as it is stored, whichever dialect hands it back. -/
theorem extracted_handed {keys : List Key} (hback : holdings.ReadsBack keys) {segments : List String}
    (hkey : .path segments ∈ keys) (statement : Statement) :
    statement.extracted (holdings.handed statement.dialect (.path segments)) =
      (holdings.extracted segments).getD .null := by
  have hvalue : holdings.value? (.path segments) = holdings.extracted segments := rfl
  rw [handed, hvalue]
  unfold Statement.extracted
  cases hget : holdings.extracted segments with
  | none => cases statement.dialect <;> rfl
  | some value =>
      have htext := hback _ hkey rfl value (hvalue.trans hget)
      cases statement.dialect with
      | sqlite =>
          change (Json.ofText? value.text).getD _ = value
          rw [htext]
          rfl
      | postgres => rfl

end Holdings

/-! ### The payload -/

namespace Statement

variable {kind : Kind} {keys : List Key} {statement lite post : Statement} {holdings : Holdings}
  {value : Key → Json} {payload : Members}

/-- Keys other than paths and the whole payload leave the payload alone. -/
theorem slotAfter_of_not_payload (h : ∀ key ∈ keys, key.isWhole statement.kind = false)
    (hpaths : ∀ path, .path path ∉ keys) (slot : Option Json) : keys.foldl (statement.slotAfter value) slot = slot := by
  induction keys generalizing slot with
  | nil => rfl
  | cons key rest ih =>
      have hrest := ih (fun other hother => h other (List.mem_cons_of_mem key hother))
        fun path hpath => hpaths path (List.mem_cons_of_mem key hpath)
      rw [List.foldl_cons, hrest]
      cases key with
      | column c epoch => exact if_neg (of_decide_eq_false (h _ List.mem_cons_self))
      | path segments => exact absurd List.mem_cons_self (hpaths segments)

/-- The whole payload takes the place of whatever was there. -/
theorem slotAfter_of_isWhole {key : Key} (h : key.isWhole statement.kind = true) (slot : Option Json) :
    statement.slotAfter value slot key = some (value key) := by
  cases key with
  | column c epoch => exact if_pos (of_decide_eq_true h)
  | path segments => cases h

/-- A payload that is missing or an object stays so, where only paths are put into it. -/
theorem object_slotAfter (h : ∀ key ∈ keys, key.isWhole statement.kind = false ∧ key.IsField kind)
    {slot : Option Json} (hslot : ∀ old, slot = some old → ∃ members, old = .object members) :
    ∀ new, keys.foldl (statement.slotAfter value) slot = some new → ∃ members, new = .object members := by
  induction keys generalizing slot with
  | nil => exact hslot
  | cons key rest ih =>
      rw [List.foldl_cons]
      apply ih fun other hother => h other (List.mem_cons_of_mem key hother)
      obtain ⟨hwhole, hfield⟩ := h key List.mem_cons_self
      intro old hold
      cases key with
      | column c epoch => exact hslot old ((if_neg (of_decide_eq_false hwhole)).symm.trans hold)
      | path segments =>
          obtain ⟨name, path, rfl⟩ := List.exists_cons_of_ne_nil hfield
          cases hold
          exact ⟨_, rfl⟩

/-- What is put at paths under other names leaves a member of the payload alone. -/
theorem get?_slotAfter {name : String} (h : ∀ key ∈ keys, key.isWhole statement.kind = false ∧ key.IsField kind)
    (hpaths : ∀ path, .path path ∈ keys → path.head? ≠ some name) (slot : Json) :
    ∃ new, keys.foldl (statement.slotAfter value) (some slot) = some new ∧ new.get? name = slot.get? name := by
  induction keys generalizing slot with
  | nil => exact ⟨slot, rfl, rfl⟩
  | cons key rest ih =>
      have hrest := ih (fun other hother => h other (List.mem_cons_of_mem key hother))
        fun path hpath => hpaths path (List.mem_cons_of_mem key hpath)
      obtain ⟨hwhole, hfield⟩ := h key List.mem_cons_self
      rw [List.foldl_cons]
      cases key with
      | column c epoch =>
          have hsame : statement.slotAfter value (some slot) (.column c epoch) = some slot :=
            if_neg (of_decide_eq_false hwhole)
          rw [hsame]
          exact hrest slot
      | path segments =>
          obtain ⟨first, path, rfl⟩ := List.exists_cons_of_ne_nil hfield
          obtain ⟨new, hnew, hget⟩ :=
            hrest (Json.nest (first :: path) (statement.extracted (value (.path (first :: path)))) slot)
          refine ⟨new, hnew, hget.trans ?_⟩
          have hne : name ≠ first := fun heq => hpaths _ List.mem_cons_self (congrArg some heq.symm)
          rw [Json.get?_nest_cons, if_neg hne]

/-- A payload that is there stays there. -/
theorem exists_slotAfter (statement : Statement) (value : Key → Json) (keys : List Key) (slot : Json) :
    ∃ new, keys.foldl (statement.slotAfter value) (some slot) = some new := by
  induction keys generalizing slot with
  | nil => exact ⟨slot, rfl⟩
  | cons key rest ih =>
      rw [List.foldl_cons]
      cases key with
      | column c epoch =>
          rw [slotAfter]
          split <;> exact ih _
      | path segments => exact ih _

/-- A path makes an object of the payload. -/
theorem exists_object_of_path (h : ∀ key ∈ keys, key.isWhole statement.kind = false ∧ key.IsField kind)
    {path : List String} (hpath : .path path ∈ keys) (slot : Option Json) :
    ∃ members, keys.foldl (statement.slotAfter value) slot = some (.object members) := by
  obtain ⟨before, after, rfl⟩ := List.append_of_mem hpath
  rw [List.foldl_append, List.foldl_cons, slotAfter]
  obtain ⟨name, path, rfl⟩ := List.exists_cons_of_ne_nil (h _ hpath).2
  obtain ⟨new, hnew⟩ := exists_slotAfter statement value after
    (Json.nest (name :: path) (statement.extracted (value (.path (name :: path))))
      ((before.foldl (statement.slotAfter value) slot).getD (.object [])))
  have hafter : ∀ key ∈ after, key.isWhole statement.kind = false ∧ key.IsField kind :=
    fun key hkey => h key (List.mem_append_right _ (List.mem_cons_of_mem _ hkey))
  obtain ⟨members, rfl⟩ := object_slotAfter hafter (fun old hold => by cases hold; exact ⟨_, rfl⟩) new hnew
  exact ⟨members, hnew⟩

/-- Behind the whole payload, only what comes behind it matters. -/
theorem slotAfter_behind {before after : List Key} {whole : Key} (h : whole.isWhole statement.kind = true)
    (slot : Option Json) : (before ++ whole :: after).foldl (statement.slotAfter value) slot =
      after.foldl (statement.slotAfter value) (some (value whole)) := by
  rw [List.foldl_append, List.foldl_cons, slotAfter_of_isWhole h]

/-- Behind the whole payload, paths under other names make an object that keeps a member of it. -/
theorem exists_landed_behind (hkind : statement.kind = kind) (value : Key → Json) (before : List Key)
    {after : List Key} {whole : Key} (hwhole : whole.isWhole kind = true)
    (h : ∀ key ∈ after, key.isWhole kind = false ∧ key.IsField kind) {path : List String}
    (hpath : .path path ∈ after) {name : String} (hnames : ∀ path, .path path ∈ after → path.head? ≠ some name) :
    ∃ members : Members, statement.landed (before ++ whole :: after) value ⟨kind.payload, .json⟩ =
      some (.object members) ∧ members.get? name = (value whole).get? name := by
  subst hkind
  rw [landed, if_pos rfl, slotAfter_behind hwhole]
  obtain ⟨members, hmembers⟩ := exists_object_of_path h hpath (some (value whole))
  obtain ⟨new, hnew, hget⟩ := get?_slotAfter h hnames (value whole)
  obtain rfl := Option.some.inj (hnew.symm.trans hmembers)
  exact ⟨members, hmembers, hget⟩

/-- The payload is an object in the end, or what a key for the whole of it has. -/
theorem slot_cases (hfields : ∀ key ∈ keys, key.IsField statement.kind) {new : Json}
    (h : keys.foldl (statement.slotAfter value) none = some new) :
    (∃ members, new = .object members) ∨ ∃ key ∈ keys, key.isWhole statement.kind = true ∧ new = value key := by
  by_cases hany : ∃ key ∈ keys, key.isWhole statement.kind = true
  · obtain ⟨before, whole, after, rfl, hwhole, hafter⟩ := exists_last hany
    rw [slotAfter_behind hwhole] at h
    have hbehind : ∀ key ∈ after, key.isWhole statement.kind = false ∧ key.IsField statement.kind := fun key hkey =>
      ⟨Bool.eq_false_iff.mpr (hafter key hkey), hfields key (by simp [hkey])⟩
    by_cases hpaths : ∃ path, .path path ∈ after
    · obtain ⟨path, hpath⟩ := hpaths
      obtain ⟨members, hobject⟩ := exists_object_of_path hbehind hpath (some (value whole))
      exact .inl ⟨members, Option.some.inj (h.symm.trans hobject)⟩
    · rw [slotAfter_of_not_payload (fun key hkey => (hbehind key hkey).1) (not_exists.mp hpaths)] at h
      exact .inr ⟨whole, by simp, hwhole, (Option.some.inj h).symm⟩
  · refine .inl (object_slotAfter (fun key hkey => ⟨?_, hfields key hkey⟩) (fun _ hold => by cases hold) new h)
    exact Bool.eq_false_iff.mpr fun hwhole => hany ⟨key, hkey, hwhole⟩

end Statement

/-- Behind the whole payload, the last time that it is selected, there is no path. -/
def Key.Settled (kind : Kind) (keys : List Key) : Prop :=
  ∀ before whole after, keys = before ++ whole :: after → whole.isWhole kind = true →
    (∀ key ∈ after, key.isWhole kind = false) → ∀ path, .path path ∉ after

/-- A path is selected behind the whole payload, the last time that it is, and none that is begins with the
name. -/
def Key.Loses (kind : Kind) (keys : List Key) (name : String) : Prop :=
  ∃ before whole after, keys = before ++ whole :: after ∧ whole.isWhole kind = true ∧
    (∀ key ∈ after, key.isWhole kind = false) ∧ (∃ path, .path path ∈ after) ∧
      ∀ path, .path path ∈ after → path.head? ≠ some name

/-! ### The same rows from both dialects -/

namespace Statement

section Both

variable {kind : Kind} {schema schema' : Schema} {keys : List Key} {lite post : Statement} {holdings : Holdings}
  {payload : Members} (hlite : lite.Selects ⟨kind, schema, .sqlite⟩ keys)
  (hpost : post.Selects ⟨kind, schema', .postgres⟩ keys) (hback : holdings.ReadsBack keys)
  (hpayload : holdings.columns.get? kind.payload = some (.object payload))

include hpayload in
/-- The whole payload arrives from Postgres as it is. -/
theorem handed_whole_postgres {key : Key} (hfield : key.IsField kind) (h : key.isWhole kind = true) :
    holdings.handed .postgres key = .object payload := by
  obtain ⟨epoch, rfl⟩ := Key.eq_of_isWhole hfield h
  rw [holdings.handed_postgres]
  change (holdings.columns.get? kind.payload).getD .null = _
  rw [hpayload]
  rfl

include hback hpayload in
/-- The whole payload arrives from SQLite as text that stands for it. -/
theorem decoded?_handed_whole {key : Key} (hkey : key ∈ keys) (hfield : key.IsField kind)
    (h : key.isWhole kind = true) :
    (∃ text, holdings.handed .sqlite key = .string text) ∧
      Column.decoded? ⟨kind.payload, .json⟩ (holdings.handed .sqlite key) = some (.object payload) := by
  obtain ⟨epoch, rfl⟩ := Key.eq_of_isWhole hfield h
  have hdecoded := Holdings.decoded?_handed_sqlite hback hkey
  rw [hpayload, Option.getD_some, ← holdings.handed_column .sqlite _ epoch] at hdecoded
  refine ⟨⟨(Json.object payload).text, ?_⟩, hdecoded⟩
  have hvalue : holdings.value? (.column ⟨kind.payload, .json⟩ epoch) = some (.object payload) := hpayload
  rw [Holdings.handed, hvalue]
  rfl

include hlite hback in
/-- Besides the payload, a column from SQLite stands for what is stored. -/
theorem decoded_landed_sqlite {c : Column} (hc : c.name ≠ kind.payload) :
    (lite.landed keys (holdings.handed .sqlite) c).bind c.decoded? =
      if keys.any (·.selects c) then some ((holdings.columns.get? c.name).getD .null) else none := by
  rw [landed, hlite.kind, if_neg hc]
  split
  · rename_i hany
    obtain ⟨key, hkey, hselects⟩ := List.any_eq_true.mp hany
    cases key with
    | column d epoch =>
        obtain rfl : d = c := of_decide_eq_true hselects
        exact Holdings.decoded?_handed_sqlite hback hkey
    | path segments => cases hselects
  · rfl

include hpost in
theorem landed_postgres {c : Column} (hc : c.name ≠ kind.payload) :
    post.landed keys (holdings.handed .postgres) c =
      if keys.any (·.selects c) then some ((holdings.columns.get? c.name).getD .null) else none := by
  rw [landed, hpost.kind, if_neg hc, holdings.handed_postgres]
  rfl

include hlite hback hpayload in
/-- Every row from SQLite is decoded. -/
theorem exists_decodeRow_sqlite : ∃ decoded,
    kind.decodeRow (keys.foldl (lite.landKey (holdings.handed .sqlite)) []) = .ok decoded ∧
      kind.Fills decoded fun c => (lite.landed keys (holdings.handed .sqlite) c).bind c.decoded? := by
  refine (hlite.fills (holdings.handed_column .sqlite)).exists_decoded fun c hc value hvalue => ?_
  by_cases hname : c.name = kind.payload
  · obtain rfl := Kind.eq_payloadColumn hc hname
    rw [landed, hlite.kind, if_pos rfl] at hvalue
    rcases slot_cases (hlite.kind ▸ hlite.fields) hvalue with ⟨members, rfl⟩ | ⟨key, hkey, hwhole, rfl⟩
    · rfl
    · rw [hlite.kind] at hwhole
      rw [(decoded?_handed_whole hback hpayload hkey (hlite.fields key hkey) hwhole).2]
      rfl
  · have hdecoded := decoded_landed_sqlite hlite hback hname
    rw [hvalue, Option.bind_some] at hdecoded
    rw [hdecoded]
    split
    · rfl
    · rename_i hany
      rw [landed, hlite.kind, if_neg hname, if_neg hany] at hvalue
      cases hvalue

include hlite hpost hback hpayload in
/-- Where no path comes behind the whole payload, both dialects make the same payload. -/
theorem slot_eq_of_settled (hsettled : Key.Settled kind keys) :
    (keys.foldl (lite.slotAfter (holdings.handed .sqlite)) none).bind (Column.decoded? ⟨kind.payload, .json⟩) =
      keys.foldl (post.slotAfter (holdings.handed .postgres)) none := by
  by_cases hany : ∃ key ∈ keys, key.isWhole kind = true
  · obtain ⟨before, whole, after, rfl, hwhole, hafter⟩ := exists_last hany
    have hmem : whole ∈ before ++ whole :: after := by simp
    have hnone : ∀ key ∈ after, key.isWhole kind = false := fun key hkey => Bool.eq_false_iff.mpr (hafter key hkey)
    have hpaths := hsettled before whole after rfl hwhole hnone
    rw [slotAfter_behind (hlite.kind ▸ hwhole), slotAfter_behind (hpost.kind ▸ hwhole),
      slotAfter_of_not_payload (hlite.kind ▸ hnone) hpaths, slotAfter_of_not_payload (hpost.kind ▸ hnone) hpaths,
      Option.bind_some, (decoded?_handed_whole hback hpayload hmem (hlite.fields whole hmem) hwhole).2,
      handed_whole_postgres hpayload (hpost.fields whole hmem) hwhole]
  · have hsame : keys.foldl (lite.slotAfter (holdings.handed .sqlite)) none =
        keys.foldl (post.slotAfter (holdings.handed .postgres)) none := by
      refine List.foldl_ext _ _ _ fun slot key hkey => ?_
      cases key with
      | column c epoch =>
          have hname : c.name ≠ kind.payload := fun heq => hany ⟨_, hkey, decide_eq_true heq⟩
          rw [slotAfter, slotAfter, hlite.kind, hpost.kind, if_neg hname, if_neg hname]
      | path segments =>
          have hextracted := Holdings.extracted_handed hback hkey lite
          have hextracted' := Holdings.extracted_handed hback hkey post
          rw [hlite.dialect] at hextracted
          rw [hpost.dialect] at hextracted'
          rw [slotAfter, slotAfter, hextracted, hextracted']
    rw [hsame]
    cases hslot : keys.foldl (post.slotAfter (holdings.handed .postgres)) none with
    | none => rfl
    | some new =>
        rcases slot_cases (hpost.kind ▸ hpost.fields) hslot with ⟨members, rfl⟩ | ⟨key, hkey, hwhole, -⟩
        · rfl
        · rw [hpost.kind] at hwhole
          exact absurd ⟨key, hkey, hwhole⟩ hany

include hpost hpayload in
/-- Columns from Postgres without a string in a JSON column stand for themselves. -/
theorem decoded_landed_postgres (hstrings : ∀ c epoch, .column c epoch ∈ keys → c.type = .json →
      c.name ≠ kind.payload → ∀ text, holdings.columns.get? c.name ≠ some (.string text)) {c : Column}
    (hc : c ∈ kind.columns) {value : Json} (hvalue : post.landed keys (holdings.handed .postgres) c = some value) :
    c.decoded? value = some value := by
  by_cases hname : c.name = kind.payload
  · rw [landed, hpost.kind, if_pos hname] at hvalue
    rcases slot_cases (hpost.kind ▸ hpost.fields) hvalue with ⟨members, rfl⟩ | ⟨key, hkey, hwhole, rfl⟩
    · rfl
    · rw [hpost.kind] at hwhole
      rw [handed_whole_postgres hpayload (hpost.fields key hkey) hwhole]
      rfl
  · rw [landed_postgres hpost hname] at hvalue
    split at hvalue
    · rename_i hany
      obtain ⟨key, hkey, hselects⟩ := List.any_eq_true.mp hany
      cases key with
      | column d epoch =>
          obtain rfl : d = c := of_decide_eq_true hselects
          by_cases hjson : d.type = .json
          · refine d.decoded?_of_ne_string fun text htext => ?_
            cases hget : holdings.columns.get? d.name with
            | none =>
                rw [hget, htext] at hvalue
                cases hvalue
            | some stored =>
                rw [hget, htext] at hvalue
                exact hstrings d epoch hkey hjson hname text (hget.trans hvalue)
          · exact Column.decoded?_of_ne_json hjson value
      | path segments => cases hselects
    · cases hvalue

variable {row row' : Row} (hrow : Gives kind keys (holdings.handed .sqlite) row)
  (hrow' : Gives kind keys (holdings.handed .postgres) row')

include hlite hpost hback hpayload hrow hrow' in
/-- Where no path comes behind the whole payload and no JSON column holds a string, the records are the same. -/
theorem decode_eq_of_settled (hsettled : Key.Settled kind keys) (hstrings : ∀ c epoch, .column c epoch ∈ keys →
      c.type = .json → c.name ≠ kind.payload → ∀ text, holdings.columns.get? c.name ≠ some (.string text)) :
    lite.decode row = post.decode row' := by
  have hstays : ∀ c ∈ kind.columns, ∀ value, post.landed keys (holdings.handed .postgres) c = some value →
      c.decoded? value = some value :=
    fun c hc value hvalue => decoded_landed_postgres hpost hpayload hstrings hc hvalue
  obtain ⟨decoded, hdecode, hfills⟩ := exists_decodeRow_sqlite hlite hback hpayload
  obtain ⟨decoded', hdecode', hfills'⟩ := (hpost.fills (holdings.handed_column .postgres)).exists_decoded
    fun c hc value hvalue => by
      rw [hstays c hc value hvalue]
      rfl
  obtain rfl : decoded = decoded' := hfills.ext hfills' fun c hc => by
    have hself : (post.landed keys (holdings.handed .postgres) c).bind c.decoded? =
        post.landed keys (holdings.handed .postgres) c := by
      cases hvalue : post.landed keys (holdings.handed .postgres) c with
      | none => rfl
      | some value => exact hstays c hc value hvalue
    rw [hself]
    by_cases hname : c.name = kind.payload
    · obtain rfl := Kind.eq_payloadColumn hc hname
      rw [landed, landed, hlite.kind, hpost.kind, if_pos rfl, if_pos rfl]
      exact slot_eq_of_settled hlite hpost hback hpayload hsettled
    · rw [decoded_landed_sqlite hlite hback hname, landed_postgres hpost hname]
  rw [hlite.decode_eq hrow, hpost.decode_eq hrow']
  exact congrArg (Except.map _) (hdecode.trans hdecode'.symm)

include hlite hpost hback hpayload hrow hrow' in
/-- Records with different attributes are different. -/
theorem decode_ne_of_attribute (name : String)
    (h : ∀ decoded decoded' : Row,
      kind.Fills decoded (fun c => (lite.landed keys (holdings.handed .sqlite) c).bind c.decoded?) →
      kind.Fills decoded' (fun c => (post.landed keys (holdings.handed .postgres) c).bind c.decoded?) →
      Members.get? (kind.flatten decoded) name ≠ Members.get? (kind.flatten decoded') name) :
    lite.decode row ≠ post.decode row' := by
  obtain ⟨decoded, hdecode, hfills⟩ := exists_decodeRow_sqlite hlite hback hpayload
  rw [hlite.decode_eq hrow, hpost.decode_eq hrow']
  intro heq
  obtain ⟨decoded', hdecode', hflat⟩ := map_eq_ok_iff.mp (heq.symm.trans (congrArg (Except.map _) hdecode))
  refine h decoded decoded' hfills ((hpost.fills (holdings.handed_column .postgres)).decode hdecode') ?_
  injection hflat with hflat
  rw [hflat]

include hlite hpost hback hpayload hrow hrow' in
/-- A string in a JSON column is read as JSON once more in Postgres. -/
theorem decode_ne_of_string {c : Column} {epoch : Bool} (hkey : .column c epoch ∈ keys) (hjson : c.type = .json)
    (hname : c.name ≠ kind.payload) {text : String} (hget : holdings.columns.get? c.name = some (.string text)) :
    lite.decode row ≠ post.decode row' := by
  have hc : c ∈ kind.columns := hpost.fields _ hkey
  have hany : keys.any (·.selects c) = true := List.any_eq_true.mpr ⟨_, hkey, decide_eq_true rfl⟩
  have hreserved : kind.isReserved c.name = true :=
    (Kind.eq_payload_or_isReserved (List.mem_map.mpr ⟨c, hc, rfl⟩)).resolve_left hname
  apply decode_ne_of_attribute hlite hpost hback hpayload hrow hrow' c.name
  intro decoded decoded' hfills hfills' hsame
  have hleft := decoded_landed_sqlite hlite hback hname
  have hright : post.landed keys (holdings.handed .postgres) c = _ := landed_postgres hpost hname
  rw [if_pos hany, hget, Option.getD_some] at hleft hright
  rw [Kind.get?_flatten_of_isReserved hfills.sorted hreserved, hfills.columns c hc, hleft,
    Kind.get?_flatten_of_isReserved hfills'.sorted hreserved, hfills'.columns c hc, hright] at hsame
  exact Json.ofText?_ne_self text ((if_pos hjson).symm.trans hsame.symm)

include hlite hpost hback hpayload hrow hrow' in
/-- What the payload holds besides the paths behind it is lost in SQLite: its text gives way to an object. -/
theorem decode_ne_of_loses {name : String} (hmem : name ∈ payload.names) (hreserved : kind.isReserved name = false)
    (hloses : Key.Loses kind keys name) : lite.decode row ≠ post.decode row' := by
  obtain ⟨before, whole, after, rfl, hwhole, hafter, ⟨path, hpath⟩, hnames⟩ := hloses
  have hwholemem : whole ∈ before ++ whole :: after := by simp
  have hbehind : ∀ key ∈ after, key.isWhole kind = false ∧ key.IsField kind :=
    fun key hkey => ⟨hafter key hkey, hlite.fields key (by simp [hkey])⟩
  obtain ⟨⟨text, htext⟩, -⟩ := decoded?_handed_whole hback hpayload hwholemem (hlite.fields whole hwholemem) hwhole
  have hobject := handed_whole_postgres hpayload (hpost.fields whole hwholemem) hwhole
  -- in SQLite the payload starts again from a text, which has no members
  obtain ⟨members, hlanded, hnone⟩ :=
    exists_landed_behind hlite.kind (holdings.handed .sqlite) before hwhole hbehind hpath hnames
  obtain ⟨members', hlanded', hsome⟩ :=
    exists_landed_behind hpost.kind (holdings.handed .postgres) before hwhole hbehind hpath hnames
  rw [htext] at hnone
  rw [hobject] at hsome
  apply decode_ne_of_attribute hlite hpost hback hpayload hrow hrow' name
  intro decoded decoded' hfills hfills' hsame
  rw [hfills.get?_flatten (by rw [hlanded]; rfl), hfills'.get?_flatten (by rw [hlanded']; rfl), hreserved] at hsame
  change members.get? name = members'.get? name at hsame
  rw [hnone, hsome] at hsame
  exact absurd hmem (Members.get?_eq_none_iff.mp hsame.symm)

end Both

/-- **One record from both dialects.** Every row from SQLite is decoded. Where no path is selected behind the
whole payload, Postgres gives the same record, exactly if no selected JSON column besides the payload holds a
string, which it would read as JSON once more. Where a path is, the records differ as soon as the payload has
something that is not reserved besides the paths behind it. -/
theorem decode_eq_decode_iff {kind : Kind} {schema schema' : Schema} {keys : List Key} {lite post : Statement}
    {holdings : Holdings} {payload : Members} (hlite : lite.IsSearch ⟨kind, schema, .sqlite⟩ keys)
    (hpost : post.IsSearch ⟨kind, schema', .postgres⟩ keys) (hback : holdings.ReadsBack keys)
    (hpayload : holdings.columns.get? kind.payload = some (.object payload)) {row row' : Row}
    (hrow : Gives kind keys (holdings.handed .sqlite) row) (hrow' : Gives kind keys (holdings.handed .postgres) row') :
    (∃ record, lite.decode row = .ok record) ∧
      (Key.Settled kind keys → (lite.decode row = post.decode row' ↔
        ∀ c epoch, .column c epoch ∈ keys → c.type = .json → c.name ≠ kind.payload →
          ∀ text, holdings.columns.get? c.name ≠ some (.string text))) ∧
      ∀ name ∈ payload.names, kind.isReserved name = false → Key.Loses kind keys name →
        lite.decode row ≠ post.decode row' := by
  have hlite' := hlite.selects
  have hpost' := hpost.selects
  refine ⟨?_, fun hsettled => ⟨?_, ?_⟩, fun name hmem hreserved hloses => ?_⟩
  · obtain ⟨decoded, hdecode, -⟩ := exists_decodeRow_sqlite hlite' hback hpayload
    exact ⟨_, (hlite'.decode_eq hrow).trans (congrArg (Except.map _) hdecode)⟩
  · intro heq c epoch hkey hjson hname text hget
    exact decode_ne_of_string hlite' hpost' hback hpayload hrow hrow' hkey hjson hname hget heq
  · exact decode_eq_of_settled hlite' hpost' hback hpayload hrow hrow' hsettled
  · exact decode_ne_of_loses hlite' hpost' hback hpayload hrow hrow' hmem hreserved hloses

theorem decode_eq_decode_iff_mixed :
    let query : Json := .object [("x", .nat 1)]
    let payload : Members := [("a", .object [("b", .array [.nat 1, .null])]), ("c", .string "7")]
    let texts := ["a.b", "$meta", "$query", "$name", "$meta"]
    let keys : List Key := [.path ["a", "b"], .column ⟨"meta", .json⟩ false, .column ⟨"query", .json⟩ false,
      .column .label false, .column ⟨"meta", .json⟩ false]
    let row : Row := [("_f0", .string "[1,null]"), ("meta", .string "\x7b\"a\":\x7b\"b\":[1,null]\x7d,\"c\":\"7\"\x7d"),
      ("name", .string "5"), ("query", .string "\x7b\"x\":1\x7d")]
    let row' : Row := [("_f0", .array [.nat 1, .null]), ("meta", .object payload), ("name", .string "5"),
      ("query", query)]
    texts.mapM (Key.ofText? .view) = .ok keys ∧ ∃ lite post : Statement,
      lite.IsSearch ⟨.view, .empty, .sqlite⟩ keys ∧ post.IsSearch ⟨.view, .empty, .postgres⟩ keys ∧
        lite.decode row = post.decode row' := by
  intro query payload texts keys row row'
  have hkeys : texts.mapM (Key.ofText? .view) = .ok keys := rfl
  obtain ⟨lite, hlite⟩ := exists_isSearch ⟨.view, .empty, .sqlite⟩ texts .null
    { Traits.default with fields := .fields (texts.map .string) } hkeys rfl rfl (by decide +kernel)
  obtain ⟨post, hpost⟩ := exists_isSearch ⟨.view, .empty, .postgres⟩ texts .null
    { Traits.default with fields := .fields (texts.map .string) } hkeys rfl rfl (by decide +kernel)
  let holdings : Holdings :=
    { columns := [("meta", .object payload), ("name", .string "5"), ("query", query)]
      extracted := fun path => if path = ["a", "b"] then some (.array [.nat 1, .null]) else none }
  have hback : holdings.ReadsBack keys := by
    intro key hkey _ value hvalue
    simp only [keys, List.mem_cons, List.not_mem_nil, or_false] at hkey
    rcases hkey with rfl | rfl | rfl | rfl | rfl
    all_goals
      cases hvalue
      cbv
  have hrow : Gives .view keys (holdings.handed .sqlite) row := by
    intro position key hkey
    rcases position with _ | _ | _ | _ | _ | position
    all_goals cases hkey
    all_goals cbv
  have hrow' : Gives .view keys (holdings.handed .postgres) row' := by
    intro position key hkey
    rcases position with _ | _ | _ | _ | _ | position
    all_goals cases hkey
    all_goals cbv
  obtain ⟨-, hsame, -⟩ := decode_eq_decode_iff hlite hpost hback rfl hrow hrow'
  refine ⟨hkeys, lite, post, hlite, hpost, (hsame ?_).mpr ?_⟩
  · intro before whole after hsplit _ hafter path hpath
    obtain rfl | ⟨init, last, rfl⟩ := List.eq_nil_or_concat after
    · cases hpath
    · have hends : keys = (before ++ whole :: init) ++ [last] := by simp [hsplit]
      have hlast : some (Key.column ⟨"meta", .json⟩ false) = some last :=
        (congrArg List.getLast? hends).trans List.getLast?_concat
      have hwhole := hafter last (by simp)
      cases hlast
      cases hwhole
  · intro c epoch hkey hjson hname text hget
    simp only [keys, List.mem_cons, List.not_mem_nil, or_false] at hkey
    rcases hkey with heq | heq | heq | heq | heq <;> cases heq
    · exact hname rfl
    · change some (Json.object [("x", .nat 1)]) = some (.string text) at hget
      cases hget
    · cases hjson
    · exact hname rfl

/-- A path behind the whole payload: in SQLite the rest of the payload is lost, and in Postgres it is kept. -/
theorem decode_path_behind_payload :
    let payload : Members := [("a", .nat 1), ("b", .nat 2)]
    let row : Row := [("content", .string "\x7b\"a\":1,\"b\":2\x7d"), ("_f1", .string "1")]
    let row' : Row := [("content", .object payload), ("_f1", .nat 1)]
    let keys : List Key := [.column ⟨"content", .json⟩ false, .path ["a"]]
    Json.ofText? "\x7b\"a\":1,\"b\":2\x7d" = some (.object payload) ∧ Json.ofText? "1" = some (.nat 1) ∧
      ∃ lite post : Statement, lite.IsSearch ⟨.document, .empty, .sqlite⟩ keys ∧
        post.IsSearch ⟨.document, .empty, .postgres⟩ keys ∧
        lite.decode row = .ok (.object [("a", .nat 1)]) ∧ post.decode row' = .ok (.object payload) ∧
        lite.decode row ≠ post.decode row' := by
  intro payload row row' keys
  let texts := ["$content", "a"]
  obtain ⟨lite, hlite⟩ := exists_isSearch ⟨.document, .empty, .sqlite⟩ texts .null
    { Traits.default with fields := .fields (texts.map .string) } rfl rfl rfl (by decide +kernel)
  obtain ⟨post, hpost⟩ := exists_isSearch ⟨.document, .empty, .postgres⟩ texts .null
    { Traits.default with fields := .fields (texts.map .string) } rfl rfl rfl (by decide +kernel)
  have hdecode : lite.decode row = .ok (.object [("a", .nat 1)]) := by
    rw [hlite.selects.decode_selecting]
    cbv
  have hdecode' : post.decode row' = .ok (.object payload) := by
    rw [hpost.selects.decode_selecting]
    rfl
  refine ⟨by cbv, by cbv, lite, post, hlite, hpost, hdecode, hdecode', ?_⟩
  rw [hdecode, hdecode']
  intro heq
  injection heq with heq
  injection heq with heq
  exact absurd (congrArg List.length heq) (by decide)

end Statement

end Dossier
