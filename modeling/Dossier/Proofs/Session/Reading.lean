import Dossier.Proofs.Text.Pieces
import Dossier.Session.Write
import Mathlib.Data.List.Basic

/-!
Insertions and modifications as storage reads them. The text of an insertion lists columns in one pair of parentheses
and placeholders in another; the row that it asks for has under the name of each column the parameter whose number
stands in the same place. The text of a modification falls apart into words. Three of them are one setting, a name, an
equals sign and a placeholder, and a comma behind the placeholder says that another setting follows. Main statements:
what is read of the insertion of a row, and of its modification.
-/

namespace Dossier.Session

open Sql (Dialect quoteIdentifier)

/-! ### Reading an insertion -/

/-- What stands behind the first of one mark up to the next of another, and what follows. -/
def between? (opening closing : Char) (cs : List Char) : Option (List Char × List Char) := do
  let (_, rest) ← Text.cutAt opening cs
  Text.cutAt closing rest

/-- Items with commas between them. -/
def items (cs : List Char) : List (List Char) := (Text.splitAt ',' cs).map Text.trimChars

/-- The name in double quotes. -/
def quotedName? (item : List Char) : Option String := (between? '"' '"' item).map fun pair => String.ofList pair.1

/-- The parameter whose number stands behind the dollar sign. -/
def bound? (params : List Json) (item : List Char) : Option Json := do
  let (_, rest) ← Text.cutAt '$' item
  match Nat.ofDigitChars 10 (rest.takeWhile Char.isDigit) 0 with
  | 0 => none
  | number + 1 => params[number]?

/-- Each name with the parameter bound in its place. -/
def boundNames? (params : List Json) : List (List Char) → List (List Char) → Option Members
  | [], [] => some []
  | name :: names, place :: places => do
    let name ← quotedName? name
    let value ← bound? params place
    return (name, value) :: (← boundNames? params names places)
  | _, _ => none

/-- The row that an insertion asks for. -/
def inserted? (sql : String) (params : List Json) : Option Row := do
  let (names, rest) ← between? '(' ')' sql.toList
  let (places, _) ← between? '(' ')' rest
  return Members.ofList (← boundNames? params (items names) (items places))

/-- The columns that an insertion names, as often as it does, each with the parameter for it. -/
def named? (sql : String) (params : List Json) : Option Members := do
  let (names, rest) ← between? '(' ')' sql.toList
  let (places, _) ← between? '(' ')' rest
  boundNames? params (items names) (items places)

theorem inserted?_eq (sql : String) (params : List Json) :
    inserted? sql params = (named? sql params).map Members.ofList := by
  simp only [inserted?, named?, Option.bind_eq_bind, Option.map_eq_bind, Option.bind_assoc, Function.comp_def]
  rfl

theorem between?_append {opening closing : Char} {before inside : List Char} (hbefore : opening ∉ before)
    (hinside : closing ∉ inside) (rest : List Char) :
    between? opening closing (before ++ opening :: (inside ++ closing :: rest)) = some (inside, rest) := by
  rw [between?, Text.cutAt_append hbefore, Option.bind_eq_bind, Option.bind_some]
  exact Text.cutAt_append hinside rest

/-! ### Items of lists -/

/-- The characters of items: no blanks, and none of the marks that end an item or a list. -/
def isItemChar (c : Char) : Bool := !Text.isBlank c && !([',', '(', ')'].contains c)

theorem isItemChar_of_isDigit {c : Char} (h : c.isDigit = true) : isItemChar c = true := by
  have hsegment := Text.isSegmentChar_of_isDigit h
  have hmark : [',', '(', ')'].contains c = false := by
    refine Bool.eq_false_iff.mpr fun hmem => ?_
    have hmarks : ([',', '(', ')'].all fun mark => !Text.isSegmentChar mark) = true := by decide
    have hother := List.all_eq_true.mp hmarks c (List.contains_iff_mem.mp hmem)
    rw [hsegment] at hother
    exact absurd hother (by decide)
  rw [isItemChar, Text.isBlank_of_isSegmentChar hsegment, hmark]
  rfl

/-- A blank before a list is trimmed off its first item. -/
theorem items_blank_cons (cs : List Char) : items (' ' :: cs) = items cs := by
  have htrim : ∀ piece, Text.trimChars (' ' :: piece) = Text.trimChars piece := by
    intro piece
    rw [Text.trimChars, List.dropWhile_cons_of_pos (by decide)]
    rfl
  rw [items, Text.splitAt, if_neg (by decide), items]
  cases hpieces : Text.splitAt ',' cs with
  | nil => exact absurd hpieces (Text.splitAt_ne_nil ',' cs)
  | cons piece more => rw [List.map_cons, List.map_cons, htrim]

theorem items_intercalate {texts : List String} (hne : texts ≠ [])
    (h : ∀ text ∈ texts, text.toList.all isItemChar = true) :
    items (String.intercalate ", " texts).toList = texts.map String.toList := by
  have hpiece : ∀ text ∈ texts, ',' ∉ text.toList ∧ Text.trimChars text.toList = text.toList := by
    intro text htext
    have hchars := List.all_eq_true.mp (h text htext)
    refine ⟨fun hmem => absurd (hchars ',' hmem) (by decide), Text.trimChars_of_not_blank fun c hc => ?_⟩
    have hc := hchars c hc
    rw [isItemChar, Bool.and_eq_true, Bool.not_eq_true'] at hc
    exact hc.1
  induction texts with
  | nil => exact absurd rfl hne
  | cons text rest ih =>
      obtain ⟨hcomma, htrim⟩ := hpiece text List.mem_cons_self
      cases rest with
      | nil =>
          rw [String.intercalate_singleton, items, Text.splitAt_of_not_mem hcomma, List.map_singleton, htrim]
          rfl
      | cons next rest =>
          have hrest := ih (List.cons_ne_nil _ _) (fun other hother => h other (List.mem_cons_of_mem text hother))
            fun other hother => hpiece other (List.mem_cons_of_mem text hother)
          rw [String.intercalate_cons_cons, String.append_assoc, String.toList_append, String.toList_append]
          change items (text.toList ++ ',' :: ' ' :: (String.intercalate ", " (next :: rest)).toList) = _
          rw [items, Text.splitAt_append hcomma, List.map_cons, htrim, ← items, items_blank_cons, hrest]
          rfl

/-- No parenthesis stands in a list of items. -/
theorem not_mem_intercalate {mark : Char} (hmark : isItemChar mark = false) (hlist : mark ∉ ", ".toList)
    {texts : List String} (h : ∀ text ∈ texts, text.toList.all isItemChar = true) :
    mark ∉ (String.intercalate ", " texts).toList := by
  intro hmem
  rcases Text.mem_intercalate hmem with hmem | ⟨text, htext, hmem⟩
  · exact hlist hmem
  · exact absurd ((List.all_eq_true.mp (h text htext) mark hmem).symm.trans hmark) (by decide)

/-! ### Names and placeholders -/

theorem quoted_column {kind : Kind} {c : Column} (hc : c ∈ kind.columns) :
    (quoteIdentifier c.name).toList.all isItemChar = true ∧
      quotedName? (quoteIdentifier c.name).toList = some c.name := by
  have hall : ∀ c ∈ kind.columns, (quoteIdentifier c.name).toList.all isItemChar = true ∧
      quotedName? (quoteIdentifier c.name).toList = some c.name := by
    cases kind <;> decide
  exact hall c hc

/-- A placeholder is its number behind a dollar sign, and perhaps a conversion. -/
theorem placeholder_eq (dialect : Dialect) (type : ColumnType) (number : Nat) :
    ∃ cast ∈ ["", "::jsonb", "::timestamptz"],
      placeholder dialect type number = "$" ++ toString number ++ cast := by
  unfold placeholder
  dsimp only
  split
  · exact ⟨_, by decide, rfl⟩
  · exact ⟨_, by decide, rfl⟩
  · exact ⟨_, List.mem_cons_self, String.append_empty.symm⟩

theorem toList_placeholder (dialect : Dialect) (type : ColumnType) (number : Nat) :
    ∃ cast : List Char, cast.all isItemChar = true ∧ cast.takeWhile Char.isDigit = [] ∧
      (placeholder dialect type number).toList = '$' :: (Nat.toDigits 10 number ++ cast) := by
  obtain ⟨cast, hcast, heq⟩ := placeholder_eq dialect type number
  have hall : ∀ cast ∈ ["", "::jsonb", "::timestamptz"],
      cast.toList.all isItemChar = true ∧ cast.toList.takeWhile Char.isDigit = [] := by decide
  obtain ⟨hchars, hdigits⟩ := hall cast hcast
  refine ⟨cast.toList, hchars, hdigits, ?_⟩
  rw [heq, String.toList_append, String.toList_append, Nat.toString_eq_repr, Nat.toList_repr, List.append_assoc]
  rfl

theorem placeholder_isItem (dialect : Dialect) (type : ColumnType) (number : Nat) :
    (placeholder dialect type number).toList.all isItemChar = true := by
  obtain ⟨cast, hchars, -, heq⟩ := toList_placeholder dialect type number
  have hdigits : (Nat.toDigits 10 number).all isItemChar = true :=
    List.all_eq_true.mpr fun c hc =>
      isItemChar_of_isDigit (Nat.isDigit_of_mem_toDigits (by decide) (by decide) hc)
  rw [heq, List.all_cons, List.all_append, hdigits, hchars]
  decide

/-- A placeholder binds the parameter of its number, whatever conversion stands behind it. -/
theorem bound?_placeholder (dialect : Dialect) (type : ColumnType) (params : List Json) (k : Nat) :
    bound? params (placeholder dialect type (k + 1)).toList = params[k]? := by
  obtain ⟨cast, -, hcast, heq⟩ := toList_placeholder dialect type (k + 1)
  have hdigits : ∀ c ∈ Nat.toDigits 10 (k + 1), c.isDigit = true :=
    fun c hc => Nat.isDigit_of_mem_toDigits (by decide) (by decide) hc
  have hcut : Text.cutAt '$' ('$' :: (Nat.toDigits 10 (k + 1) ++ cast)) =
      some ([], Nat.toDigits 10 (k + 1) ++ cast) := Text.cutAt_append List.not_mem_nil _
  rw [bound?, heq, hcut, Option.bind_eq_bind, Option.bind_some]
  dsimp only
  rw [List.takeWhile_append_of_pos hdigits, hcast, List.append_nil,
    Nat.ofDigitChars_toDigits (by decide) (by decide)]

/-! ### The insertion of a row -/

/-- Columns in quotes and placeholders numbered on from `k` are read together. -/
theorem boundNames?_placeholders {kind : Kind} {assignments : List Assignment}
    (hcolumns : ∀ assignment ∈ assignments, assignment.1 ∈ kind.columns) (dialect : Dialect)
    (before : List Json) :
    boundNames? (before ++ assignments.map Assignment.param) ((columnNames assignments).map String.toList)
      (((assignments.zipIdx before.length).map fun (assignment, index) =>
        placeholder dialect assignment.1.type (index + 1)).map String.toList) =
      some (assignments.map fun assignment => (assignment.1.name, assignment.param)) := by
  induction assignments generalizing before with
  | nil => rfl
  | cons assignment rest ih =>
      have hname := (quoted_column (hcolumns assignment List.mem_cons_self)).2
      have hrest := ih (fun other hother => hcolumns other (List.mem_cons_of_mem assignment hother))
        (before ++ [assignment.param])
      rw [List.append_assoc, List.singleton_append, List.length_append, List.length_singleton] at hrest
      rw [columnNames, List.map_cons, List.map_cons, List.zipIdx_cons, List.map_cons, List.map_cons, List.map_cons,
        boundNames?, hname, bound?_placeholder, List.getElem?_append_right (Nat.le_refl _), Nat.sub_self]
      rw [columnNames] at hrest
      rw [List.map_cons, hrest]
      rfl

theorem insertion_eq (dialect : Dialect) {kind : Kind} {row : Row} (hsome : insertedColumns kind row ≠ []) :
    insertion dialect kind row =
      ("INSERT INTO " ++ quoteIdentifier kind.table ++ " (" ++
        String.intercalate ", " (columnNames (insertedColumns kind row)) ++ ") VALUES (" ++
        String.intercalate ", " (placeholders dialect (insertedColumns kind row)) ++ ") RETURNING *",
        (insertedColumns kind row).map Assignment.param) := by
  rw [insertion]
  exact if_neg (mt List.isEmpty_iff.mp hsome)

/-- The columns that an insertion names are the assigned ones, each with its own parameter. -/
theorem named?_insertion (dialect : Dialect) {kind : Kind} {row : Row} (hsome : insertedColumns kind row ≠ [])
    (hcolumns : ∀ assignment ∈ insertedColumns kind row, assignment.1 ∈ kind.columns) :
    named? (insertion dialect kind row).1 (insertion dialect kind row).2 =
      some ((insertedColumns kind row).map fun assignment => (assignment.1.name, assignment.param)) := by
  have hnames : ∀ text ∈ columnNames (insertedColumns kind row), text.toList.all isItemChar = true := by
    intro text htext
    obtain ⟨assignment, hmem, rfl⟩ := List.mem_map.mp htext
    exact (quoted_column (hcolumns assignment hmem)).1
  have hplaces : ∀ text ∈ placeholders dialect (insertedColumns kind row), text.toList.all isItemChar = true := by
    intro text htext
    obtain ⟨⟨assignment, index⟩, -, rfl⟩ := List.mem_map.mp htext
    exact placeholder_isItem dialect assignment.1.type (index + 1)
  have hbefore : ∀ kind : Kind, '(' ∉ ("INSERT INTO " ++ quoteIdentifier kind.table ++ " ").toList := by
    intro kind
    cases kind <;> decide
  have hbound := boundNames?_placeholders hcolumns dialect []
  rw [insertion_eq dialect hsome]
  generalize insertedColumns kind row = assignments at *
  have hsql : ("INSERT INTO " ++ quoteIdentifier kind.table ++ " (" ++
      String.intercalate ", " (columnNames assignments) ++ ") VALUES (" ++
      String.intercalate ", " (placeholders dialect assignments) ++ ") RETURNING *").toList =
      ("INSERT INTO " ++ quoteIdentifier kind.table ++ " ").toList ++ '(' ::
        ((String.intercalate ", " (columnNames assignments)).toList ++ ')' ::
          (" VALUES ".toList ++ '(' :: ((String.intercalate ", " (placeholders dialect assignments)).toList ++
            ')' :: " RETURNING *".toList))) := by
    simp only [String.toList_append, List.append_assoc]
    rfl
  dsimp only
  rw [named?, hsql, between?_append (hbefore kind) (not_mem_intercalate (by decide) (by decide) hnames),
    Option.bind_eq_bind, Option.bind_some]
  dsimp only
  rw [between?_append (by decide) (not_mem_intercalate (by decide) (by decide) hplaces), Option.bind_some]
  dsimp only
  have hnames' : columnNames assignments ≠ [] := mt List.map_eq_nil_iff.mp hsome
  have hplaces' : placeholders dialect assignments ≠ [] :=
    mt (fun hnil => List.zipIdx_eq_nil_iff.mp (List.map_eq_nil_iff.mp hnil)) hsome
  rw [items_intercalate hnames' hnames, items_intercalate hplaces' hplaces]
  exact hbound

/-- **Insertions are read as they are meant.** In either dialect the statement that inserts a row asks for
the row of the assigned columns, each with its own parameter. -/
theorem inserted?_insertion (dialect : Dialect) {kind : Kind} {row : Row} (hsome : insertedColumns kind row ≠ [])
    (hcolumns : ∀ assignment ∈ insertedColumns kind row, assignment.1 ∈ kind.columns) :
    inserted? (insertion dialect kind row).1 (insertion dialect kind row).2 =
      some (Members.ofList ((insertedColumns kind row).map fun assignment =>
        (assignment.1.name, assignment.param))) := by
  rw [inserted?_eq, named?_insertion dialect hsome hcolumns]
  rfl

/-! ### Reading a modification -/

/-- The words behind a keyword. -/
def keyword? (word : String) : List (List Char) → Option (List (List Char))
  | [] => none
  | first :: rest => if first = word.toList then some rest else none

/-- Settings with commas between them, each a name and the parameter that is bound for it, and the words that follow. -/
def settings? (params : List Json) : List (List Char) → Option (Members × List (List Char))
  | name :: sign :: place :: rest =>
    if sign = ['='] then do
      let name ← quotedName? name
      match Text.beforeEnd [','] place with
      | some place =>
        let value ← bound? params place
        let (more, rest) ← settings? params rest
        return ((name, value) :: more, rest)
      | none => return ([(name, ← bound? params place)], rest)
    else none
  | _ => none

/-- What a modification sets, and what the rows that it sets it in have. -/
def modified? (sql : String) (params : List Json) : Option (Members × Members) := do
  let rest ← keyword? "UPDATE" (Text.splitAt ' ' sql.toList)
  let rest ← keyword? "SET" (rest.drop 1)
  let (settings, rest) ← settings? params rest
  let rest ← keyword? "WHERE" rest
  let (found, _) ← settings? params rest
  return (settings, found)

/-! ### Settings -/

/-- The setting of a column to the parameter with a number. -/
def setting (dialect : Dialect) (column : Column) (number : Nat) : String :=
  quoteIdentifier column.name ++ " = " ++ placeholder dialect column.type number

/-- Settings with commas between them, numbered on behind `before`. -/
def settingsFrom (dialect : Dialect) (before : Nat) (assignments : List Assignment) : String :=
  String.intercalate ", " ((assignments.zipIdx before).map fun (assignment, index) =>
    setting dialect assignment.1 (index + 1))

theorem settingsFrom_singleton (dialect : Dialect) (before : Nat) (assignment : Assignment) :
    settingsFrom dialect before [assignment] = setting dialect assignment.1 (before + 1) :=
  String.intercalate_singleton

theorem settingsFrom_cons_cons (dialect : Dialect) (before : Nat) (assignment next : Assignment)
    (rest : List Assignment) :
    settingsFrom dialect before (assignment :: next :: rest) =
      setting dialect assignment.1 (before + 1) ++ ", " ++ settingsFrom dialect (before + 1) (next :: rest) :=
  String.intercalate_cons_cons

/-- What stands on the left of settings is plain text, and the identity is found as a column is set. -/
theorem modification_eq (dialect : Dialect) (kind : Kind) (assignments : List Assignment) (id : String) :
    modification dialect kind assignments id =
      ("UPDATE " ++ quoteIdentifier kind.table ++ " SET " ++ settingsFrom dialect 0 assignments ++ " WHERE " ++
        setting dialect Column.identity (assignments.length + 1) ++ " RETURNING *",
        assignments.map Assignment.param ++ [.string id]) := by
  have hsettings : ∀ before, List.zipWith (fun name value => name ++ " = " ++ value) (columnNames assignments)
      ((assignments.zipIdx before).map fun (assignment, index) => placeholder dialect assignment.1.type (index + 1)) =
        (assignments.zipIdx before).map fun (assignment, index) => setting dialect assignment.1 (index + 1) := by
    induction assignments with
    | nil => intro before; rfl
    | cons assignment rest ih =>
        intro before
        rw [List.zipIdx_cons, List.map_cons, List.map_cons, columnNames, List.map_cons, List.zipWith_cons_cons,
          ← columnNames, ih]
        rfl
  have hidentity : setting dialect Column.identity (assignments.length + 1) =
      "\"id\" = $" ++ toString (assignments.length + 1) := by
    cases dialect <;> rfl
  rw [modification, placeholders, hsettings 0, hidentity, settingsFrom]
  simp only [String.append_assoc]
  rfl

/-- A setting is three words; what stands behind it without a blank belongs to the last of them. -/
theorem splitAt_setting {kind : Kind} {c : Column} (hc : c ∈ kind.columns) (dialect : Dialect) (number : Nat)
    {mark : List Char} (hmark : ' ' ∉ mark) (rest : List Char) :
    Text.splitAt ' ' ((setting dialect c number).toList ++ (mark ++ ' ' :: rest)) =
      (quoteIdentifier c.name).toList :: ['='] :: ((placeholder dialect c.type number).toList ++ mark) ::
        Text.splitAt ' ' rest := by
  have hblank : ∀ {text : String}, text.toList.all isItemChar = true → ' ' ∉ text.toList :=
    fun htext hmem => absurd (List.all_eq_true.mp htext ' ' hmem) (by decide)
  have hplace : ' ' ∉ (placeholder dialect c.type number).toList ++ mark := by
    rw [List.mem_append, not_or]
    exact ⟨hblank (placeholder_isItem dialect c.type number), hmark⟩
  have htext : (setting dialect c number).toList ++ (mark ++ ' ' :: rest) =
      (quoteIdentifier c.name).toList ++ ' ' :: (['='] ++ ' ' ::
        (((placeholder dialect c.type number).toList ++ mark) ++ ' ' :: rest)) := by
    rw [setting, String.toList_append, String.toList_append]
    simp only [List.append_assoc]
    rfl
  rw [htext, Text.splitAt_append (hblank (quoted_column hc).1), Text.splitAt_append (by decide),
    Text.splitAt_append hplace]

section

variable {kind : Kind} {c : Column} (hc : c ∈ kind.columns) (dialect : Dialect) {params : List Json} {number : Nat}
  {param : Json} (hparam : params[number]? = some param)

include hc hparam

/-- A setting without a comma behind it is the last that is read. -/
theorem settings?_setting_last (rest : List Char) :
    settings? params (Text.splitAt ' ' ((setting dialect c (number + 1)).toList ++ ' ' :: rest)) =
      some ([(c.name, param)], Text.splitAt ' ' rest) := by
  have hwords := splitAt_setting hc dialect (number + 1) List.not_mem_nil rest
  have hlast : Text.beforeEnd [','] (placeholder dialect c.type (number + 1)).toList = none := by
    refine Option.eq_none_iff_forall_ne_some.mpr fun piece hpiece => ?_
    have hmem := List.mem_append_right piece (List.mem_singleton_self ',')
    rw [← Text.beforeEnd_eq_some_iff.mp hpiece] at hmem
    exact absurd (List.all_eq_true.mp (placeholder_isItem _ _ _) ',' hmem) (by decide)
  rw [List.nil_append, List.append_nil] at hwords
  rw [hwords, settings?, if_pos rfl, (quoted_column hc).2, Option.bind_eq_bind, Option.bind_some, hlast]
  dsimp only
  rw [bound?_placeholder, hparam]
  rfl

/-- Behind a comma the reading of settings goes on. -/
theorem settings?_setting_next {rest : List Char} {more : Members × List (List Char)}
    (hmore : settings? params (Text.splitAt ' ' rest) = some more) :
    settings? params (Text.splitAt ' ' ((setting dialect c (number + 1)).toList ++ (", ".toList ++ rest))) =
      some ((c.name, param) :: more.1, more.2) := by
  have hcomma : ' ' ≠ ',' := by decide
  have hseparator : ", ".toList ++ rest = [','] ++ ' ' :: rest := rfl
  have hplace : Text.beforeEnd [','] ((placeholder dialect c.type (number + 1)).toList ++ [',']) = some _ :=
    Text.beforeEnd_eq_some_iff.mpr rfl
  rw [hseparator, splitAt_setting hc dialect (number + 1) (List.mem_singleton.not.mpr hcomma), settings?, if_pos rfl,
    (quoted_column hc).2, Option.bind_eq_bind, Option.bind_some, hplace]
  dsimp only
  rw [bound?_placeholder, hparam, hmore]
  rfl

end

/-- Settings are read up to the last, each with the parameter of its number. -/
theorem settings?_settingsFrom {kind : Kind} {assignments : List Assignment} (hsome : assignments ≠ [])
    (hcolumns : ∀ assignment ∈ assignments, assignment.1 ∈ kind.columns) (dialect : Dialect)
    (before after : List Json) (rest : List Char) :
    settings? (before ++ assignments.map Assignment.param ++ after)
      (Text.splitAt ' ' ((settingsFrom dialect before.length assignments).toList ++ ' ' :: rest)) =
        some (assignments.map fun assignment => (assignment.1.name, assignment.param), Text.splitAt ' ' rest) := by
  induction assignments generalizing before with
  | nil => exact absurd rfl hsome
  | cons assignment others ih =>
      have hc := hcolumns assignment List.mem_cons_self
      have hparam : (before ++ (assignment :: others).map Assignment.param ++ after)[before.length]? =
          some assignment.param := by
        rw [List.append_assoc, List.getElem?_append_right (Nat.le_refl _), Nat.sub_self]
        rfl
      cases others with
      | nil =>
          rw [settingsFrom_singleton]
          exact settings?_setting_last hc dialect hparam rest
      | cons next others =>
          -- the rest is numbered on behind the parameter of this setting
          have hmore := ih (List.cons_ne_nil _ _)
            (fun other hother => hcolumns other (List.mem_cons_of_mem assignment hother)) (before ++ [assignment.param])
          rw [List.length_append, List.length_singleton, List.append_assoc before, List.singleton_append,
            ← List.map_cons] at hmore
          rw [settingsFrom_cons_cons, String.toList_append, String.toList_append,
            List.append_assoc (setting _ _ _).toList, List.append_assoc (setting _ _ _).toList,
            List.append_assoc ", ".toList]
          exact settings?_setting_next hc dialect hparam hmore

/-! ### The modification of a row -/

theorem keyword?_cons (word : String) (rest : List (List Char)) : keyword? word (word.toList :: rest) = some rest :=
  if_pos rfl

/-- **Modifications are read as they are meant.** In either dialect the statement that modifies a row sets the assigned
columns, each to its own parameter, where the identity is the parameter behind theirs. -/
theorem modified?_modification (dialect : Dialect) {kind : Kind} {assignments : List Assignment}
    (hsome : assignments ≠ []) (hcolumns : ∀ assignment ∈ assignments, assignment.1 ∈ kind.columns) (id : String) :
    let statement := modification dialect kind assignments id
    modified? statement.1 statement.2 =
      some (assignments.map fun assignment => (assignment.1.name, assignment.param), [(identityName, .string id)]) := by
  have htable : ∀ kind : Kind, ' ' ∉ (quoteIdentifier kind.table).toList := by
    intro kind
    cases kind <;> decide
  have hidentity : Column.identity ∈ kind.columns := by cases kind <;> decide
  have hset := settings?_settingsFrom hsome hcolumns dialect [] [.string id]
    ("WHERE".toList ++ ' ' :: ((setting dialect Column.identity (assignments.length + 1)).toList ++
      ' ' :: "RETURNING *".toList))
  have hkey : (assignments.map Assignment.param ++ [Json.string id])[assignments.length]? = some (.string id) := by
    rw [List.getElem?_append_right (Nat.le_of_eq (List.length_map _)), List.length_map, Nat.sub_self]
    rfl
  have hfound := settings?_setting_last hidentity dialect hkey "RETURNING *".toList
  have hsql : (modification dialect kind assignments id).1.toList = "UPDATE".toList ++ ' ' ::
      ((quoteIdentifier kind.table).toList ++ ' ' :: ("SET".toList ++ ' ' ::
        ((settingsFrom dialect 0 assignments).toList ++ ' ' :: ("WHERE".toList ++ ' ' ::
          ((setting dialect Column.identity (assignments.length + 1)).toList ++ ' ' :: "RETURNING *".toList))))) := by
    rw [modification_eq]
    simp only [String.toList_append, List.append_assoc]
    rfl
  have hparams : (modification dialect kind assignments id).2 = assignments.map Assignment.param ++ [.string id] := rfl
  dsimp only
  rw [modified?, hsql, hparams, Text.splitAt_append (by decide), Text.splitAt_append (htable kind),
    Text.splitAt_append (by decide), keyword?_cons, Option.bind_eq_bind, Option.bind_some, List.drop_one,
    List.tail_cons, keyword?_cons, Option.bind_some]
  rw [List.nil_append, List.length_nil] at hset
  have hwhere : ' ' ∉ "WHERE".toList := by decide
  rw [hset, Text.splitAt_append hwhere, Option.bind_eq_bind, Option.bind_some]
  dsimp only
  rw [keyword?_cons, Option.bind_some]
  exact congrArg (Option.bind · _) hfound

end Dossier.Session
