import Dossier.Proofs.Text.Pieces
import Dossier.Sql.Dialect
import Dossier.Sql.Predicate
import Dossier.Storage.Numeric

/-!
Comparisons as engines read them. A condition is cut into lexemes and read by the precedence that both
dialects give to their operators: a conversion binds tighter than an extraction, and that tighter than an
equality. What extraction, conversion and equality come to is the engine's affair.
-/

namespace Dossier

/-- A flag, an integer or a string. -/
def Json.IsPlain : Json → Prop
  | .bool _ | .number (.int _) | .string _ => True
  | _ => False

/-- What a document holds under a key is plain, null or nothing. -/
def Members.HoldsPlain (members : Members) (key : String) : Prop :=
  (members.get? key).getD .null = .null ∨ ((members.get? key).getD .null).IsPlain

namespace Sql

/-! ### Reading a comparison -/

inductive Lexeme where
  | mark (text : String)
  /-- A word in lower case. -/
  | word (text : String)
  /-- A name in double quotes. -/
  | name (text : String)
  | parameter (number : Nat)
  deriving DecidableEq, Repr

namespace Lexeme

def marks : List String := ["->>", "::", "(", ")", "="]

/-- The lexemes of a text. Each takes a character at least, so the length of the text is enough fuel. -/
def scan : Nat → List Char → Option (List Lexeme)
  | _, [] => some []
  | 0, _ => none
  | fuel + 1, c :: rest =>
    if c = ' ' then scan fuel rest
    else if c = '"' then do
      let (text, rest) ← Text.cutAt '"' rest
      return .name (String.ofList text) :: (← scan fuel rest)
    else if c = '$' then do
      let number := Nat.ofDigitChars 10 (rest.takeWhile Text.isDigit) 0
      return .parameter number :: (← scan fuel (rest.dropWhile Text.isDigit))
    else if Text.isLetter c then do
      let text := ((c :: rest).takeWhile Text.isLetter).map Char.toLower
      return .word (String.ofList text) :: (← scan fuel ((c :: rest).dropWhile Text.isLetter))
    else do
      let mark ← marks.find? (·.toList.isPrefixOf (c :: rest))
      return .mark mark :: (← scan fuel ((c :: rest).drop mark.length))

end Lexeme

inductive Phrase where
  | column (name : String)
  | parameter (number : Nat)
  /-- The value of a document under a key. -/
  | extract (document key : Phrase)
  | castText (operand : Phrase)
  | equal (left right : Phrase)
  deriving DecidableEq, Repr

namespace Phrase

mutual

/-- An equality, or a phrase that binds tighter. -/
def readEquality : Nat → List Lexeme → Option (Phrase × List Lexeme)
  | 0, _ => none
  | fuel + 1, lexemes => do
    let (left, rest) ← readExtraction fuel lexemes
    match rest with
    | .mark "=" :: rest => (readExtraction fuel rest).map fun (right, rest) => (.equal left right, rest)
    | rest => return (left, rest)

def readExtraction : Nat → List Lexeme → Option (Phrase × List Lexeme)
  | 0, _ => none
  | fuel + 1, lexemes => do
    let (document, rest) ← readConversion fuel lexemes
    match rest with
    | .mark "->>" :: rest => (readConversion fuel rest).map fun (key, rest) => (.extract document key, rest)
    | rest => return (document, rest)

def readConversion : Nat → List Lexeme → Option (Phrase × List Lexeme)
  | 0, _ => none
  | fuel + 1, lexemes => do
    match ← readOperand fuel lexemes with
    | (operand, .mark "::" :: .word "text" :: rest) => return (.castText operand, rest)
    | (operand, rest) => return (operand, rest)

def readOperand : Nat → List Lexeme → Option (Phrase × List Lexeme)
  | _, .name text :: rest => some (.column text, rest)
  | _, .parameter number :: rest => some (.parameter number, rest)
  | fuel + 1, .mark "(" :: rest => do
    match ← readEquality fuel rest with
    | (inner, .mark ")" :: rest) => return (inner, rest)
    | _ => none
  | fuel + 1, .word "cast" :: .mark "(" :: rest => do
    match ← readEquality fuel rest with
    | (inner, .word "as" :: .word "text" :: .mark ")" :: rest) => return (.castText inner, rest)
    | _ => none
  | _, _ => none

end

/-- The phrase that a text is, if it can be read as one. -/
def ofText? (sql : String) : Option Phrase := do
  let lexemes ← Lexeme.scan sql.length sql.toList
  match ← readEquality (4 * lexemes.length) lexemes with
  | (phrase, []) => some phrase
  | _ => none

end Phrase

/-! ### Engines -/

/-- What an engine makes of operators: the value of a document under a key, the text of a value, and whether
values are equal, if that is known. -/
structure Engine where
  extract : Members → Scalar → Scalar
  castText : Scalar → Scalar
  equal : Scalar → Scalar → Option Bool

/-- What a phrase stands for on a record. -/
inductive Meaning where
  | document (members : Members)
  | value (value : Scalar)
  | truth (known : Option Bool)
  deriving Inhabited

namespace Engine

/-- The meaning of a phrase on a record with a document in one column. Parameters that are strings are
bound as texts. -/
def meaning? (engine : Engine) (column : String) (document : Members) (params : List Json) :
    Phrase → Option Meaning
  | .column name => if name = column then some (.document document) else none
  | .parameter 0 => none
  | .parameter (k + 1) => (params[k]?).map fun param => .value (Scalar.ofJson param)
  | .extract a b => do
    match ← engine.meaning? column document params a, ← engine.meaning? column document params b with
    | .document members, .value key => return .value (engine.extract members key)
    | _, _ => none
  | .castText a => do
    match ← engine.meaning? column document params a with
    | .value v => return .value (engine.castText v)
    | _ => none
  | .equal a b => do
    match ← engine.meaning? column document params a, ← engine.meaning? column document params b with
    | .value v, .value w => return .truth (engine.equal v w)
    | _, _ => none

/-- Whether a record with the document in the column meets a condition. -/
def Meets (engine : Engine) (column : String) (document : Members) (condition : Predicate) : Prop :=
  ∃ phrase, Phrase.ofText? condition.format = some phrase ∧
    engine.meaning? column document condition.params phrase = some (.truth (some true))

/-! ### The engines of the dialects -/

def flagName (flag : Bool) : String := if flag then "true" else "false"

def flagDigit (flag : Bool) : String := if flag then "1" else "0"

/-- The JSON path of a member. -/
def memberPath (name : String) : String := "$.\"" ++ name ++ "\""

/-- What every engine makes of texts: a conversion keeps them, texts are equal if they are the same, and null
is equal to nothing. -/
structure HasTexts (engine : Engine) : Prop where
  castText_text : ∀ s, engine.castText (.text s) = .text s
  equal_text : ∀ s t, engine.equal (.text s) (.text t) = some (decide (s = t))
  equal_null : ∀ v, engine.equal .null v ≠ some true

/-- Postgres: what stands under the name of a member is the text of its value. -/
structure IsPostgres (engine : Engine) : Prop extends HasTexts engine where
  extract_flag : ∀ {members name flag}, Members.get? members name = some (.bool flag) →
    engine.extract members (.text name) = .text (flagName flag)
  extract_integer : ∀ {members name i}, Members.get? members name = some (.int i) →
    engine.extract members (.text name) = .text (toString i)
  extract_string : ∀ {members name s}, Members.get? members name = some (.string s) →
    engine.extract members (.text name) = .text s
  extract_null : ∀ {members name}, (Members.get? members name).getD .null = .null →
    engine.extract members (.text name) = .null

/-- SQLite: what stands under the path of a member is its value, a flag as 1 or 0, and an integer is converted
to its decimal digits. -/
structure IsSqlite (engine : Engine) : Prop extends HasTexts engine where
  castText_integer : ∀ i, engine.castText (.integer i) = .text (toString i)
  castText_null : engine.castText .null = .null
  extract_flag : ∀ {members name flag}, '"' ∉ name.toList → Members.get? members name = some (.bool flag) →
    engine.extract members (.text (memberPath name)) = .integer (if flag then 1 else 0)
  extract_integer : ∀ {members name i}, '"' ∉ name.toList → Members.get? members name = some (.int i) →
    engine.extract members (.text (memberPath name)) = .integer i
  extract_string : ∀ {members name s}, '"' ∉ name.toList → Members.get? members name = some (.string s) →
    engine.extract members (.text (memberPath name)) = .text s
  extract_null : ∀ {members name}, '"' ∉ name.toList → (Members.get? members name).getD .null = .null →
    engine.extract members (.text (memberPath name)) = .null

/-! ### Plain values as texts -/

/-- The text of a plain value where flags are spelled in one way or another. -/
def spelled? (flagText : Bool → String) : Json → Option String
  | .bool flag => some (flagText flag)
  | .number (.int i) => some (toString i)
  | .string s => some s
  | _ => none

def textOrNull : Option String → Scalar
  | some s => .text s
  | none => .null

theorem toString_flag (flag : Bool) : toString (if flag then 1 else 0 : Int) = flagDigit flag := by
  cases flag <;> rfl

variable {engine : Engine} {members : Members} {name : String}

theorem HasTexts.equal_iff (h : engine.HasTexts) (held : Option String) (t : String) :
    engine.equal (textOrNull held) (.text t) = some true ↔ held = some t := by
  cases held with
  | none => exact iff_of_false (h.equal_null _) (by simp)
  | some s =>
    rw [textOrNull, h.equal_text, Option.some_inj, Option.some_inj, decide_eq_true_iff]

theorem IsPostgres.extract_plain (h : engine.IsPostgres) (hplain : members.HoldsPlain name) :
    engine.extract members (.text name) = textOrNull (spelled? flagName ((members.get? name).getD .null)) := by
  obtain hnull | hplain := hplain
  · rw [h.extract_null hnull, hnull]
    rfl
  · cases hget : members.get? name with
    | none => rw [hget] at hplain; exact hplain.elim
    | some v =>
      rw [hget] at hplain
      match v, hplain with
      | .bool flag, _ => exact h.extract_flag hget
      | .number (.int i), _ => exact h.extract_integer hget
      | .string s, _ => exact h.extract_string hget

theorem IsSqlite.castText_plain (h : engine.IsSqlite) (hname : '"' ∉ name.toList)
    (hplain : members.HoldsPlain name) :
    engine.castText (engine.extract members (.text (memberPath name))) =
      textOrNull (spelled? flagDigit ((members.get? name).getD .null)) := by
  obtain hnull | hplain := hplain
  · rw [h.extract_null hname hnull, h.castText_null, hnull]
    rfl
  · cases hget : members.get? name with
    | none => rw [hget] at hplain; exact hplain.elim
    | some v =>
      rw [hget] at hplain
      match v, hplain with
      | .bool flag, _ =>
        rw [h.extract_flag hname hget, h.castText_integer, toString_flag]
        rfl
      | .number (.int i), _ =>
        rw [h.extract_integer hname hget, h.castText_integer]
        rfl
      | .string s, _ =>
        rw [h.extract_string hname hget, h.castText_text]
        rfl

/-! ### Engines that keep the rules -/

def equalKnown (v w : Scalar) : Option Bool := if v = .null ∨ w = .null then none else some (decide (v = w))

/-- Postgres on plain values; containers are their canonical text. -/
def postgres : Engine where
  extract members key := match key with
    | .text name => textOrNull (match (members.get? name).getD .null with
      | .null => none
      | .string s => some s
      | v => some v.text)
    | _ => .null
  castText := Scalar.castText
  equal := equalKnown

/-- The member that a path names, if it has one step. -/
def member? (path : String) : Option String := do
  let (name, rest) ← Text.cutAt '"' (← Text.afterStart "$.\"".toList path.toList)
  if rest.isEmpty then some (String.ofList name) else none

/-- SQLite on plain values; only paths of one step name anything. -/
def sqlite : Engine where
  extract members key := match key with
    | .text path => match (member? path).bind members.get? with
      | some (.number (.int i)) => .integer i
      | found => Scalar.ofJson (found.getD .null)
    | _ => .null
  castText := Scalar.castText
  equal := equalKnown

theorem equalKnown_text (s t : String) : equalKnown (.text s) (.text t) = some (decide (s = t)) := by
  simp [equalKnown]

theorem equalKnown_null (v : Scalar) : equalKnown .null v ≠ some true := by
  simp [equalKnown]

theorem member?_memberPath {name : String} (hname : '"' ∉ name.toList) : member? (memberPath name) = some name := by
  have hpath : (memberPath name).toList = "$.\"".toList ++ (name.toList ++ ['"']) := by
    rw [memberPath, String.toList_append, String.toList_append, List.append_assoc]
    rfl
  have hstart : Text.afterStart "$.\"".toList (memberPath name).toList = some (name.toList ++ ['"']) :=
    Text.afterStart_eq_some_iff.mpr hpath
  have hcut : Text.cutAt '"' (name.toList ++ ['"']) = some (name.toList, []) := Text.cutAt_append hname []
  rw [member?, hstart]
  simp [hcut]

theorem isPostgres_postgres : postgres.IsPostgres where
  castText_text _ := rfl
  equal_text := equalKnown_text
  equal_null := equalKnown_null
  extract_flag {members name flag} h := by
    cases flag <;> simp [postgres, h, textOrNull, flagName, Json.text]
  extract_integer h := by simp [postgres, h, textOrNull, Json.text, Number.text, Json.int]
  extract_string h := by simp [postgres, h, textOrNull]
  extract_null h := by simp [postgres, h, textOrNull]

theorem isSqlite_sqlite : sqlite.IsSqlite where
  castText_text _ := rfl
  equal_text := equalKnown_text
  equal_null := equalKnown_null
  castText_integer _ := rfl
  castText_null := rfl
  extract_flag hname h := by simp [sqlite, member?_memberPath hname, h, Scalar.ofJson]
  extract_integer hname h := by simp [sqlite, member?_memberPath hname, h, Json.int]
  extract_string hname h := by simp [sqlite, member?_memberPath hname, h, Scalar.ofJson]
  extract_null {members name} hname h := by
    cases hget : members.get? name with
    | none => simp [sqlite, member?_memberPath hname, hget, Scalar.ofJson]
    | some v =>
      obtain rfl : v = .null := by rwa [hget] at h
      simp [sqlite, member?_memberPath hname, hget, Scalar.ofJson]

end Engine

end Sql

end Dossier
