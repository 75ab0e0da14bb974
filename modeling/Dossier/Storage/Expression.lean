import Dossier.Fault
import Dossier.Json.Reader
import Dossier.Storage.StoredJsonReader

/-!
Expressions of the store's SQL and their values on a row.
-/

namespace Dossier

/-- Runs the functions that calls in filters name. -/
inductive Evaluator where
  /-- Whether the first value is at least the first extra value, both numbers. -/
  | atLeast
  /-- The first value. -/
  | first
  /-- The values, the source and the extra values. -/
  | echo
  deriving DecidableEq, Repr, Inhabited

namespace Evaluator

def evaluate (evaluator : Evaluator) (values : List Json) (source : String) (extra : List Json) :
    Except ExecutionFault Json :=
  match evaluator, values.head?, extra.head? with
  | .atLeast, some (.number a), some (.number b) =>
    match a.toReal?, b.toReal? with
    | some x, some y => .ok (.bool (x.compare y != .lt))
    | _, _ => .error .refused
  | .atLeast, _, _ => .error .refused
  | .first, value, _ => .ok (value.getD .null)
  | .echo, _, _ => .ok (.array [.array values, .string source, .array extra])

end Evaluator

inductive Expression where
  | literal (value : Scalar)
  | parameter (number : Nat)
  | column (name : String)
  /-- A column whose value a condition gives. -/
  | given (name : String) (value : Expression)
  /-- A part of a JSON text, as JSON or as a value. -/
  | part (asValue : Bool) (document path : Expression)
  | times (left right : Expression)
  | minus (left right : Expression)
  | equal (left right : Expression)
  | isNull (operand : Expression)
  | and (left right : Expression)
  | or (left right : Expression)
  | cast (affinity : Affinity) (whole : Bool) (operand : Expression)
  | call (function : String) (arguments : List Expression)
  deriving Repr, Inhabited

/-- What expressions can rely on in a column. -/
structure ColumnShape where
  name : String
  affinity : Affinity
  required : Bool
  unique : Bool
  deriving Repr, Inhabited

/-- What expressions are evaluated in. -/
structure Surroundings where
  params : List Scalar
  columns : List ColumnShape
  evaluator : Option Evaluator

def Surroundings.column? (around : Surroundings) (name : String) : Option ColumnShape :=
  around.columns.find? (·.name == name)

def Surroundings.affinity (around : Surroundings) (name : String) : Affinity :=
  ((around.column? name).map (·.affinity)).getD .none

namespace Expression

/-- The column that an expression is, if it is one. -/
def columnName? : Expression → Option String
  | .column name => some name
  | _ => none

/-- A record as it is stored. -/
abbrev Record := List (String × Scalar)

/-- The affinity that a comparison sees in an operand. -/
def affinity (around : Surroundings) : Expression → Affinity
  | .column name | .given name _ => around.affinity name
  | .cast affinity _ _ => affinity
  | _ => .none

/-- The affinity under which two operands are compared. -/
def comparedAs : Affinity → Affinity → Affinity
  | .numeric, _ | _, .numeric => .numeric
  | .text, _ | _, .text => .text
  | .none, .none => .none

def flagScalar (b : Bool) : Scalar := .integer (if b then 1 else 0)

def compareEqual (affinity : Affinity) (left right : Scalar) : Scalar :=
  if left = .null || right = .null then .null
  else flagScalar ((left.store affinity).compare (right.store affinity) == .eq)

/-- Three-valued conjunction. -/
def conjoin (left right : Scalar) : Scalar :=
  if (left != .null && !left.isTrue) || (right != .null && !right.isTrue) then flagScalar false
  else if left = .null || right = .null then .null
  else flagScalar true

/-- Three-valued disjunction. -/
def disjoin (left right : Scalar) : Scalar :=
  if left.isTrue || right.isTrue then flagScalar true
  else if left = .null || right = .null then .null
  else flagScalar false

/-! ### Parts of JSON texts -/

/-- The part of a JSON text at a path, as JSON or as a value; null if there is none. -/
def partOf (asValue : Bool) (document path : Scalar) : Except ExecutionFault Scalar :=
  match document.text?, path with
  | some text, .text path =>
    match StoredJson.ofText? text, StoredJson.path? path with
    | some whole, some steps =>
      match whole.part? steps with
      | none => .ok .null
      | some found =>
        if asValue then (found.value?.map .ok).getD (.error .refused) else .ok (.text found.text)
    | _, _ => .error .refused
  | _, _ => .ok .null

/-! ### Functions -/

/-- The JSON text of a value in an array. -/
def itemText : Scalar → String
  | .null => "null"
  | .infinite negative => if negative then "-9.0e+999" else "9.0e+999"
  | .integer i => toString i
  | .real x => RealText.text x
  | .text s => Json.quoted s
  | .blob octets => Json.quoted (Octets.hex octets)

/-- The JSON values of an argument; a value that is no array stands for an array of it alone. -/
def jsonArgument : Scalar → Except ExecutionFault (List Json)
  | .text s =>
    match Json.ofText? s with
    | some (.array values) => .ok values
    | some other => .ok [other]
    | none => .error .refused
  | _ => .error .refused

def evaluateCall (evaluator : Evaluator) (values source extra : Scalar) :
    Except ExecutionFault Scalar := do
  let values ← jsonArgument values
  match source with
  | .text source => return .ofJson (← evaluator.evaluate values source (← jsonArgument extra))
  | _ => .error .refused

/-- Milliseconds from the start of the Julian calendar to 1970. -/
def julianEpoch : Int := 210866760000000

def readDigits (cs : List Char) : Option Int :=
  if cs.all Text.isDigit then some (Text.digitsValue cs) else none

/-- The days from 1970-01-01 to a date. -/
def daysOf (year month day : Int) : Int :=
  let y := if month ≤ 2 then year - 1 else year
  let m := if month ≤ 2 then month + 9 else month - 3
  365 * y + y / 4 - y / 100 + y / 400 + (153 * m + 2) / 5 + day - 1 - 719468

/-- The milliseconds since 1970 of a timestamp `YYYY-MM-DDThh:mm:ss.mmmZ`. -/
def instant? (text : String) : Option Int :=
  match text.toList with
  | [a, b, c, d, '-', e, f, '-', g, h, 'T', i, j, ':', k, l, ':', m, n, '.', o, p, q, 'Z'] => do
    let days := daysOf (← readDigits [a, b, c, d]) (← readDigits [e, f]) (← readDigits [g, h])
    return (((days * 24 + (← readDigits [i, j])) * 60 + (← readDigits [k, l])) * 60 +
      (← readDigits [m, n])) * 1000 + (← readDigits [o, p, q])
  | _ => none

/-- The day of a timestamp in the Julian calendar. -/
def julianDay : Scalar → Scalar
  | .text s =>
    match instant? s with
    | some instant => ((Binary64.nearest false (instant + julianEpoch).toNat 86400000).map .real).getD .null
    | none => .null
  | _ => .null

def toReal : Scalar → Option Binary64
  | .integer i => Binary64.ofInt? i
  | .real x => some x
  | _ => none

/-- Arithmetic on reals; everything else gives null. -/
def arithmetic (f : Binary64 → Binary64 → Option Binary64) (left right : Scalar) : Scalar :=
  match toReal left, toReal right with
  | some x, some y => ((f x y).map .real).getD .null
  | _, _ => .null

def apply (around : Surroundings) (function : String) (arguments : List Scalar) :
    Except ExecutionFault Scalar :=
  match function, arguments, around.evaluator with
  | "json", [.text s], _ => ((StoredJson.ofText? s).map fun v => .ok (.text v.text)).getD (.error .refused)
  | "json", [_], _ => .ok .null
  | "json_array", items, _ => .ok (.text ("[" ++ String.intercalate "," (items.map itemText) ++ "]"))
  | "julianday", [instant], _ => .ok (julianDay instant)
  | "docstore_eval", [values, source, extra], some evaluator => evaluateCall evaluator values source extra
  | _, _, _ => .error .refused

/-- Whether a function of that name takes so many arguments. -/
def isFunction (around : Surroundings) (function : String) (count : Nat) : Bool :=
  match function with
  | "json" | "julianday" => count == 1
  | "json_array" => count ≤ 1000
  | "docstore_eval" => count == 3 && around.evaluator.isSome
  | _ => false

mutual

/-- Whether every column and function in the expression exists. -/
def isKnown (around : Surroundings) : Expression → Bool
  | .literal _ | .parameter _ => true
  | .column name => (around.column? name).isSome
  | .given name value => (around.column? name).isSome && isKnown around value
  | .part _ a b | .times a b | .minus a b | .equal a b | .and a b | .or a b =>
    isKnown around a && isKnown around b
  | .isNull a | .cast _ _ a => isKnown around a
  | .call function arguments => isFunction around function arguments.length && areKnown around arguments

def areKnown (around : Surroundings) : List Expression → Bool
  | [] => true
  | a :: rest => isKnown around a && areKnown around rest

end

mutual

/-- The largest parameter number in the expression. -/
def lastParameter : Expression → Nat
  | .literal _ | .column _ => 0
  | .parameter number => number
  | .given _ value => lastParameter value
  | .part _ a b | .times a b | .minus a b | .equal a b | .and a b | .or a b =>
    max (lastParameter a) (lastParameter b)
  | .isNull a | .cast _ _ a => lastParameter a
  | .call _ arguments => lastParameters arguments

def lastParameters : List Expression → Nat
  | [] => 0
  | a :: rest => max (lastParameter a) (lastParameters rest)

end

mutual

/-- The number of expressions within one another. -/
def depth : Expression → Nat
  | .literal _ | .parameter _ | .column _ => 1
  | .given _ value => depth value
  | .part _ a b | .times a b | .minus a b | .equal a b | .and a b | .or a b => max (depth a) (depth b) + 1
  | .isNull a | .cast _ _ a => depth a + 1
  | .call _ arguments => depths arguments + 1

def depths : List Expression → Nat
  | [] => 0
  | a :: rest => max (depth a) (depths rest)

end

mutual

/-- The value of an expression on a record. -/
def value (around : Surroundings) (record : Record) : Expression → Except ExecutionFault Scalar
  | .literal v => .ok v
  | .parameter number => .ok ((around.params[number - 1]?).getD .null)
  | .column name => ((record.lookup name).map .ok).getD (.error .refused)
  | .given name a => do return (← value around record a).store (around.affinity name)
  | .part asValue document path => do
    partOf asValue (← value around record document) (← value around record path)
  | .times a b => do return arithmetic Binary64.mul? (← value around record a) (← value around record b)
  | .minus a b => do return arithmetic Binary64.sub? (← value around record a) (← value around record b)
  | .equal a b => do
    return compareEqual (comparedAs (a.affinity around) (b.affinity around))
      (← value around record a) (← value around record b)
  | .isNull a => do return flagScalar ((← value around record a) = .null)
  | .and a b => do return conjoin (← value around record a) (← value around record b)
  | .or a b => do return disjoin (← value around record a) (← value around record b)
  | .cast .text _ a => do return (← value around record a).castText
  | .cast _ whole a => do
    let v ← value around record a
    return if whole then v.castInteger else v.castNumeric
  | .call function arguments => do apply around function (← values around record arguments)

def values (around : Surroundings) (record : Record) :
    List Expression → Except ExecutionFault (List Scalar)
  | [] => .ok []
  | a :: rest => do return (← value around record a) :: (← values around record rest)

end

/-- Whether a record meets a condition. The right side of a conjunction or disjunction that its left side
decides is not looked at. -/
def holds (around : Surroundings) (record : Record) : Expression → Except ExecutionFault Bool
  | .and a b => do if ← holds around record a then holds around record b else return false
  | .or a b => do if ← holds around record a then return true else holds around record b
  | condition => do return (← value around record condition).isTrue

end Expression

end Dossier
