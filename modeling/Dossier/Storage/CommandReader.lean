import Dossier.Storage.Command
import Dossier.Storage.Lexeme

/-!
Reading of commands from their text.
-/

namespace Dossier.Command

/-- A reader takes lexemes from the front. -/
abbrev Reader (α : Type) := List Lexeme.Found → Option (α × List Lexeme.Found)

namespace Reader

def skip (lexeme : Lexeme) : Reader Unit
  | found :: rest => if found.lexeme = lexeme then some ((), rest) else none
  | [] => none

def skipWords : List String → Reader Unit
  | [], ls => some ((), ls)
  | word :: words, ⟨.word text _, _⟩ :: rest => if text = word then skipWords words rest else none
  | _ :: _, _ => none

/-- Whether the words come next; they are taken if so. -/
def optionalWords (words : List String) (ls : List Lexeme.Found) : Bool × List Lexeme.Found :=
  match skipWords words ls with
  | some (_, rest) => (true, rest)
  | none => (false, ls)

def mark (text : String) : Reader Unit := skip (.mark text)

/-- Words that are no names. -/
def keywords : List String :=
  ["add", "all", "alter", "and", "as", "autoincrement", "between", "case", "check", "collate", "commit",
   "constraint", "create", "default", "deferrable", "delete", "distinct", "drop", "else", "escape", "except",
   "exists", "foreign", "from", "group", "having", "in", "index", "insert", "intersect", "into", "is",
   "isnull", "join", "limit", "not", "nothing", "notnull", "null", "on", "or", "order", "primary",
   "references", "returning", "select", "set", "table", "then", "to", "transaction", "union", "unique",
   "update", "using", "values", "when", "where"]

/-- The name of a table or column. -/
def identifier : Reader String
  | ⟨.name text, _⟩ :: rest => some (text, rest)
  | ⟨.word text _, _⟩ :: rest => if keywords.contains text then none else some (text, rest)
  | _ => none

/-- Words that name a result only after `AS`. -/
def operatorWords : List String :=
  ["cross", "full", "glob", "indexed", "inner", "left", "like", "match", "natural", "outer", "regexp", "right"]

/-- The name of a result, which keeps its spelling, unless it is one of the words. -/
def resultName (excluded : List String) : Reader String
  | ⟨.name text, _⟩ :: rest | ⟨.text text, _⟩ :: rest => some (text, rest)
  | ⟨.word text spelled, _⟩ :: rest => if excluded.contains text then none else some (spelled, rest)
  | _ => none

/-- The text from the start of the lexemes to the start of what follows them, without blanks around it. -/
def textBefore (ls rest : List Lexeme.Found) : String :=
  let text := (ls.head?.map (·.text)).getD []
  let after := (rest.head?.map (·.text)).getD []
  let inner := text.take (text.length - after.length)
  String.ofList ((inner.dropWhile Scalar.isSpace).reverse.dropWhile Scalar.isSpace).reverse

/-- The name given to a result after the lexemes `ls`. One that is given none is named as its column, or by
its text. -/
def givenName (column : Option String) (ls : List Lexeme.Found) : Reader String
  | ⟨.word "as" _, _⟩ :: rest => resultName keywords rest
  | rest =>
    match resultName (keywords ++ operatorWords) rest with
    | some found => some found
    | none => some (column.getD (textBefore ls rest), rest)

/-- Items with commas between them, at least one. -/
def listed (item : Reader α) : Nat → Reader (List α)
  | 0, _ => none
  | fuel + 1, ls => do
    let (first, ls) ← item ls
    match ls with
    | ⟨.mark ",", _⟩ :: rest => do
      let (others, ls) ← listed item fuel rest
      return (first :: others, ls)
    | _ => return ([first], ls)

/-- An operator between expressions, how tightly it binds, and what follows it. -/
def infixOperator :
    List Lexeme.Found → Option ((Expression → Expression → Expression) × Nat × List Lexeme.Found)
  | ⟨.word "or" _, _⟩ :: rest => some (.or, 1, rest)
  | ⟨.word "and" _, _⟩ :: rest => some (.and, 2, rest)
  | ⟨.mark "=", _⟩ :: rest => some (.equal, 3, rest)
  | ⟨.mark "-", _⟩ :: rest => some (.minus, 4, rest)
  | ⟨.mark "*", _⟩ :: rest => some (.times, 5, rest)
  | ⟨.mark "->", _⟩ :: rest => some (.part false, 6, rest)
  | ⟨.mark "->>", _⟩ :: rest => some (.part true, 6, rest)
  | _ => none

/-- The type named in a cast, as its affinity and whether it is whole. -/
def castType : Reader (Affinity × Bool)
  | ⟨.word "text" _, _⟩ :: rest => some ((.text, false), rest)
  | ⟨.word "numeric" _, _⟩ :: rest => some ((.numeric, false), rest)
  | ⟨.word "integer" _, _⟩ :: rest => some ((.numeric, true), rest)
  | _ => none

mutual

/-- An expression of operators that bind at least as tightly as `level`. -/
def expression : Nat → Nat → Reader Expression
  | 0, _, _ => none
  | fuel + 1, level, ls => do
    let (left, ls) ← operand fuel ls
    continueWith fuel level left ls

/-- The operators after a left operand. -/
def continueWith : Nat → Nat → Expression → Reader Expression
  | 0, _, _, _ => none
  | fuel + 1, level, left, ls =>
    match ls with
    | ⟨.word "is" _, _⟩ :: ⟨.word "null" _, _⟩ :: rest =>
      if level ≤ 3 then continueWith fuel level (.isNull left) rest else some (left, ls)
    | _ =>
      match infixOperator ls with
      | some (combine, tightness, rest) =>
        if level ≤ tightness then do
          let (right, rest) ← expression fuel (tightness + 1) rest
          continueWith fuel level (combine left right) rest
        else some (left, ls)
      | none => some (left, ls)

def operand : Nat → Reader Expression
  | 0, _ => none
  | fuel + 1, ls =>
    match ls with
    | ⟨.number value, _⟩ :: rest => some (.literal value, rest)
    | ⟨.text s, _⟩ :: rest => some (.literal (.text s), rest)
    | ⟨.parameter number, _⟩ :: rest => some (.parameter number, rest)
    | ⟨.name name, _⟩ :: rest => some (.column name, rest)
    | ⟨.mark "(", _⟩ :: rest => do
      let (inner, rest) ← expression fuel 1 rest
      let (_, rest) ← mark ")" rest
      return (inner, rest)
    | ⟨.word "cast" _, _⟩ :: ⟨.mark "(", _⟩ :: rest => do
      let (inner, rest) ← expression fuel 1 rest
      let (_, rest) ← skipWords ["as"] rest
      let ((affinity, whole), rest) ← castType rest
      let (_, rest) ← mark ")" rest
      return (.cast affinity whole inner, rest)
    | ⟨.word function _, _⟩ :: ⟨.mark "(", _⟩ :: ⟨.mark ")", _⟩ :: rest => some (.call function [], rest)
    | ⟨.word function _, _⟩ :: ⟨.mark "(", _⟩ :: rest => do
      let (inner, rest) ← arguments fuel rest
      return (.call function inner, rest)
    | ⟨.word name _, _⟩ :: rest => if keywords.contains name then none else some (.column name, rest)
    | _ => none

/-- The arguments of a call and its closing parenthesis. -/
def arguments : Nat → Reader (List Expression)
  | 0, _ => none
  | fuel + 1, ls => do
    let (first, ls) ← expression fuel 1 ls
    match ls with
    | ⟨.mark ",", _⟩ :: rest => do
      let (others, ls) ← arguments fuel rest
      return (first :: others, ls)
    | ⟨.mark ")", _⟩ :: rest => return ([first], rest)
    | _ => none

end

/-- An expression; every step into one takes a lexeme or three levels, which bounds the depth. -/
def anyExpression (ls : List Lexeme.Found) : Option (Expression × List Lexeme.Found) :=
  expression (4 * ls.length + 4) 1 ls

/-- A result of a selection, with its name. -/
def output (ls : List Lexeme.Found) : Option (Output × List Lexeme.Found) :=
  match ls with
  | ⟨.word "count" _, _⟩ :: ⟨.mark "(", _⟩ :: ⟨.mark "*", _⟩ :: ⟨.mark ")", _⟩ :: rest => do
    let (name, rest) ← givenName none ls rest
    return (.count name, rest)
  | _ => do
    let (value, rest) ← anyExpression ls
    let (name, rest) ← givenName value.columnName? ls rest
    return (.value value name, rest)

/-- A key of an ordering, with its direction and the place of nulls. -/
def sortKey (ls : List Lexeme.Found) : Option (SortKey × List Lexeme.Found) := do
  let (value, ls) ← anyExpression ls
  let (ascending, ls) := optionalWords ["asc"] ls
  let (descending, ls) := if ascending then (false, ls) else optionalWords ["desc"] ls
  let (nullsFirst, ls) := optionalWords ["nulls", "first"] ls
  let (nullsLast, ls) := optionalWords ["nulls", "last"] ls
  let nulls := if nullsFirst then some true else if nullsLast then some false else none
  return (⟨value, descending, nulls⟩, ls)

/-- What comes after some words, if they are there. -/
def after (words : List String) (inner : Reader α) : Reader (Option α) := fun ls =>
  match optionalWords words ls with
  | (true, rest) => (inner rest).map fun (found, rest) => (some found, rest)
  | (false, _) => some (none, ls)

/-- A number of rows. -/
def rowCount : Reader Scalar
  | ⟨.mark "-", _⟩ :: ⟨.number (.integer n), _⟩ :: rest => some (.integer (-n), rest)
  | ⟨.number value, _⟩ :: rest => some (value, rest)
  | _ => none

def select (ls : List Lexeme.Found) : Option (Command × List Lexeme.Found) := do
  let size := ls.length
  let (columns, ls) ← listed output size ls
  let (table, ls) ← after ["from"] identifier ls
  let (condition, ls) ← after ["where"] anyExpression ls
  let (groups, ls) ← after ["group", "by"] (listed anyExpression size) ls
  let (order, ls) ← after ["order", "by"] (listed sortKey size) ls
  let (limit, ls) ← after ["limit"] rowCount ls
  let (offset, ls) ← after ["offset"] rowCount ls
  return (.select ⟨columns, table, condition, groups.getD [], order.getD [], limit, offset⟩, ls)

def returned : Reader Returning
  | ⟨.mark "*", _⟩ :: rest => some (.all, rest)
  | ls => (identifier ls).map fun (name, rest) => (.column name, rest)

def parenthesised (inner : Reader α) : Reader α := fun ls => do
  let (_, ls) ← mark "(" ls
  let (found, ls) ← inner ls
  let (_, ls) ← mark ")" ls
  return (found, ls)

def insert (ls : List Lexeme.Found) : Option (Command × List Lexeme.Found) := do
  let size := ls.length
  let (_, ls) ← skipWords ["into"] ls
  let (table, ls) ← identifier ls
  match optionalWords ["default", "values"] ls with
  | (true, ls) => do
    let (returning, ls) ← after ["returning"] returned ls
    return (.insert table [] [] (returning.getD .nothing), ls)
  | (false, ls) => do
    let (columns, ls) ← parenthesised (listed identifier size) ls
    let (_, ls) ← skipWords ["values"] ls
    let (values, ls) ← parenthesised (listed anyExpression size) ls
    let (returning, ls) ← after ["returning"] returned ls
    if columns.length = values.length then
      return (.insert table columns values (returning.getD .nothing), ls)
    else none

def setting (ls : List Lexeme.Found) : Option ((String × Expression) × List Lexeme.Found) := do
  let (name, ls) ← identifier ls
  let (_, ls) ← mark "=" ls
  let (value, ls) ← anyExpression ls
  return ((name, value), ls)

def update (ls : List Lexeme.Found) : Option (Command × List Lexeme.Found) := do
  let (table, ls) ← identifier ls
  let (_, ls) ← skipWords ["set"] ls
  let (settings, ls) ← listed setting ls.length ls
  let (condition, ls) ← after ["where"] anyExpression ls
  let (returning, ls) ← after ["returning"] returned ls
  return (.update table settings condition (returning.getD .nothing), ls)

def delete (ls : List Lexeme.Found) : Option (Command × List Lexeme.Found) := do
  let (_, ls) ← skipWords ["from"] ls
  let (table, ls) ← identifier ls
  let (condition, ls) ← after ["where"] anyExpression ls
  let (returning, ls) ← after ["returning"] returned ls
  return (.delete table condition (returning.getD .nothing), ls)

def command : Reader Command
  | ⟨.word "select" _, _⟩ :: rest => select rest
  | ⟨.word "insert" _, _⟩ :: rest => insert rest
  | ⟨.word "update" _, _⟩ :: rest => update rest
  | ⟨.word "delete" _, _⟩ :: rest => delete rest
  | _ => none

end Reader

/-- The command that a whole text spells. Semicolons may stand before and after it, and its placeholders
are numbered by the digits after them. -/
def ofText? (sql : String) : Option Command := do
  let found ← Lexeme.ofText? (Sql.questioned sql)
  let isEnd (found : Lexeme.Found) : Bool := found.lexeme == .mark ";"
  let (command, rest) ← Reader.command (found.dropWhile isEnd)
  if rest.all isEnd then return command else none

end Dossier.Command
