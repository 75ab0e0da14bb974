import Dossier.Storage.StoredJson

/-!
Reading of JSON texts in the store. Strict JSON is what columns may hold; values that commands compare with
may also use the freer spellings of JSON5. One reader takes both and says whether a text is strict. A NUL
ends a text.
-/

namespace Dossier.StoredJson

/-- Something read, whether its spelling is strict JSON, and what follows it. -/
structure Taken (α : Type) where
  found : α
  strict : Bool
  rest : List Char

/-! ### Blanks -/

def isStrictBlank (c : Char) : Bool := c == ' ' || c == '\t' || c == '\n' || c == '\r'

/-- The blanks that only JSON5 knows. -/
def isFreeBlank (c : Char) : Bool :=
  let n := c.toNat
  n == 0x0b || n == 0x0c || n == 0xa0 || n == 0x1680 || (0x2000 ≤ n && n ≤ 0x200a) || n == 0x2028 ||
    n == 0x2029 || n == 0x202f || n == 0x205f || n == 0x3000 || n == 0xfeff

def isLineEnd (c : Char) : Bool := c == '\n' || c == '\r' || c == '\u2028' || c == '\u2029'

/-- What follows the end of a comment between stars. -/
def afterStars : List Char → Option (List Char)
  | '*' :: '/' :: rest => some rest
  | _ :: rest => afterStars rest
  | [] => none

/-- Skips blanks and comments, and says whether all of them were strict. -/
def skipBlanks : Nat → Bool → List Char → Bool × List Char
  | 0, strict, cs => (strict, cs)
  | fuel + 1, strict, cs =>
    match cs with
    | '/' :: '*' :: rest =>
      match afterStars rest with
      | some rest => skipBlanks fuel false rest
      | none => (strict, cs)
    | '/' :: '/' :: rest => skipBlanks fuel false ((rest.dropWhile (!isLineEnd ·)).drop 1)
    | c :: rest =>
      if isStrictBlank c then skipBlanks fuel strict rest
      else if isFreeBlank c then skipBlanks fuel false rest
      else (strict, cs)
    | [] => (strict, [])

/-! ### Strings -/

/-- How a string is spelled: without escapes, with those of JSON, or with more than JSON allows. -/
inductive Spelling where
  | plain
  | escaped
  | free
  deriving DecidableEq

def Spelling.join : Spelling → Spelling → Spelling
  | .free, _ | _, .free => .free
  | .escaped, _ | _, .escaped => .escaped
  | .plain, .plain => .plain

def areHex (count : Nat) (cs : List Char) : Bool :=
  (cs.take count).length == count && (cs.take count).all Text.isHexDigit

def hexNumber (cs : List Char) : Nat := cs.foldl (fun n c => n * 16 + (Text.hexValue c).getD 0) 0

/-- The size of an escape after its backslash, and how it is spelled. -/
def escapeSize (cs : List Char) : Option (Nat × Spelling) :=
  match cs with
  | 'u' :: rest => if areHex 4 rest then some (5, .escaped) else none
  | 'x' :: rest => if areHex 2 rest then some (3, .free) else none
  | '0' :: rest => if (rest.head?.map Text.isDigit).getD false then none else some (1, .free)
  | '\r' :: '\n' :: _ => some (2, .free)
  | c :: _ =>
    if "\"\\/bfnrt".toList.contains c then some (1, .escaped)
    else if c == '\'' || c == 'v' || isLineEnd c then some (1, .free)
    else none
  | [] => none

/-- The characters of a string up to its closing quote, as they are spelled. -/
def takeString (quote : Char) : Nat → Spelling → List Char → Option (List Char × Spelling × List Char)
  | 0, _, _ => none
  | fuel + 1, spelling, cs =>
    match cs with
    | [] => none
    | '\\' :: rest => do
      let (size, kind) ← escapeSize rest
      let (taken, spelling, after) ← takeString quote fuel (spelling.join kind) (rest.drop size)
      return ('\\' :: rest.take size ++ taken, spelling, after)
    | c :: rest =>
      if c = quote then some ([], spelling, rest)
      else do
        let kind := if c.toNat < 0x20 || c = '"' then Spelling.free else .plain
        let (taken, spelling, after) ← takeString quote fuel (spelling.join kind) rest
        return (c :: taken, spelling, after)

/-- A number that stands for a character; a lone half of a pair is three octets that are no character. -/
def codeChars (n : Nat) : List Char :=
  if 0xd800 ≤ n && n < 0xe000 then List.replicate 3 (Char.ofNat 0xfffd) else [Char.ofNat n]

/-- What an escape says, and how many characters it takes after its backslash. A joined line at the end of
the string leaves a NUL. -/
def escapeMeaning (cs : List Char) : List Char × Nat :=
  match cs with
  | 'u' :: rest =>
    let n := hexNumber (rest.take 4)
    let second := hexNumber ((rest.drop 6).take 4)
    if 0xd800 ≤ n && n < 0xdc00 && (rest.drop 4).take 2 == ['\\', 'u'] && 0xdc00 ≤ second && second < 0xe000 then
      ([Char.ofNat (0x10000 + (n - 0xd800) * 0x400 + (second - 0xdc00))], 11)
    else (codeChars n, 5)
  | 'x' :: rest => ([Char.ofNat (hexNumber (rest.take 2))], 3)
  | '0' :: _ => (['\x00'], 1)
  | 'b' :: _ => (['\x08'], 1)
  | 'f' :: _ => (['\x0c'], 1)
  | 'n' :: _ => (['\n'], 1)
  | 'r' :: _ => (['\r'], 1)
  | 't' :: _ => (['\t'], 1)
  | 'v' :: _ => (['\x0b'], 1)
  | '\r' :: '\n' :: rest => (if rest.isEmpty then ['\x00'] else [], 2)
  | c :: rest => (if !isLineEnd c then [c] else if rest.isEmpty then ['\x00'] else [], 1)
  | [] => ([], 0)

/-- What a spelled string says. -/
def meaning : Nat → List Char → List Char
  | 0, _ => []
  | fuel + 1, cs =>
    match cs with
    | [] => []
    | '\\' :: rest =>
      let (said, size) := escapeMeaning rest
      said ++ meaning fuel (rest.drop size)
    | c :: rest => c :: meaning fuel rest

/-- The strict spelling of an escape. -/
def strictEscape (cs : List Char) : List Char :=
  match cs with
  | ['\''] => ['\'']
  | ['v'] => "\\u000b".toList
  | ['0'] => "\\u0000".toList
  | 'x' :: digits => "\\u00".toList ++ digits
  | c :: _ => if isLineEnd c then [] else '\\' :: cs
  | [] => []

/-- The strict spelling of a string. -/
def strictSpelling : Nat → List Char → List Char
  | 0, _ => []
  | fuel + 1, cs =>
    match cs with
    | [] => []
    | '\\' :: rest =>
      let size := ((escapeSize rest).map Prod.fst).getD 1
      strictEscape (rest.take size) ++ strictSpelling fuel (rest.drop size)
    | c :: rest =>
      (if c == '"' || c.toNat < 0x20 then Json.escape c else [c]) ++ strictSpelling fuel rest

/-- A spelled string with its quotes. -/
def spelled (cs : List Char) (spelling : Spelling) : Spelled :=
  let text := if spelling = .free then strictSpelling (cs.length + 1) cs else cs
  let value := if spelling = .plain then cs else meaning (cs.length + 1) cs
  ⟨String.ofList ('"' :: text ++ ['"']), String.ofList value⟩

/-- A string, if one comes next; only double quotes are strict. The fuel is more than the length of the text. -/
def readString? (fuel : Nat) (cs : List Char) : Option (Option (Taken Spelled)) :=
  match cs with
  | quote :: rest =>
    if quote == '"' || quote == '\'' then
      some ((takeString quote fuel .plain rest).map fun (taken, spelling, rest) =>
        ⟨spelled taken spelling, quote == '"' && spelling != .free, rest⟩)
    else none
  | [] => none

/-! ### Numbers and words -/

/-- A hexadecimal number after its `0x`. -/
def hexAtom (negative : Bool) (digits : List Char) : StoredJson :=
  let n := hexNumber digits
  let sign := if negative then "-" else ""
  if n < 1 <<< 63 then .atom (sign ++ toString n) (some (.integer (if negative then -(n : Int) else n)))
  else if n < 1 <<< 64 then
    .atom (sign ++ toString n) ((Binary64.nearest negative n 1).map .real)
  else .atom (sign ++ "9.0e999") none

/-- The strict spelling of a number whose point may lack digits on one side. -/
def strictNumber (whole part exponent : List Char) (pointed : Bool) : List Char :=
  let filled (cs : List Char) : List Char := if cs.isEmpty then ['0'] else cs
  filled whole ++ (if pointed then '.' :: filled part else []) ++ exponent

/-- An exponent with its mark; nothing comes back when a mark has no digits. -/
def takeExponent? (cs : List Char) : Option (List Char × List Char) :=
  let signed (mark : List Char) (rest : List Char) : Option (List Char × List Char) :=
    let digits := rest.takeWhile Text.isDigit
    if digits.isEmpty then none else some (mark ++ digits, rest.dropWhile Text.isDigit)
  match cs with
  | e :: s :: rest =>
    if e == 'e' || e == 'E' then
      if s == '+' || s == '-' then signed [e, s] rest else signed [e] (s :: rest)
    else some ([], cs)
  | [e] => if e == 'e' || e == 'E' then none else some ([], cs)
  | [] => some ([], [])

/-- A decimal number after its sign. -/
def readDecimal (negative strict : Bool) (cs : List Char) : Option (Taken StoredJson) := do
  let whole := cs.takeWhile Text.isDigit
  let rest := cs.dropWhile Text.isDigit
  let (part, rest, pointed) : List Char × List Char × Bool := match rest with
    | '.' :: tail => (tail.takeWhile Text.isDigit, tail.dropWhile Text.isDigit, true)
    | _ => ([], rest, false)
  let (exponent, rest) ← takeExponent? rest
  if (whole.isEmpty && part.isEmpty) || (1 < whole.length && whole.head? == some '0') then none
  else
    let sign : List Char := if negative then ['-'] else []
    let text := String.ofList (sign ++ strictNumber whole part exponent pointed)
    let complete := !whole.isEmpty && (!pointed || !part.isEmpty)
    return ⟨.atom text (some (Scalar.leadingNumber text)), strict && complete, rest⟩

def startsWith (word : String) (cs : List Char) : Bool :=
  (cs.take word.length).map Char.toLower == word.toList

/-- A number with a sign, or without one. -/
def readNumber (cs : List Char) : Option (Taken StoredJson) :=
  let (negative, signed, strict, body) : Bool × Bool × Bool × List Char := match cs with
    | '-' :: rest => (true, true, true, rest)
    | '+' :: rest => (false, true, false, rest)
    | _ => (false, false, true, cs)
  match body with
  | '0' :: x :: digit :: rest =>
    if (x == 'x' || x == 'X') && Text.isHexDigit digit then
      let digits := (digit :: rest).takeWhile Text.isHexDigit
      some ⟨hexAtom negative digits, false, (digit :: rest).dropWhile Text.isHexDigit⟩
    else readDecimal negative strict body
  | _ =>
    if signed && startsWith "inf" body then
      let text := if negative then "-9e999" else "9e999"
      some ⟨.atom text (some (.infinite negative)), false, body.drop (if startsWith "infinity" body then 8 else 3)⟩
    else readDecimal negative strict body

def isAlphanumeric (c : Char) : Bool := Text.isLetter c || Text.isDigit c

/-- Words that stand for values. All but the first three are free, and are known in any case. -/
def words : List (String × StoredJson) :=
  [("true", .atom "true" (some (.integer 1))), ("false", .atom "false" (some (.integer 0))),
   ("null", .atom "null" (some .null)), ("infinity", .atom "9e999" (some (.infinite false))),
   ("inf", .atom "9e999" (some (.infinite false))), ("nan", .atom "null" (some .null)),
   ("qnan", .atom "null" (some .null)), ("snan", .atom "null" (some .null))]

/-- A word that stands for a value, if one comes next. -/
def readWord? (cs : List Char) : Option (Taken StoredJson) :=
  words.findSome? fun (word, value) =>
    let strict := ["true", "false", "null"].contains word
    let rest := cs.drop word.length
    let spelledSo := if strict then cs.take word.length == word.toList else startsWith word cs
    if spelledSo && !(rest.head?.map isAlphanumeric).getD false then some ⟨value, strict, rest⟩ else none

/-! ### Names and containers -/

def isNameStart (c : Char) : Bool := Text.isLetter c || c == '_' || c == '$' || 0x80 ≤ c.toNat

def isNameChar (c : Char) : Bool := (isNameStart c || Text.isDigit c) && !isFreeBlank c

/-- A name without quotes, which may hold escapes of four digits. -/
def takeName : Nat → List Char → List Char × List Char
  | 0, cs => ([], cs)
  | fuel + 1, cs =>
    match cs with
    | '\\' :: 'u' :: rest =>
      if areHex 4 rest then
        let (taken, after) := takeName fuel (rest.drop 4)
        ('\\' :: 'u' :: rest.take 4 ++ taken, after)
      else ([], cs)
    | c :: rest =>
      if isNameChar c then
        let (taken, after) := takeName fuel rest
        (c :: taken, after)
      else ([], cs)
    | [] => ([], [])

/-- The name of a member. Without quotes it is no word that stands for a value. -/
def readName (fuel : Nat) (cs : List Char) : Option (Taken Spelled) :=
  match readString? fuel cs with
  | some found => found
  | none =>
    let (name, rest) := takeName fuel cs
    if (readWord? cs).isSome || name.isEmpty || (name.head?.map Text.isDigit).getD false then none
    else some ⟨spelled name (if name.contains '\\' then .escaped else .plain), false, rest⟩

mutual

/-- A value whose containers nest at most `depth` deep. -/
def readValue : Nat → (depth : Nat) → List Char → Option (Taken StoredJson)
  | 0, _, _ => none
  | fuel + 1, depth, cs =>
    let (strict, cs) := skipBlanks fuel true cs
    let found : Option (Taken StoredJson) :=
      match cs, depth with
      | '[' :: _, 0 | '{' :: _, 0 => none
      | '[' :: rest, depth + 1 => readItems fuel depth true [] rest
      | '{' :: rest, depth + 1 => readMembers fuel depth true [] rest
      | cs, _ =>
        match readString? fuel cs with
        | some found => found.map fun s => ⟨.atom s.found.text (some (.text s.found.value)), s.strict, s.rest⟩
        | none => (readWord? cs).orElse fun _ => readNumber cs
    found.map fun taken => { taken with strict := taken.strict && strict }

/-- The items of an array up to its bracket, after those already read, which come reversed. -/
def readItems : Nat → (depth : Nat) → Bool → List StoredJson → List Char → Option (Taken StoredJson)
  | 0, _, _, _, _ => none
  | fuel + 1, depth, strict, read, cs =>
    let (blank, cs) := skipBlanks fuel strict cs
    match cs with
    | ']' :: rest => some ⟨.array read.reverse, blank && read.isEmpty, rest⟩
    | _ => do
      let item ← readValue fuel depth cs
      let (strict, rest) := skipBlanks fuel (blank && item.strict) item.rest
      match rest with
      | ',' :: rest => readItems fuel depth strict (item.found :: read) rest
      | ']' :: rest => return ⟨.array (item.found :: read).reverse, strict, rest⟩
      | _ => none

/-- The members of an object up to its brace, after those already read, which come reversed. -/
def readMembers : Nat → (depth : Nat) → Bool → List (Spelled × StoredJson) → List Char →
    Option (Taken StoredJson)
  | 0, _, _, _, _ => none
  | fuel + 1, depth, strict, read, cs =>
    let (blank, cs) := skipBlanks fuel strict cs
    match cs with
    | '}' :: rest => some ⟨.object read.reverse, blank && read.isEmpty, rest⟩
    | _ => do
      let name ← readName fuel cs
      let (blank, rest) := skipBlanks fuel (blank && name.strict) name.rest
      match rest with
      | ':' :: rest => do
        let value ← readValue fuel depth rest
        let read := (name.found, value.found) :: read
        let (strict, rest) := skipBlanks fuel (blank && value.strict) value.rest
        match rest with
        | ',' :: rest => readMembers fuel depth strict read rest
        | '}' :: rest => return ⟨.object read.reverse, strict, rest⟩
        | _ => none
      | _ => none

end

/-- Containers may nest this deep. -/
def maxDepth : Nat := 1000

/-- The value that a whole text denotes, and whether it is spelled in strict JSON. -/
def read? (text : String) : Option (StoredJson × Bool) := do
  let cs := text.toList.takeWhile (· != '\x00')
  let taken ← readValue (2 * cs.length + 2) maxDepth cs
  let (strict, rest) := skipBlanks (cs.length + 1) taken.strict taken.rest
  if rest.isEmpty then return (taken.found, strict) else none

def ofText? (text : String) : Option StoredJson := (read? text).map Prod.fst

/-- Whether a text is strict JSON. -/
def isStrict (text : String) : Bool := ((read? text).map Prod.snd).getD false

end Dossier.StoredJson
