/-!
Cutting texts at a mark, replacing characters and trimming, on lists of characters.
-/

namespace Dossier.Text

/-- Cuts at the first occurrence of a character, if there is one. -/
def cutAt (mark : Char) : List Char → Option (List Char × List Char)
  | [] => none
  | c :: rest => if c = mark then some ([], rest) else (cutAt mark rest).map fun (a, b) => (c :: a, b)

/-- The pieces of a text between occurrences of a character; at least one. -/
def splitAt (mark : Char) : List Char → List (List Char)
  | [] => [[]]
  | c :: rest =>
    if c = mark then [] :: splitAt mark rest
    else match splitAt mark rest with
      | piece :: more => (c :: piece) :: more
      | [] => [[c]]

/-- The text in which every occurrence of a character is written as `new`. -/
def replaceChar (old : Char) (new : List Char) (cs : List Char) : List Char :=
  cs.flatMap fun c => if c = old then new else [c]

/-- The text after a beginning, if it has that beginning. -/
def afterStart (start : List Char) (cs : List Char) : Option (List Char) :=
  if start.isPrefixOf cs then some (cs.drop start.length) else none

/-- The text before an ending, if it has that ending. -/
def beforeEnd (ending : List Char) (cs : List Char) : Option (List Char) :=
  if ending.isSuffixOf cs then some (cs.take (cs.length - ending.length)) else none

/-! ### Blank characters of every script, and trimming by them -/

/-- The characters of the white-space property. -/
def isBlank (c : Char) : Bool :=
  let n := c.toNat
  (0x09 ≤ n && n ≤ 0x0d) || n == 0x20 || n == 0x85 || n == 0xa0 || n == 0x1680 ||
    (0x2000 ≤ n && n ≤ 0x200a) || n == 0x2028 || n == 0x2029 || n == 0x202f || n == 0x205f || n == 0x3000

def trimChars (cs : List Char) : List Char :=
  ((cs.dropWhile isBlank).reverse.dropWhile isBlank).reverse

/-- The text without the blanks at its two ends. -/
def trim (s : String) : String := String.ofList (trimChars s.toList)

end Dossier.Text
