import Dossier.Text.Ascii

/-!
Dates and times as TOML writes them: a date, a time of day, or both with an offset from universal time at
the end. `text` is the one spelling that settings see.
-/

namespace Dossier.Toml

open Text (isDigit digitsValue padded)

structure Date where
  year : Nat
  month : Nat
  day : Nat
  deriving DecidableEq, Repr

/-- A time of day. The fraction of a second is its digits, nine at most. -/
structure DayTime where
  hour : Nat
  minute : Nat
  second : Option Nat
  fraction : Option (List Char)
  deriving DecidableEq, Repr

inductive Offset where
  | universal
  | minutes (count : Int)
  deriving DecidableEq, Repr

structure Moment where
  date : Option Date
  time : Option DayTime
  offset : Option Offset
  deriving DecidableEq, Repr

namespace Moment

/-- A number of so many digits, after which no digit comes. -/
def readNumber (count : Nat) (cs : List Char) : Option (Nat × List Char) :=
  let digits := cs.takeWhile isDigit
  if digits.length = count then some (digitsValue digits, cs.dropWhile isDigit) else none

def skipMark (mark : Char) : List Char → Option (List Char)
  | c :: rest => if c = mark then some rest else none
  | [] => none

def isLeapYear (year : Nat) : Bool := year % 4 == 0 && (year % 100 != 0 || year % 400 == 0)

def daysInMonth (year month : Nat) : Nat :=
  if month = 2 then (if isLeapYear year then 29 else 28)
  else if [4, 6, 9, 11].contains month then 30
  else 31

def readDate (cs : List Char) : Option (Date × List Char) := do
  let (year, cs) ← readNumber 4 cs
  let (month, cs) ← readNumber 2 (← skipMark '-' cs)
  let (day, cs) ← readNumber 2 (← skipMark '-' cs)
  if 1 ≤ month && month ≤ 12 && 1 ≤ day && day ≤ daysInMonth year month then
    some (⟨year, month, day⟩, cs)
  else none

/-- The digits after the point of a second. -/
def readFraction : List Char → Option (Option (List Char) × List Char)
  | '.' :: rest =>
    let digits := rest.takeWhile isDigit
    if digits.isEmpty then none else some (some (digits.take 9), rest.dropWhile isDigit)
  | cs => some (none, cs)

/-- A time of day; its seconds may be missing, and a minute has room for a leap second. -/
def readTime (cs : List Char) : Option (DayTime × List Char) := do
  let (hour, cs) ← readNumber 2 cs
  let (minute, cs) ← readNumber 2 (← skipMark ':' cs)
  if 23 < hour || 59 < minute then none
  else match cs with
    | ':' :: rest => do
      let (second, rest) ← readNumber 2 rest
      let (fraction, rest) ← readFraction rest
      if 60 < second then none else some (⟨hour, minute, some second, fraction⟩, rest)
    | _ => some (⟨hour, minute, none, none⟩, cs)

def readOffset : List Char → Option (Option Offset)
  | [] => some none
  | ['Z'] | ['z'] => some (some .universal)
  | sign :: rest => do
    let direction : Int ← if sign = '+' then some 1 else if sign = '-' then some (-1) else none
    let (hours, rest) ← readNumber 2 rest
    let (minutes, rest) ← readNumber 2 (← skipMark ':' rest)
    if rest.isEmpty && hours ≤ 23 && minutes ≤ 59 then
      some (some (.minutes (direction * (hours * 60 + minutes : Nat))))
    else none

/-- The moment that a whole text spells. A blank or the letter T parts the date from the time. -/
def ofChars? (cs : List Char) : Option Moment :=
  match readDate cs with
  | some (date, []) => some ⟨some date, none, none⟩
  | some (date, mark :: rest) =>
    if mark = 'T' || mark = 't' || mark = ' ' then do
      let (time, rest) ← readTime rest
      return ⟨some date, some time, ← readOffset rest⟩
    else none
  | none =>
    match readTime cs with
    | some (time, []) => some ⟨none, some time, none⟩
    | _ => none

/-! ### Text -/

def dateText (date : Date) : String :=
  padded 4 date.year ++ "-" ++ padded 2 date.month ++ "-" ++ padded 2 date.day

/-- A fraction of a second without zeros at its end, of which one stays if there is nothing else. -/
def fractionText (digits : List Char) : String :=
  let kept := (digits.reverse.dropWhile (· == '0')).reverse
  if kept.isEmpty then ".0" else "." ++ String.ofList kept

def timeText (time : DayTime) : String :=
  padded 2 time.hour ++ ":" ++ padded 2 time.minute ++ ((time.second.map fun s => ":" ++ padded 2 s).getD "") ++
    ((time.fraction.map fractionText).getD "")

def offsetText : Offset → String
  | .universal => "Z"
  | .minutes count =>
    (if count < 0 then "-" else "+") ++ padded 2 (count.natAbs / 60) ++ ":" ++ padded 2 (count.natAbs % 60)

def text (moment : Moment) : String :=
  ((moment.date.map dateText).getD "") ++
    (if moment.date.isSome && moment.time.isSome then "T" else "") ++
    ((moment.time.map timeText).getD "") ++ ((moment.offset.map offsetText).getD "")

end Moment

end Dossier.Toml
