/-!
New identities, in the form of random UUIDs. Every number of every source is spread over the digits of its
identity by steps that can each be undone, so no two identities agree, and none looks like a counted one.
-/

namespace Dossier.Identity

/-- Who makes an identity. -/
inductive Source where
  | session
  | store
  deriving DecidableEq, Repr

/-- The seed that tells sources apart. -/
def Source.seed : Source → Nat
  | .session => 0
  | .store => 1

/-- A word whose bits depend on all bits of another word, and differ for different words. -/
def spread (word : UInt64) : UInt64 :=
  let word := (word ^^^ (word >>> 30)) * 0xbf58476d1ce4e5b9
  let word := (word ^^^ (word >>> 27)) * 0x94d049bb133111eb
  word ^^^ (word >>> 31)

/-- The sixteen hexadecimal digits of a word. -/
def digits (word : UInt64) : List Char :=
  let digits := Nat.toDigits 16 word.toNat
  List.replicate (16 - digits.length) '0' ++ digits

/-- A digit that marks the layout of UUIDs, one of four. -/
def variant (word : UInt64) : Char :=
  if word % 4 == 0 then '8' else if word % 4 == 1 then '9' else if word % 4 == 2 then 'a' else 'b'

/-- The identity number `n` of a source. -/
def fresh (source : Source) (n : Nat) : String :=
  let first := spread (UInt64.ofNat (2 * n + source.seed) + 0x9e3779b97f4a7c15)
  let second := spread (first + 0x9e3779b97f4a7c15)
  let all := digits first ++ digits second
  let part (start size : Nat) : String := String.ofList ((all.drop start).take size)
  part 0 8 ++ "-" ++ part 8 4 ++ "-4" ++ part 12 3 ++ "-" ++ String.singleton (variant second) ++ part 15 3 ++ "-" ++
    part 18 12

end Dossier.Identity
