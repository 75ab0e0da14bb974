import Dossier.Proofs.Sql.Nesting
import Dossier.Proofs.Sql.Renumber

/-!
Parts of a text whose placeholders are numbered. A part is numbered by itself, on from the number that the parts before
it have reached, if it does not go on with the digits of the part before. Numbers move no parenthesis.
-/

namespace Dossier.Sql

variable {text a b plain : List Char}

theorem numbered_inj {k m : Nat} (h : numbered k = numbered m) : k = m := by
  have hdigits : Nat.toDigits 10 (k + 1) = Nat.toDigits 10 (m + 1) := (List.cons.inj h).2
  have hvalue := congrArg (Nat.ofDigitChars 10 · 0) hdigits
  simp only [Nat.ofDigitChars_toDigits (by decide : 1 < 10) (by decide)] at hvalue
  exact Nat.succ.inj hvalue

/-- The text with its placeholders numbered on from `next`. -/
def numberedFrom (next : Nat) (text : List Char) : List Char := fill numbered next (scan text)

theorem toList_renumber (sql : String) : (renumber sql).1.toList = numberedFrom 0 sql.toList := String.toList_ofList

theorem numberedFrom_append (next : Nat) (a : List Char) (hb : StopsDigits b) :
    numberedFrom next (a ++ b) = numberedFrom next a ++ numberedFrom (next + countPlaceholders (scan a)) b := by
  rw [numberedFrom, scan_append a hb, fill_append]
  rfl

theorem numberedFrom_plain_append (next : Nat) (hplain : '$' ∉ plain) (rest : List Char) :
    numberedFrom next (plain ++ rest) = plain ++ numberedFrom next rest := by
  rw [numberedFrom, scan_append_of_not_mem hplain, fill_append, fill_map_char, countPlaceholders_map_char]
  rfl

theorem numberedFrom_numbered (next k : Nat) : numberedFrom next (numbered k) = numbered next := by
  rw [numberedFrom, ← List.append_nil (numbered k), scan_numbered k stopsDigits_nil]
  exact List.append_nil _

theorem numberedFrom_plain (next : Nat) (hplain : '$' ∉ plain) :
    numberedFrom next plain = plain := by
  have hnone : numberedFrom next [] = [] := rfl
  have hplain := numberedFrom_plain_append next hplain []
  rwa [List.append_nil, hnone, List.append_nil] at hplain

/-- A placeholder between plain texts is numbered where it stands. -/
theorem numberedFrom_between (next k : Nat) {before after : List Char} (hbefore : '$' ∉ before) (hafter : '$' ∉ after)
    (hstop : StopsDigits after) : numberedFrom next (before ++ (numbered k ++ after)) =
      before ++ (numbered next ++ after) := by
  rw [numberedFrom_plain_append next hbefore, numberedFrom_append next (numbered k) hstop, numberedFrom_numbered,
    numberedFrom_plain _ hafter]

theorem numberedFrom_grouped (next : Nat) (inner rest : List Char) : numberedFrom next (grouped inner rest) =
    grouped (numberedFrom next inner) (numberedFrom (next + countPlaceholders (scan inner)) rest) := by
  have hopen : '$' ∉ ['('] := by decide
  have hclose : '$' ∉ [')'] := by decide
  have hstop : StopsDigits ([')'] ++ rest) := stopsDigits_cons rest (by decide)
  calc numberedFrom next (['('] ++ (inner ++ ([')'] ++ rest)))
      = ['('] ++ (numberedFrom next inner ++ ([')'] ++ numberedFrom (next + countPlaceholders (scan inner)) rest)) := by
        rw [numberedFrom_plain_append next hopen, numberedFrom_append next inner hstop,
          numberedFrom_plain_append _ hclose]

/-- The digits of placeholders come and go, and the depth behind a text stays the same. -/
theorem depthBehind_numberedFrom (depth next : Nat) (text : List Char) :
    depthBehind depth (numberedFrom next text) = depthBehind depth text := by
  induction text generalizing depth next with
  | nil => rfl
  | cons c cs ih =>
      have hchar : depthBehind depth (c :: numberedFrom next cs) = depthBehind depth (c :: cs) := by
        rw [depthBehind_cons, depthBehind_cons]
        exact congrArg (Option.bind _) (funext fun behind => ih behind next)
      rw [numberedFrom, scan]
      by_cases hc : c = '$'
      · subst hc
        by_cases hlead : (leadingDigits (scan cs)).1 = []
        · rwa [attach_dollar_of_nil hlead]
        · -- the digits that the placeholder takes are those that `cs` begins with
          obtain ⟨hsplit, hdigits, -⟩ := leadingDigits_spec (scan cs)
          have hneutral : ∀ c, Text.isDecimalDigit c = false → c ∉ (leadingDigits (scan cs)).1 := by
            intro c hc hmem
            rw [hdigits c hmem] at hc
            cases hc
          have hrest : numberedFrom (next + 1) cs = (leadingDigits (scan cs)).1 ++
              fill numbered (next + 1) (leadingDigits (scan cs)).2 := by
            conv_lhs => rw [numberedFrom, hsplit]
            rw [fill_append, fill_map_char, countPlaceholders_map_char, Nat.add_zero]
          have hdollar : depthBehind depth ('$' :: cs) = depthBehind depth cs := rfl
          rw [attach_dollar_of_ne hlead, fill, depthBehind_append, Fragment.depthBehind_numbered, Option.bind_some,
            hdollar, ← ih depth (next + 1), hrest, depthBehind_append,
            depthBehind_of_not_mem (hneutral _ (by decide)) (hneutral _ (by decide)), Option.bind_some]
      · rwa [attach_of_ne hc]

theorem Balanced.numberedFrom (h : Balanced text) (next : Nat) : Balanced (numberedFrom next text) :=
  balanced_of_depthBehind (by rw [depthBehind_numberedFrom, h.depthBehind_eq])

end Dossier.Sql
