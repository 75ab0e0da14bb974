import Dossier.Proofs.Sql.Scan

/-!
Numbering anew. The digits of a placeholder end where the text goes on without a digit, and the new number
ends there too: the renumbered text falls apart into the same tokens, and its placeholders are `$1`, `$2`, …
from left to right.
-/

namespace Dossier.Sql

/-- The text of a placeholder, for the tokens that are one. -/
def Token.placeholder? : Token → Option (List Char)
  | .placeholder digits => some ('$' :: digits)
  | .char _ => none

/-- The placeholders of a text, from left to right. -/
def placeholders (sql : String) : List (List Char) := (scan sql.toList).filterMap Token.placeholder?

/-- The tokens with placeholders numbered on from `next`. -/
def renumbered : Nat → List Token → List Token
  | _, [] => []
  | next, .char c :: rest => .char c :: renumbered next rest
  | next, .placeholder _ :: rest => .placeholder (Nat.toDigits 10 (next + 1)) :: renumbered (next + 1) rest

theorem renumbered_map_char (next : Nat) (plain : List Char) (tokens : List Token) :
    renumbered next (plain.map Token.char ++ tokens) = plain.map Token.char ++ renumbered next tokens := by
  induction plain with
  | nil => rfl
  | cons c plain ih => rw [List.map_cons, List.cons_append, renumbered, ih, List.cons_append]

/-- The digits are all there are: what is left goes on with something else. -/
theorem leadingDigits_spec (tokens : List Token) :
    tokens = (leadingDigits tokens).1.map Token.char ++ (leadingDigits tokens).2 ∧
      (∀ c ∈ (leadingDigits tokens).1, Text.isDecimalDigit c = true) ∧
      ∀ c, (leadingDigits tokens).2.head? = some (.char c) → Text.isDecimalDigit c = false := by
  induction tokens with
  | nil => exact ⟨rfl, fun _ h => absurd h List.not_mem_nil, fun _ h => by cases h⟩
  | cons token rest ih =>
      cases token with
      | placeholder digits => exact ⟨rfl, fun _ h => absurd h List.not_mem_nil, fun _ h => by cases h⟩
      | char c =>
          rw [leadingDigits]
          split
          · rename_i hdigit
            obtain ⟨hsplit, hdigits, hrest⟩ := ih
            refine ⟨by rw [List.map_cons, List.cons_append, ← hsplit], fun d hd => ?_, hrest⟩
            rcases List.mem_cons.mp hd with rfl | hd
            · exact hdigit
            · exact hdigits d hd
          · rename_i hdigit
            refine ⟨rfl, fun _ h => absurd h List.not_mem_nil, fun d hd => ?_⟩
            cases hd
            exact Bool.eq_false_iff.mpr hdigit

theorem leadingDigits_renumbered (next : Nat) (tokens : List Token) :
    (leadingDigits (renumbered next tokens)).1 = (leadingDigits tokens).1 := by
  induction tokens with
  | nil => rfl
  | cons token rest ih =>
      cases token with
      | placeholder digits => rfl
      | char c =>
          rw [renumbered, leadingDigits, leadingDigits]
          split
          · rw [ih]
          · rfl

/-- A filled text begins as its tokens do, or with a dollar sign. -/
theorem stopsDigits_fill_numbered (next : Nat) {tokens : List Token}
    (h : ∀ c, tokens.head? = some (.char c) → Text.isDecimalDigit c = false) :
    StopsDigits (fill numbered next tokens) := by
  intro c hc
  cases tokens with
  | nil => cases hc
  | cons token rest =>
      cases token with
      | char d =>
          cases hc
          exact h c rfl
      | placeholder digits =>
          cases hc
          exact isDecimalDigit_dollar

theorem attach_dollar_of_nil {tokens : List Token} (h : (leadingDigits tokens).1 = []) :
    attach '$' tokens = .char '$' :: tokens := by
  rw [attach, if_pos rfl]
  split
  · rfl
  · rename_i digits rest hne heq
    rw [heq] at h
    exact absurd h hne

theorem attach_dollar_of_ne {tokens : List Token} (h : (leadingDigits tokens).1 ≠ []) :
    attach '$' tokens = .placeholder (leadingDigits tokens).1 :: (leadingDigits tokens).2 := by
  rw [attach, if_pos rfl]
  split
  · rename_i rest heq
    rw [heq] at h
    exact absurd rfl h
  · rename_i digits rest hne heq
    rw [heq]

/-- What holds of a text holds of what is left behind its first digits. -/
theorem renumbered_rest {tokens rest : List Token} {digits : List Char} {next : Nat}
    (hsplit : tokens = digits.map Token.char ++ rest) (hplain : '$' ∉ digits)
    (hall : scan (fill numbered next tokens) = renumbered next tokens) :
    scan (fill numbered next rest) = renumbered next rest := by
  rw [hsplit, fill_append, fill_map_char, countPlaceholders_map_char, Nat.add_zero,
    scan_append_of_not_mem hplain, renumbered_map_char] at hall
  exact List.append_cancel_left hall

/-- The renumbered text falls apart into the renumbered tokens. -/
theorem scan_fill_numbered (next : Nat) (cs : List Char) :
    scan (fill numbered next (scan cs)) = renumbered next (scan cs) := by
  induction cs generalizing next with
  | nil => rfl
  | cons c cs ih =>
      rw [scan]
      by_cases hc : c = '$'
      · subst hc
        by_cases hlead : (leadingDigits (scan cs)).1 = []
        · -- a dollar sign alone takes no digits, before and after
          have hlead' := (leadingDigits_renumbered next (scan cs)).trans hlead
          rw [attach_dollar_of_nil hlead, fill, scan, ih, renumbered, attach_dollar_of_nil hlead']
        · obtain ⟨hsplit, hdigits, hrest⟩ := leadingDigits_spec (scan cs)
          rw [attach_dollar_of_ne hlead, fill, renumbered,
            scan_numbered next (stopsDigits_fill_numbered _ hrest),
            renumbered_rest hsplit (not_mem_of_isDecimalDigit hdigits) (ih (next + 1))]
      · rw [attach_of_ne hc, fill, scan, ih, attach_of_ne hc]
        rfl

/-- The placeholders of renumbered tokens count on from `next`. -/
theorem filterMap_renumbered (next : Nat) (tokens : List Token) :
    (renumbered next tokens).filterMap Token.placeholder? =
      (List.range' next (countPlaceholders tokens)).map numbered := by
  induction tokens generalizing next with
  | nil => rfl
  | cons token rest ih =>
      cases token with
      | char c => exact ih next
      | placeholder digits =>
          have hhead : Token.placeholder? (.placeholder (Nat.toDigits 10 (next + 1))) = some (numbered next) := rfl
          rw [renumbered, List.filterMap_cons_some hhead, ih, countPlaceholders_placeholder,
            List.range'_succ, List.map_cons]

/-- The placeholders of a renumbered text are `$1`, `$2`, … up to their number. -/
theorem placeholders_renumber (sql : String) :
    placeholders (renumber sql).1 = (List.range (countPlaceholders (scan sql.toList))).map numbered := by
  rw [placeholders, renumber, String.toList_ofList, scan_fill_numbered, filterMap_renumbered,
    List.range_eq_range']

/-! ### Placeholders of parts -/

theorem placeholders_append {a b : String} (hb : StopsDigits b.toList) :
    placeholders (a ++ b) = placeholders a ++ placeholders b := by
  rw [placeholders, String.toList_append, scan_append a.toList hb, List.filterMap_append]
  rfl

theorem placeholders_plain_append {plain : String} (h : '$' ∉ plain.toList) (rest : String) :
    placeholders (plain ++ rest) = placeholders rest := by
  have hplain : (plain.toList.map Token.char).filterMap Token.placeholder? = [] := by
    rw [List.filterMap_map, List.filterMap_eq_nil_iff]
    exact fun _ _ => rfl
  rw [placeholders, String.toList_append, scan_append_of_not_mem h, List.filterMap_append, hplain]
  rfl

theorem placeholders_plain {plain : String} (h : '$' ∉ plain.toList) : placeholders plain = [] := by
  rw [← String.append_empty (s := plain), placeholders_plain_append h]
  rfl

theorem placeholders_append_plain {plain : String} (h : '$' ∉ plain.toList)
    (hfirst : plain.toList.head?.any (!Text.isDecimalDigit ·) = true) (text : String) :
    placeholders (text ++ plain) = placeholders text := by
  have hstop := stopsDigits_text "" hfirst
  rw [String.append_empty] at hstop
  rw [placeholders_append hstop, placeholders_plain h, List.append_nil]

/-- A comma ends the digits before it. -/
theorem placeholders_intercalate (texts : List String) :
    placeholders (String.intercalate ", " texts) = texts.flatMap placeholders := by
  induction texts with
  | nil => rfl
  | cons text rest ih =>
      cases rest with
      | nil => rw [String.intercalate_singleton, List.flatMap_singleton]
      | cons next rest =>
          have hcomma : StopsDigits (", " ++ String.intercalate ", " (next :: rest)).toList :=
            stopsDigits_text _ (by decide)
          rw [String.intercalate_cons_cons, String.append_assoc, placeholders_append hcomma,
            placeholders_plain_append (by decide), ih, ← List.flatMap_cons]

/-- Texts with one placeholder each, numbered on. -/
theorem flatMap_placeholders {α : Type} {f : α × Nat → String} (as : List α)
    (hf : ∀ a ∈ as, ∀ k, placeholders (f (a, k)) = [numbered k]) (next : Nat) :
    ((as.zipIdx next).map f).flatMap placeholders = (List.range' next as.length).map numbered := by
  induction as generalizing next with
  | nil => rfl
  | cons a as ih =>
      rw [List.zipIdx_cons, List.map_cons, List.flatMap_cons, hf a List.mem_cons_self,
        ih fun other hother => hf other (List.mem_cons_of_mem a hother), List.length_cons, List.range'_succ,
        List.map_cons]
      rfl

end Dossier.Sql
