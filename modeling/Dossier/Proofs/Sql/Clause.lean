import Dossier.Proofs.Number.Text
import Dossier.Proofs.Sql.Renumber
import Dossier.Proofs.Sql.Rendering

/-!
Pieces of statements. A text that has one placeholder for each of its parameters, wherever it is put, may be
followed by another such text that does not begin with a digit. Quoting a name makes no placeholder of it,
and numbering a text anew does not change what it renders to.
-/

namespace Dossier.Sql

open Text (replaceChar)

/-! ### Texts with a placeholder for each parameter -/

/-- The text has one placeholder for each parameter, whatever stands around it. -/
def Counts (sql : String) (params : List Json) : Prop := ∃ text, Fills sql.toList params text

namespace Counts

variable {a b sql : String} {params ps qs : List Json}

theorem countPlaceholders_eq (h : Counts sql params) :
    countPlaceholders (scan sql.toList) = params.length := by
  obtain ⟨_, hfills⟩ := h
  exact hfills.countPlaceholders_eq

theorem of_countPlaceholders (h : countPlaceholders (scan sql.toList) = params.length) : Counts sql params :=
  ⟨_, Fills.rendered h⟩

theorem renders (h : Counts sql params) : Renders sql params (render sql params) :=
  Fills.rendered h.countPlaceholders_eq

theorem plain (h : '$' ∉ sql.toList) : Counts sql [] := ⟨_, Fills.plain h⟩

theorem append (ha : Counts a ps) (hb : Counts b qs) (hstop : StopsDigits b.toList) :
    Counts (a ++ b) (ps ++ qs) := ⟨_, ha.renders.append hb.renders hstop⟩

theorem plain_append (ha : '$' ∉ a.toList) (hb : Counts b qs) : Counts (a ++ b) qs :=
  ⟨_, hb.renders.plain_append ha⟩

end Counts

theorem Predicate.Spells.counts {p : Predicate} {text : String} (h : p.Spells text) :
    Counts p.format p.params := ⟨_, h.2⟩

theorem Fragment.IsPlain.counts {fragment : Fragment} (h : fragment.IsPlain) :
    Counts (Predicate.ofFragment fragment).format (Predicate.ofFragment fragment).params :=
  ⟨_, fills_inline h 0⟩

/-! ### Quoted names -/

/-- Doubled quotes part no dollar sign from its digits and bring none together. -/
theorem unnumbered_replaceChar {cs : List Char} (h : Unnumbered cs) :
    Unnumbered (replaceChar '"' ['"', '"'] cs ++ ['"']) := by
  induction cs with
  | nil => exact unnumbered_of_not_mem (by decide)
  | cons c rest ih =>
      obtain ⟨hc, hrest⟩ := unnumbered_cons.mp h
      rw [replaceChar, List.flatMap_cons, ← replaceChar, List.append_assoc]
      split
      · rw [List.cons_append, List.singleton_append]
        have hquote : '"' = '$' → ∀ cs, StopsDigits cs := fun hquote => absurd hquote (by decide)
        exact unnumbered_cons.mpr ⟨(hquote · _), unnumbered_cons.mpr ⟨(hquote · _), ih hrest⟩⟩
      · rw [List.singleton_append]
        refine unnumbered_cons.mpr ⟨fun hdollar => ?_, ih hrest⟩
        cases rest with
        | nil => exact stopsDigits_cons [] (by decide)
        | cons d rest =>
            rw [replaceChar, List.flatMap_cons]
            split
            · exact stopsDigits_cons _ (by decide)
            · exact stopsDigits_cons _ (hc hdollar d rfl)

theorem renders_quoteIdentifier {name : String} (h : Unnumbered name.toList) :
    Renders (quoteIdentifier name) [] (quoteIdentifier name) := by
  rw [Renders, quoteIdentifier, String.toList_ofList]
  exact Fills.unnumbered
    (unnumbered_cons.mpr ⟨fun hquote => absurd hquote (by decide), unnumbered_replaceChar h⟩)

theorem dollar_not_mem_toString (n : Nat) : '$' ∉ (toString n).toList := by
  rw [Nat.toString_eq_repr, Nat.toList_repr]
  exact not_mem_of_isDecimalDigit fun c hc => isDecimalDigit_of_mem_toDigits hc

/-! ### Rendered texts that are not empty -/

theorem toList_literal_ne_nil (value : Json) : (literal value).toList ≠ [] := by
  have hquoted : ∀ text, (quoteLiteral text).toList ≠ [] := by
    intro text
    rw [quoteLiteral, String.toList_ofList]
    exact List.cons_ne_nil _ _
  cases value with
  | null => decide
  | bool b => cases b <;> decide
  | number n => exact n.toList_text_ne_nil
  | string s => exact hquoted s
  | array items => exact hquoted _
  | object members => exact hquoted _

theorem scan_ne_nil (c : Char) (rest : List Char) : scan (c :: rest) ≠ [] := by
  rw [scan, attach]
  split
  · split <;> exact List.cons_ne_nil _ _
  · exact List.cons_ne_nil _ _

/-- Literals leave no text empty, so only the empty text renders to nothing. -/
theorem render_eq_empty_iff (sql : String) (params : List Json) : render sql params = "" ↔ sql = "" := by
  rw [← String.toList_eq_nil_iff, ← String.toList_eq_nil_iff, render, String.toList_ofList]
  cases sql.toList with
  | nil => exact iff_of_true rfl rfl
  | cons c rest =>
      refine iff_of_false (fun hnil => ?_) (List.cons_ne_nil c rest)
      cases htokens : scan (c :: rest) with
      | nil => exact scan_ne_nil c rest htokens
      | cons token tokens =>
          rw [htokens] at hnil
          cases token with
          | char d => cases hnil
          | placeholder digits =>
              have hliteral := (List.append_eq_nil_iff.mp hnil).1
              rw [literalAt] at hliteral
              split at hliteral
              · exact toList_literal_ne_nil _ hliteral
              · cases hliteral

theorem Counts.spells {p : Predicate} (h : Counts p.format p.params) : p.Spells p.rendered :=
  ⟨(render_eq_empty_iff p.format p.params).symm, h.renders⟩

/-! ### Numbering anew -/

theorem fill_renumbered (put : Nat → List Char) (next first : Nat) (tokens : List Token) :
    fill put next (renumbered first tokens) = fill put next tokens := by
  induction tokens generalizing next first with
  | nil => rfl
  | cons token rest ih =>
      cases token with
      | char c => rw [renumbered, fill, fill, ih]
      | placeholder digits => rw [renumbered, fill, fill, ih]

/-- The numbers of placeholders are not looked at. -/
theorem render_renumber (sql : String) (params : List Json) :
    render (renumber sql).1 params = render sql params := by
  rw [render, render, renumber, String.toList_ofList, scan_fill_numbered, fill_renumbered]

end Dossier.Sql
