import Dossier.Proofs.Sql.Scan
import Mathlib.Data.List.Forall2

/-!
Rendering. The text of a fragment with its values numbered, rendered with the literals of its parameters,
is the fragment with each literal in its place. The same holds of predicates that are joined, although each
of them numbers its values from one: placeholders are filled in the order of the text.
-/

namespace Dossier.Sql

namespace Fragment

/-- The character that the text of a fragment begins with. -/
def firstChar? : Fragment → Option Char
  | [] => none
  | .text sql :: rest => sql.toList.head?.or (firstChar? rest)
  | .value _ :: _ => some '$'

/-- The fragment does not begin with a digit. -/
def NoDigitFirst (fragment : Fragment) : Prop :=
  ∀ c ∈ firstChar? fragment, Text.isDecimalDigit c = false

/-- The pieces of text have no dollar sign, and none of them prolongs the placeholder before it. -/
def IsPlain : Fragment → Prop
  | [] => True
  | .text sql :: rest => '$' ∉ sql.toList ∧ IsPlain rest
  | .value _ :: rest => NoDigitFirst rest ∧ IsPlain rest

theorem head?_formatFrom (next : Nat) (fragment : Fragment) :
    (formatFrom next fragment).toList.head? = firstChar? fragment := by
  induction fragment generalizing next with
  | nil => rfl
  | cons piece rest ih =>
      cases piece with
      | text sql => rw [formatFrom, firstChar?, String.toList_append, List.head?_append, ih]
      | value v => rw [formatFrom, firstChar?, String.toList_append, String.toList_ofList]; rfl

theorem stopsDigits_formatFrom {fragment : Fragment} {rest : List Char} (next : Nat)
    (hfirst : fragment.NoDigitFirst) (hrest : StopsDigits rest) :
    StopsDigits ((formatFrom next fragment).toList ++ rest) := by
  intro c hc
  rw [List.head?_append, head?_formatFrom] at hc
  cases hfragment : firstChar? fragment with
  | none =>
      rw [hfragment] at hc
      exact hrest c hc
  | some d =>
      rw [hfragment] at hc
      exact hfirst c (hfragment ▸ hc)

/-- Filled with the literals of its parameters, the text of a plain fragment is its inline text. -/
theorem fills_inline {fragment : Fragment} (hplain : fragment.IsPlain) (next : Nat) :
    Fills (formatFrom next fragment).toList fragment.params fragment.inline.toList := by
  induction fragment generalizing next with
  | nil => exact Fills.plain List.not_mem_nil
  | cons piece rest ih =>
      cases piece with
      | text sql =>
          rw [formatFrom, params, inline, String.toList_append, String.toList_append]
          exact Fills.plain_append hplain.1 (ih hplain.2 next)
      | value v =>
          rw [formatFrom, params, inline, String.toList_append, String.toList_append, String.toList_ofList]
          exact (Fills.value next v).append (ih hplain.2 (next + 1))
            fun _ hrest => stopsDigits_formatFrom (next + 1) hplain.1 hrest

/-- A fragment with a text in it has neither an empty text nor an empty inline text. -/
theorem empty_iff_of_mem {fragment : Fragment} {sql : String} (hmem : .text sql ∈ fragment) (hsql : sql ≠ "")
    (next : Nat) : formatFrom next fragment = "" ↔ fragment.inline = "" := by
  have hformat : formatFrom next fragment ≠ "" := by
    induction fragment generalizing next with
    | nil => cases hmem
    | cons piece rest ih =>
        intro hempty
        cases hmem with
        | head => exact hsql (String.append_eq_empty_iff.mp hempty).1
        | tail _ hrest =>
            cases piece <;> exact ih hrest _ (String.append_eq_empty_iff.mp hempty).2
  have hinline : fragment.inline ≠ "" := by
    clear hformat
    induction fragment with
    | nil => cases hmem
    | cons piece rest ih =>
        intro hempty
        cases hmem with
        | head => exact hsql (String.append_eq_empty_iff.mp hempty).1
        | tail _ hrest =>
            cases piece <;> exact ih hrest (String.append_eq_empty_iff.mp hempty).2
  exact ⟨fun h => absurd h hformat, fun h => absurd h hinline⟩

/-! ### Plain fragments -/

theorem firstChar?_append (a b : Fragment) : firstChar? (a ++ b) = (firstChar? a).or (firstChar? b) := by
  induction a with
  | nil => rfl
  | cons piece a ih =>
      cases piece with
      | text sql => rw [List.cons_append, firstChar?, firstChar?, ih, Option.or_assoc]
      | value v => rfl

theorem noDigitFirst_nil : NoDigitFirst [] := by
  intro c hc
  cases hc

/-- A text decides how a fragment begins if it has a character. -/
theorem noDigitFirst_text {sql : String} (rest : Fragment)
    (hsql : sql.toList.head?.any (!Text.isDecimalDigit ·) = true) : NoDigitFirst (.text sql :: rest) := by
  intro c hc
  cases hhead : sql.toList.head? with
  | none =>
      rw [hhead] at hsql
      cases hsql
  | some d =>
      rw [firstChar?, hhead, Option.some_or] at hc
      cases hc
      rw [hhead, Option.any_some, Bool.not_eq_true'] at hsql
      exact hsql

theorem NoDigitFirst.append {a b : Fragment} (ha : a.NoDigitFirst) (hb : b.NoDigitFirst) :
    NoDigitFirst (a ++ b) := by
  intro c hc
  rw [firstChar?_append] at hc
  cases hfirst : firstChar? a with
  | none =>
      rw [hfirst] at hc
      exact hb c hc
  | some d =>
      rw [hfirst] at hc
      exact ha c (hfirst ▸ hc)

/-- Plain fragments may follow one another where the second does not begin with a digit. -/
theorem IsPlain.append {a b : Fragment} (ha : a.IsPlain) (hb : b.IsPlain) (hfirst : b.NoDigitFirst) :
    IsPlain (a ++ b) := by
  induction a with
  | nil => exact hb
  | cons piece a ih =>
      cases piece with
      | text sql => exact ⟨ha.1, ih ha.2⟩
      | value v => exact ⟨ha.1.append hfirst, ih ha.2⟩

end Fragment

/-! ### Rendered texts -/

/-- The text of `sql` fills up to `text` with the literals of its parameters. -/
def Renders (sql : String) (params : List Json) (text : String) : Prop :=
  Fills sql.toList params text.toList

namespace Renders

variable {a b ta tb : String} {ps qs : List Json}

theorem plain {sql : String} (h : '$' ∉ sql.toList) : Renders sql [] sql := Fills.plain h

theorem append (ha : Renders a ps ta) (hb : Renders b qs tb) (hstop : StopsDigits b.toList) :
    Renders (a ++ b) (ps ++ qs) (ta ++ tb) := by
  rw [Renders, String.toList_append, String.toList_append]
  exact Fills.append ha hb fun _ hrest => hstop.append hrest

theorem plain_append (ha : '$' ∉ a.toList) (hb : Renders b qs tb) : Renders (a ++ b) qs (a ++ tb) := by
  rw [Renders, String.toList_append, String.toList_append]
  exact Fills.plain_append ha hb

theorem append_plain (ha : Renders a ps ta) (hb : '$' ∉ b.toList) (hstop : StopsDigits b.toList) :
    Renders (a ++ b) ps (ta ++ b) := by
  have hall := ha.append (plain hb) hstop
  rwa [List.append_nil] at hall

/-- Items with a separator between them, whatever text and parameters each item stands for. -/
theorem intercalate {ι : Type} {sql : ι → String} {params : ι → List Json} {separator : String}
    (hplain : '$' ∉ separator.toList) (hfirst : separator.toList.head?.any (!Text.isDecimalDigit ·) = true)
    {items : List ι} {texts : List String}
    (h : List.Forall₂ (fun item text => Renders (sql item) (params item) text) items texts) :
    Renders (String.intercalate separator (items.map sql)) (items.flatMap params)
      (String.intercalate separator texts) := by
  induction h with
  | nil => exact plain (by rw [List.map_nil, String.intercalate_nil]; decide)
  | cons hitem hrest ih =>
      cases hrest with
      | nil =>
          rw [List.map_singleton, String.intercalate_singleton, String.intercalate_singleton,
            List.flatMap_singleton]
          exact hitem
      | cons hnext hrest =>
          rw [List.map_cons, List.map_cons, String.intercalate_cons_cons, String.intercalate_cons_cons,
            List.flatMap_cons, String.append_assoc, String.append_assoc]
          exact hitem.append (plain_append hplain ih) (stopsDigits_text _ hfirst)

theorem render_eq {sql text : String} {params : List Json} (h : Renders sql params text) :
    render sql params = text := Fills.render_eq h

end Renders

namespace Predicate

/-- The text of a predicate fills up to `text` with the literals of its parameters, and neither text is
empty without the other. -/
def Spells (p : Predicate) (text : String) : Prop :=
  (p.format = "" ↔ text = "") ∧ Fills p.format.toList p.params text.toList

theorem spells_empty : empty.Spells "" := ⟨Iff.rfl, Fills.plain List.not_mem_nil⟩

theorem spells_ofFragment {fragment : Fragment} (hplain : fragment.IsPlain) {sql : String}
    (hmem : .text sql ∈ fragment) (hsql : sql ≠ "") : (ofFragment fragment).Spells fragment.inline :=
  ⟨Fragment.empty_iff_of_mem hmem hsql 0, Fragment.fills_inline hplain 0⟩

theorem Spells.isEmpty_eq {p : Predicate} {text : String} (h : p.Spells text) :
    p.isEmpty = text.isEmpty := by
  rw [Bool.eq_iff_iff, isEmpty, String.isEmpty_iff, String.isEmpty_iff]
  exact h.1

/-- Text in parentheses. -/
def inParentheses (text : String) : String := "(" ++ text ++ ")"

theorem renders_inParentheses {p : Predicate} {text : String} (h : Renders p.format p.params text) :
    Renders p.parenthesised p.params (inParentheses text) :=
  (h.plain_append (by decide)).append_plain (by decide) (stopsDigits_cons [] (by decide))

/-- Joined operands fill up to the joined texts, whatever each of them numbers its values from. -/
theorem renders_intercalate {word : String} (hword : '$' ∉ word.toList) {kept : List Predicate}
    {texts : List String} (h : List.Forall₂ (fun p text => Renders p.format p.params text) kept texts) :
    Renders (String.intercalate (" " ++ word ++ " ") (kept.map parenthesised)) (kept.flatMap params)
      (String.intercalate (" " ++ word ++ " ") (texts.map inParentheses)) := by
  have hseparator : '$' ∉ (" " ++ word ++ " ").toList := by
    simp only [String.toList_append, List.mem_append, not_or]
    exact ⟨⟨by decide, hword⟩, by decide⟩
  have hfirst : (" " ++ word ++ " ").toList.head?.any (!Text.isDecimalDigit ·) = true := by
    rw [String.append_assoc, String.toList_append, List.head?_append]
    rfl
  have hgrouped : List.Forall₂ (fun p text => Renders (parenthesised p) p.params text) kept
      (texts.map inParentheses) := List.forall₂_map_right_iff.mpr (h.imp fun _ _ => renders_inParentheses)
  exact Renders.intercalate hseparator hfirst hgrouped

theorem intercalate_eq_empty_iff {kept : List Predicate} {texts : List String}
    (h : List.Forall₂ Spells kept texts) (separator : String) :
    String.intercalate separator (kept.map parenthesised) = "" ↔
      String.intercalate separator (texts.map inParentheses) = "" := by
  have hopen : ∀ rest : String, "(" ++ rest ≠ "" := by
    intro rest hempty
    exact absurd (String.append_eq_empty_iff.mp hempty).1 (by decide)
  cases h with
  | nil => rfl
  | cons hp hrest =>
      cases hrest with
      | nil => simp [parenthesised, inParentheses, String.append_assoc, hopen]
      | cons hq hrest =>
          simp [parenthesised, inParentheses, String.append_assoc, hopen, String.intercalate_cons_cons]

/-- Joining spells the texts of the operands that are not empty, each in parentheses. -/
theorem spells_join {word : String} (hword : '$' ∉ word.toList) {operands : List Predicate}
    {texts : List String} (h : List.Forall₂ Spells operands texts) :
    (join operands word).Spells
      (String.intercalate (" " ++ word ++ " ") ((texts.filter (!·.isEmpty)).map inParentheses)) := by
  have hkept : List.Forall₂ Spells (operands.filter (!·.isEmpty)) (texts.filter (!·.isEmpty)) :=
    List.rel_filter (fun p text hp => by
      change (!p.isEmpty) = true ↔ (!text.isEmpty) = true
      rw [hp.isEmpty_eq]) h
  have hempty := intercalate_eq_empty_iff hkept (" " ++ word ++ " ")
  have hfills := renders_intercalate hword (hkept.imp fun _ _ hp => hp.2)
  rw [join]
  cases hoperands : operands.filter (!·.isEmpty) with
  | nil =>
      rw [hoperands] at hkept
      rw [List.forall₂_nil_left_iff.mp hkept, List.map_nil, String.intercalate_nil]
      exact spells_empty
  | cons p kept =>
      rw [hoperands] at hempty hfills
      exact ⟨hempty, hfills⟩

end Predicate

end Dossier.Sql
