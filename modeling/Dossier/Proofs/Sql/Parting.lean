import Dossier.Proofs.Sql.Clause
import Mathlib.Data.List.TakeWhile
import Mathlib.Logic.Equiv.Defs

/-!
Texts taken apart at their placeholders. A parting is the text before the first placeholder and, for each
placeholder, its digits and the text behind it up to the next one; no text between has a placeholder of its
own, and no digits could be longer. Every text has exactly one parting. Numbering anew changes the digits of
the parting and nothing else, and rendering writes literals between the same texts.
-/

namespace Dossier.Sql

theorem stopsDigits_dropWhile (cs : List Char) : StopsDigits (cs.dropWhile Text.isDecimalDigit) := by
  intro c hc
  have hhead := List.head?_dropWhile_not Text.isDecimalDigit cs
  rwa [Option.mem_def.mp hc] at hhead

theorem stopsDigits_of_takeWhile_eq_nil {cs : List Char} (h : cs.takeWhile Text.isDecimalDigit = []) :
    StopsDigits cs := by
  have hsplit : cs.takeWhile Text.isDecimalDigit ++ cs.dropWhile Text.isDecimalDigit = cs :=
    List.takeWhile_append_dropWhile
  rw [h, List.nil_append] at hsplit
  exact hsplit ▸ stopsDigits_dropWhile cs

/-- A placeholder, and the text behind it up to the next one. -/
@[ext]
structure Placed where
  digits : List Char
  behind : List Char
  digits_ne_nil : digits ≠ []
  isDecimalDigit : ∀ c ∈ digits, Text.isDecimalDigit c = true
  /-- The digits are all there are. -/
  stops : StopsDigits behind
  /-- The text behind has no placeholder of its own. -/
  unnumbered : Unnumbered behind

/-- The text before the first placeholder, and the placeholders from left to right. -/
@[ext]
structure Parting where
  before : List Char
  unnumbered : Unnumbered before
  placed : List Placed

namespace Placed

def text (placed : Placed) : List Char := '$' :: placed.digits ++ placed.behind

def tokens (placed : Placed) : List Token := .placeholder placed.digits :: placed.behind.map Token.char

/-- The placeholder with the number for `k` in place of its digits. -/
def withNumber (k : Nat) (placed : Placed) : Placed where
  digits := Nat.toDigits 10 (k + 1)
  behind := placed.behind
  digits_ne_nil := Nat.toDigits_ne_nil
  isDecimalDigit _ hc := isDecimalDigit_of_mem_toDigits hc
  stops := placed.stops
  unnumbered := placed.unnumbered

theorem stopsDigits_flatMap_text (placed : List Placed) : StopsDigits (placed.flatMap text) := by
  cases placed with
  | nil => exact stopsDigits_nil
  | cons first rest => exact stopsDigits_cons _ isDecimalDigit_dollar

theorem scan_flatMap_text (placed : List Placed) : scan (placed.flatMap text) = placed.flatMap tokens := by
  induction placed with
  | nil => rfl
  | cons first rest ih =>
      have hrest := stopsDigits_flatMap_text rest
      calc scan ((first :: rest).flatMap text)
          = scan ('$' :: first.digits ++ (first.behind ++ rest.flatMap text)) := by
            rw [List.flatMap_cons, text, List.append_assoc]
        _ = .placeholder first.digits :: (scan first.behind ++ scan (rest.flatMap text)) := by
            rw [scan_placeholder first.digits_ne_nil first.isDecimalDigit (first.stops.append hrest),
              scan_append first.behind hrest]
        _ = (first :: rest).flatMap tokens := by
            rw [scan_of_unnumbered first.unnumbered, ih, List.flatMap_cons, tokens, List.cons_append]

theorem countPlaceholders_flatMap_tokens (placed : List Placed) :
    countPlaceholders (placed.flatMap tokens) = placed.length := by
  induction placed with
  | nil => rfl
  | cons first rest ih =>
      rw [List.flatMap_cons, tokens, List.cons_append, countPlaceholders_placeholder, countPlaceholders_append,
        countPlaceholders_map_char, ih, Nat.zero_add, List.length_cons]

theorem fill_flatMap_tokens (put : Nat → List Char) (next : Nat) (placed : List Placed) :
    fill put next (placed.flatMap tokens) = (placed.mapIdx fun k p => put (next + k) ++ p.behind).flatten := by
  induction placed generalizing next with
  | nil => rfl
  | cons first rest ih =>
      have hshift : ∀ k, next + 1 + k = next + (k + 1) := fun k => by omega
      rw [List.flatMap_cons, tokens, List.cons_append, fill, fill_append, fill_map_char,
        countPlaceholders_map_char, Nat.add_zero, ih, List.mapIdx_cons, List.flatten_cons, List.append_assoc]
      simp only [hshift, Nat.add_zero]

/-- A placeholder ends the plain text before it. -/
theorem map_char_append_inj {a b : List Char} {ps qs : List Placed}
    (h : a.map Token.char ++ ps.flatMap tokens = b.map Token.char ++ qs.flatMap tokens) :
    a = b ∧ ps.flatMap tokens = qs.flatMap tokens := by
  -- the lengths of `a` and `b` are not known to agree: where one of them ends, the other side goes on with no `char`
  have hplain : ∀ (c : Char) (cs : List Token) (placed : List Placed), placed.flatMap tokens ≠ .char c :: cs := by
    intro c cs placed hchar
    cases placed with
    | nil => cases hchar
    | cons first rest => cases hchar
  induction a generalizing b with
  | nil =>
      cases b with
      | nil => exact ⟨rfl, h⟩
      | cons d b => exact absurd h (hplain d _ ps)
  | cons c a ih =>
      cases b with
      | nil => exact absurd h.symm (hplain c _ qs)
      | cons d b =>
          obtain ⟨hc, htail⟩ := List.cons.inj h
          obtain ⟨rfl, hrest⟩ := ih htail
          exact ⟨congrArg (· :: a) (Token.char.inj hc), hrest⟩

theorem flatMap_tokens_injective {ps qs : List Placed} (h : ps.flatMap tokens = qs.flatMap tokens) : ps = qs := by
  induction ps generalizing qs with
  | nil =>
      cases qs with
      | nil => rfl
      | cons q qs => cases h
  | cons p ps ih =>
      cases qs with
      | nil => cases h
      | cons q qs =>
          obtain ⟨hdigits, htail⟩ := List.cons.inj h
          obtain ⟨hbehind, hrest⟩ := map_char_append_inj htail
          rw [Placed.ext (Token.placeholder.inj hdigits) hbehind, ih hrest]

end Placed

namespace Parting

def text (p : Parting) : List Char := p.before ++ p.placed.flatMap Placed.text

def tokens (p : Parting) : List Token := p.before.map Token.char ++ p.placed.flatMap Placed.tokens

/-- The text with the characters `put k` in place of the placeholder number `k`, counted from 0. -/
def written (put : Nat → List Char) (p : Parting) : List Char :=
  p.before ++ (p.placed.mapIdx fun k placed => put k ++ placed.behind).flatten

/-- The same texts with the placeholders `$1`, `$2`, … between them. -/
def renumbered (p : Parting) : Parting := { p with placed := p.placed.mapIdx Placed.withNumber }

theorem scan_text (p : Parting) : scan p.text = p.tokens := by
  rw [text, scan_append p.before (Placed.stopsDigits_flatMap_text p.placed), scan_of_unnumbered p.unnumbered,
    Placed.scan_flatMap_text, tokens]

theorem countPlaceholders_tokens (p : Parting) : countPlaceholders p.tokens = p.placed.length := by
  rw [tokens, countPlaceholders_append, countPlaceholders_map_char, Placed.countPlaceholders_flatMap_tokens,
    Nat.zero_add]

theorem fill_tokens (put : Nat → List Char) (p : Parting) : fill put 0 p.tokens = p.written put := by
  rw [tokens, fill_append, fill_map_char, countPlaceholders_map_char, Placed.fill_flatMap_tokens, written]
  simp only [Nat.zero_add]

/-! ### The parting of a text -/

/-- Two partings of one text are the same. -/
theorem text_injective {p q : Parting} (h : p.text = q.text) : p = q := by
  have htokens : p.tokens = q.tokens := by rw [← scan_text, ← scan_text, h]
  obtain ⟨hbefore, hplaced⟩ := Placed.map_char_append_inj htokens
  exact Parting.ext hbefore (Placed.flatMap_tokens_injective hplaced)

/-- The parting with a character before it; a dollar sign takes the digits that follow. -/
def prepend (c : Char) (p : Parting) : Parting :=
  if h : c = '$' ∧ p.before.takeWhile Text.isDecimalDigit ≠ [] then
    { before := []
      unnumbered := List.IsChain.nil
      placed :=
        { digits := p.before.takeWhile Text.isDecimalDigit
          behind := p.before.dropWhile Text.isDecimalDigit
          digits_ne_nil := h.2
          isDecimalDigit := fun _ hd => List.mem_takeWhile_imp hd
          stops := stopsDigits_dropWhile p.before
          unnumbered := p.unnumbered.suffix (List.dropWhile_suffix _) } :: p.placed }
  else
    { before := c :: p.before
      unnumbered := unnumbered_cons.mpr
        ⟨fun hc => stopsDigits_of_takeWhile_eq_nil (not_not.mp (not_and.mp h hc)), p.unnumbered⟩
      placed := p.placed }

theorem text_prepend (c : Char) (p : Parting) : (prepend c p).text = c :: p.text := by
  rw [prepend]
  split
  · rename_i h
    obtain ⟨rfl, -⟩ := h
    rw [text, text, List.flatMap_cons, Placed.text, List.nil_append, List.cons_append, List.cons_append,
      List.takeWhile_append_dropWhile]
  · rfl

def ofText : List Char → Parting
  | [] => ⟨[], List.IsChain.nil, []⟩
  | c :: rest => prepend c (ofText rest)

theorem text_ofText (cs : List Char) : (ofText cs).text = cs := by
  induction cs with
  | nil => rfl
  | cons c rest ih => rw [ofText, text_prepend, ih]

/-! ### Numbers in place of digits -/

theorem text_renumbered (p : Parting) : p.renumbered.text = p.written numbered := by
  have hplaced : p.placed.mapIdx (fun k placed => numbered k ++ placed.behind) =
      (p.placed.mapIdx Placed.withNumber).map Placed.text := by
    rw [List.mapIdx_eq_iff]
    intro k
    rw [List.getElem?_map, List.getElem?_mapIdx, Option.map_map]
    rfl
  rw [text, renumbered, written, hplaced, List.flatMap_def]

theorem length_renumbered (p : Parting) : p.renumbered.placed.length = p.placed.length := List.length_mapIdx

/-- The second number of a placeholder is its first one, as it depends on the place alone. -/
theorem renumbered_renumbered (p : Parting) : p.renumbered.renumbered = p.renumbered := by
  rw [renumbered, renumbered, List.mapIdx_mapIdx]
  rfl

end Parting

/-- **Every text falls apart at its placeholders in one way.** -/
def parting : String ≃ Parting where
  toFun sql := Parting.ofText sql.toList
  invFun p := String.ofList p.text
  left_inv sql := (congrArg String.ofList (Parting.text_ofText sql.toList)).trans String.ofList_toList
  right_inv p := Parting.text_injective (by rw [Parting.text_ofText, String.toList_ofList])

theorem scan_toList (sql : String) : scan sql.toList = (parting sql).tokens := by
  have htext : (parting sql).text = sql.toList := Parting.text_ofText sql.toList
  rw [← htext, Parting.scan_text]

/-- Rendering writes the literal of each parameter in the place of its placeholder. -/
theorem toList_render (sql : String) (params : List Json) :
    (render sql params).toList = (parting sql).written (literalAt params) := by
  rw [render, String.toList_ofList, scan_toList, Parting.fill_tokens]

/-- Numbering anew writes numbers in place of digits, and counts the placeholders. -/
theorem renumber_eq (sql : String) :
    renumber sql = (parting.symm (parting sql).renumbered, (parting sql).placed.length) := by
  have htext : parting.symm (parting sql).renumbered = String.ofList ((parting sql).written numbered) :=
    congrArg String.ofList (Parting.text_renumbered (parting sql))
  rw [renumber, scan_toList, Parting.fill_tokens, Parting.countPlaceholders_tokens, htext]

/-- **Numbering anew keeps every placeholder in its place.** The new text falls apart into the same texts with
`$1`, `$2`, … between them, as many as are counted; numbered again it stays as it is, and each parameter is
rendered where it was. -/
theorem renumber_in_place (sql : String) (params : List Json) :
    renumber (renumber sql).1 = renumber sql ∧
      render (renumber sql).1 params = render sql params ∧
      parting (renumber sql).1 = (parting sql).renumbered ∧
      (renumber sql).2 = (parting sql).placed.length ∧
      (render sql params).toList = (parting sql).written (literalAt params) := by
  have hparting : parting (renumber sql).1 = (parting sql).renumbered := by
    rw [renumber_eq, Equiv.apply_symm_apply]
  have hagain : renumber (renumber sql).1 = renumber sql := by
    rw [renumber_eq (renumber sql).1, hparting, Parting.renumbered_renumbered, Parting.length_renumbered,
      ← renumber_eq]
  exact ⟨hagain, render_renumber sql params, hparting, congrArg Prod.snd (renumber_eq sql),
    toList_render sql params⟩

example : renumber "$$07$٣1 $x $" = ("$$1$2 $x $", 2) := by decide +kernel

end Dossier.Sql
