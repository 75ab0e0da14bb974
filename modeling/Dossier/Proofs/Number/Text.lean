import Dossier.Json.Text
import Mathlib.Data.List.Basic

/-!
The characters of numbers as text: digits, signs, a point and the mark of an exponent, at least one of them.
-/

namespace Dossier

/-- The characters of numbers. -/
def Number.isTextChar (c : Char) : Bool := c.isDigit || ['-', '+', '.', 'e'].contains c

namespace Decimal

open Number (isTextChar)

theorem isTextChar_of_isDigit {c : Char} (h : c.isDigit = true) : isTextChar c = true := by
  rw [isTextChar, h, Bool.true_or]

theorem isDigit_of_mem_digitsOf {n : Nat} {c : Char} (h : c ∈ digitsOf n) : c.isDigit = true :=
  Nat.isDigit_of_mem_toDigits (by decide) (by decide) h

theorem isDigit_of_mem_zeros {n : Nat} {c : Char} (h : c ∈ zeros n) : c.isDigit = true := by
  rw [List.eq_of_mem_replicate h]
  decide

theorem isDigit_of_mem_ofUnits {n : Nat} {unit : Int} {c : Char} (h : c ∈ (ofUnits n unit).digits) :
    c.isDigit = true := by
  rw [ofUnits, dropTrailingZeros, List.mem_reverse] at h
  exact isDigit_of_mem_digitsOf (List.mem_reverse.mp ((List.dropWhile_sublist _).subset h))

/-- What all results of a search and its default have in common. -/
theorem getD_findSome? {P : Decimal → Prop} {f : Nat → Option Decimal} {default : Decimal}
    (hf : ∀ n d, f n = some d → P d) (hdefault : P default) (l : List Nat) :
    P ((l.findSome? f).getD default) := by
  cases hfound : l.findSome? f with
  | none => exact hdefault
  | some d =>
      obtain ⟨n, -, hn⟩ := List.exists_of_findSome?_eq_some hfound
      exact hf n d hn

/-- The shortest digits are those of a natural number. -/
theorem shortest_eq (x : Binary64) : shortest x = ⟨['0'], 0⟩ ∨ ∃ n unit, shortest x = ofUnits n unit := by
  unfold shortest
  split
  · exact .inl rfl
  · refine .inr (getD_findSome? (P := fun d => ∃ n unit, d = ofUnits n unit) (fun count d hd => ?_)
      ⟨_, _, rfl⟩ _)
    obtain ⟨units, -, rfl⟩ := Option.map_eq_some_iff.mp hd
    exact ⟨_, _, rfl⟩

theorem isDigit_of_mem_shortest {x : Binary64} {c : Char} (h : c ∈ (shortest x).digits) : c.isDigit = true := by
  -- not by unfolding: seen through the projection, the search for the digits would be run
  rcases shortest_eq x with hzero | ⟨n, unit, hunits⟩
  · rw [hzero] at h
    exact List.all_eq_true.mp (by decide : ['0'].all Char.isDigit = true) c h
  · exact isDigit_of_mem_ofUnits (hunits ▸ h)

variable {d : Decimal} (hdigits : ∀ c ∈ d.digits, c.isDigit = true)

include hdigits

theorem isTextChar_of_mem_positional {point : Bool} {c : Char} (h : c ∈ positional point d) :
    isTextChar c = true := by
  unfold positional at h
  split at h
  · simp only [List.cons_append, List.nil_append, List.mem_cons, List.mem_append] at h
    rcases h with rfl | rfl | h | h
    · decide
    · decide
    · exact isTextChar_of_isDigit (isDigit_of_mem_zeros h)
    · exact isTextChar_of_isDigit (hdigits c h)
  · dsimp only at h
    split at h
    · rcases List.mem_append.mp h with h | h
      · rcases List.mem_append.mp h with h | h
        · exact isTextChar_of_isDigit (hdigits c h)
        · exact isTextChar_of_isDigit (isDigit_of_mem_zeros h)
      · cases point with
        | true => exact List.all_eq_true.mp (by decide : ['.', '0'].all isTextChar = true) c h
        | false => exact absurd h List.not_mem_nil
    · rcases List.mem_append.mp h with h | h
      · rcases List.mem_append.mp h with h | h
        · exact isTextChar_of_isDigit (hdigits c (List.mem_of_mem_take h))
        · exact List.all_eq_true.mp (by decide : ['.'].all isTextChar = true) c h
      · exact isTextChar_of_isDigit (hdigits c (List.mem_of_mem_drop h))

theorem isTextChar_of_mem_leadingDigits {point : Bool} {c : Char} (h : c ∈ leadingDigits point d) :
    isTextChar c = true := by
  unfold leadingDigits at h
  split at h
  · exact List.all_eq_true.mp (by decide : ['0'].all isTextChar = true) c h
  · rename_i first hone
    have hfirst : isTextChar first = true := isTextChar_of_isDigit (hdigits first (hone ▸ List.mem_cons_self))
    cases point with
    | true =>
        rcases List.mem_cons.mp h with rfl | h
        · exact hfirst
        · exact List.all_eq_true.mp (by decide : ['.', '0'].all isTextChar = true) c h
    | false => exact List.mem_singleton.mp h ▸ hfirst
  · rename_i first rest hmore hmany
    rcases List.mem_cons.mp h with rfl | h
    · exact isTextChar_of_isDigit (hdigits c (hmany ▸ List.mem_cons_self))
    · rcases List.mem_cons.mp h with rfl | h
      · decide
      · exact isTextChar_of_isDigit (hdigits c (hmany ▸ List.mem_cons_of_mem first h))

omit hdigits in
theorem isTextChar_of_mem_exponentPart {width : Nat} {e : Int} {c : Char} (h : c ∈ exponentPart width e) :
    isTextChar c = true := by
  rcases List.mem_cons.mp h with rfl | h
  · decide
  · rcases List.mem_cons.mp h with rfl | h
    · split <;> decide
    · rcases List.mem_append.mp h with h | h
      · exact isTextChar_of_isDigit (isDigit_of_mem_zeros h)
      · exact isTextChar_of_isDigit (isDigit_of_mem_digitsOf h)

theorem isTextChar_of_mem_write {layout : Layout} {negative : Bool} {c : Char}
    (h : c ∈ write layout negative d) : isTextChar c = true := by
  have hbody : ∀ c ∈ (if layout.low ≤ d.exponent && d.exponent ≤ layout.high then positional true d
      else leadingDigits layout.pointInExponent d ++ exponentPart layout.exponentWidth d.exponent),
      isTextChar c = true := by
    intro c hc
    split at hc
    · exact isTextChar_of_mem_positional hdigits hc
    · rcases List.mem_append.mp hc with hc | hc
      · exact isTextChar_of_mem_leadingDigits hdigits hc
      · exact isTextChar_of_mem_exponentPart hc
  cases negative with
  | true =>
      rcases List.mem_cons.mp h with rfl | h
      · decide
      · exact hbody c h
  | false => exact hbody c h

omit hdigits in
theorem write_ne_nil (layout : Layout) (negative : Bool) (d : Decimal) : write layout negative d ≠ [] := by
  cases negative with
  | true => exact List.cons_ne_nil _ _
  | false =>
      intro h
      change (if layout.low ≤ d.exponent && d.exponent ≤ layout.high then positional true d
        else leadingDigits layout.pointInExponent d ++ exponentPart layout.exponentWidth d.exponent) = [] at h
      split at h
      · unfold positional at h
        split at h
        · cases h
        · dsimp only at h
          split at h <;> simp at h
      · exact absurd (List.append_eq_nil_iff.mp h).2 (List.cons_ne_nil _ _)

end Decimal

namespace Number

theorem isTextChar_of_mem_text {n : Number} {c : Char} (h : c ∈ n.text.toList) : isTextChar c = true := by
  cases n with
  | real x =>
      rw [text, String.toList_ofList] at h
      exact Decimal.isTextChar_of_mem_write (fun _ => Decimal.isDigit_of_mem_shortest) h
  | int i =>
      have hdigits : ∀ n : Nat, ∀ c ∈ n.repr.toList, isTextChar c = true := by
        intro n c hc
        rw [Nat.toList_repr] at hc
        exact Decimal.isTextChar_of_isDigit (Decimal.isDigit_of_mem_digitsOf hc)
      rw [text, Int.toString_eq_repr, Int.repr_eq_if] at h
      split at h
      · exact hdigits _ c h
      · rw [String.toList_append] at h
        rcases List.mem_append.mp h with h | h
        · exact List.all_eq_true.mp (by decide : "-".toList.all isTextChar = true) c h
        · exact hdigits _ c h

theorem toList_text_ne_nil (n : Number) : n.text.toList ≠ [] := by
  cases n with
  | real x =>
      rw [text, String.toList_ofList]
      exact Decimal.write_ne_nil _ _ _
  | int i =>
      rw [text, Int.toString_eq_repr, Int.repr_eq_if]
      split
      · rw [Nat.toList_repr]
        exact Nat.toDigits_ne_nil
      · rw [String.toList_append]
        exact List.cons_ne_nil _ _

end Number

end Dossier
