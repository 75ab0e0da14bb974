import Dossier.Json.Reader
import Mathlib.Data.List.Basic

/-!
What is read from JSON text. A value is of the sort that its first character announces, and a string is
shorter than the text it is read from. Main statement: no text reads as itself.
-/

namespace Dossier.Json

open Reader

/-! ### Strings -/

theorem length_readHex {cs rest : List Char} {n : Nat} (h : readHex cs = some (n, rest)) :
    rest.length < cs.length := by
  unfold readHex at h
  split at h
  · simp only [Option.bind_eq_bind, Option.bind_eq_some_iff, Option.pure_def, Option.some.injEq, Prod.mk.injEq] at h
    obtain ⟨_, _, _, _, _, _, _, _, _, rfl⟩ := h
    simp only [List.length_cons]
    omega
  · cases h

theorem length_readEscape {cs rest : List Char} {c : Char} (h : readEscape cs = some (c, rest)) :
    rest.length < cs.length := by
  obtain ⟨⟨high, after⟩, hhigh, h⟩ := Option.bind_eq_some_iff.mp h
  have hlt := length_readHex hhigh
  dsimp only at h
  split at h
  · split at h
    · obtain ⟨⟨low, last⟩, hlow, h⟩ := Option.bind_eq_some_iff.mp h
      have hlt' := length_readHex hlow
      dsimp only at h
      split at h
      · obtain rfl : last = rest := (Prod.mk.inj (Option.some.inj h)).2
        simp only [List.length_cons] at hlt
        omega
      · cases h
    · cases h
  · split at h
    · cases h
    · obtain rfl : after = rest := (Prod.mk.inj (Option.some.inj h)).2
      exact hlt

/-- A string takes at least one character of text for each of its own, and the closing quote. -/
theorem length_readString {fuel : Nat} {read cs rest : List Char} {s : String}
    (h : readString fuel read cs = some (s, rest)) : s.toList.length + rest.length < read.length + cs.length := by
  induction fuel generalizing read cs with
  | zero => cases h
  | succ fuel ih =>
      unfold readString at h
      split at h
      · cases h
        simp
      · rename_i mark after
        have hstep : ∀ c, readString fuel (c :: read) after = some (s, rest) →
            s.toList.length + rest.length < read.length + ('\\' :: mark :: after).length := by
          intro c h
          have hlt := ih h
          simp only [List.length_cons] at hlt ⊢
          omega
        split at h
        · exact hstep _ h
        · exact hstep _ h
        · exact hstep _ h
        · exact hstep _ h
        · exact hstep _ h
        · exact hstep _ h
        · exact hstep _ h
        · exact hstep _ h
        · obtain ⟨⟨escaped, last⟩, hescape, h⟩ := Option.bind_eq_some_iff.mp h
          have hshort := length_readEscape hescape
          have hlt := ih h
          simp only [List.length_cons] at hlt ⊢
          omega
        · cases h
      · split at h
        · cases h
        · have hlt := ih h
          simp only [List.length_cons] at hlt ⊢
          omega
      · cases h

/-! ### Sorts of values -/

/-- Nothing but a string is read, if anything. -/
theorem expect_ne_string {word : String} {value : Json} {cs rest : List Char} {s : String}
    (hvalue : value ≠ .string s) : expect word value cs ≠ some (.string s, rest) := by
  unfold expect
  dsimp only
  split
  · intro h
    cases h
    exact hvalue rfl
  · exact nofun

theorem fraction_ne_string {negative : Bool} {significand : Nat} {exponent : Int} {s : String} :
    fraction negative significand exponent ≠ some (.string s) := by
  intro h
  obtain ⟨x, -, h⟩ := Option.bind_eq_some_iff.mp h
  obtain ⟨y, -, h⟩ := Option.bind_eq_some_iff.mp h
  cases h

theorem finishNumber_ne_string {negative : Bool} {significand : Nat} {exponent : Int} {cs rest : List Char}
    {s : String} : finishNumber negative significand exponent cs ≠ some (.string s, rest) := by
  have hfraction : ∀ exponent after, (do return (← fraction negative significand exponent, after)) ≠
      some (Json.string s, rest) := by
    intro exponent after h
    obtain ⟨value, hvalue, h⟩ := Option.bind_eq_some_iff.mp h
    cases h
    exact fraction_ne_string hvalue
  unfold finishNumber
  split
  · intro h
    obtain ⟨⟨more, after⟩, -, h⟩ := Option.bind_eq_some_iff.mp h
    exact hfraction _ _ h
  · intro h
    obtain ⟨⟨more, after⟩, -, h⟩ := Option.bind_eq_some_iff.mp h
    exact hfraction _ _ h
  · exact hfraction _ _

theorem afterIntegral_ne_string {negative : Bool} {significand : Nat} {cs rest : List Char} {s : String} :
    afterIntegral negative significand cs ≠ some (.string s, rest) := by
  unfold afterIntegral
  dsimp only
  split
  · split
    · exact finishNumber_ne_string
    · exact nofun
  · exact finishNumber_ne_string
  · exact finishNumber_ne_string
  · split
    · exact finishNumber_ne_string
    · split
      · exact nofun
      · split
        · exact finishNumber_ne_string
        · exact nofun

theorem readNumber_ne_string {negative : Bool} {cs rest : List Char} {s : String} :
    readNumber negative cs ≠ some (.string s, rest) := by
  unfold readNumber
  split
  · split
    · exact nofun
    · exact afterIntegral_ne_string
  · split
    · exact afterIntegral_ne_string
    · exact nofun
  · exact nofun

theorem readItems_ne_string {fuel depth : Nat} {read : List Json} {cs rest : List Char} {s : String} :
    readItems fuel depth read cs ≠ some (.string s, rest) := by
  induction fuel generalizing read cs with
  | zero => exact nofun
  | succ fuel ih =>
      intro h
      rw [readItems] at h
      obtain ⟨⟨item, after⟩, -, h⟩ := Option.bind_eq_some_iff.mp h
      dsimp only at h
      split at h
      · exact ih h
      · cases h
      · cases h

theorem readMembers_ne_string {fuel depth : Nat} {read : Members} {cs rest : List Char} {s : String} :
    readMembers fuel depth read cs ≠ some (.string s, rest) := by
  induction fuel generalizing read cs with
  | zero => exact nofun
  | succ fuel ih =>
      intro h
      rw [readMembers] at h
      split at h
      · obtain ⟨⟨name, after⟩, -, h⟩ := Option.bind_eq_some_iff.mp h
        dsimp only at h
        split at h
        · obtain ⟨⟨value, last⟩, -, h⟩ := Option.bind_eq_some_iff.mp h
          dsimp only at h
          split at h
          · exact ih h
          · cases h
          · cases h
        · cases h
      · cases h

/-! ### Texts -/

/-- A string is read from a text that is longer by two quotes. -/
theorem length_readValue {fuel depth : Nat} {cs rest : List Char} {s : String}
    (h : readValue fuel depth cs = some (.string s, rest)) : s.toList.length + 1 < cs.length := by
  cases fuel with
  | zero => cases h
  | succ fuel =>
      have hskip : (skipBlanks cs).length ≤ cs.length := (List.dropWhile_sublist _).length_le
      rw [readValue] at h
      split at h
      · exact absurd h (expect_ne_string nofun)
      · exact absurd h (expect_ne_string nofun)
      · exact absurd h (expect_ne_string nofun)
      · rename_i after hcs
        obtain ⟨⟨text, last⟩, htext, h⟩ := Option.map_eq_some_iff.mp h
        cases h
        have hlt := length_readString htext
        rw [hcs] at hskip
        simp only [List.length_cons, List.length_nil] at hlt hskip
        omega
      · exact absurd h readNumber_ne_string
      · split at h
        · cases h
        · split at h
          · cases h
          · exact absurd h readItems_ne_string
      · split at h
        · cases h
        · split at h
          · cases h
          · exact absurd h readMembers_ne_string
      · exact absurd h readNumber_ne_string

/-- **No text reads as itself.** -/
theorem ofText?_ne_self (text : String) : ofText? text ≠ some (.string text) := by
  intro h
  unfold ofText? at h
  dsimp only at h
  split at h
  · rename_i value rest hread
    split at h
    · cases h
      have := length_readValue hread
      omega
    · cases h
  · cases h

end Dossier.Json
