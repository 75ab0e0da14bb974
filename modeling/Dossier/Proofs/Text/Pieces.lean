import Dossier.Text.Ascii
import Dossier.Text.Pieces
import Mathlib.Data.List.Basic

/-!
Cutting and trimming of texts, and the characters that names and identities are made of. Such a character
is no blank and no mark, so a text of them is cut nowhere and trimmed by nothing.
-/

namespace Dossier.Text

/-! ### Cutting and trimming -/

theorem cutAt_of_not_mem {mark : Char} {cs : List Char} (h : mark ∉ cs) : cutAt mark cs = none := by
  induction cs with
  | nil => rfl
  | cons c rest ih =>
      rw [List.mem_cons, not_or] at h
      rw [cutAt, if_neg (Ne.symm h.1), ih h.2]
      rfl

/-- A text is cut at its first mark. -/
theorem cutAt_append {mark : Char} {before : List Char} (h : mark ∉ before) (rest : List Char) :
    cutAt mark (before ++ mark :: rest) = some (before, rest) := by
  induction before with
  | nil => rw [List.nil_append, cutAt, if_pos rfl]
  | cons c before ih =>
      rw [List.mem_cons, not_or] at h
      rw [List.cons_append, cutAt, if_neg (Ne.symm h.1), ih h.2]
      rfl

/-- What a cut gives says what was cut. -/
theorem cutAt_eq_some_iff {mark : Char} {cs before after : List Char} :
    cutAt mark cs = some (before, after) ↔ mark ∉ before ∧ cs = before ++ mark :: after := by
  constructor
  · intro h
    by_cases hmem : mark ∈ cs
    · obtain ⟨start, rest, rfl, hstart⟩ := List.eq_append_cons_of_mem hmem
      rw [cutAt_append hstart rest] at h
      cases h
      exact ⟨hstart, rfl⟩
    · rw [cutAt_of_not_mem hmem] at h
      cases h
  · rintro ⟨hmark, rfl⟩
    exact cutAt_append hmark after

theorem afterStart_eq_some_iff {start cs rest : List Char} :
    afterStart start cs = some rest ↔ cs = start ++ rest := by
  unfold afterStart
  constructor
  · intro h
    split at h
    · rename_i hprefix
      obtain ⟨tail, rfl⟩ := List.isPrefixOf_iff_prefix.mp hprefix
      rw [List.drop_left] at h
      rw [Option.some.inj h]
    · cases h
  · rintro rfl
    rw [if_pos (List.isPrefixOf_iff_prefix.mpr (List.prefix_append start rest)), List.drop_left]

theorem splitAt_of_not_mem {mark : Char} {cs : List Char} (h : mark ∉ cs) : splitAt mark cs = [cs] := by
  induction cs with
  | nil => rfl
  | cons c rest ih =>
      rw [List.mem_cons, not_or] at h
      rw [splitAt, if_neg (Ne.symm h.1), ih h.2]

theorem splitAt_ne_nil (mark : Char) (cs : List Char) : splitAt mark cs ≠ [] := by
  cases cs with
  | nil => exact List.cons_ne_nil _ _
  | cons c rest =>
      rw [splitAt]
      split
      · exact List.cons_ne_nil _ _
      · split <;> exact List.cons_ne_nil _ _

/-- The first piece of a text ends at its first mark. -/
theorem splitAt_append {mark : Char} {piece : List Char} (h : mark ∉ piece) (rest : List Char) :
    splitAt mark (piece ++ mark :: rest) = piece :: splitAt mark rest := by
  induction piece with
  | nil => rw [List.nil_append, splitAt, if_pos rfl]
  | cons c piece ih =>
      rw [List.mem_cons, not_or] at h
      rw [List.cons_append, splitAt, if_neg (Ne.symm h.1), ih h.2]

/-- The pieces of a text, with the mark between them, are the text. -/
theorem intercalate_splitAt (mark : Char) (cs : List Char) : [mark].intercalate (splitAt mark cs) = cs := by
  induction cs with
  | nil => rfl
  | cons c rest ih =>
      obtain ⟨piece, more, hpieces⟩ := List.exists_cons_of_ne_nil (splitAt_ne_nil mark rest)
      rw [hpieces] at ih
      by_cases hc : c = mark
      · rw [splitAt, if_pos hc, hpieces, List.intercalate_cons_cons, ih, hc]
        rfl
      · rw [splitAt, if_neg hc, hpieces]
        cases more with
        | nil =>
            rw [List.intercalate_singleton] at ih ⊢
            rw [ih]
        | cons next more =>
            rw [List.intercalate_cons_cons] at ih ⊢
            rw [List.cons_append, List.cons_append, ih]

theorem splitAt_intercalate {mark : Char} {pieces : List (List Char)} (hsome : pieces ≠ [])
    (h : ∀ piece ∈ pieces, mark ∉ piece) : splitAt mark ([mark].intercalate pieces) = pieces := by
  induction pieces with
  | nil => exact absurd rfl hsome
  | cons piece more ih =>
      have hpiece := h piece List.mem_cons_self
      cases more with
      | nil => rw [List.intercalate_singleton, splitAt_of_not_mem hpiece]
      | cons next more =>
          rw [List.intercalate_cons_cons, List.append_assoc, List.singleton_append, splitAt_append hpiece,
            ih (List.cons_ne_nil _ _) fun other hother => h other (List.mem_cons_of_mem piece hother)]

theorem beforeEnd_eq_some_iff {ending cs before : List Char} :
    beforeEnd ending cs = some before ↔ cs = before ++ ending := by
  unfold beforeEnd
  constructor
  · intro h
    split at h
    · rename_i hsuffix
      obtain ⟨start, rfl⟩ := List.isSuffixOf_iff_suffix.mp hsuffix
      rw [List.length_append, Nat.add_sub_cancel, List.take_left] at h
      rw [Option.some.inj h]
    · cases h
  · rintro rfl
    rw [if_pos (List.isSuffixOf_iff_suffix.mpr (List.suffix_append before ending)), List.length_append,
      Nat.add_sub_cancel, List.take_left]

theorem mem_intercalate {c : Char} {separator : String} {texts : List String}
    (h : c ∈ (String.intercalate separator texts).toList) :
    c ∈ separator.toList ∨ ∃ text ∈ texts, c ∈ text.toList := by
  induction texts with
  | nil =>
      rw [String.intercalate_nil] at h
      cases h
  | cons text rest ih =>
      cases rest with
      | nil =>
          rw [String.intercalate_singleton] at h
          exact .inr ⟨text, List.mem_cons_self, h⟩
      | cons next rest =>
          rw [String.intercalate_cons_cons, String.toList_append, String.toList_append, List.mem_append,
            List.mem_append] at h
          rcases h with (h | h) | h
          · exact .inr ⟨text, List.mem_cons_self, h⟩
          · exact .inl h
          · exact (ih h).imp_right fun ⟨other, hother, hc⟩ => ⟨other, List.mem_cons_of_mem text hother, hc⟩

/-- Blanks inside a text are kept, so only its two ends matter. -/
theorem trimChars_of_ends {cs : List Char} (hfirst : ∀ c ∈ cs.head?, isBlank c = false)
    (hlast : ∀ c ∈ cs.getLast?, isBlank c = false) : trimChars cs = cs := by
  have hdrop : ∀ {l : List Char}, (∀ c ∈ l.head?, isBlank c = false) → l.dropWhile isBlank = l := by
    intro l hl
    cases l with
    | nil => rfl
    | cons c rest => rw [List.dropWhile_cons_of_neg (by simp [hl c rfl])]
  rw [trimChars, hdrop hfirst, hdrop (by rwa [List.head?_reverse]), List.reverse_reverse]

theorem trimChars_of_not_blank {cs : List Char} (h : ∀ c ∈ cs, isBlank c = false) : trimChars cs = cs :=
  trimChars_of_ends (fun c hc => h c (List.mem_of_mem_head? hc)) fun c hc => h c (List.mem_of_mem_getLast? hc)

/-! ### Characters of names -/

theorem isBlank_of_isSegmentChar {c : Char} (h : isSegmentChar c = true) : isBlank c = false := by
  have hle : ∀ a b : Char, a ≤ b ↔ a.toNat ≤ b.toNat := fun _ _ => UInt32.le_iff_toNat_le
  simp only [isSegmentChar, isLetter, isDigit, Bool.or_eq_true, Bool.and_eq_true, decide_eq_true_eq,
    beq_iff_eq, hle] at h
  have hcode : 0x21 ≤ c.toNat ∧ c.toNat ≤ 0x7e := by
    rcases h with ((h | h) | rfl) | rfl
    · have h1 : 'a'.toNat = 0x61 := rfl
      have h2 : 'z'.toNat = 0x7a := rfl
      have h3 : 'A'.toNat = 0x41 := rfl
      have h4 : 'Z'.toNat = 0x5a := rfl
      omega
    · have h1 : '0'.toNat = 0x30 := rfl
      have h2 : '9'.toNat = 0x39 := rfl
      omega
    · decide
    · decide
  simp only [isBlank, Bool.or_eq_false_iff, Bool.and_eq_false_iff, decide_eq_false_iff_not, beq_eq_false_iff_ne]
  omega

theorem isSegmentChar_of_isDigit {c : Char} (h : c.isDigit = true) : isSegmentChar c = true := by
  have hdigit : isDigit c = true := h
  rw [isSegmentChar, hdigit, Bool.or_true, Bool.true_or, Bool.true_or]

/-- A mark is not in a text of segment characters unless it is one of them. -/
theorem not_mem_of_isSegmentChar {mark : Char} {cs : List Char} (hmark : isSegmentChar mark = false)
    (h : cs.all isSegmentChar = true) : mark ∉ cs := by
  intro hmem
  rw [List.all_eq_true.mp h mark hmem] at hmark
  cases hmark

theorem trimChars_of_segment {cs : List Char} (h : cs.all isSegmentChar = true) : trimChars cs = cs :=
  trimChars_of_not_blank fun c hc => isBlank_of_isSegmentChar (List.all_eq_true.mp h c hc)

/-- Names have no hyphen, and are segments. -/
theorem isSegmentChar_of_isName {s : String} (h : isName s = true) :
    s.toList.all isSegmentChar = true ∧ '-' ∉ s.toList ∧ s.toList ≠ [] := by
  unfold isName at h
  split at h
  · cases h
  · rename_i c rest hs
    rw [hs]
    rw [Bool.and_eq_true, List.all_eq_true] at h
    have hpart : ∀ d ∈ c :: rest, (isLetter d || isDigit d || d == '_') = true := by
      intro d hd
      rcases List.mem_cons.mp hd with rfl | hd
      · rw [Bool.or_eq_true] at h
        rcases h.1 with hletter | hline
        · rw [hletter]
          rfl
        · rw [hline, Bool.or_true]
      · exact h.2 d hd
    refine ⟨List.all_eq_true.mpr fun d hd => ?_, fun hmem => ?_, List.cons_ne_nil _ _⟩
    · rw [isSegmentChar, hpart d hd]
      rfl
    · exact absurd (hpart _ hmem) (by decide)

/-! ### Case -/

theorem toLower_of_not_isUpper {c : Char} (h : c.isUpper = false) : c.toLower = c := by
  unfold Char.toLower
  exact dif_neg (of_decide_eq_false h)

theorem toNat_toLower {c : Char} (h : c.isUpper = true) :
    c.toLower.toNat = c.toNat + 32 ∧ 'A'.toNat ≤ c.toNat ∧ c.toNat ≤ 'Z'.toNat := by
  have hrange := of_decide_eq_true h
  have hlow : 'A'.toNat ≤ c.toNat := UInt32.le_iff_toNat_le.mp hrange.1
  have hhigh : c.toNat ≤ 'Z'.toNat := UInt32.le_iff_toNat_le.mp hrange.2
  refine ⟨?_, hlow, hhigh⟩
  unfold Char.toLower
  rw [dif_pos hrange]
  change (c.val + 32).toNat = c.val.toNat + 32
  have hlast : 'Z'.toNat = 90 := rfl
  have hstep : (32 : UInt32).toNat = 32 := rfl
  have hcode : c.toNat = c.val.toNat := rfl
  rw [UInt32.toNat_add]
  omega

theorem toLower_toLower (c : Char) : c.toLower.toLower = c.toLower := by
  cases hupper : c.isUpper with
  | false => rw [toLower_of_not_isUpper hupper, toLower_of_not_isUpper hupper]
  | true =>
      obtain ⟨hcode, hlow, -⟩ := toNat_toLower hupper
      apply toLower_of_not_isUpper
      apply decide_eq_false
      rintro ⟨-, hhigh⟩
      have hle : c.toLower.toNat ≤ 'Z'.toNat := UInt32.le_iff_toNat_le.mp hhigh
      have hfirst : 'A'.toNat = 65 := rfl
      have hlast : 'Z'.toNat = 90 := rfl
      omega

theorem isSegmentChar_toLower {c : Char} (h : isSegmentChar c = true) : isSegmentChar c.toLower = true := by
  cases hupper : c.isUpper with
  | false => rwa [toLower_of_not_isUpper hupper]
  | true =>
      obtain ⟨hcode, hlow, hhigh⟩ := toNat_toLower hupper
      have hletter : 'a' ≤ c.toLower ∧ c.toLower ≤ 'z' := by
        have hle : ∀ a b : Char, a ≤ b ↔ a.toNat ≤ b.toNat := fun _ _ => UInt32.le_iff_toNat_le
        rw [hle, hle, hcode]
        have h1 : 'a'.toNat = 97 := rfl
        have h2 : 'z'.toNat = 122 := rfl
        have h3 : 'A'.toNat = 65 := rfl
        have h4 : 'Z'.toNat = 90 := rfl
        omega
      simp [isSegmentChar, isLetter, hletter]

theorem toNat_toUpper (c : Char) :
    c.toUpper.toNat = if 97 ≤ c.toNat ∧ c.toNat ≤ 122 then c.toNat - 32 else c.toNat := by
  have hval : c.val.toNat = c.toNat := rfl
  have hle : ∀ n : UInt32, (n ≤ c.val ↔ n.toNat ≤ c.toNat) ∧ (c.val ≤ n ↔ c.toNat ≤ n.toNat) :=
    fun n => ⟨UInt32.le_iff_toNat_le, UInt32.le_iff_toNat_le⟩
  have hfirst : 'a'.val.toNat = 97 := rfl
  have hlast : 'z'.val.toNat = 122 := rfl
  unfold Char.toUpper
  simp only [hle, hfirst, hlast]
  split
  · have hstep : ('A'.val - 'a'.val).toNat = 2 ^ 32 - 32 := rfl
    change (c.val + ('A'.val - 'a'.val)).toNat = _
    rw [UInt32.toNat_add, hstep, hval]
    omega
  · rfl

theorem toNat_toLower_eq (c : Char) :
    c.toLower.toNat = if 65 ≤ c.toNat ∧ c.toNat ≤ 90 then c.toNat + 32 else c.toNat := by
  cases hupper : c.isUpper with
  | true =>
      obtain ⟨hcode, hlow, hhigh⟩ := toNat_toLower hupper
      rw [hcode, if_pos ⟨hlow, hhigh⟩]
  | false =>
      have hnot : ¬ (65 ≤ c.toNat ∧ c.toNat ≤ 90) :=
        fun h => of_decide_eq_false hupper ⟨UInt32.le_iff_toNat_le.mpr h.1, UInt32.le_iff_toNat_le.mpr h.2⟩
      rw [toLower_of_not_isUpper hupper, if_neg hnot]

/-- A character is a capital letter in one of its cases if its small form is the letter's. -/
theorem toUpper_eq_iff {c capital : Char} (hcapital : capital.isUpper = true) :
    c.toUpper = capital ↔ c.toLower = capital.toLower := by
  obtain ⟨hcode, hlow, hhigh⟩ := toNat_toLower hcapital
  have hfirst : 'A'.toNat = 65 := rfl
  have hlast : 'Z'.toNat = 90 := rfl
  rw [← Char.toNat_inj, ← Char.toNat_inj, toNat_toUpper, toNat_toLower_eq, hcode]
  split <;> split <;> omega

theorem asciiUpper_eq_iff {text capitals : String} (hcapitals : ∀ c ∈ capitals.toList, c.isUpper = true) :
    asciiUpper text = capitals ↔ equalIgnoringCase text capitals = true := by
  have hchars : ∀ cs capitals : List Char, (∀ c ∈ capitals, c.isUpper = true) →
      (cs.map Char.toUpper = capitals ↔ cs.map Char.toLower = capitals.map Char.toLower) := by
    intro cs
    induction cs with
    | nil =>
        intro capitals _
        rw [List.map_nil, List.map_nil, eq_comm, @eq_comm _ [], List.map_eq_nil_iff]
    | cons c cs ih =>
        intro capitals hcapitals
        cases capitals with
        | nil => exact iff_of_false (List.cons_ne_nil _ _) (List.cons_ne_nil _ _)
        | cons capital capitals =>
            rw [List.forall_mem_cons] at hcapitals
            rw [List.map_cons, List.map_cons, List.map_cons, List.cons.injEq, List.cons.injEq,
              toUpper_eq_iff hcapitals.1, ih capitals hcapitals.2]
  rw [equalIgnoringCase, beq_iff_eq, ← hchars _ _ hcapitals, asciiUpper, ← String.toList_inj, String.toList_ofList]

theorem asciiLower_asciiLower (s : String) : asciiLower (asciiLower s) = asciiLower s := by
  simp only [asciiLower, String.toList_ofList, List.map_map]
  congr 1
  exact List.map_congr_left fun c _ => toLower_toLower c

/-- Only the dollar sign is the capital of the dollar sign. -/
theorem eq_dollar_of_toUpper {c : Char} (h : c.toUpper = '$') : c = '$' := by
  unfold Char.toUpper at h
  split at h
  · rename_i hlower
    have hlow : 'a'.val.toNat ≤ c.val.toNat := UInt32.le_iff_toNat_le.mp hlower.1
    have hhigh : c.val.toNat ≤ 'z'.val.toNat := UInt32.le_iff_toNat_le.mp hlower.2
    have hfirst : 'a'.val.toNat = 97 := rfl
    have hlast : 'z'.val.toNat = 122 := rfl
    have hval := congrArg Char.val h
    dsimp only at hval
    have hcode := congrArg UInt32.toNat hval
    have hstep : ('A'.val - 'a'.val).toNat = 2 ^ 32 - 32 := rfl
    have hdollar : '$'.val.toNat = 36 := rfl
    rw [UInt32.toNat_add, hstep, hdollar] at hcode
    omega
  · exact h

end Dossier.Text
