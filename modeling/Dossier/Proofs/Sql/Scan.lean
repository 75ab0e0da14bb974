import Dossier.Sql.Predicate
import Mathlib.Data.List.Basic
import Mathlib.Data.List.Chain

/-!
How text is cut into placeholders. A dollar sign takes all the digits behind it, so text falls apart at
every place that is not inside a placeholder: where the part before has no dollar sign, or where the part
after does not begin with a digit. Filling goes through tokens from left to right, and counts placeholders
without looking at their digits.
-/

namespace Dossier.Sql

/-- Text that cannot prolong the digits before it. -/
def StopsDigits (rest : List Char) : Prop := ∀ c ∈ rest.head?, Text.isDecimalDigit c = false

theorem stopsDigits_nil : StopsDigits [] := by
  intro c hc
  cases hc

theorem stopsDigits_cons {c : Char} (rest : List Char) (hc : Text.isDecimalDigit c = false) :
    StopsDigits (c :: rest) := by
  intro d hd
  cases hd
  exact hc

theorem StopsDigits.append {a b : List Char} (ha : StopsDigits a) (hb : StopsDigits b) :
    StopsDigits (a ++ b) := by
  cases a with
  | nil => exact hb
  | cons c a => exact fun d hd => ha d hd

theorem stopsDigits_text {a : String} (b : String)
    (h : a.toList.head?.any (!Text.isDecimalDigit ·) = true) : StopsDigits (a ++ b).toList := by
  intro c hc
  cases ha : a.toList with
  | nil =>
      rw [ha] at h
      cases h
  | cons d rest =>
      rw [String.toList_append, ha] at hc
      cases hc
      rw [ha, List.head?_cons, Option.any_some, Bool.not_eq_true'] at h
      exact h

theorem isDecimalDigit_dollar : Text.isDecimalDigit '$' = false := by decide

theorem not_mem_of_isDecimalDigit {digits : List Char} (h : ∀ c ∈ digits, Text.isDecimalDigit c = true) :
    '$' ∉ digits := by
  intro hmem
  have hdollar := h '$' hmem
  rw [isDecimalDigit_dollar] at hdollar
  cases hdollar

theorem isDecimalDigit_of_isDigit {c : Char} (hc : c.isDigit = true) : Text.isDecimalDigit c = true := by
  have hrange : 0x30 ≤ c.toNat ∧ c.toNat < 0x30 + 10 := by
    simp only [Char.isDigit, Bool.and_eq_true, decide_eq_true_eq] at hc
    obtain ⟨hlow, hhigh⟩ := hc
    have h1 : (48 : UInt32).toNat ≤ c.val.toNat := UInt32.le_iff_toNat_le.mp hlow
    have h2 : c.val.toNat ≤ (57 : UInt32).toNat := UInt32.le_iff_toNat_le.mp hhigh
    exact ⟨h1, Nat.lt_succ_of_le h2⟩
  simp only [Text.isDecimalDigit, Text.zeroDigits, List.any_cons, Bool.or_eq_true, Bool.and_eq_true,
    decide_eq_true_eq]
  exact Or.inl hrange

theorem isDecimalDigit_of_mem_toDigits {n : Nat} {c : Char} (hc : c ∈ Nat.toDigits 10 n) :
    Text.isDecimalDigit c = true :=
  isDecimalDigit_of_isDigit (Nat.isDigit_of_mem_toDigits (by decide) (by decide) hc)

/-! ### Scanning -/

theorem attach_of_ne {c : Char} (hc : c ≠ '$') (tokens : List Token) :
    attach c tokens = .char c :: tokens := by
  rw [attach, if_neg hc]

/-- Text without a dollar sign is scanned apart from what follows it. -/
theorem scan_append_of_not_mem {plain : List Char} (hplain : '$' ∉ plain) (rest : List Char) :
    scan (plain ++ rest) = plain.map Token.char ++ scan rest := by
  induction plain with
  | nil => rfl
  | cons c plain ih =>
      rw [List.mem_cons, not_or] at hplain
      obtain ⟨hc, htail⟩ := hplain
      rw [List.cons_append, scan, ih htail, attach_of_ne (Ne.symm hc)]
      rfl

/-- A placeholder or nothing at all gives no digits to what stands before it. -/
theorem leadingDigits_scan {rest : List Char} (hrest : StopsDigits rest) :
    leadingDigits (scan rest) = ([], scan rest) := by
  cases rest with
  | nil => rfl
  | cons c rest =>
      have hc : Text.isDecimalDigit c = false := hrest c rfl
      rw [scan, attach]
      split
      · split
        · rw [leadingDigits, if_neg (by simp [hc])]
        · rfl
      · rw [leadingDigits, if_neg (by simp [hc])]

theorem leadingDigits_append {digits : List Char} (hdigits : ∀ c ∈ digits, Text.isDecimalDigit c = true)
    (tokens : List Token) :
    leadingDigits (digits.map Token.char ++ tokens) =
      (digits ++ (leadingDigits tokens).1, (leadingDigits tokens).2) := by
  induction digits with
  | nil => rfl
  | cons c digits ih =>
      have htail := ih fun d hd => hdigits d (List.mem_cons_of_mem c hd)
      rw [List.map_cons, List.cons_append, leadingDigits, if_pos (hdigits c List.mem_cons_self), htail]
      rfl

/-- A dollar sign with digits is one placeholder, whatever follows that does not go on with digits. -/
theorem scan_placeholder {digits rest : List Char} (hne : digits ≠ [])
    (hdigits : ∀ c ∈ digits, Text.isDecimalDigit c = true) (hrest : StopsDigits rest) :
    scan ('$' :: digits ++ rest) = .placeholder digits :: scan rest := by
  have hplain : '$' ∉ digits := not_mem_of_isDecimalDigit hdigits
  have hlead : leadingDigits (scan (digits ++ rest)) = (digits, scan rest) := by
    rw [scan_append_of_not_mem hplain, leadingDigits_append hdigits, leadingDigits_scan hrest,
      List.append_nil]
  rw [List.cons_append, scan, attach, if_pos rfl, hlead]
  cases digits with
  | nil => exact absurd rfl hne
  | cons c digits => rfl

theorem scan_numbered (k : Nat) {rest : List Char} (hrest : StopsDigits rest) :
    scan (numbered k ++ rest) = .placeholder (Nat.toDigits 10 (k + 1)) :: scan rest :=
  scan_placeholder Nat.toDigits_ne_nil (fun _ hc => isDecimalDigit_of_mem_toDigits hc) hrest

/-- Tokens that begin without a digit add none to the digits at the start of those before them. -/
theorem leadingDigits_append_of_nil (tokens : List Token) {rest : List Token}
    (hrest : leadingDigits rest = ([], rest)) :
    leadingDigits (tokens ++ rest) = ((leadingDigits tokens).1, (leadingDigits tokens).2 ++ rest) := by
  induction tokens with
  | nil => exact hrest
  | cons token tokens ih =>
      cases token with
      | placeholder digits => rfl
      | char c =>
          rw [List.cons_append, leadingDigits, leadingDigits, ih]
          split <;> rfl

theorem attach_append (c : Char) (tokens : List Token) {rest : List Token}
    (hrest : leadingDigits rest = ([], rest)) : attach c (tokens ++ rest) = attach c tokens ++ rest := by
  rw [attach, attach, leadingDigits_append_of_nil tokens hrest]
  rcases leadingDigits tokens with ⟨_ | ⟨d, digits⟩, left⟩
  · split <;> rfl
  · split <;> rfl

/-- Any text is scanned apart from what follows it, if that does not go on with digits. -/
theorem scan_append (cs : List Char) {rest : List Char} (hrest : StopsDigits rest) :
    scan (cs ++ rest) = scan cs ++ scan rest := by
  induction cs with
  | nil => rfl
  | cons c cs ih => rw [List.cons_append, scan, ih, attach_append c _ (leadingDigits_scan hrest), scan]

/-- No dollar sign in the text stands before a digit. -/
def Unnumbered (text : List Char) : Prop :=
  text.IsChain fun c next => c = '$' → Text.isDecimalDigit next = false

theorem unnumbered_cons {c : Char} {rest : List Char} :
    Unnumbered (c :: rest) ↔ (c = '$' → StopsDigits rest) ∧ Unnumbered rest := by
  rw [Unnumbered, List.isChain_cons]
  exact and_congr_left fun _ => ⟨fun h hc d hd => h d hd hc, fun h d hd hc => h hc d hd⟩

theorem unnumbered_of_not_mem {text : List Char} (h : '$' ∉ text) : Unnumbered text := by
  induction text with
  | nil => exact List.IsChain.nil
  | cons c rest ih =>
      rw [List.mem_cons, not_or] at h
      exact unnumbered_cons.mpr ⟨fun hc => absurd hc.symm h.1, ih h.2⟩

theorem scan_of_unnumbered {text : List Char} (h : Unnumbered text) : scan text = text.map Token.char := by
  induction text with
  | nil => rfl
  | cons c rest ih =>
      obtain ⟨hc, hrest⟩ := unnumbered_cons.mp h
      rw [scan, attach]
      split
      · rename_i hdollar
        rw [leadingDigits_scan (hc hdollar), ih hrest]
        rfl
      · rw [ih hrest]
        rfl

/-! ### Counting and filling -/

theorem countPlaceholders_append (a b : List Token) :
    countPlaceholders (a ++ b) = countPlaceholders a + countPlaceholders b :=
  List.countP_append

theorem countPlaceholders_map_char (plain : List Char) : countPlaceholders (plain.map Token.char) = 0 := by
  rw [countPlaceholders, List.countP_map, List.countP_eq_zero]
  intro c _
  exact Bool.false_ne_true

theorem countPlaceholders_placeholder (digits : List Char) (tokens : List Token) :
    countPlaceholders (.placeholder digits :: tokens) = countPlaceholders tokens + 1 :=
  List.countP_cons_of_pos rfl

theorem fill_append (put : Nat → List Char) (next : Nat) (a b : List Token) :
    fill put next (a ++ b) = fill put next a ++ fill put (next + countPlaceholders a) b := by
  induction a generalizing next with
  | nil => rfl
  | cons token a ih =>
      cases token with
      | char c =>
          rw [List.cons_append, fill, fill, ih]
          rfl
      | placeholder digits =>
          rw [List.cons_append, fill, fill, ih, List.append_assoc, countPlaceholders_placeholder,
            Nat.add_assoc, Nat.add_comm 1]

theorem fill_map_char (put : Nat → List Char) (next : Nat) (plain : List Char) :
    fill put next (plain.map Token.char) = plain := by
  induction plain with
  | nil => rfl
  | cons c plain ih => rw [List.map_cons, fill, ih]

/-- Filling looks at the texts of its own placeholders only. -/
theorem fill_congr {put put' : Nat → List Char} {next next' : Nat} {tokens : List Token}
    (hput : ∀ k < countPlaceholders tokens, put (next + k) = put' (next' + k)) :
    fill put next tokens = fill put' next' tokens := by
  induction tokens generalizing next next' with
  | nil => rfl
  | cons token tokens ih =>
      cases token with
      | char c => rw [fill, fill, ih hput]
      | placeholder digits =>
          rw [countPlaceholders_placeholder] at hput
          have htail : ∀ k < countPlaceholders tokens, put (next + 1 + k) = put' (next' + 1 + k) := by
            intro k hk
            have := hput (k + 1) (Nat.succ_lt_succ hk)
            rwa [Nat.add_comm k, ← Nat.add_assoc, ← Nat.add_assoc] at this
          have hhead : put next = put' next' := hput 0 (Nat.succ_pos _)
          rw [fill, fill, hhead, ih htail]

theorem literalAt_append_left (params others : List Json) {k : Nat} (hk : k < params.length) :
    literalAt (params ++ others) k = literalAt params k := by
  rw [literalAt, literalAt, List.getElem?_append_left hk]

theorem literalAt_append_right (params others : List Json) (k : Nat) :
    literalAt (params ++ others) (params.length + k) = literalAt others k := by
  rw [literalAt, literalAt, List.getElem?_append_right (Nat.le_add_right _ _), Nat.add_sub_cancel_left]

/-! ### Text that fills up to other text -/

/-- The text `format` falls apart into tokens wherever it stands before something that does not go on with
digits, with one placeholder for each parameter; with their literals in place it is `text`. -/
def Fills (format : List Char) (params : List Json) (text : List Char) : Prop :=
  ∃ tokens, (∀ rest, StopsDigits rest → scan (format ++ rest) = tokens ++ scan rest) ∧
    countPlaceholders tokens = params.length ∧ fill (literalAt params) 0 tokens = text

namespace Fills

theorem unnumbered {text : List Char} (htext : Unnumbered text) : Fills text [] text :=
  ⟨text.map Token.char, fun rest hrest => by rw [scan_append text hrest, scan_of_unnumbered htext],
    countPlaceholders_map_char text, fill_map_char _ 0 text⟩

theorem plain {text : List Char} (htext : '$' ∉ text) : Fills text [] text :=
  unnumbered (unnumbered_of_not_mem htext)

/-- Text with a placeholder for each parameter fills up to what is rendered. -/
theorem rendered {sql : String} {params : List Json}
    (hcount : countPlaceholders (scan sql.toList) = params.length) :
    Fills sql.toList params (render sql params).toList :=
  ⟨scan sql.toList, fun _ hrest => scan_append sql.toList hrest, hcount, by rw [render, String.toList_ofList]⟩

theorem value (k : Nat) (v : Json) : Fills (numbered k) [v] (literal v).toList :=
  ⟨[.placeholder (Nat.toDigits 10 (k + 1))], fun _ hrest => scan_numbered k hrest, rfl,
    List.append_nil _⟩

/-- Texts that fill up can follow one another where the second stops the digits of the first. -/
theorem append {a b ta tb : List Char} {ps qs : List Json} (ha : Fills a ps ta) (hb : Fills b qs tb)
    (hstop : ∀ rest, StopsDigits rest → StopsDigits (b ++ rest)) : Fills (a ++ b) (ps ++ qs) (ta ++ tb) := by
  obtain ⟨ua, hscana, hcounta, hfilla⟩ := ha
  obtain ⟨ub, hscanb, hcountb, hfillb⟩ := hb
  have hleft : fill (literalAt (ps ++ qs)) 0 ua = ta := by
    rw [← hfilla]
    apply fill_congr
    intro k hk
    rw [Nat.zero_add, literalAt_append_left ps qs (hcounta ▸ hk)]
  have hright : fill (literalAt (ps ++ qs)) ps.length ub = tb := by
    rw [← hfillb]
    apply fill_congr
    intro k _
    rw [Nat.zero_add, literalAt_append_right]
  refine ⟨ua ++ ub, fun rest hrest => ?_, ?_, ?_⟩
  · rw [List.append_assoc, hscana _ (hstop rest hrest), hscanb rest hrest, List.append_assoc]
  · rw [countPlaceholders_append, hcounta, hcountb, List.length_append]
  · rw [fill_append, Nat.zero_add, hcounta, hleft, hright]

theorem plain_append {a b tb : List Char} {qs : List Json} (ha : '$' ∉ a) (hb : Fills b qs tb) :
    Fills (a ++ b) qs (a ++ tb) := by
  obtain ⟨ub, hscanb, hcountb, hfillb⟩ := hb
  refine ⟨a.map Token.char ++ ub, fun rest hrest => ?_, ?_, ?_⟩
  · rw [List.append_assoc, scan_append_of_not_mem ha, hscanb rest hrest, List.append_assoc]
  · rw [countPlaceholders_append, countPlaceholders_map_char, hcountb, Nat.zero_add]
  · rw [fill_append, fill_map_char, countPlaceholders_map_char, hfillb]

theorem render_eq {sql text : String} {params : List Json} (h : Fills sql.toList params text.toList) :
    render sql params = text := by
  obtain ⟨tokens, hscan, -, hfill⟩ := h
  have hall := hscan [] stopsDigits_nil
  rw [List.append_nil, scan, List.append_nil] at hall
  rw [render, hall, hfill, String.ofList_toList]

theorem countPlaceholders_eq {format text : List Char} {params : List Json} (h : Fills format params text) :
    countPlaceholders (scan format) = params.length := by
  obtain ⟨tokens, hscan, hcount, -⟩ := h
  have hall := hscan [] stopsDigits_nil
  rw [List.append_nil, scan, List.append_nil] at hall
  rw [hall, hcount]

end Fills

end Dossier.Sql
