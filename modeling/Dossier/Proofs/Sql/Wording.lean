import Dossier.Proofs.Sql.Clause
import Dossier.Proofs.Sql.Numbering

/-!
Texts that are put together of given words. Between the words stand placeholders only, so whatever else goes
into such a text is bound. Numbering a text anew leaves its words where they are.
-/

namespace Dossier.Sql

/-- No dollar sign in the text stands before a digit or at the end, so it makes no placeholder of what follows. -/
def Solid (text : List Char) : Prop := Unnumbered (text ++ ['0'])

theorem solid_of_not_mem {text : List Char} (h : '$' ∉ text) : Solid text := by
  refine unnumbered_of_not_mem ?_
  rw [List.mem_append, not_or]
  exact ⟨h, by decide⟩

/-- Quotes around a name keep a dollar sign at its end from what follows. -/
theorem solid_quoteIdentifier {name : String} (h : Unnumbered name.toList) : Solid (quoteIdentifier name).toList := by
  have hquote : ∀ next, '"' = '$' → Text.isDecimalDigit next = false := fun _ heq => absurd heq (by decide)
  have hinner := unnumbered_replaceChar h
  rw [Solid, quoteIdentifier, String.toList_ofList, List.cons_append, Unnumbered, List.isChain_append]
  refine ⟨unnumbered_cons.mpr ⟨fun heq => absurd heq (by decide), hinner⟩, List.isChain_singleton _, ?_⟩
  intro last hlast next _
  rw [List.getLast?_cons, List.getLast?_append] at hlast
  cases hlast
  exact hquote next

/-- Solid text is scanned apart from what follows it. -/
theorem scan_append_of_solid {text : List Char} (h : Solid text) (rest : List Char) :
    scan (text ++ rest) = text.map Token.char ++ scan rest := by
  induction text with
  | nil => rfl
  | cons c text ih =>
      obtain ⟨hc, htext⟩ := unnumbered_cons.mp h
      have htail := ih htext
      rw [List.cons_append, scan, List.map_cons, List.cons_append]
      by_cases hdollar : c = '$'
      · have hstop : StopsDigits (text ++ rest) := by
          cases text with
          | nil => exact absurd (hc hdollar '0' rfl) (by decide)
          | cons d text => exact fun e he => hc hdollar e he
        rw [attach, if_pos hdollar, leadingDigits_scan hstop, htail]
      · rw [attach_of_ne hdollar, htail]

theorem numberedFrom_solid_append (next : Nat) {text : List Char} (h : Solid text) (rest : List Char) :
    numberedFrom next (text ++ rest) = text ++ numberedFrom next rest := by
  rw [numberedFrom, scan_append_of_solid h, fill_append, fill_map_char, countPlaceholders_map_char]
  rfl

/-- Numbering anew puts no digit at the front. -/
theorem StopsDigits.numberedFrom {text : List Char} (h : StopsDigits text) (next : Nat) :
    StopsDigits (numberedFrom next text) := by
  refine stopsDigits_fill_numbered next fun c hc => ?_
  have hlead := leadingDigits_scan h
  cases htokens : scan text with
  | nil =>
      rw [htokens] at hc
      cases hc
  | cons token tokens =>
      rw [htokens] at hc hlead
      cases hc
      rw [leadingDigits] at hlead
      split at hlead
      · cases hlead
      · rename_i hdigit
        exact Bool.eq_false_iff.mpr hdigit

/-- Text that is put together of words and of placeholders, none of which goes on with digits. -/
inductive Worded (word : String → Prop) : List Char → Prop
  | nil : Worded word []
  | word {w : String} {rest : List Char} (hw : word w) (hrest : Worded word rest) : Worded word (w.toList ++ rest)
  | placeholder (k : Nat) {rest : List Char} (hstop : StopsDigits rest) (hrest : Worded word rest) :
      Worded word (numbered k ++ rest)

namespace Worded

variable {word other : String → Prop} {a b : List Char}

theorem single {w : String} (hw : word w) : Worded word w.toList := List.append_nil w.toList ▸ nil.word hw

theorem append (ha : Worded word a) (hb : Worded word b) (hstop : StopsDigits b) : Worded word (a ++ b) := by
  induction ha with
  | nil => exact hb
  | word hw _ ih =>
      rw [List.append_assoc]
      exact ih.word hw
  | placeholder k hrest _ ih =>
      rw [List.append_assoc]
      exact ih.placeholder k (hrest.append hstop)

theorem mono (h : Worded word a) (hle : ∀ w, word w → other w) : Worded other a := by
  induction h with
  | nil => exact nil
  | word hw _ ih => exact ih.word (hle _ hw)
  | placeholder k hstop _ ih => exact ih.placeholder k hstop

/-- Numbering anew keeps the words. -/
theorem numberedFrom (h : Worded word a) (hsolid : ∀ w, word w → Solid w.toList) (next : Nat) :
    Worded word (numberedFrom next a) := by
  induction h generalizing next with
  | nil => exact nil
  | word hw _ ih =>
      rw [numberedFrom_solid_append next (hsolid _ hw)]
      exact (ih next).word hw
  | placeholder k hstop _ ih =>
      rw [numberedFrom_append next _ hstop, numberedFrom_numbered]
      exact (ih _).placeholder next (hstop.numberedFrom _)

/-! ### Texts one after another -/

theorem append_text {s t : String} (hs : Worded word s.toList) (ht : Worded word t.toList)
    (hstop : StopsDigits t.toList) : Worded word (s ++ t).toList := by
  rw [String.toList_append]
  exact hs.append ht hstop

theorem append_word {s w : String} (hs : Worded word s.toList) (hw : word w) (hstop : StopsDigits w.toList) :
    Worded word (s ++ w).toList := hs.append_text (single hw) hstop

theorem word_append {s w : String} (hw : word w) (hs : Worded word s.toList) : Worded word (w ++ s).toList := by
  rw [String.toList_append]
  exact hs.word hw

/-- Texts with a word between them. -/
theorem intercalate {separator : String} (hword : word separator)
    (hfirst : separator.toList.head?.any (!Text.isDecimalDigit ·) = true) {texts : List String}
    (h : ∀ text ∈ texts, Worded word text.toList) : Worded word (String.intercalate separator texts).toList := by
  induction texts with
  | nil =>
      rw [String.intercalate_nil]
      exact nil
  | cons text rest ih =>
      have hrest := ih fun t ht => h t (List.mem_cons_of_mem _ ht)
      have htext := h text List.mem_cons_self
      cases rest with
      | nil => rwa [String.intercalate_singleton]
      | cons next rest =>
          rw [String.intercalate_cons_cons, String.append_assoc]
          exact htext.append_text (word_append hword hrest) (stopsDigits_text _ hfirst)

end Worded

/-! ### Fragments and predicates -/

/-- The texts between the values of a fragment are words. -/
def Fragment.WordsOf (word : String → Prop) (fragment : Fragment) : Prop := ∀ sql, Piece.text sql ∈ fragment → word sql

namespace Fragment

variable {word : String → Prop} {a b : Fragment}

theorem WordsOf.append (ha : a.WordsOf word) (hb : b.WordsOf word) : WordsOf word (a ++ b) := by
  intro sql hsql
  rcases List.mem_append.mp hsql with hsql | hsql
  · exact ha sql hsql
  · exact hb sql hsql

theorem wordsOf_nil : WordsOf word [] := fun _ h => absurd h List.not_mem_nil

theorem wordsOf_text {sql : String} (hsql : word sql) (ha : a.WordsOf word) : WordsOf word (.text sql :: a) := by
  intro other hother
  cases hother with
  | head => exact hsql
  | tail _ hother => exact ha other hother

theorem wordsOf_value (value : Json) (ha : a.WordsOf word) : WordsOf word (.value value :: a) := by
  intro sql hsql
  cases hsql with
  | tail _ hsql => exact ha sql hsql

theorem WordsOf.wrap {before after : String} (ha : a.WordsOf word) (hbefore : word before) (hafter : word after) :
    WordsOf word (Fragment.wrap before a after) :=
  (wordsOf_text hbefore ha).append (wordsOf_text hafter wordsOf_nil)

theorem wordsOf_separated {separator : String} (hseparator : word separator) {fragments : List Fragment}
    (h : ∀ fragment ∈ fragments, fragment.WordsOf word) : WordsOf word (Fragment.separated separator fragments) := by
  induction fragments with
  | nil => exact wordsOf_nil
  | cons fragment rest ih =>
      have hrest := ih fun other hother => h other (List.mem_cons_of_mem _ hother)
      have hhead := h fragment List.mem_cons_self
      cases rest with
      | nil => exact hhead
      | cons next rest => exact hhead.append (wordsOf_text hseparator hrest)

/-- With its values numbered, a plain fragment is put together of its texts. -/
theorem IsPlain.worded {fragment : Fragment} (hplain : fragment.IsPlain) (hwords : fragment.WordsOf word)
    (next : Nat) : Worded word (formatFrom next fragment).toList := by
  induction fragment generalizing next with
  | nil => exact .nil
  | cons piece rest ih =>
      have hrest : WordsOf word rest := fun sql hsql => hwords sql (List.mem_cons_of_mem _ hsql)
      cases piece with
      | text sql => exact Worded.word_append (hwords sql List.mem_cons_self) (ih hplain.2 hrest next)
      | value v =>
          have hstop := stopsDigits_formatFrom (next + 1) hplain.1 stopsDigits_nil
          rw [List.append_nil] at hstop
          rw [formatFrom, String.toList_append, String.toList_ofList]
          exact (ih hplain.2 hrest (next + 1)).placeholder next hstop

end Fragment

/-- A joined predicate is put together of its operands' words, the connective's and parentheses. -/
theorem Predicate.worded_join {word : String → Prop} {connective : String} (hopen : word "(") (hclose : word ")")
    (hconnective : word (" " ++ connective ++ " ")) {operands : List Predicate}
    (h : ∀ p ∈ operands, Worded word p.format.toList) : Worded word (join operands connective).format.toList := by
  have hfirst : (" " ++ connective ++ " ").toList.head?.any (!Text.isDecimalDigit ·) = true := by
    rw [String.append_assoc, String.toList_append, List.head?_append]
    rfl
  have hgroups : ∀ text ∈ (operands.filter (!·.isEmpty)).map parenthesised, Worded word text.toList := by
    intro text htext
    obtain ⟨p, hp, rfl⟩ := List.mem_map.mp htext
    have hinner := Worded.word_append hopen (h p (List.mem_of_mem_filter hp))
    exact hinner.append_word hclose (stopsDigits_cons [] (by decide))
  rw [join]
  split
  · exact .nil
  · rename_i kept hkept
    exact Worded.intercalate hconnective hfirst hgroups

end Dossier.Sql
