import Dossier.Proofs.Filter.Wording
import Dossier.Proofs.Search.Description

/-!
What statements are written with. Beside the words of expressions and clauses, and numerals, a statement holds
the words of its orderings and groupings in capitals; whatever else the filter and the traits say is bound.
Main statement: `inlined_words`.
-/

namespace Dossier

open Sql (Predicate Worded quoteIdentifier)

namespace Query

open Target (asciiUpper_mem_orderWords_iff entryHead entryWords isOrderWord orderWords)

/-- What stands between the expressions of a statement. -/
def clauseWords : List String :=
  ["SELECT ", "COUNT(*) AS \"count\"", " AS ", ", ", " FROM ", " WHERE ", " GROUP BY ", " ORDER BY ", " LIMIT ",
    " LIMIT ALL", " LIMIT -1", " OFFSET ", " ", "(", ")", " AND "]

/-- The words of statements for a target, with `inlined` the words behind the heads of entries. -/
inductive Word (target : Target) (inlined : List String) : String → Prop
  | expression {w : String} (hw : target.Word w) : Word target inlined w
  | clause {w : String} (hw : w ∈ clauseWords) : Word target inlined w
  | table : Word target inlined (quoteIdentifier target.kind.table)
  | column {c : Column} (hc : c ∈ target.kind.columns) : Word target inlined (quoteIdentifier c.name)
  | position (n : Nat) : Word target inlined (quoteIdentifier ("_f" ++ toString n))
  | related : Word target inlined (quoteIdentifier relatedName)
  | numeral (n : Nat) : Word target inlined (toString n)
  | order {word : String} (hword : word ∈ inlined) (haccepted : isOrderWord word = true) :
      Word target inlined (Text.asciiUpper word)

variable {target : Target} {inlined : List String}

theorem Word.solid {w : String} (h : Word target inlined w) : Sql.Solid w.toList := by
  have hname : ∀ (landing : Landing) (position : Nat), landing.IsUnnumbered →
      Sql.Solid (quoteIdentifier (resultName position landing)).toList :=
    fun _ position hlanding => Sql.solid_quoteIdentifier (unnumbered_resultName hlanding position)
  cases h with
  | expression hw => exact Sql.solid_of_not_mem hw.dollar_not_mem
  | clause hw =>
      have hall : ∀ w ∈ clauseWords, '$' ∉ w.toList := by decide
      exact Sql.solid_of_not_mem (hall w hw)
  | table => exact Sql.solid_of_not_mem (dollar_not_mem_table target.kind)
  | column hc => exact Sql.solid_of_not_mem (Kind.dollar_not_mem_column hc)
  | position n => exact hname (.payload "" []) n trivial
  | related => exact hname .related 0 trivial
  | numeral n => exact Sql.solid_of_not_mem (Sql.dollar_not_mem_toString n)
  | order _ haccepted => exact Sql.solid_of_not_mem (Target.dollar_not_mem_of_isOrderWord haccepted)

/-! ### Fields and entries -/

theorem word_resultName {landing : Landing} (h : landing.IsOf target.kind) (position : Nat) :
    Word target inlined (quoteIdentifier (resultName position landing)) := by
  cases landing with
  | column name =>
      obtain ⟨c, hc, rfl⟩ := h
      exact .column hc
  | payload name path => exact .position position
  | related => exact .related

theorem worded_namedField {selected : Predicate × Landing}
    (hformat : Worded (Word target inlined) selected.1.format.toList) (hof : selected.2.IsOf target.kind)
    (position : Nat) : Worded (Word target inlined) (namedField position selected).format.toList := by
  have hname : Worded (Word target inlined) (" AS " ++ quoteIdentifier (resultName position selected.2)).toList :=
    .word_append (.clause (by decide)) (.single (word_resultName hof position))
  rw [namedField, Predicate.ofParts, String.append_assoc]
  exact hformat.append_text hname (Sql.stopsDigits_text _ (by decide))

/-- Accepted words, each after a space. -/
theorem worded_entryWords {words : List String} (haccepted : ∀ word ∈ words, isOrderWord word = true)
    (hsub : ∀ word ∈ words, word ∈ inlined) :
    Worded (Word target inlined) (String.join (words.map (" " ++ Text.asciiUpper ·))).toList ∧
      Sql.StopsDigits (String.join (words.map (" " ++ Text.asciiUpper ·))).toList := by
  induction words with
  | nil => exact ⟨.nil, Sql.stopsDigits_nil⟩
  | cons word rest ih =>
      obtain ⟨hrest, -⟩ := ih (fun w hw => haccepted w (List.mem_cons_of_mem _ hw))
        fun w hw => hsub w (List.mem_cons_of_mem _ hw)
      have hword : Word target inlined (Text.asciiUpper word) :=
        .order (hsub word List.mem_cons_self) (haccepted word List.mem_cons_self)
      rw [List.map_cons, String.join_cons, String.append_assoc]
      exact ⟨.word_append (.clause (by decide)) (.word_append hword hrest), Sql.stopsDigits_text _ (by decide)⟩

theorem worded_entry {matchAny : Bool} {entry : Json} {p : Predicate} (hsub : ∀ word ∈ entryWords entry, word ∈ inlined)
    (h : target.compileOrder matchAny entry = .ok p) : Worded (Word target inlined) p.format.toList := by
  obtain ⟨expression, hhead, hformat, -, haccepted⟩ := Target.entry_of_compileOrder h
  have hafter : Worded (Word target inlined) _ ∧ _ := worded_entryWords haccepted hsub
  obtain ⟨hwords, hstop⟩ := hafter
  rw [hformat]
  exact ((Target.worded_orderHead hhead).mono fun _ => .expression).append_text hwords hstop

theorem worded_entries {matchAny : Bool} {entries : List Json} {compiled : List Predicate}
    (hsub : ∀ word ∈ entries.flatMap entryWords, word ∈ inlined)
    (h : List.Forall₂ (fun entry p => target.compileOrder matchAny entry = .ok p) entries compiled) :
    ∀ p ∈ compiled, Worded (Word target inlined) p.format.toList := by
  intro p hp
  obtain ⟨entry, hentry, hcompile⟩ := exists_of_mem_forall₂ h.flip hp
  exact worded_entry (fun word hword => hsub word (List.mem_flatMap.mpr ⟨entry, hentry, hword⟩)) hcompile

/-! ### Clauses -/

variable {query : Query} {filter : Json} {traits : Traits} {selected : List (Predicate × Landing)} {own : Predicate}

/-- The words behind the heads of all entries of the groups and the ordering. -/
def inlinedWords (traits : Traits) : List String := (traits.group ++ traits.order).flatMap entryWords

/-- The words of the statements that the traits describe. -/
def TraitsWord (target : Target) (traits : Traits) : String → Prop := Word target (inlinedWords traits)

theorem worded_selected {selection : Selection} (h : selection.Compiles target selected) :
    ∀ s ∈ selected, Worded (Word target inlined) s.1.format.toList ∧ s.2.IsOf target.kind := by
  cases selection with
  | all =>
      cases h
      intro s hs
      obtain ⟨c, hc, rfl⟩ := List.mem_map.mp hs
      exact ⟨.single (.column hc), c, hc, rfl⟩
  | fields list =>
      intro s hs
      obtain ⟨field, -, hcompile⟩ := exists_of_mem_forall₂ (List.Forall₂.flip h) hs
      exact ⟨(Target.worded_compileField hcompile).mono fun _ => .expression, (Target.counts_compileField hcompile).2⟩

theorem worded_listed {predicates : List Predicate}
    (h : ∀ p ∈ predicates, Worded (Word target inlined) p.format.toList) :
    Worded (Word target inlined) (listed predicates).toList := by
  refine Worded.intercalate (.clause (by decide)) (by decide) fun text htext => ?_
  obtain ⟨p, hp, rfl⟩ := List.mem_map.mp htext
  exact h p hp

/-- A list of compiled entries with a word before it, if there are any. -/
theorem worded_listClause {word : String} (hword : word ∈ clauseWords) {predicates : List Predicate}
    (h : ∀ p ∈ predicates, Worded (Word target inlined) p.format.toList) :
    Worded (Word target inlined) (if predicates.isEmpty then "" else word ++ listed predicates).toList := by
  split
  · exact .nil
  · exact .word_append (.clause hword) (worded_listed h)

theorem Describes.worded_selectText (h : query.Describes target filter traits selected own) :
    Worded (TraitsWord target traits) query.selectText.toList := by
  have hfields : ∀ p ∈ query.fields, Worded (TraitsWord target traits) p.format.toList := by
    intro p hp
    rw [h.fields] at hp
    obtain ⟨position, hposition, rfl⟩ := List.mem_mapIdx.mp hp
    obtain ⟨hformat, hof⟩ := worded_selected h.compiles _ (List.getElem_mem hposition)
    exact worded_namedField hformat hof position
  have hselected : Worded (TraitsWord target traits)
      (if query.count then "COUNT(*) AS \"count\"" else listed query.fields).toList := by
    split
    · exact .single (.clause (by decide))
    · exact worded_listed hfields
  have hfrom : Worded (TraitsWord target traits) (" FROM " ++ quoteIdentifier query.kind.table).toList := by
    rw [h.kind]
    exact .word_append (.clause (by decide)) (.single .table)
  rw [selectText, String.append_assoc]
  exact (Worded.word_append (.clause (by decide)) hselected).append_text hfrom (Sql.stopsDigits_text _ (by decide))

theorem Describes.worded_whereText (h : query.Describes target filter traits selected own) :
    Worded (TraitsWord target traits) query.whereText.toList := by
  have hfilters : ∀ p ∈ query.filters, Worded (TraitsWord target traits) p.format.toList := by
    intro p hp
    rw [h.filters] at hp
    split at hp
    · cases hp
    · rw [List.mem_singleton.mp hp]
      exact (Target.worded_compile h.filter).mono fun _ => .expression
  rw [whereText]
  split
  · exact .nil
  · exact .word_append (.clause (by decide)) (Predicate.worded_join (.clause (by decide)) (.clause (by decide))
      (.clause (by decide)) hfilters)

theorem Describes.worded_groupText (h : query.Describes target filter traits selected own) :
    Worded (TraitsWord target traits) query.groupText.toList := by
  refine worded_listClause (by decide) (worded_entries (fun word hword => ?_) h.groups)
  rw [inlinedWords, List.flatMap_append]
  exact List.mem_append_left _ hword

theorem worded_limitText (query : Query) : Worded (Word target inlined) query.limitText.toList := by
  rw [limitText]
  split
  · exact .word_append (.clause (by decide)) (.single (.numeral _))
  · exact .single (.clause (by decide))
  · exact .single (.clause (by decide))

theorem worded_offsetText (query : Query) : Worded (Word target inlined) query.offsetText.toList := by
  rw [offsetText]
  split
  · exact .word_append (.clause (by decide)) (.single (.numeral _))
  · exact .nil

theorem Describes.worded_orderText (h : query.Describes target filter traits selected own) :
    Worded (TraitsWord target traits) query.orderText.toList := by
  have hsub : ∀ word ∈ traits.order.flatMap entryWords, word ∈ inlinedWords traits := by
    intro word hword
    rw [inlinedWords, List.flatMap_append]
    exact List.mem_append_right _ hword
  have hkeyword : " ORDER BY " ∈ clauseWords := by decide
  have horders := worded_listClause hkeyword (worded_entries hsub h.orders)
  rw [orderText]
  split
  · exact .nil
  · exact (horders.append_text (worded_limitText query) (plain_limitText query).2).append_text
      (worded_offsetText query) (plain_offsetText query).2

theorem Describes.worded_draft (h : query.Describes target filter traits selected own) (hcollected : query.Collected) :
    Worded (TraitsWord target traits) query.draft.toList :=
  ((h.worded_selectText.append_text h.worded_whereText hcollected.whereText.2).append_text h.worded_groupText
    hcollected.groupText.2).append_text h.worded_orderText hcollected.orderText.2

/-- **What is inlined.** An accepted entry is its compiled head and, in capitals, the words behind it; of these,
words of orderings are exactly those without a long s. A statement is put together of the words of its target
and of its clauses, of numerals and of the words of its entries, with placeholders between them; so nothing else
that the filter or the traits say stands in its text. -/
theorem inlined_words (target : Target) :
    (∀ matchAny entry p, target.compileOrder matchAny entry = .ok p →
      ∃ expression, target.orderHead matchAny (entryHead entry) = .ok expression ∧
        Worded target.Word expression.format.toList ∧
        p.format = expression.format ++ String.join ((entryWords entry).map (" " ++ Text.asciiUpper ·)) ∧
        p.params = expression.params ∧
        ∀ word ∈ entryWords entry, Text.asciiUpper word ∈ orderWords ↔ 'ſ' ∉ word.toList) ∧
    ∀ filter traits query statement, ofTraits? target filter traits = .ok query →
      query.statement? = .ok statement → Worded (TraitsWord target traits) statement.sql.toList := by
  constructor
  · intro matchAny entry p h
    obtain ⟨expression, hhead, hformat, hparams, haccepted⟩ := Target.entry_of_compileOrder h
    exact ⟨expression, hhead, Target.worded_orderHead hhead, hformat, hparams,
      fun word hword => asciiUpper_mem_orderWords_iff (haccepted word hword)⟩
  · intro filter traits query statement hquery hstatement
    obtain ⟨selected, own, hdescribes⟩ := describes_of_ofTraits? hquery
    obtain ⟨hcollected, -⟩ := collected_of_ofTraits? hquery
    rw [(of_statement?_eq_ok hstatement).1, Sql.toList_renumber]
    exact (hdescribes.worded_draft hcollected).numberedFrom (fun _ hw => hw.solid) 0

theorem inlined_words_quoted :
    let target : Target := ⟨.document, .empty, .postgres⟩
    let head : Json := .array [.object [("a", .string "x' OR 1 = 1")]]
    let entry : Json := .array [head, .string "desc", .string "NULLS", .string "Last"]
    let traits : Traits := { Traits.default with fields := .fields [.string "b-c"], order := [entry], limit := .rows 5 }
    (∃ p expression, target.compileOrder false entry = .ok p ∧
      target.orderHead false (entryHead entry) = .ok expression ∧
      p.format = expression.format ++ String.join ((entryWords entry).map (" " ++ Text.asciiUpper ·)) ∧
      (entryWords entry).map Text.asciiUpper = ["DESC", "NULLS", "LAST"] ∧
      ∀ word ∈ entryWords entry, Text.asciiUpper word ∈ orderWords ↔ 'ſ' ∉ word.toList) ∧
    ∃ query statement, ofTraits? target (.object [("d", .string "$1; --")]) traits = .ok query ∧
      query.statement? = .ok statement ∧ Worded (TraitsWord target traits) statement.sql.toList := by
  intro target head entry traits
  obtain ⟨hentries, hstatements⟩ := inlined_words target
  constructor
  · obtain ⟨p, hp⟩ : ∃ p, target.compileOrder false entry = .ok p := ⟨_, rfl⟩
    obtain ⟨expression, hhead, -, hformat, -, hwords⟩ := hentries false entry p hp
    exact ⟨p, expression, hp, hhead, hformat, by decide, hwords⟩
  · obtain ⟨query, hquery, hfound⟩ : ∃ query, ofTraits? target (.object [("d", .string "$1; --")]) traits = .ok query ∧
        (query.statement?.toOption).isSome = true := ⟨_, rfl, by decide +kernel⟩
    cases hstatement : query.statement? with
    | error fault =>
        rw [hstatement] at hfound
        cases hfound
    | ok statement => exact ⟨query, statement, hquery, hstatement, hstatements _ _ query statement hquery hstatement⟩

/-- A word with a long s is accepted, and is none of the words of orderings as it is written. -/
theorem compileOrder_longS :
    ∃ p, (⟨.document, .empty, .postgres⟩ : Target).compileOrder false (.array [.string "$created", .string "aſc"]) =
        .ok p ∧ p.format = "\"created\" AſC" ∧ "AſC" ∉ orderWords :=
  ⟨_, rfl, by decide, by decide⟩

end Query

end Dossier
