import Dossier.Proofs.Filter.Entries
import Dossier.Proofs.Sql.Wording

/-!
What expressions are written with. The words of a target are its columns, extractions from its payload, and
what stands around them; whatever a caller names or compares with is bound. Only the words behind the head of
an entry come from the caller, and they are checked without regard to case, in which a long s counts as an s;
written in capitals they are words of orderings unless they have one.
-/

namespace Dossier

open Sql (Fragment Predicate Worded quoteIdentifier)

namespace Target

/-- What stands around columns, extractions and values in an expression. -/
def expressionWords : List String :=
  ["(", ")", ", ", " = ", " IS NULL", " AND ", " OR ", "::text", "::text[]", "::numeric", "::boolean", "::jsonb",
    ")::text", ")::numeric", ")::boolean", ")::jsonb", "CAST(", " AS TEXT)", " AS NUMERIC)", " AS INTEGER)", "json(",
    "docstore_eval(jsonb_build_array(", "docstore_eval(json_array(", "), ", "::text, ", "::jsonb)"]

/-- The words of expressions; they depend on the kind and the dialect of the target only. -/
inductive Word (target : Target) : String → Prop
  | fixed {w : String} (hw : w ∈ expressionWords) : Word target w
  | column {c : Column} (hc : c ∈ target.kind.columns) : Word target (quoteIdentifier c.name)
  | epoch {c : Column} (hc : c ∈ target.kind.columns) :
      Word target (epochOf target.dialect (quoteIdentifier c.name))
  | extraction {arrow : String} (harrow : arrow ∈ ["->", "->>", "#>", "#>>"]) :
      Word target (target.payloadColumn ++ arrow)
  | related : Word target ("docstore_related(\"id\", " ++ target.payloadColumn ++ ", ")

variable {target : Target}

theorem Word.dollar_not_mem {w : String} (h : target.Word w) : '$' ∉ w.toList := by
  cases h with
  | fixed hw =>
      have hall : ∀ w ∈ expressionWords, '$' ∉ w.toList := by decide
      exact hall w hw
  | column hc => exact Kind.dollar_not_mem_column hc
  | epoch hc => exact dollar_not_mem_epochOf _ (Kind.dollar_not_mem_column hc)
  | extraction harrow =>
      have hall : ∀ arrow ∈ ["->", "->>", "#>", "#>>"], '$' ∉ arrow.toList := by decide
      exact dollar_not_mem_append target.dollar_not_mem_payloadColumn (hall _ harrow)
  | related =>
      exact dollar_not_mem_append (dollar_not_mem_append (by decide) target.dollar_not_mem_payloadColumn) (by decide)

/-! ### Fragments -/

theorem wordsOf_extraction {key : Key} (hkey : key.IsOf target.kind) (raw : Bool) :
    (target.extraction key raw).WordsOf target.Word := by
  cases key with
  | column c epoch =>
      cases epoch with
      | false => exact Fragment.wordsOf_text (.column hkey) Fragment.wordsOf_nil
      | true => exact Fragment.wordsOf_text (.epoch hkey) Fragment.wordsOf_nil
  | path segments =>
      have harrow : target.Word (target.payloadColumn ++ if raw then "->" else "->>") :=
        .extraction (by cases raw <;> decide)
      have hhash : target.Word (target.payloadColumn ++ if raw then "#>" else "#>>") :=
        .extraction (by cases raw <;> decide)
      have htyped : ∀ (head path suffix : String), target.Word head → suffix ∈ expressionWords →
          Fragment.WordsOf target.Word [.text head, .value (.string path), .text suffix] :=
        fun _ _ _ hhead hsuffix => Fragment.wordsOf_text hhead
          (Fragment.wordsOf_value _ (Fragment.wordsOf_text (.fixed hsuffix) Fragment.wordsOf_nil))
      simp only [extraction]
      split
      · exact Fragment.wordsOf_text harrow (Fragment.wordsOf_value _ Fragment.wordsOf_nil)
      · exact htyped _ _ _ harrow (by decide)
      · exact htyped _ _ _ hhash (by decide)

theorem wordsOf_castExpression {key : Key} (hkey : key.IsOf target.kind) (cast : Cast) :
    (target.castExpression key cast).WordsOf target.Word := by
  have htext := wordsOf_extraction hkey false
  unfold castExpression
  split
  · exact htext
  · exact wordsOf_extraction hkey true
  all_goals exact htext.wrap (.fixed (by decide)) (.fixed (by decide))

theorem wordsOf_boundValue (value : Json) (cast : Cast) : (target.boundValue value cast).WordsOf target.Word := by
  have hvalue : ∀ v : Json, Fragment.WordsOf target.Word [.value v] :=
    fun v => Fragment.wordsOf_value v Fragment.wordsOf_nil
  have htyped : ∀ (v : Json) (sql : String), sql ∈ expressionWords →
      Fragment.WordsOf target.Word [.value v, .text sql] :=
    fun v _ hsql => Fragment.wordsOf_value v (Fragment.wordsOf_text (.fixed hsql) Fragment.wordsOf_nil)
  unfold boundValue
  split
  · exact hvalue _
  · exact hvalue _
  · exact htyped _ _ (by decide)
  · exact htyped _ _ (by decide)
  · exact hvalue _
  · exact hvalue _
  · exact htyped _ _ (by decide)
  · exact Fragment.WordsOf.wrap (hvalue _) (.fixed (by decide)) (.fixed (by decide))

theorem wordsOf_comparison {key : Key} (hkey : key.IsOf target.kind) (value : Json) :
    (target.comparison key value).WordsOf target.Word := by
  unfold comparison
  split
  · exact (wordsOf_extraction hkey false).append (Fragment.wordsOf_text (.fixed (by decide)) Fragment.wordsOf_nil)
  · exact (wordsOf_castExpression hkey _).append
      (Fragment.wordsOf_text (.fixed (by decide)) (wordsOf_boundValue _ _))

theorem wordsOf_inputs {inputs : List Key} (hinputs : ∀ key ∈ inputs, key.IsOf target.kind) (raw : Bool) :
    (Fragment.separated ", " (inputs.map (target.extraction · raw))).WordsOf target.Word := by
  refine Fragment.wordsOf_separated (.fixed (by decide)) fun fragment hfragment => ?_
  obtain ⟨key, hkey, rfl⟩ := List.mem_map.mp hfragment
  exact wordsOf_extraction (hinputs key hkey) raw

/-- What follows the inputs of a call: its source and its extra values, each with a text behind it. -/
theorem wordsOf_arguments {a b c : String} (ha : a ∈ expressionWords) (hb : b ∈ expressionWords)
    (hc : c ∈ expressionWords) (source extra : Json) :
    Fragment.WordsOf target.Word [.text a, .value source, .text b, .value extra, .text c] :=
  Fragment.wordsOf_text (.fixed ha) (Fragment.wordsOf_value _ (Fragment.wordsOf_text (.fixed hb)
    (Fragment.wordsOf_value _ (Fragment.wordsOf_text (.fixed hc) Fragment.wordsOf_nil))))

theorem wordsOf_call {inputs : List Key} (hinputs : ∀ key ∈ inputs, key.IsOf target.kind) (source : String)
    (extra : List Json) (returns : ReturnType) : (target.call inputs source extra returns).WordsOf target.Word := by
  have hopen : ∀ (text : String) {rest : Fragment}, evaluator ++ text ∈ expressionWords →
      rest.WordsOf target.Word → Fragment.WordsOf target.Word (.text (evaluator ++ text) :: rest) :=
    fun _ _ htext hrest => Fragment.wordsOf_text (.fixed htext) hrest
  unfold call
  split
  · have hbody := hopen "(jsonb_build_array(" (by decide) ((wordsOf_inputs hinputs true).append
      (wordsOf_arguments (a := "), ") (b := "::text, ") (c := "::jsonb)") (by decide) (by decide) (by decide)
        (.string source) (.string (Json.text (.array extra)))))
    split <;> exact hbody.wrap (.fixed (by decide)) (.fixed (by decide))
  · have hbody := hopen "(json_array(" (by decide) ((wordsOf_inputs hinputs false).append
      (wordsOf_arguments (a := "), ") (b := ", ") (c := ")") (by decide) (by decide) (by decide)
        (.string source) (.string (Json.text (.array extra)))))
    split
    · exact hbody.wrap (.fixed (by decide)) (.fixed (by decide))
    · exact hbody.wrap (.fixed (by decide)) (.fixed (by decide))
    · exact hbody.wrap (.fixed (by decide)) (.fixed (by decide))
    · exact hbody

theorem wordsOf_relatedExpression (description : String) :
    (target.relatedExpression description).WordsOf target.Word := by
  have htyped : ∀ suffix ∈ expressionWords, Fragment.WordsOf target.Word
      [.text ("docstore_related(\"id\", " ++ target.payloadColumn ++ ", "), .value (.string description),
        .text suffix] :=
    fun _ hsuffix => Fragment.wordsOf_text .related
      (Fragment.wordsOf_value _ (Fragment.wordsOf_text (.fixed hsuffix) Fragment.wordsOf_nil))
  unfold relatedExpression
  dsimp only
  split
  · exact htyped _ (by decide)
  · exact htyped _ (by decide)

end Target

/-! ### Conditions -/

namespace Condition

variable (target : Target)

/-- Conditions on the keys of a kind are written with its words, and so are lists of them. -/
theorem worded_predicate :
    (∀ condition : Condition, condition.KeysOf target.kind →
      Worded target.Word (condition.predicate target).format.toList) ∧
      ∀ conditions : List Condition, AllKeysOf target.kind conditions →
        ∀ p ∈ predicates target conditions, Worded target.Word p.format.toList := by
  refine predicate.mutual_induct
    (fun condition => condition.KeysOf target.kind →
      Worded target.Word (condition.predicate target).format.toList)
    (fun conditions => AllKeysOf target.kind conditions →
      ∀ p ∈ predicates target conditions, Worded target.Word p.format.toList)
    ?all ?equal ?call ?group ?nil ?cons
  case all =>
    intro _
    exact .nil
  case equal =>
    intro key value hkey
    exact (target.isPlain_comparison hkey value).worded (Target.wordsOf_comparison hkey value) 0
  case call =>
    intro inputs source extra returns hinputs
    exact (target.isPlain_call hinputs source extra returns).worded
      (Target.wordsOf_call hinputs source extra returns) 0
  case group =>
    intro connective operands ih hkeys
    have hconnective : " " ++ connective.word ++ " " ∈ Target.expressionWords := by cases connective <;> decide
    exact Sql.Predicate.worded_join (.fixed (by decide)) (.fixed (by decide)) (.fixed hconnective) (ih hkeys)
  case nil => exact fun _ p hp => absurd hp List.not_mem_nil
  case cons =>
    intro condition rest ihcondition ihrest hkeys p hp
    rcases List.mem_cons.mp hp with rfl | hp
    · exact ihcondition hkeys.1
    · exact ihrest hkeys.2 p hp

end Condition

namespace Target

variable {target : Target} {matchAny : Bool}

theorem worded_compile {filter : Json} {p : Predicate} (h : target.compile matchAny filter = .ok p) :
    Worded target.Word p.format.toList := by
  obtain ⟨condition, hcondition, rfl⟩ := map_eq_ok_iff.mp h
  exact (Condition.worded_predicate target).1 condition ((Condition.keysOf_of_read _).1 filter condition hcondition)

theorem worded_compileField {field : Json} {p : Predicate} {landing : Landing}
    (h : target.compileField field = .ok (p, landing)) : Worded target.Word p.format.toList := by
  unfold compileField at h
  split at h
  · obtain ⟨key, hkey, h⟩ := bind_eq_ok_iff.mp h
    cases h
    have hof := Key.isOf_of_ofText? hkey
    exact (target.isPlain_extraction hof true).worded (wordsOf_extraction hof true) 0
  · split at h
    · obtain ⟨described, hdescribed, h⟩ := bind_eq_ok_iff.mp h
      cases h
      obtain ⟨relations, -, hdescribed⟩ := bind_eq_ok_iff.mp hdescribed
      cases hdescribed
      exact (isPlain_relatedExpression _).worded (wordsOf_relatedExpression _) 0
    · cases h
  · cases h

/-! ### Entries -/

/-- The head of an entry of an ordering or a grouping. -/
def entryHead : Json → Json
  | .array (head :: _) => head
  | other => other

/-- The words behind the head of an entry. -/
def entryWords : Json → List String
  | .array (_ :: words) => words.filterMap Json.string?
  | _ => []

theorem worded_orderHead {head : Json} {p : Predicate} (h : target.orderHead matchAny head = .ok p) :
    Worded target.Word p.format.toList := by
  unfold orderHead at h
  split at h
  · obtain ⟨key, hkey, h⟩ := bind_eq_ok_iff.mp h
    cases h
    have hof := Key.isOf_of_ofText? hkey
    exact (target.isPlain_castExpression hof _).worded (wordsOf_castExpression hof _) 0
  · exact worded_compile h
  · cases h

/-- Words that are accepted are written in capitals, one after another. -/
theorem eq_of_orderSuffix {words : List Json} {suffix : String} (h : orderSuffix words = .ok suffix) :
    suffix = String.join ((words.filterMap Json.string?).map (" " ++ Text.asciiUpper ·)) ∧
      ∀ word ∈ words.filterMap Json.string?, isOrderWord word = true := by
  induction words generalizing suffix with
  | nil =>
      cases h
      exact ⟨rfl, nofun⟩
  | cons word rest ih =>
      unfold orderSuffix at h
      split at h
      · rename_i hnil
        cases hnil
      · rename_i text others hcons
        cases hcons
        split at h
        · rename_i hword
          obtain ⟨tail, htail, rfl⟩ := map_eq_ok_iff.mp h
          obtain ⟨rfl, hwords⟩ := ih htail
          refine ⟨?_, List.forall_mem_cons.mpr ⟨hword, hwords⟩⟩
          rw [List.filterMap_cons_some (by rfl), List.map_cons, String.join_cons]
        · cases h
      · cases h

/-- An accepted entry is its head, compiled, and its words in capitals. -/
theorem entry_of_compileOrder {entry : Json} {p : Predicate} (h : target.compileOrder matchAny entry = .ok p) :
    ∃ expression, target.orderHead matchAny (entryHead entry) = .ok expression ∧
      p.format = expression.format ++ String.join ((entryWords entry).map (" " ++ Text.asciiUpper ·)) ∧
      p.params = expression.params ∧ ∀ word ∈ entryWords entry, isOrderWord word = true := by
  have hentry : ∀ head words, target.orderEntry matchAny head words = .ok p →
      ∃ expression, target.orderHead matchAny head = .ok expression ∧
        p.format = expression.format ++
          String.join ((words.filterMap Json.string?).map (" " ++ Text.asciiUpper ·)) ∧
        p.params = expression.params ∧ ∀ word ∈ words.filterMap Json.string?, isOrderWord word = true := by
    intro head words h
    obtain ⟨expression, hhead, h⟩ := bind_eq_ok_iff.mp h
    obtain ⟨suffix, hsuffix, h⟩ := bind_eq_ok_iff.mp h
    cases h
    obtain ⟨rfl, hwords⟩ := eq_of_orderSuffix hsuffix
    exact ⟨expression, hhead, rfl, rfl, hwords⟩
  unfold compileOrder at h
  split at h
  · exact hentry _ [] h
  · exact hentry _ _ h
  · cases h

/-- Upper case of ASCII letters does not touch a long s. -/
theorem longS_mem_asciiUpper {word : String} (h : 'ſ' ∈ word.toList) : 'ſ' ∈ (Text.asciiUpper word).toList := by
  rw [Text.asciiUpper, String.toList_ofList]
  exact List.mem_map.mpr ⟨'ſ', h, by decide⟩

/-- An accepted word is a word of orderings in capitals, unless a long s stands in it. -/
theorem asciiUpper_mem_orderWords_iff {word : String} (h : isOrderWord word = true) :
    Text.asciiUpper word ∈ orderWords ↔ 'ſ' ∉ word.toList := by
  constructor
  · intro hmem hlong
    have hall : ∀ allowed ∈ orderWords, 'ſ' ∉ allowed.toList := by decide
    exact hall _ hmem (longS_mem_asciiUpper hlong)
  · intro hlong
    have hfold : word.toList.map foldLetter = word.toList.map Char.toUpper :=
      List.map_congr_left fun c hc => if_neg fun heq : c = 'ſ' => hlong (heq ▸ hc)
    rw [isOrderWord, hfold] at h
    exact List.elem_iff.mp h

end Target

end Dossier
