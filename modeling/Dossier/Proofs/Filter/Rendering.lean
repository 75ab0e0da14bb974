import Dossier.Filter.Compiled
import Dossier.Proofs.Results
import Dossier.Proofs.Sql.Rendering

/-!
Rendering of compiled filters. Every comparison and every call is a plain fragment: no text that the
compiler writes holds a dollar sign, and none that stands behind a value begins with a digit. Main
statement: a compiled filter, rendered with its parameters, is the filter with each value in its place.
-/

namespace Dossier

open Sql (Fragment Predicate quoteIdentifier)
open Sql.Predicate (Spells inParentheses)

/-! ### Keys -/

/-- The key may address a record of the kind: a column is one of its columns. -/
def Key.IsOf (kind : Kind) : Key → Prop
  | .column c _ => c ∈ kind.columns
  | .path _ => True

theorem Key.isOf_of_ofText? {kind : Kind} {text : String} {key : Key} (h : Key.ofText? kind text = .ok key) :
    key.IsOf kind := by
  unfold ofText? at h
  split at h
  · dsimp only at h
    split at h
    · cases h
    · rename_i found hfind
      split at h
      · cases h
      · cases h
        exact List.mem_of_find?_eq_some hfind
  · split at h
    · cases h
      exact trivial
    · cases h

theorem Kind.dollar_not_mem_column {kind : Kind} {c : Column} (hc : c ∈ kind.columns) :
    '$' ∉ (quoteIdentifier c.name).toList := by
  have hall : ∀ c ∈ kind.columns, '$' ∉ (quoteIdentifier c.name).toList := by
    cases kind <;> decide
  exact hall c hc

namespace Target

variable (target : Target)

theorem dollar_not_mem_payloadColumn : '$' ∉ target.payloadColumn.toList := by
  have hall : ∀ kind : Kind, '$' ∉ (quoteIdentifier kind.payload).toList := by
    intro kind
    cases kind <;> decide
  exact hall target.kind

theorem dollar_not_mem_append {a b : String} (ha : '$' ∉ a.toList) (hb : '$' ∉ b.toList) :
    '$' ∉ (a ++ b).toList := by
  rw [String.toList_append, List.mem_append, not_or]
  exact ⟨ha, hb⟩

theorem dollar_not_mem_epochOf (dialect : Sql.Dialect) {column : String} (hcolumn : '$' ∉ column.toList) :
    '$' ∉ (epochOf dialect column).toList := by
  cases dialect with
  | postgres => exact dollar_not_mem_append (dollar_not_mem_append (by decide) hcolumn) (by decide)
  | sqlite => exact dollar_not_mem_append (dollar_not_mem_append (by decide) hcolumn) (by decide)

theorem isPlain_extraction {key : Key} (hkey : key.IsOf target.kind) (raw : Bool) :
    (target.extraction key raw).IsPlain := by
  have hpayload : ∀ arrow : String, '$' ∉ arrow.toList → '$' ∉ (target.payloadColumn ++ arrow).toList :=
    fun _ harrow => dollar_not_mem_append target.dollar_not_mem_payloadColumn harrow
  cases key with
  | column c epoch =>
      cases epoch with
      | false => exact ⟨Kind.dollar_not_mem_column hkey, trivial⟩
      | true => exact ⟨dollar_not_mem_epochOf _ (Kind.dollar_not_mem_column hkey), trivial⟩
  | path segments =>
      have harrow : '$' ∉ (if raw then "->" else "->>").toList := by cases raw <;> decide
      have hhash : '$' ∉ (if raw then "#>" else "#>>").toList := by cases raw <;> decide
      simp only [extraction]
      split
      · exact ⟨hpayload _ harrow, Fragment.noDigitFirst_nil, trivial⟩
      · exact ⟨hpayload _ harrow, Fragment.noDigitFirst_text _ (by decide), by decide, trivial⟩
      · exact ⟨hpayload _ hhash, Fragment.noDigitFirst_text _ (by decide), by decide, trivial⟩

/-- A plain fragment stays plain between texts without a dollar sign, the second of which is no digit. -/
theorem isPlain_wrap {before after : String} {fragment : Fragment} (hbefore : '$' ∉ before.toList)
    (hplain : fragment.IsPlain) (hafter : '$' ∉ after.toList)
    (hfirst : after.toList.head?.any (!Text.isDecimalDigit ·) = true) :
    (Fragment.wrap before fragment after).IsPlain :=
  ⟨hbefore, hplain.append ⟨hafter, trivial⟩ (Fragment.noDigitFirst_text _ hfirst)⟩

theorem isPlain_castExpression {key : Key} (hkey : key.IsOf target.kind) (cast : Cast) :
    (target.castExpression key cast).IsPlain := by
  have htext := target.isPlain_extraction hkey false
  unfold castExpression
  split
  · exact htext
  · exact target.isPlain_extraction hkey true
  all_goals exact isPlain_wrap (by decide) htext (by decide) (by decide)

theorem isPlain_boundValue (value : Json) (cast : Cast) : (target.boundValue value cast).IsPlain := by
  have hvalue : ∀ v : Json, Fragment.IsPlain [.value v] := fun _ => ⟨Fragment.noDigitFirst_nil, trivial⟩
  have htyped : ∀ (v : Json) (sql : String), '$' ∉ sql.toList →
      sql.toList.head?.any (!Text.isDecimalDigit ·) = true → Fragment.IsPlain [.value v, .text sql] :=
    fun _ _ hsql hfirst => ⟨Fragment.noDigitFirst_text _ hfirst, hsql, trivial⟩
  unfold boundValue
  split
  · exact hvalue _
  · exact hvalue _
  · exact htyped _ _ (by decide) (by decide)
  · exact htyped _ _ (by decide) (by decide)
  · exact hvalue _
  · exact hvalue _
  · exact htyped _ _ (by decide) (by decide)
  · exact isPlain_wrap (by decide) (hvalue _) (by decide) (by decide)

theorem isPlain_comparison {key : Key} (hkey : key.IsOf target.kind) (value : Json) :
    (target.comparison key value).IsPlain := by
  unfold comparison
  split
  · exact (target.isPlain_extraction hkey false).append ⟨by decide, trivial⟩
      (Fragment.noDigitFirst_text _ (by decide))
  · exact (target.isPlain_castExpression hkey _).append ⟨by decide, target.isPlain_boundValue _ _⟩
      (Fragment.noDigitFirst_text _ (by decide))

theorem isPlain_separated {separator : String} (hseparator : '$' ∉ separator.toList)
    (hfirst : separator.toList.head?.any (!Text.isDecimalDigit ·) = true) {fragments : List Fragment}
    (hplain : ∀ fragment ∈ fragments, fragment.IsPlain) :
    (Fragment.separated separator fragments).IsPlain := by
  induction fragments with
  | nil => exact trivial
  | cons fragment rest ih =>
      have hrest := ih fun other hother => hplain other (List.mem_cons_of_mem fragment hother)
      have hhead := hplain fragment List.mem_cons_self
      cases rest with
      | nil => exact hhead
      | cons next rest => exact hhead.append ⟨hseparator, hrest⟩ (Fragment.noDigitFirst_text _ hfirst)

theorem isPlain_inputs {inputs : List Key} (hinputs : ∀ key ∈ inputs, key.IsOf target.kind) (raw : Bool) :
    (Fragment.separated ", " (inputs.map (target.extraction · raw))).IsPlain := by
  apply isPlain_separated (by decide) (by decide)
  intro fragment hfragment
  obtain ⟨key, hkey, rfl⟩ := List.mem_map.mp hfragment
  exact target.isPlain_extraction (hinputs key hkey) raw

theorem isPlain_call {inputs : List Key} (hinputs : ∀ key ∈ inputs, key.IsOf target.kind) (source : String)
    (extra : List Json) (returns : ReturnType) : (target.call inputs source extra returns).IsPlain := by
  unfold call
  split
  · have hbody := (target.isPlain_inputs hinputs true).append
      (b := [.text "), ", .value (.string source), .text "::text, ",
        .value (.string (Json.text (.array extra))), .text "::jsonb)"])
      ⟨by decide, Fragment.noDigitFirst_text _ (by decide), by decide,
        Fragment.noDigitFirst_text _ (by decide), by decide, trivial⟩
      (Fragment.noDigitFirst_text _ (by decide))
    split <;> exact isPlain_wrap (by decide) ⟨by decide, hbody⟩ (by decide) (by decide)
  · have hbody := (target.isPlain_inputs hinputs false).append
      (b := [.text "), ", .value (.string source), .text ", ",
        .value (.string (Json.text (.array extra))), .text ")"])
      ⟨by decide, Fragment.noDigitFirst_text _ (by decide), by decide,
        Fragment.noDigitFirst_text _ (by decide), by decide, trivial⟩
      (Fragment.noDigitFirst_text _ (by decide))
    split
    · exact isPlain_wrap (by decide) ⟨by decide, hbody⟩ (by decide) (by decide)
    · exact isPlain_wrap (by decide) ⟨by decide, hbody⟩ (by decide) (by decide)
    · exact isPlain_wrap (by decide) ⟨by decide, hbody⟩ (by decide) (by decide)
    · exact ⟨by decide, hbody⟩

end Target

/-! ### Conditions -/

namespace Condition

mutual

/-- All keys of the condition may address records of the kind. -/
def KeysOf (kind : Kind) : Condition → Prop
  | .all => True
  | .equal key _ => key.IsOf kind
  | .call inputs _ _ _ => ∀ key ∈ inputs, key.IsOf kind
  | .group _ operands => AllKeysOf kind operands

def AllKeysOf (kind : Kind) : List Condition → Prop
  | [] => True
  | condition :: rest => KeysOf kind condition ∧ AllKeysOf kind rest

end

variable {kind : Kind}

theorem isOf_of_readInput {input : Json} {key : Key} (h : readInput kind input = .ok key) :
    key.IsOf kind := by
  unfold readInput at h
  split at h
  · exact Key.isOf_of_ofText? h
  · cases h

theorem keysOf_of_readCall {returns : ReturnType} {items : List Json} {condition : Condition}
    (h : readCall kind returns items = .ok condition) : condition.KeysOf kind := by
  unfold readCall at h
  split at h
  · cases h
  · obtain ⟨inputs, hinputs, hcall⟩ := bind_eq_ok_iff.mp h
    cases hcall
    intro key hkey
    obtain ⟨input, -, hinput⟩ := exists_of_mem_mapM hinputs hkey
    exact isOf_of_readInput hinput

theorem allKeysOf_of_readMembers {members : List (String × Json)} {conditions : List Condition}
    (h : readMembers kind members = .ok conditions) : AllKeysOf kind conditions := by
  induction members generalizing conditions with
  | nil =>
      cases h
      exact trivial
  | cons member members ih =>
      rw [readMembers] at h
      obtain ⟨key, hkey, h⟩ := bind_eq_ok_iff.mp h
      obtain ⟨rest, hrest, h⟩ := bind_eq_ok_iff.mp h
      cases h
      exact ⟨Key.isOf_of_ofText? hkey, ih hrest⟩

/-- Reading a filter, or the operands of an array, gives keys of its kind only. -/
theorem keysOf_of_read (connective : Connective) :
    (∀ filter condition, ofJson? kind connective filter = .ok condition → condition.KeysOf kind) ∧
      ∀ inner items conditions, readItems kind connective inner items = .ok conditions →
        AllKeysOf kind conditions := by
  refine ofJson?.mutual_induct
    (fun filter => ∀ condition, ofJson? kind connective filter = .ok condition → condition.KeysOf kind)
    (fun inner items => ∀ conditions, readItems kind connective inner items = .ok conditions →
      AllKeysOf kind conditions) ?null ?function ?object ?unknown ?call ?connective ?array ?scalar ?nil
    ?token ?cons
  case null =>
    intro condition h
    cases h
    exact trivial
  case function =>
    intro members hfunction condition h
    rw [ofJson?, if_pos hfunction] at h
    cases h
  case object =>
    intro members hfunction condition h
    rw [ofJson?, if_neg hfunction] at h
    obtain ⟨conditions, hconditions, rfl⟩ := map_eq_ok_iff.mp h
    exact allKeysOf_of_readMembers hconditions
  case unknown =>
    intro token rest fault htoken condition h
    rw [ofJson?, htoken] at h
    cases h
  case call =>
    intro token rest returns htoken condition h
    rw [ofJson?, htoken] at h
    exact keysOf_of_readCall h
  case connective =>
    intro token rest inner htoken ih condition h
    rw [ofJson?, htoken] at h
    obtain ⟨conditions, hconditions, rfl⟩ := map_eq_ok_iff.mp h
    exact ih conditions hconditions
  case array =>
    intro items hitems ih condition h
    rw [ofJson?] at h
    · obtain ⟨conditions, hconditions, rfl⟩ := map_eq_ok_iff.mp h
      exact ih conditions hconditions
    · exact hitems
  case scalar =>
    intro scalar hnull hobject htoken harray condition h
    rw [ofJson?] at h
    · cases h
    all_goals assumption
  case nil =>
    intro inner conditions h
    cases h
    exact trivial
  case token =>
    intro inner token rest conditions h
    cases h
  case cons =>
    intro inner item rest hitem ihitem ihrest conditions h
    rw [readItems] at h
    · obtain ⟨condition, hcondition, h⟩ := bind_eq_ok_iff.mp h
      obtain ⟨others, hothers, h⟩ := bind_eq_ok_iff.mp h
      cases h
      exact ⟨ihitem condition hcondition, ihrest others hothers⟩
    · exact hitem

/-! ### Rendering -/

variable (target : Target)

theorem spells_comparison {key : Key} (hkey : key.IsOf target.kind) (value : Json) :
    (Predicate.ofFragment (target.comparison key value)).Spells (target.comparison key value).inline := by
  have hplain := target.isPlain_comparison hkey value
  unfold Target.comparison at hplain ⊢
  split at hplain
  · exact Sql.Predicate.spells_ofFragment hplain (List.mem_append_right _ List.mem_cons_self) (by decide)
  · exact Sql.Predicate.spells_ofFragment hplain (List.mem_append_right _ List.mem_cons_self) (by decide)

theorem exists_text_mem_call (inputs : List Key) (source : String) (extra : List Json)
    (returns : ReturnType) : ∃ sql ≠ "", Sql.Piece.text sql ∈ target.call inputs source extra returns := by
  unfold Target.call
  split <;> split <;> exact ⟨_, by decide, List.mem_cons_self⟩

theorem spells_call {inputs : List Key} (hinputs : ∀ key ∈ inputs, key.IsOf target.kind) (source : String)
    (extra : List Json) (returns : ReturnType) :
    (target.callPredicate inputs source extra returns).Spells
      (target.call inputs source extra returns).inline := by
  obtain ⟨sql, hsql, hmem⟩ := exists_text_mem_call target inputs source extra returns
  exact Sql.Predicate.spells_ofFragment (target.isPlain_call hinputs source extra returns) hmem hsql

theorem inlineOperands_eq (operands : List Condition) :
    inlineOperands target operands =
      ((operands.map (inline target)).filter (!·.isEmpty)).map inParentheses := by
  induction operands with
  | nil => rfl
  | cons condition rest ih =>
      rw [inlineOperands, List.map_cons, List.filter_cons, ih]
      cases (inline target condition).isEmpty <;> rfl

theorem dollar_not_mem_word (connective : Connective) : '$' ∉ connective.word.toList := by
  cases connective <;> decide

/-- Every condition is compiled to a predicate that spells its inline text, and so are lists of them. -/
theorem spells_inline :
    (∀ condition : Condition, condition.KeysOf target.kind →
      (condition.predicate target).Spells (condition.inline target)) ∧
      ∀ conditions : List Condition, AllKeysOf target.kind conditions →
        List.Forall₂ Spells (predicates target conditions) (conditions.map (inline target)) := by
  refine predicate.mutual_induct
    (fun condition => condition.KeysOf target.kind →
      (condition.predicate target).Spells (condition.inline target))
    (fun conditions => AllKeysOf target.kind conditions →
      List.Forall₂ Spells (predicates target conditions) (conditions.map (inline target)))
    ?all ?equal ?call ?group ?nil ?cons
  case all =>
    intro _
    exact Sql.Predicate.spells_empty
  case equal =>
    intro key value hkey
    exact spells_comparison target hkey value
  case call =>
    intro inputs source extra returns hinputs
    exact spells_call target hinputs source extra returns
  case group =>
    intro connective operands ih hkeys
    rw [predicate, inline, inlineOperands_eq]
    exact Sql.Predicate.spells_join (dollar_not_mem_word connective) (ih hkeys)
  case nil =>
    intro _
    exact List.Forall₂.nil
  case cons =>
    intro condition rest ihcondition ihrest hkeys
    exact List.Forall₂.cons (ihcondition hkeys.1) (ihrest hkeys.2)

end Condition

namespace Target

/-- The text of a JSON filter with every value written in its place as a literal. -/
def compileInline (target : Target) (matchAny : Bool) (filter : Json) : Except CompileFault String :=
  (Condition.ofJson? target.kind (connectiveOf matchAny) filter).map (·.inline target)

/-- **Rendering is inline compilation.** A compiled filter has one placeholder for each parameter, and with
the literals of its parameters in their places it is the text that is compiled with every value in place.
So each parameter lands where its value belongs, at every depth of the filter. -/
theorem rendered_eq_compileInline {target : Target} {matchAny : Bool} {filter : Json} {p : Predicate}
    (h : target.compile matchAny filter = .ok p) :
    target.compileInline matchAny filter = .ok p.rendered ∧
      Sql.countPlaceholders (Sql.scan p.format.toList) = p.params.length := by
  obtain ⟨condition, hcondition, rfl⟩ := map_eq_ok_iff.mp h
  have hkeys := (Condition.keysOf_of_read _).1 filter condition hcondition
  have hspells := (Condition.spells_inline target).1 condition hkeys
  refine ⟨map_eq_ok_iff.mpr ⟨condition, hcondition, ?_⟩, hspells.2.countPlaceholders_eq⟩
  exact (Sql.Fills.render_eq hspells.2).symm

theorem rendered_eq_compileInline_nested :
    ∃ p, (⟨.document, .empty, .sqlite⟩ : Target).compile true
        (.array [.string "and", .object [("a", .string "$1"), ("b", .null)], .null]) = .ok p ∧
      p.params.length = 3 ∧
      (⟨.document, .empty, .sqlite⟩ : Target).compileInline true
        (.array [.string "and", .object [("a", .string "$1"), ("b", .null)], .null]) = .ok p.rendered ∧
      Sql.countPlaceholders (Sql.scan p.format.toList) = p.params.length :=
  ⟨_, rfl, rfl, rendered_eq_compileInline rfl⟩

end Target

end Dossier
