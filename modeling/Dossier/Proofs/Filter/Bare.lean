import Dossier.Proofs.Filter.Truth
import Dossier.Proofs.Filter.Wording

/-!
Entries that begin with nothing. A filter array may hold no comparison and no call, however deep its arrays,
objects and nulls are nested, and is compiled to nothing then; an entry of an ordering with such a head is its
words alone. Every other accepted entry begins with an expression.
-/

namespace Dossier

open Sql (Fragment Predicate quoteIdentifier)

/-! ### Filters without comparisons -/

/-- The filter asks for nothing: it is made of nulls, of objects without members and of arrays of such filters,
under any connectives. -/
inductive Bare : Json → Prop
  | null : Bare .null
  | object : Bare (.object [])
  | array {items : List Json} (h : ∀ item ∈ items, Bare item) : Bare (.array items)
  | connective {token : String} {connective : Connective} {items : List Json}
      (htoken : Operator.ofToken? token = .ok (.connective connective)) (h : ∀ item ∈ items, Bare item) :
      Bare (.array (.string token :: items))

theorem not_bare_string (text : String) : ¬ Bare (.string text) := nofun

theorem bare_object_iff {members : List (String × Json)} : Bare (.object members) ↔ members = [] := by
  constructor
  · intro h
    cases h
    rfl
  · rintro rfl
    exact .object

/-- Behind an operator stand the operands of a connective, or the filter is a call. -/
theorem bare_operator_iff {token : String} {operator : Operator} {items : List Json}
    (htoken : Operator.ofToken? token = .ok operator) :
    Bare (.array (.string token :: items)) ↔
      (∃ connective, operator = .connective connective) ∧ ∀ item ∈ items, Bare item := by
  constructor
  · intro h
    cases h with
    | array h => exact absurd (h _ List.mem_cons_self) (not_bare_string token)
    | connective htoken' h =>
        rw [htoken] at htoken'
        cases htoken'
        exact ⟨⟨_, rfl⟩, h⟩
  · rintro ⟨⟨connective, rfl⟩, h⟩
    exact .connective htoken h

theorem bare_array_iff {items : List Json} (hitems : ∀ token rest, items ≠ .string token :: rest) :
    Bare (.array items) ↔ ∀ item ∈ items, Bare item := by
  constructor
  · intro h
    cases h with
    | array h => exact h
    | connective => exact absurd rfl (hitems _ _)
  · exact .array

namespace Condition

variable {kind : Kind}

theorem sizes_map_leaf {α : Type} (l : List α) : Formula.sizes (l.map fun _ => .leaf) = l.length := by
  induction l with
  | nil => rfl
  | cons a l ih => rw [List.map_cons, Formula.sizes, ih, Formula.size, List.length_cons, Nat.add_comm]

/-- A filter that is read has no comparison and no call exactly if it is bare. -/
theorem size_formula_of_read (connective : Connective) :
    (∀ filter condition, ofJson? kind connective filter = .ok condition →
      (condition.formula.size = 0 ↔ Bare filter)) ∧
      ∀ inner items conditions, readItems kind connective inner items = .ok conditions →
        (Formula.sizes (formulas conditions) = 0 ↔ ∀ item ∈ items, Bare item) := by
  refine ofJson?.mutual_induct
    (fun filter => ∀ condition, ofJson? kind connective filter = .ok condition →
      (condition.formula.size = 0 ↔ Bare filter))
    (fun inner items => ∀ conditions, readItems kind connective inner items = .ok conditions →
      (Formula.sizes (formulas conditions) = 0 ↔ ∀ item ∈ items, Bare item)) ?null ?function ?object ?unknown ?call
    ?connective ?array ?scalar ?nil ?token ?cons
  case null =>
    intro condition h
    cases h
    exact iff_of_true rfl .null
  case function =>
    intro members hfunction condition h
    rw [ofJson?, if_pos hfunction] at h
    cases h
  case object =>
    intro members hfunction condition h
    rw [ofJson?, if_neg hfunction] at h
    obtain ⟨conditions, hconditions, rfl⟩ := map_eq_ok_iff.mp h
    rw [formula, Formula.size, formulas_of_readMembers hconditions, sizes_map_leaf, List.length_eq_zero_iff,
      bare_object_iff]
  case unknown =>
    intro token rest fault htoken condition h
    rw [ofJson?, htoken] at h
    cases h
  case call =>
    intro token rest returns htoken condition h
    rw [ofJson?, htoken] at h
    rw [formula_of_readCall h, bare_operator_iff htoken]
    refine iff_of_false Nat.one_ne_zero ?_
    rintro ⟨⟨_, hcall⟩, -⟩
    cases hcall
  case connective =>
    intro token rest inner htoken ih condition h
    rw [ofJson?, htoken] at h
    obtain ⟨conditions, hconditions, rfl⟩ := map_eq_ok_iff.mp h
    rw [formula, Formula.size, ih conditions hconditions, bare_operator_iff htoken]
    exact (and_iff_right ⟨inner, rfl⟩).symm
  case array =>
    intro items hitems ih condition h
    rw [ofJson?] at h
    · obtain ⟨conditions, hconditions, rfl⟩ := map_eq_ok_iff.mp h
      rw [formula, Formula.size, ih conditions hconditions, bare_array_iff hitems]
    · exact hitems
  case scalar =>
    intro scalar hnull hobject htoken harray condition h
    rw [ofJson?] at h
    · cases h
    all_goals assumption
  case nil =>
    intro inner conditions h
    cases h
    exact iff_of_true rfl fun _ hitem => absurd hitem List.not_mem_nil
  case token =>
    intro inner token rest conditions h
    cases h
  case cons =>
    intro inner item rest hitem ihitem ihrest conditions h
    rw [readItems] at h
    · obtain ⟨condition, hcondition, h⟩ := bind_eq_ok_iff.mp h
      obtain ⟨others, hothers, h⟩ := bind_eq_ok_iff.mp h
      cases h
      rw [formulas, Formula.sizes, Nat.add_eq_zero_iff, ihitem condition hcondition, ihrest others hothers,
        List.forall_mem_cons]
    · exact hitem

end Condition

/-! ### How texts begin -/

namespace Sql

/-- The text has a first character, and it is no space. -/
def startsText (sql : String) : Bool := sql.toList.head?.any (· ≠ ' ')

theorem startsText_append {a : String} (h : startsText a = true) (b : String) : startsText (a ++ b) = true := by
  rw [startsText] at h
  rw [startsText, String.toList_append, List.head?_append]
  cases hhead : a.toList.head? with
  | none =>
      rw [hhead] at h
      cases h
  | some c => rwa [Option.some_or, ← hhead]

theorem startsText_quoteIdentifier (name : String) : startsText (quoteIdentifier name) = true := by
  rw [startsText, quoteIdentifier, String.toList_ofList]
  rfl

/-- The fragment begins with a text whose first character is no space. -/
def Fragment.Opens (fragment : Fragment) : Prop := ∃ c, fragment.firstChar? = some c ∧ c ≠ ' '

/-- The text begins with an expression, and not with the space before the words of an entry. -/
def Predicate.Opens (p : Predicate) : Prop := ∃ c, p.format.toList.head? = some c ∧ c ≠ ' '

namespace Fragment

variable {a b : Fragment}

theorem opens_text {sql : String} (rest : Fragment) (h : startsText sql = true) : Opens (.text sql :: rest) := by
  rw [startsText] at h
  cases hhead : sql.toList.head? with
  | none =>
      rw [hhead] at h
      cases h
  | some c =>
      rw [hhead] at h
      exact ⟨c, by rw [firstChar?, hhead, Option.some_or], of_decide_eq_true h⟩

theorem Opens.append (ha : a.Opens) (b : Fragment) : Opens (a ++ b) := by
  obtain ⟨c, hc, hne⟩ := ha
  exact ⟨c, by rw [firstChar?_append, hc, Option.some_or], hne⟩

theorem Opens.predicate (h : a.Opens) : (Predicate.ofFragment a).Opens := by
  obtain ⟨c, hc, hne⟩ := h
  exact ⟨c, (head?_formatFrom 0 a).trans hc, hne⟩

end Fragment

theorem Predicate.Opens.isEmpty_eq {p : Predicate} (h : p.Opens) : p.isEmpty = false := by
  obtain ⟨c, hc, -⟩ := h
  rw [isEmpty, ← Bool.not_eq_true, String.isEmpty_iff]
  intro hempty
  rw [hempty] at hc
  cases hc

/-- Operands that are not compiled to nothing are joined to a text that begins with a parenthesis. -/
theorem Predicate.opens_join {operands : List Predicate} {word : String} (h : (join operands word).isEmpty = false) :
    (join operands word).Opens := by
  have hkept : operands.filter (!·.isEmpty) ≠ [] := by
    intro hnone
    rw [isEmpty_join_iff.mpr hnone] at h
    cases h
  obtain ⟨p, rest, heq⟩ := List.exists_cons_of_ne_nil hkept
  refine ⟨'(', ?_, by decide⟩
  rw [toList_format_join, heq]
  cases rest <;> rfl

end Sql

namespace Target

variable {target : Target} {matchAny : Bool}

theorem startsText_epochOf (dialect : Sql.Dialect) (column : String) :
    Sql.startsText (epochOf dialect column) = true := by
  cases dialect with
  | postgres => exact Sql.startsText_append (Sql.startsText_append (by decide) column) _
  | sqlite => exact Sql.startsText_append (Sql.startsText_append (by decide) column) _

theorem opens_extraction (key : Key) (raw : Bool) : (target.extraction key raw).Opens := by
  cases key with
  | column c epoch =>
      cases epoch with
      | false => exact Fragment.opens_text _ (Sql.startsText_quoteIdentifier c.name)
      | true => exact Fragment.opens_text _ (startsText_epochOf _ _)
  | path segments =>
      have hpayload : ∀ arrow, Sql.startsText (target.payloadColumn ++ arrow) = true :=
        Sql.startsText_append (Sql.startsText_quoteIdentifier target.kind.payload)
      simp only [extraction]
      split <;> exact Fragment.opens_text _ (hpayload _)

theorem opens_castExpression (key : Key) (cast : Cast) : (target.castExpression key cast).Opens := by
  unfold castExpression
  split
  · exact opens_extraction key false
  · exact opens_extraction key true
  all_goals exact Fragment.opens_text _ (by decide)

theorem opens_comparison (key : Key) (value : Json) : (target.comparison key value).Opens := by
  unfold comparison
  split
  · exact (opens_extraction key false).append _
  · exact (opens_castExpression key _).append _

theorem opens_call (inputs : List Key) (source : String) (extra : List Json) (returns : ReturnType) :
    (target.call inputs source extra returns).Opens := by
  unfold call
  split
  · split <;> exact Fragment.opens_text _ (by decide)
  · split <;> exact Fragment.opens_text _ (by decide)

end Target

/-- A condition that is not compiled to nothing is compiled to a text that begins with an expression. -/
theorem Condition.opens_predicate {target : Target} {condition : Condition}
    (h : (condition.predicate target).isEmpty = false) : (condition.predicate target).Opens := by
  cases condition with
  | all => cases h
  | equal key value => exact (Target.opens_comparison key value).predicate
  | call inputs source extra returns => exact (Target.opens_call inputs source extra returns).predicate
  | group connective operands => exact Sql.Predicate.opens_join h

namespace Target

variable {target : Target} {matchAny : Bool}

/-! ### Entries -/

/-- A filter is compiled to nothing exactly if it is bare. -/
theorem isEmpty_iff_bare {filter : Json} {p : Predicate} (h : target.compile matchAny filter = .ok p) :
    p.isEmpty = true ↔ Bare filter := by
  obtain ⟨condition, hcondition, rfl⟩ := map_eq_ok_iff.mp h
  have hkeys := (Condition.keysOf_of_read _).1 filter condition hcondition
  rw [(Condition.isEmpty_predicate_iff target).1 condition hkeys]
  exact (Condition.size_formula_of_read _).1 filter condition hcondition

/-- The head of an entry is compiled to nothing if it is bare, and begins with an expression otherwise. -/
theorem orderHead_cases {head : Json} {p : Predicate} (h : target.orderHead matchAny head = .ok p) :
    (p.isEmpty = true ∧ Bare head) ∨ (p.Opens ∧ ¬ Bare head) := by
  unfold orderHead at h
  split at h
  · obtain ⟨key, -, h⟩ := bind_eq_ok_iff.mp h
    cases h
    exact .inr ⟨(opens_castExpression key _).predicate, not_bare_string _⟩
  · rename_i items
    have hbare := isEmpty_iff_bare h
    obtain ⟨condition, -, rfl⟩ := map_eq_ok_iff.mp h
    cases hempty : (condition.predicate target).isEmpty with
    | true => exact .inl ⟨rfl, hbare.mp hempty⟩
    | false =>
        refine .inr ⟨Condition.opens_predicate hempty, fun h => ?_⟩
        rw [hbare.mpr h] at hempty
        cases hempty
  · cases h

/-- The words of an entry begin with a space, if there are any. -/
theorem head?_join_words (words : List String) :
    ∀ c ∈ (String.join (words.map (" " ++ ·))).toList.head?, c = ' ' := by
  cases words with
  | nil => nofun
  | cons word rest =>
      rw [List.map_cons, String.join_cons, String.append_assoc, String.toList_append]
      intro c hc
      cases hc
      rfl

/-- An accepted entry begins with an expression exactly if its head is not bare. -/
theorem opens_iff_of_compileOrder {entry : Json} {p : Predicate} (h : target.compileOrder matchAny entry = .ok p) :
    p.Opens ↔ ¬ Bare (entryHead entry) := by
  obtain ⟨expression, hhead, hformat, -, -⟩ := entry_of_compileOrder h
  have hwords := head?_join_words ((entryWords entry).map Text.asciiUpper)
  rw [List.map_map] at hwords
  rw [Sql.Predicate.Opens, hformat, String.toList_append, List.head?_append]
  rcases orderHead_cases hhead with ⟨hempty, hbare⟩ | ⟨⟨c, hc, hne⟩, hbare⟩
  · refine iff_of_false ?_ (not_not_intro hbare)
    rintro ⟨c, hc, hne⟩
    rw [String.isEmpty_iff.mp hempty] at hc
    exact hne (hwords c hc)
  · exact iff_of_true ⟨c, by rw [hc, Option.some_or], hne⟩ hbare

end Target

end Dossier
