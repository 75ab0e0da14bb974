import Dossier.Proofs.Filter.Rendering
import Dossier.Proofs.Sql.Nesting

/-!
Operators of compiled filters. A filter is a tree of comparisons and calls under connectives, less the
operands that every record meets. Every comparison and every call is balanced, and one that begins with a
parenthesis goes on behind the parenthesis that closes it, unlike an operand between connectives. Main
statement: the text of a compiled filter is balanced, and two filters are compiled to the same text exactly
if their trees differ in nothing but the connectives that connect fewer than two operands.
-/

namespace Dossier

open Sql (Balanced Fragment Led Predicate depthBehind grouped quoteIdentifier)
open Sql.Fragment (leads_nil leads_text leads_value led_text led_wrap)

/-! ### Comparisons and calls -/

/-- The text behind a parenthesised expression goes on with a cast or with a comparison. -/
def goesOn : List Char → Bool
  | ':' :: _ => true
  | ' ' :: '=' :: _ => true
  | _ => false

/-- The text stands for one comparison or call: it is balanced, and no parentheses enclose all of it or are
followed by a connective. -/
structure IsLeafText (text : List Char) : Prop where
  balanced : Balanced text
  led : Led (goesOn · = true) text

/-- An expression in parentheses behind which a cast stands. -/
theorem isLeafText_cast {fragment : Fragment} (h : fragment.Level) {after : String} {chars : List Char}
    (hafter : after.toList = ')' :: ':' :: chars) (hdepth : ∀ d, depthBehind (d + 1) after.toList = some d)
    (next : Nat) : IsLeafText (Fragment.formatFrom next (Fragment.wrap "(" fragment after)).toList :=
  ⟨Fragment.Level.balanced_format (fun d => Fragment.Leads.wrap rfl (h (d + 1)) (hdepth d)) next,
    led_wrap h hafter (by rfl) next⟩

/-- An expression in the parentheses of a name. -/
theorem isLeafText_named {fragment : Fragment} (h : fragment.Level) {before after : String} {c : Char}
    {chars : List Char} (hbefore : before.toList = c :: chars) (hc : c ≠ '(')
    (hopen : ∀ d, depthBehind d before.toList = some (d + 1))
    (hclose : ∀ d, depthBehind (d + 1) after.toList = some d) (next : Nat) :
    IsLeafText (Fragment.formatFrom next (Fragment.wrap before fragment after)).toList :=
  ⟨Fragment.Level.balanced_format (fun d => Fragment.Leads.wrap (hopen d) (h (d + 1)) (hclose d)) next,
    led_text hbefore hc _ next⟩

theorem Kind.depthBehind_column {kind : Kind} {c : Column} (hc : c ∈ kind.columns) (depth : Nat) :
    depthBehind depth (quoteIdentifier c.name).toList = some depth := by
  have hall : ∀ c ∈ kind.columns,
      '(' ∉ (quoteIdentifier c.name).toList ∧ ')' ∉ (quoteIdentifier c.name).toList := by
    cases kind <;> decide
  exact Sql.depthBehind_of_not_mem (hall c hc).1 (hall c hc).2 depth

namespace Target

variable (target : Target)

theorem depthBehind_payloadColumn {arrow : String} (harrow : ∀ d, depthBehind d arrow.toList = some d)
    (depth : Nat) : depthBehind depth (target.payloadColumn ++ arrow).toList = some depth := by
  have hpayload : ⟨target.kind.payload, .json⟩ ∈ target.kind.columns :=
    List.mem_append_right _ List.mem_cons_self
  have hcolumn : depthBehind depth target.payloadColumn.toList = some depth :=
    Kind.depthBehind_column hpayload depth
  rw [String.toList_append, Sql.depthBehind_append, hcolumn, Option.bind_some, harrow]

theorem level_extraction {key : Key} (hkey : key.IsOf target.kind) (raw : Bool) :
    (target.extraction key raw).Level := by
  intro depth
  cases key with
  | column c epoch =>
      cases epoch with
      | false => exact leads_text (Kind.depthBehind_column hkey depth) (leads_nil _)
      | true =>
          refine leads_text ?_ (leads_nil _)
          have hcolumn : ∀ d, depthBehind d (quoteIdentifier c.name).toList = some d :=
            Kind.depthBehind_column hkey
          unfold epochOf
          cases target.dialect with
          | postgres =>
              rw [String.toList_append, String.toList_append, Sql.depthBehind_append, Sql.depthBehind_append]
              change ((some (depth + 2)).bind _).bind _ = _
              rw [Option.bind_some, hcolumn]
              rfl
          | sqlite =>
              rw [String.toList_append, String.toList_append, Sql.depthBehind_append, Sql.depthBehind_append]
              change ((some (depth + 3)).bind _).bind _ = _
              rw [Option.bind_some, hcolumn]
              rfl
  | path segments =>
      have harrow : ∀ d, depthBehind d (if raw then "->" else "->>").toList = some d := by
        cases raw <;> exact fun _ => rfl
      have hhash : ∀ d, depthBehind d (if raw then "#>" else "#>>").toList = some d := by
        cases raw <;> exact fun _ => rfl
      simp only [extraction]
      split
      · exact leads_text (target.depthBehind_payloadColumn harrow depth) (leads_value _ (leads_nil _))
      · exact leads_text (target.depthBehind_payloadColumn harrow depth)
          (leads_value _ (leads_text rfl (leads_nil _)))
      · exact leads_text (target.depthBehind_payloadColumn hhash depth)
          (leads_value _ (leads_text rfl (leads_nil _)))

theorem level_castExpression {key : Key} (hkey : key.IsOf target.kind) (cast : Cast) :
    (target.castExpression key cast).Level := by
  have htext := target.level_extraction hkey false
  intro depth
  unfold castExpression
  split
  · exact htext depth
  · exact target.level_extraction hkey true depth
  all_goals exact Fragment.Leads.wrap rfl (htext (depth + 1)) rfl

theorem level_boundValue (value : Json) (cast : Cast) : (target.boundValue value cast).Level := by
  intro depth
  have hvalue : ∀ (v : Json) (d : Nat), Fragment.Leads [.value v] d d :=
    fun v d => leads_value v (leads_nil d)
  have htyped : ∀ (v : Json) (sql : String), depthBehind depth sql.toList = some depth →
      Fragment.Leads [.value v, .text sql] depth depth :=
    fun v _ hsql => leads_value v (leads_text hsql (leads_nil depth))
  unfold boundValue
  split
  · exact hvalue _ _
  · exact hvalue _ _
  · exact htyped _ _ rfl
  · exact htyped _ _ rfl
  · exact hvalue _ _
  · exact hvalue _ _
  · exact htyped _ _ rfl
  · exact Fragment.Leads.wrap rfl (hvalue _ (depth + 1)) rfl

theorem level_comparison {key : Key} (hkey : key.IsOf target.kind) (value : Json) :
    (target.comparison key value).Level := by
  intro depth
  unfold comparison
  split
  · exact (target.level_extraction hkey false depth).append
      (leads_text rfl (leads_nil depth))
  · exact (target.level_castExpression hkey _ depth).append
      (leads_text rfl (target.level_boundValue _ _ depth))

theorem level_inputs {inputs : List Key} (hinputs : ∀ key ∈ inputs, key.IsOf target.kind) (raw : Bool) :
    (Fragment.separated ", " (inputs.map (target.extraction · raw))).Level := by
  apply Fragment.level_separated fun _ => rfl
  intro fragment hfragment
  obtain ⟨key, hkey, rfl⟩ := List.mem_map.mp hfragment
  exact target.level_extraction (hinputs key hkey) raw

/-- The milliseconds of a column are a cast, or a product in parentheses behind which a cast stands. -/
theorem led_epochOf (dialect : Sql.Dialect) {column : String}
    (hcolumn : ∀ depth, depthBehind depth column.toList = some depth) :
    Led (goesOn · = true) (epochOf dialect column).toList := by
  unfold epochOf
  cases dialect with
  | postgres =>
      have hinner : Balanced ("extract(epoch from ".toList ++ column.toList ++ ") * 1000".toList) := by
        apply Sql.balanced_of_depthBehind
        rw [Sql.depthBehind_append, Sql.depthBehind_append]
        change ((some 1).bind _).bind _ = _
        rw [Option.bind_some, hcolumn]
        rfl
      have hbefore : "(extract(epoch from ".toList = '(' :: "extract(epoch from ".toList := rfl
      have hafter : ") * 1000)::bigint".toList = ") * 1000".toList ++ ')' :: "::bigint".toList := rfl
      have hgroup : Led (goesOn · = true)
          (grouped ("extract(epoch from ".toList ++ column.toList ++ ") * 1000".toList) "::bigint".toList) :=
        Led.group hinner rfl
      rw [grouped, List.append_assoc, ← hafter, ← List.cons_append, ← List.cons_append, ← hbefore]
        at hgroup
      rwa [String.toList_append, String.toList_append]
  | sqlite =>
      rw [String.toList_append, String.toList_append]
      exact Led.other _ (by decide)

theorem led_extraction {key : Key} (hkey : key.IsOf target.kind) (raw : Bool) (next : Nat) :
    Led (goesOn · = true) (Fragment.formatFrom next (target.extraction key raw)).toList := by
  have hquoted : ∀ name after : String, ∃ chars, (quoteIdentifier name ++ after).toList = '"' :: chars := by
    intro name after
    rw [String.toList_append, quoteIdentifier, String.toList_ofList]
    exact ⟨_, rfl⟩
  cases key with
  | column c epoch =>
      cases epoch with
      | false =>
          obtain ⟨chars, hchars⟩ := hquoted c.name ""
          rw [String.append_empty] at hchars
          exact led_text hchars (by decide) _ next
      | true =>
          have hepoch := led_epochOf target.dialect (Kind.depthBehind_column hkey)
          rwa [extraction, Fragment.formatFrom, Fragment.formatFrom, String.append_empty]
  | path segments =>
      simp only [extraction]
      split
      all_goals
        obtain ⟨chars, hchars⟩ := hquoted target.kind.payload _
        exact led_text hchars (by decide) _ next

/-- The call is balanced; it begins with a name, or it is in parentheses behind which a cast stands. -/
theorem isLeafText_call {inputs : List Key} (hinputs : ∀ key ∈ inputs, key.IsOf target.kind)
    (source : String) (extra : List Json) (returns : ReturnType) (next : Nat) :
    IsLeafText (Fragment.formatFrom next (target.call inputs source extra returns)).toList := by
  unfold call
  split
  · have hbody : Fragment.Level (.text (evaluator ++ "(jsonb_build_array(") ::
        Fragment.separated ", " (inputs.map (target.extraction · true)) ++
          [.text "), ", .value (.string source), .text "::text, ",
            .value (.string (Json.text (.array extra))), .text "::jsonb)"]) := by
      intro depth
      refine leads_text rfl ((target.level_inputs hinputs true (depth + 2)).append ?_)
      exact leads_text rfl (leads_value _ (leads_text rfl (leads_value _ (leads_text rfl (leads_nil depth)))))
    split <;> exact isLeafText_cast hbody rfl (fun _ => rfl) next
  · have hbody : Fragment.Level (.text (evaluator ++ "(json_array(") ::
        Fragment.separated ", " (inputs.map (target.extraction · false)) ++
          [.text "), ", .value (.string source), .text ", ",
            .value (.string (Json.text (.array extra))), .text ")"]) := by
      intro depth
      refine leads_text rfl ((target.level_inputs hinputs false (depth + 2)).append ?_)
      exact leads_text rfl (leads_value _ (leads_text rfl (leads_value _ (leads_text rfl (leads_nil depth)))))
    split
    · exact isLeafText_named hbody rfl (by decide) (fun _ => rfl) (fun _ => rfl) next
    · exact isLeafText_named hbody rfl (by decide) (fun _ => rfl) (fun _ => rfl) next
    · exact isLeafText_named hbody rfl (by decide) (fun _ => rfl) (fun _ => rfl) next
    · exact ⟨hbody.balanced_format next, led_text rfl (by decide) _ next⟩

theorem led_castExpression {key : Key} (hkey : key.IsOf target.kind) (cast : Cast) (next : Nat) :
    Led (fun rest => rest = [] ∨ goesOn rest = true)
      (Fragment.formatFrom next (target.castExpression key cast)).toList := by
  have htext := target.level_extraction hkey false
  have hplain : ∀ raw, Led (fun rest => rest = [] ∨ goesOn rest = true)
      (Fragment.formatFrom next (target.extraction key raw)).toList :=
    fun raw => (target.led_extraction hkey raw next).mono fun _ => Or.inr
  unfold castExpression
  split
  · exact hplain false
  · exact hplain true
  · exact led_wrap htext rfl (Or.inl rfl) next
  · exact led_text rfl (by decide) _ next
  · exact led_wrap htext rfl (Or.inr rfl) next
  · exact led_text rfl (by decide) _ next
  · exact led_wrap htext rfl (Or.inr rfl) next
  · exact led_text rfl (by decide) _ next

theorem goesOn_append {rest : List Char} (h : goesOn rest = true) (b : List Char) :
    goesOn (rest ++ b) = true := by
  unfold goesOn at h
  split at h
  · rfl
  · rfl
  · cases h

theorem isLeafText_comparison {key : Key} (hkey : key.IsOf target.kind) (value : Json) (next : Nat) :
    IsLeafText (Fragment.formatFrom next (target.comparison key value)).toList := by
  refine ⟨(target.level_comparison hkey value).balanced_format next, ?_⟩
  unfold comparison
  split
  · rw [Fragment.formatFrom_append, String.toList_append]
    exact (target.led_extraction hkey false next).append fun _ h => goesOn_append h _
  · rw [Fragment.formatFrom_append, Fragment.formatFrom, String.toList_append, String.toList_append]
    refine (target.led_castExpression hkey _ next).append fun rest h => ?_
    rcases h with rfl | h
    · rfl
    · exact goesOn_append h _

end Target

/-! ### Trees of operators -/

/-- Comparisons and calls, by their texts, under connectives. -/
inductive OperatorTree where
  | leaf (text : String)
  | node (connective : Connective) (operands : List OperatorTree)
  deriving Repr, Inhabited

namespace OperatorTree

mutual

/-- The trees have the same shape and the same leaves, and the same connective wherever there are two
operands to connect. -/
def Alike : OperatorTree → OperatorTree → Prop
  | .leaf text, .leaf other => text = other
  | .node connective operands, .node other others =>
    (2 ≤ operands.length → connective = other) ∧ AllAlike operands others
  | _, _ => False

def AllAlike : List OperatorTree → List OperatorTree → Prop
  | [], [] => True
  | tree :: rest, other :: others => Alike tree other ∧ AllAlike rest others
  | _, _ => False

end

mutual

/-- The leaves of the tree are texts of comparisons and calls. -/
def Sound : OperatorTree → Prop
  | .leaf text => IsLeafText text.toList
  | .node _ operands => AllSound operands

def AllSound : List OperatorTree → Prop
  | [] => True
  | tree :: rest => Sound tree ∧ AllSound rest

end

def separator (connective : Connective) : List Char := (" " ++ connective.word ++ " ").toList

mutual

/-- The operands in parentheses with their connective between them. -/
def text : OperatorTree → List Char
  | .leaf text => text.toList
  | .node connective operands => Sql.joined (separator connective) (texts operands)

def texts : List OperatorTree → List (List Char)
  | [] => []
  | tree :: rest => text tree :: texts rest

end

theorem length_texts (trees : List OperatorTree) : (texts trees).length = trees.length := by
  induction trees with
  | nil => rfl
  | cons tree rest ih => rw [texts, List.length_cons, List.length_cons, ih]

theorem balanced_separator (connective : Connective) : Balanced (separator connective) := by
  cases connective <;> exact Sql.balanced_of_depthBehind rfl

theorem separator_inj {c d : Connective} {r s : List Char} (h : separator c ++ r = separator d ++ s) :
    c = d := by
  cases c <;> cases d <;> first | rfl | cases h

theorem separator_ne_nil (connective : Connective) : separator connective ≠ [] := by
  cases connective <;> exact List.cons_ne_nil _ _

/-- A connective is not seen where there is nothing to connect. -/
theorem joined_of_length_lt {v w : List Char} {texts : List (List Char)} (h : ¬ 2 ≤ texts.length) :
    Sql.joined v texts = Sql.joined w texts := by
  match texts with
  | [] => rfl
  | [_] => rfl
  | _ :: _ :: rest => exact absurd (Nat.le_add_left 2 rest.length) h

theorem goesOn_separator (connective : Connective) (rest : List Char) :
    goesOn (separator connective ++ rest) = false := by
  cases connective <;> rfl

/-- The text of a tree of comparisons and calls is balanced. -/
theorem balanced_text :
    (∀ tree : OperatorTree, tree.Sound → Balanced tree.text) ∧
      ∀ trees : List OperatorTree, AllSound trees → ∀ text ∈ texts trees, Balanced text := by
  refine text.mutual_induct (fun tree => tree.Sound → Balanced tree.text)
    (fun trees => AllSound trees → ∀ text ∈ texts trees, Balanced text) ?leaf ?node ?nil ?cons
  case leaf =>
    intro text hsound
    exact hsound.balanced
  case node =>
    intro connective operands ih hsound
    exact Sql.balanced_joined (balanced_separator connective) (ih hsound)
  case nil =>
    intro _ text htext
    cases htext
  case cons =>
    intro tree rest ihtree ihrest hsound text htext
    rcases List.mem_cons.mp htext with rfl | hmem
    · exact ihtree hsound.1
    · exact ihrest hsound.2 text hmem

/-- Joined operands are no text of a comparison or call. -/
theorem leaf_ne_joined {text : List Char} (hleaf : IsLeafText text) (connective : Connective)
    {texts : List (List Char)} (htexts : ∀ text ∈ texts, Balanced text) :
    text ≠ Sql.joined (separator connective) texts := by
  rintro rfl
  have hled := hleaf.led
  match texts with
  | [] => cases hled
  | [only] => cases hled.behind (htexts only List.mem_cons_self)
  | first :: next :: rest =>
      have hbehind := hled.behind (htexts first List.mem_cons_self)
      rw [goesOn_separator] at hbehind
      cases hbehind

/-- Balanced operands are read back from where they are joined, and the connective too if there are two of them. -/
theorem joined_eq_iff {connective other : Connective} {texts others : List (List Char)}
    (htexts : ∀ text ∈ texts, Balanced text) (hothers : ∀ text ∈ others, Balanced text) :
    Sql.joined (separator connective) texts = Sql.joined (separator other) others ↔
      (2 ≤ texts.length → connective = other) ∧ texts = others := by
  constructor
  · intro h
    obtain ⟨hsame, hconnective⟩ := Sql.joined_inj (separator_ne_nil connective) (separator_ne_nil other)
      (fun r s h => by rw [separator_inj h]) htexts hothers h
    exact ⟨fun hlength => separator_inj (congrArg (· ++ []) (hconnective hlength)), hsame⟩
  · rintro ⟨hconnective, rfl⟩
    by_cases hlength : 2 ≤ texts.length
    · rw [hconnective hlength]
    · exact joined_of_length_lt hlength

/-- Trees of comparisons and calls have the same text exactly if they are alike. -/
theorem text_eq_iff :
    (∀ tree : OperatorTree, tree.Sound →
      ∀ other : OperatorTree, other.Sound → (tree.text = other.text ↔ tree.Alike other)) ∧
      ∀ trees : List OperatorTree, AllSound trees →
        ∀ others, AllSound others → (texts trees = texts others ↔ AllAlike trees others) := by
  refine text.mutual_induct
    (fun tree => tree.Sound →
      ∀ other : OperatorTree, other.Sound → (tree.text = other.text ↔ tree.Alike other))
    (fun trees => AllSound trees →
      ∀ others, AllSound others → (texts trees = texts others ↔ AllAlike trees others))
    ?leaf ?node ?nil ?cons
  case leaf =>
    intro text hsound other hother
    cases other with
    | leaf text' => exact String.toList_inj
    | node connective others =>
        refine ⟨fun h => ?_, False.elim⟩
        exact absurd h (leaf_ne_joined hsound connective (balanced_text.2 others hother))
  case node =>
    intro connective operands ih hsound other hother
    cases other with
    | leaf text' =>
        refine ⟨fun h => ?_, False.elim⟩
        exact absurd h.symm (leaf_ne_joined hother connective (balanced_text.2 operands hsound))
    | node connective' others =>
        have hoperands := balanced_text.2 operands hsound
        have hothers := balanced_text.2 others hother
        rw [Alike, ← ih hsound others hother, text, text, joined_eq_iff hoperands hothers, length_texts]
  case nil =>
    intro _ others _
    cases others with
    | nil => exact ⟨fun _ => trivial, fun _ => rfl⟩
    | cons other others => exact ⟨fun h => absurd h (List.cons_ne_nil _ _).symm, False.elim⟩
  case cons =>
    intro tree rest ihtree ihrest hsound others hothers
    cases others with
    | nil => exact ⟨fun h => absurd h (List.cons_ne_nil _ _), False.elim⟩
    | cons other others =>
        rw [AllAlike, ← ihtree hsound.1 other hothers.1, ← ihrest hsound.2 others hothers.2]
        exact List.cons_eq_cons

end OperatorTree

/-! ### Trees of filters -/

namespace Condition

variable (target : Target)

mutual

/-- The operators of the condition without the operands that are compiled to nothing. A condition that is
met by every record has none. -/
def operators : Condition → OperatorTree
  | .all => .node .and []
  | .equal key value => .leaf (Predicate.ofFragment (target.comparison key value)).format
  | .call inputs source extra returns => .leaf (target.callPredicate inputs source extra returns).format
  | .group connective operands => .node connective (remaining operands)

def remaining : List Condition → List OperatorTree
  | [] => []
  | condition :: rest =>
    if (condition.predicate target).isEmpty then remaining rest else operators condition :: remaining rest

end

/-- The leaves of the tree of a condition are texts of comparisons and calls. -/
theorem sound_operators :
    (∀ condition : Condition, condition.KeysOf target.kind → (condition.operators target).Sound) ∧
      ∀ conditions : List Condition, AllKeysOf target.kind conditions →
        OperatorTree.AllSound (remaining target conditions) := by
  refine predicate.mutual_induct
    (fun condition => condition.KeysOf target.kind → (condition.operators target).Sound)
    (fun conditions => AllKeysOf target.kind conditions → OperatorTree.AllSound (remaining target conditions))
    ?all ?equal ?call ?group ?nil ?cons
  case all =>
    intro _
    exact trivial
  case equal =>
    intro key value hkey
    exact target.isLeafText_comparison hkey value 0
  case call =>
    intro inputs source extra returns hinputs
    exact target.isLeafText_call hinputs source extra returns 0
  case group =>
    intro connective operands ih hkeys
    exact ih hkeys
  case nil =>
    intro _
    exact trivial
  case cons =>
    intro condition rest ihcondition ihrest hkeys
    rw [remaining]
    split
    · exact ihrest hkeys.2
    · exact ⟨ihcondition hkeys.1, ihrest hkeys.2⟩

/-- The text of a compiled condition is the text of its tree. -/
theorem toList_format_predicate :
    (∀ condition : Condition,
      (condition.predicate target).format.toList = (condition.operators target).text) ∧
      ∀ conditions : List Condition,
        ((predicates target conditions).filter (!·.isEmpty)).map (fun p => p.format.toList) =
          OperatorTree.texts (remaining target conditions) := by
  refine predicate.mutual_induct
    (fun condition => (condition.predicate target).format.toList = (condition.operators target).text)
    (fun conditions =>
      ((predicates target conditions).filter (!·.isEmpty)).map (fun p => p.format.toList) =
        OperatorTree.texts (remaining target conditions))
    ?all ?equal ?call ?group ?nil ?cons
  case all => rfl
  case equal =>
    intro key value
    rfl
  case call =>
    intro inputs source extra returns
    rfl
  case group =>
    intro connective operands ih
    rw [predicate, Sql.toList_format_join, ih]
    rfl
  case nil => rfl
  case cons =>
    intro condition rest ihcondition ihrest
    rw [predicates, remaining, List.filter_cons]
    cases hempty : (condition.predicate target).isEmpty with
    | true => exact ihrest
    | false =>
        simp only [Bool.not_false, if_true, Bool.false_eq_true, if_false, List.map_cons, OperatorTree.texts]
        rw [ihcondition, ihrest]

end Condition

namespace Target

variable {target : Target} {matchAny : Bool}

/-- The tree of the operators of a JSON filter. -/
def operators (target : Target) (matchAny : Bool) (filter : Json) : Except CompileFault OperatorTree :=
  (Condition.ofJson? target.kind (connectiveOf matchAny) filter).map (·.operators target)

/-- A compiled filter has a tree of comparisons and calls, and its text. -/
theorem exists_operators {filter : Json} {p : Predicate} (h : target.compile matchAny filter = .ok p) :
    ∃ tree, target.operators matchAny filter = .ok tree ∧ tree.Sound ∧ p.format.toList = tree.text := by
  obtain ⟨condition, hcondition, rfl⟩ := map_eq_ok_iff.mp h
  have hkeys := (Condition.keysOf_of_read _).1 filter condition hcondition
  exact ⟨_, map_eq_ok_iff.mpr ⟨condition, hcondition, rfl⟩,
    (Condition.sound_operators target).1 condition hkeys,
    (Condition.toList_format_predicate target).1 condition⟩

/-- **The text of a filter shows its operators.** Two filters that compile give the same text exactly if
their trees, without the operands that compile to nothing, have one shape, the same comparisons and calls
in the same order, and the same connective wherever it stands between two operands. Every text is balanced
and closes no parenthesis that it has not opened. -/
theorem format_eq_iff_alike {left right : Json} {p q : Predicate} (hleft : target.compile matchAny left = .ok p)
    (hright : target.compile matchAny right = .ok q) :
    ∃ s t, target.operators matchAny left = .ok s ∧ target.operators matchAny right = .ok t ∧
      (p.format = q.format ↔ s.Alike t) ∧ Balanced p.format.toList ∧ Balanced q.format.toList := by
  obtain ⟨s, hs, hsoundLeft, htextLeft⟩ := exists_operators hleft
  obtain ⟨t, ht, hsoundRight, htextRight⟩ := exists_operators hright
  refine ⟨s, t, hs, ht, ?_, ?_, ?_⟩
  · rw [← String.toList_inj, htextLeft, htextRight]
    exact OperatorTree.text_eq_iff.1 s hsoundLeft t hsoundRight
  · rw [htextLeft]
    exact OperatorTree.balanced_text.1 s hsoundLeft
  · rw [htextRight]
    exact OperatorTree.balanced_text.1 t hsoundRight

/-- An `or` of one operand, the others being met by every record, is compiled like an `and` of it. -/
theorem format_eq_iff_alike_lone :
    ∃ p q, (⟨.document, .empty, .postgres⟩ : Target).compile false
        (.array [.string "or", .null, .object [("a", .string "x"), ("$created:ms", .null)]]) = .ok p ∧
      (⟨.document, .empty, .postgres⟩ : Target).compile false
        (.array [.string "and", .object [("b", .string ")"), ("$created:ms", .null)]]) = .ok q ∧
      p.format = q.format ∧
      ∃ s t, (⟨.document, .empty, .postgres⟩ : Target).operators false
          (.array [.string "or", .null, .object [("a", .string "x"), ("$created:ms", .null)]]) = .ok s ∧
        (⟨.document, .empty, .postgres⟩ : Target).operators false
          (.array [.string "and", .object [("b", .string ")"), ("$created:ms", .null)]]) = .ok t ∧
        (p.format = q.format ↔ s.Alike t) ∧ Balanced p.format.toList ∧ Balanced q.format.toList :=
  ⟨_, _, rfl, rfl, rfl, format_eq_iff_alike rfl rfl⟩

end Target

end Dossier
