import Dossier.Proofs.Filter.Formula
import Dossier.Proofs.Filter.Operators
import Dossier.Proofs.Sql.Numbering

/-!
Readings of a condition. A condition is read as a tree of comparisons and calls; where its placeholders are numbered,
the text of a comparison says which parameters it takes, and so the tree is worth what its comparisons are worth by
their texts. Numbering keeps the shape of a tree, and parentheses and `AND` are read off the text.
-/

namespace Dossier

open Sql (Balanced Led grouped joined numbered numberedFrom)

variable {text : List Char}

/-! ### Numbered comparisons -/

namespace Sql

theorem exists_numberedFrom_cons (next : Nat) (c : Char) (rest : List Char) :
    ∃ behind, numberedFrom next (c :: rest) = c :: behind := by
  rw [numberedFrom, scan]
  by_cases hc : c = '$'
  · subst hc
    by_cases hlead : (leadingDigits (scan rest)).1 = []
    · rw [attach_dollar_of_nil hlead]
      exact ⟨_, rfl⟩
    · rw [attach_dollar_of_ne hlead]
      exact ⟨_, rfl⟩
  · rw [attach_of_ne hc]
    exact ⟨_, rfl⟩

end Sql

theorem goesOn_numberedFrom (h : goesOn text = true) (next : Nat) : goesOn (numberedFrom next text) = true := by
  unfold goesOn at h
  split at h
  · rename_i rest
    have hcolon : '$' ∉ [':'] := by decide
    have hnumbered : numberedFrom next (':' :: rest) = ':' :: numberedFrom next rest :=
      Sql.numberedFrom_plain_append next hcolon rest
    rw [hnumbered, goesOn]
  · rename_i rest
    have hequals : '$' ∉ [' ', '='] := by decide
    have hnumbered : numberedFrom next (' ' :: '=' :: rest) = ' ' :: '=' :: numberedFrom next rest :=
      Sql.numberedFrom_plain_append next hequals rest
    rw [hnumbered, goesOn]
  · cases h

/-- A comparison or call is one however its placeholders are numbered. -/
theorem IsLeafText.numberedFrom (h : IsLeafText text) (next : Nat) : IsLeafText (numberedFrom next text) := by
  refine ⟨h.balanced.numberedFrom next, ?_⟩
  cases h.led with
  | @other c rest hc =>
      obtain ⟨behind, hbehind⟩ := Sql.exists_numberedFrom_cons next c rest
      rw [hbehind]
      exact .other behind hc
  | group hinner hrest =>
      rw [Sql.numberedFrom_grouped]
      exact .group (hinner.numberedFrom _) (goesOn_numberedFrom hrest _)

namespace OperatorTree

theorem dollar_not_mem_separator (connective : Connective) : '$' ∉ separator connective := by
  cases connective <;> decide

mutual

/-- The tree with the placeholders of its text numbered on from `next`. -/
def numberFrom : Nat → OperatorTree → OperatorTree
  | next, .leaf text => .leaf (String.ofList (numberedFrom next text.toList))
  | next, .node connective operands => .node connective (numberEach next operands)

def numberEach : Nat → List OperatorTree → List OperatorTree
  | _, [] => []
  | next, tree :: rest => numberFrom next tree :: numberEach (next + Sql.countPlaceholders (Sql.scan tree.text)) rest

end

mutual

theorem sound_numberFrom : ∀ (next : Nat) {tree : OperatorTree}, tree.Sound → (tree.numberFrom next).Sound
  | next, .leaf text, h => by
      rw [numberFrom, Sound, String.toList_ofList]
      exact h.numberedFrom next
  | next, .node _ _, h => allSound_numberEach next h

theorem allSound_numberEach : ∀ (next : Nat) {trees : List OperatorTree}, AllSound trees →
    AllSound (numberEach next trees)
  | _, [], _ => trivial
  | next, _ :: _, h => ⟨sound_numberFrom next h.1, allSound_numberEach _ h.2⟩

end

mutual

theorem text_numberFrom : ∀ (next : Nat) (tree : OperatorTree),
    (tree.numberFrom next).text = numberedFrom next tree.text
  | _, .leaf _ => String.toList_ofList
  | next, .node connective operands => joined_numberEach connective next operands

theorem joined_numberEach (connective : Connective) : ∀ (next : Nat) (trees : List OperatorTree),
    joined (separator connective) (texts (numberEach next trees)) =
      numberedFrom next (joined (separator connective) (texts trees))
  | _, [] => rfl
  | next, [tree] => by
      change grouped (tree.numberFrom next).text [] = numberedFrom next (grouped tree.text [])
      rw [Sql.numberedFrom_grouped, text_numberFrom next tree]
      rfl
  | next, tree :: second :: rest => by
      have hrest := joined_numberEach connective (next + Sql.countPlaceholders (Sql.scan tree.text)) (second :: rest)
      change grouped (tree.numberFrom next).text
          (separator connective ++ joined (separator connective) (texts (numberEach _ (second :: rest)))) =
        numberedFrom next (grouped tree.text
          (separator connective ++ joined (separator connective) (texts (second :: rest))))
      rw [Sql.numberedFrom_grouped, Sql.numberedFrom_plain_append _ (dollar_not_mem_separator connective),
        text_numberFrom next tree, hrest]

end

/-! ### What a tree is worth -/

mutual

/-- What the tree is worth where the comparisons and calls are worth what is given for their texts. -/
def meets (truth : String → Bool) : OperatorTree → Bool
  | .leaf text => truth text
  | .node connective operands => connective.combine (meetsEach truth operands)

def meetsEach (truth : String → Bool) : List OperatorTree → List Bool
  | [] => []
  | tree :: rest => meets truth tree :: meetsEach truth rest

end

variable {truth other : String → Bool}

theorem length_meetsEach (trees : List OperatorTree) : (meetsEach truth trees).length = trees.length := by
  induction trees with
  | nil => rfl
  | cons tree rest ih => rw [meetsEach, List.length_cons, List.length_cons, ih]

mutual

/-- Alike trees are worth the same. -/
theorem meets_eq_of_alike : ∀ {tree other : OperatorTree}, tree.Alike other → tree.meets truth = other.meets truth
  | .leaf _, .leaf _, h => congrArg truth h
  | .node connective operands, .node other others, h => by
      have hsame := meetsEach_eq_of_allAlike h.2
      rw [meets, meets, ← hsame]
      by_cases hlength : 2 ≤ operands.length
      · rw [h.1 hlength]
      · apply connective.combine_of_length_lt
        rwa [length_meetsEach operands]
  | .leaf _, .node _ _, h => h.elim
  | .node _ _, .leaf _, h => h.elim

theorem meetsEach_eq_of_allAlike : ∀ {trees others : List OperatorTree}, AllAlike trees others →
    meetsEach truth trees = meetsEach truth others
  | [], [], _ => rfl
  | _ :: _, _ :: _, h => by rw [meetsEach, meetsEach, meets_eq_of_alike h.1, meetsEach_eq_of_allAlike h.2]
  | [], _ :: _, h => h.elim
  | _ :: _, [], h => h.elim

end

mutual

/-- A tree that is met is met where its comparisons and calls are worth more. -/
theorem meets_mono (hmore : ∀ text, truth text = true → other text = true) :
    ∀ {tree : OperatorTree}, tree.meets truth = true → tree.meets other = true
  | .leaf text, h => hmore text h
  | .node connective _, h => connective.combine_mono (meetsEach_mono hmore _) h

theorem meetsEach_mono (hmore : ∀ text, truth text = true → other text = true) :
    ∀ trees : List OperatorTree,
      List.Forall₂ (fun b b' => b = true → b' = true) (meetsEach truth trees) (meetsEach other trees)
  | [] => .nil
  | _ :: rest => .cons (meets_mono hmore) (meetsEach_mono hmore rest)

end

variable {tree : OperatorTree}

/-- A tree whose text is joined of others has operands with these texts. -/
theorem exists_operands (hsound : tree.Sound) (connective : Connective) {parts : List (List Char)}
    (hparts : ∀ part ∈ parts, Balanced part) (htext : tree.text = joined (separator connective) parts) :
    ∃ other operands, tree = .node other operands ∧ AllSound operands ∧ texts operands = parts ∧
      (2 ≤ parts.length → other = connective) := by
  cases tree with
  | leaf text => exact absurd htext (leaf_ne_joined hsound connective hparts)
  | node other operands =>
      have hoperands := balanced_text.2 operands hsound
      obtain ⟨hsame, htexts⟩ := (joined_eq_iff hoperands hparts).mp htext
      exact ⟨other, operands, rfl, hsound, htexts, fun hlength => hsame (htexts ▸ hlength)⟩

/-- A tree whose text is in parentheses is worth what is in them. -/
theorem exists_inside {whole : List Char} (hsound : tree.Sound) (hwhole : Balanced whole)
    (htext : tree.text = grouped whole []) :
    ∃ inside : OperatorTree, inside.Sound ∧ inside.text = whole ∧
      ∀ truth, tree.meets truth = inside.meets truth := by
  obtain ⟨connective, operands, rfl, hoperands, htexts, -⟩ :=
    exists_operands hsound .and (List.forall_mem_singleton.mpr hwhole) htext
  match operands, htexts with
  | [inside], htexts =>
      exact ⟨inside, hoperands.1, (List.cons.inj htexts).1, fun _ => connective.combine_singleton _⟩

/-- Of two groups that `AND` joins, the first is met if all is. -/
theorem exists_first {first second : List Char} (hsound : tree.Sound) (hfirst : Balanced first)
    (hsecond : Balanced second) (htext : tree.text = grouped first (separator .and ++ grouped second [])) :
    ∃ operand : OperatorTree, operand.Sound ∧ operand.text = first ∧
      ∀ truth, tree.meets truth = true → operand.meets truth = true := by
  have hparts : ∀ part ∈ [first, second], Balanced part :=
    List.forall_mem_cons.mpr ⟨hfirst, List.forall_mem_singleton.mpr hsecond⟩
  obtain ⟨connective, operands, rfl, hoperands, htexts, hand⟩ :=
    exists_operands hsound .and hparts htext
  obtain rfl := hand (Nat.le_refl 2)
  match operands, htexts with
  | [operand, other], htexts =>
      refine ⟨operand, hoperands.1, (List.cons.inj htexts).1, fun truth hmeets => ?_⟩
      rw [meets, meetsEach, Connective.combine, List.all_cons, Bool.and_eq_true] at hmeets
      exact hmeets.1

theorem meets_leaf_of_text_eq {leaf : List Char} (hsound : tree.Sound) (hleaf : IsLeafText leaf)
    (htext : tree.text = leaf) (truth : String → Bool) : tree.meets truth = truth (String.ofList leaf) := by
  cases tree with
  | leaf word =>
      subst htext
      exact congrArg truth String.ofList_toList.symm
  | node connective operands =>
      exact absurd htext.symm (leaf_ne_joined hleaf connective (balanced_text.2 operands hsound))

end OperatorTree

end Dossier
