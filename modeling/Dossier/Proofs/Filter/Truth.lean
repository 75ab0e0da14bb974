import Dossier.Proofs.Filter.Formula
import Dossier.Proofs.Filter.Operators

/-!
The truth of compiled filters. A filter is documented as a formula over its comparisons and calls: `null` and
combinations of nothing are met by every record, and a connective combines all of its operands. The compiled
text is a formula as well, in which the operands without comparisons are missing. Main statement: the text says
what the filter says, whatever its comparisons are worth, exactly if no `or` has operands of both sorts.
-/

namespace Dossier

open Sql (Predicate)

/-! ### Formulas of filters -/

namespace Formula

mutual

/-- The formula of a filter. An object combines its members by the default connective, an array its items by
the connective at its head; a call is a leaf. -/
def ofFilter (matchAny : Bool) : Json → Formula
  | .object members => .node (Target.connectiveOf matchAny) (members.map fun _ => .leaf)
  | .array (.string token :: rest) =>
    match Operator.ofToken? token with
    | .ok (.connective connective) => .node connective (ofOperands matchAny rest)
    | _ => .leaf
  | .array items => .node .and (ofOperands matchAny items)
  | _ => .node .and []

def ofOperands (matchAny : Bool) : List Json → List Formula
  | [] => []
  | item :: rest => ofFilter matchAny item :: ofOperands matchAny rest

end

end Formula

namespace Condition

mutual

/-- The formula of a condition, all of its operands included. -/
def formula : Condition → Formula
  | .all => .node .and []
  | .equal _ _ => .leaf
  | .call _ _ _ _ => .leaf
  | .group connective operands => .node connective (formulas operands)

def formulas : List Condition → List Formula
  | [] => []
  | condition :: rest => formula condition :: formulas rest

end

variable {kind : Kind}

theorem formulas_of_readMembers {members : List (String × Json)} {conditions : List Condition}
    (h : readMembers kind members = .ok conditions) : formulas conditions = members.map fun _ => .leaf := by
  induction members generalizing conditions with
  | nil =>
      cases h
      rfl
  | cons member members ih =>
      rw [readMembers] at h
      obtain ⟨key, -, h⟩ := bind_eq_ok_iff.mp h
      obtain ⟨rest, hrest, h⟩ := bind_eq_ok_iff.mp h
      cases h
      rw [formulas, ih hrest]
      rfl

theorem formula_of_readCall {returns : ReturnType} {items : List Json} {condition : Condition}
    (h : readCall kind returns items = .ok condition) : condition.formula = .leaf := by
  unfold readCall at h
  split at h
  · cases h
  · obtain ⟨inputs, -, hcall⟩ := bind_eq_ok_iff.mp h
    cases hcall
    rfl

/-- A filter is read as its formula says. -/
theorem formula_of_read (matchAny : Bool) :
    (∀ filter condition, ofJson? kind (Target.connectiveOf matchAny) filter = .ok condition →
      condition.formula = Formula.ofFilter matchAny filter) ∧
      ∀ inner items conditions, readItems kind (Target.connectiveOf matchAny) inner items = .ok conditions →
        formulas conditions = Formula.ofOperands matchAny items := by
  refine ofJson?.mutual_induct
    (fun filter => ∀ condition, ofJson? kind (Target.connectiveOf matchAny) filter = .ok condition →
      condition.formula = Formula.ofFilter matchAny filter)
    (fun inner items => ∀ conditions,
      readItems kind (Target.connectiveOf matchAny) inner items = .ok conditions →
        formulas conditions = Formula.ofOperands matchAny items) ?null ?function ?object ?unknown ?call
    ?connective ?array ?scalar ?nil ?token ?cons
  case null =>
    intro condition h
    cases h
    rfl
  case function =>
    intro members hfunction condition h
    rw [ofJson?, if_pos hfunction] at h
    cases h
  case object =>
    intro members hfunction condition h
    rw [ofJson?, if_neg hfunction] at h
    obtain ⟨conditions, hconditions, rfl⟩ := map_eq_ok_iff.mp h
    rw [formula, Formula.ofFilter, formulas_of_readMembers hconditions]
  case unknown =>
    intro token rest fault htoken condition h
    rw [ofJson?, htoken] at h
    cases h
  case call =>
    intro token rest returns htoken condition h
    rw [ofJson?, htoken] at h
    rw [formula_of_readCall h, Formula.ofFilter, htoken]
  case connective =>
    intro token rest inner htoken ih condition h
    rw [ofJson?, htoken] at h
    obtain ⟨conditions, hconditions, rfl⟩ := map_eq_ok_iff.mp h
    rw [formula, ih conditions hconditions, Formula.ofFilter, htoken]
  case array =>
    intro items hitems ih condition h
    rw [ofJson?] at h
    · obtain ⟨conditions, hconditions, rfl⟩ := map_eq_ok_iff.mp h
      rw [formula, ih conditions hconditions, Formula.ofFilter]
      exact hitems
    · exact hitems
  case scalar =>
    intro scalar hnull hobject htoken harray condition h
    rw [ofJson?] at h
    · cases h
    all_goals assumption
  case nil =>
    intro inner conditions h
    cases h
    rfl
  case token =>
    intro inner token rest conditions h
    cases h
  case cons =>
    intro inner item rest hitem ihitem ihrest conditions h
    rw [readItems] at h
    · obtain ⟨condition, hcondition, h⟩ := bind_eq_ok_iff.mp h
      obtain ⟨others, hothers, h⟩ := bind_eq_ok_iff.mp h
      cases h
      rw [formulas, Formula.ofOperands, ihitem condition hcondition, ihrest others hothers]
    · exact hitem

end Condition

/-! ### Formulas of texts -/

namespace OperatorTree

mutual

/-- The formula of a tree, whatever its leaves are. -/
def formula : OperatorTree → Formula
  | .leaf _ => .leaf
  | .node connective operands => .node connective (formulas operands)

def formulas : List OperatorTree → List Formula
  | [] => []
  | tree :: rest => formula tree :: formulas rest

end

/-- The text is made of comparisons and calls under connectives as the tree is. -/
def Reads (tree : OperatorTree) (text : String) : Prop := tree.Sound ∧ text.toList = tree.text

mutual

theorem size_eq_of_alike : ∀ {tree other : OperatorTree}, tree.Alike other → tree.formula.size = other.formula.size
  | .leaf _, .leaf _, _ => rfl
  | .node _ _, .node _ _, h => sizes_eq_of_allAlike h.2
  | .leaf _, .node _ _, h => h.elim
  | .node _ _, .leaf _, h => h.elim

theorem sizes_eq_of_allAlike : ∀ {trees others : List OperatorTree}, AllAlike trees others →
    Formula.sizes (formulas trees) = Formula.sizes (formulas others)
  | [], [], _ => rfl
  | tree :: rest, other :: others, h => by
      rw [formulas, formulas, Formula.sizes, Formula.sizes, size_eq_of_alike h.1, sizes_eq_of_allAlike h.2]
  | [], _ :: _, h => h.elim
  | _ :: _, [], h => h.elim

end

variable {truth : Nat → Bool}

theorem length_truths (next : Nat) (trees : List OperatorTree) :
    (Formula.truths truth next (formulas trees)).length = trees.length := by
  induction trees generalizing next with
  | nil => rfl
  | cons tree rest ih => simp [formulas, Formula.truths, ih]

mutual

/-- Alike trees are worth the same: a connective does not matter where there is nothing to connect. -/
theorem holds_eq_of_alike : ∀ {next : Nat} {tree other : OperatorTree}, tree.Alike other →
    tree.formula.holds truth next = other.formula.holds truth next
  | _, .leaf _, .leaf _, _ => rfl
  | next, .node connective operands, .node other others, h => by
      have hsame := truths_eq_of_allAlike next h.2
      rw [formula, formula, Formula.holds, Formula.holds, ← hsame]
      by_cases hlength : 2 ≤ operands.length
      · rw [h.1 hlength]
      · apply connective.combine_of_length_lt
        rwa [length_truths next operands]
  | _, .leaf _, .node _ _, h => h.elim
  | _, .node _ _, .leaf _, h => h.elim

theorem truths_eq_of_allAlike : ∀ (next : Nat) {trees others : List OperatorTree}, AllAlike trees others →
    Formula.truths truth next (formulas trees) = Formula.truths truth next (formulas others)
  | _, [], [], _ => rfl
  | next, tree :: rest, other :: others, h => by
      have hhead : tree.formula.holds truth next = other.formula.holds truth next := holds_eq_of_alike h.1
      rw [formulas, formulas, Formula.truths, Formula.truths, hhead, size_eq_of_alike h.1,
        truths_eq_of_allAlike _ h.2]
  | _, [], _ :: _, h => h.elim
  | _, _ :: _, [], h => h.elim

end

end OperatorTree

theorem IsLeafText.isEmpty_eq {p : Predicate} (h : IsLeafText p.format.toList) : p.isEmpty = false := by
  rw [Predicate.isEmpty, ← Bool.not_eq_true, String.isEmpty_iff]
  intro hempty
  have hled := h.led
  rw [hempty] at hled
  cases hled

theorem Sql.isEmpty_join_iff {operands : List Predicate} {word : String} :
    (Predicate.join operands word).isEmpty = true ↔ operands.filter (!·.isEmpty) = [] := by
  rw [Predicate.isEmpty, String.isEmpty_iff, ← String.toList_inj, Sql.toList_format_join]
  generalize operands.filter (!·.isEmpty) = kept
  cases kept with
  | nil => exact iff_of_true rfl rfl
  | cons first rest =>
      refine iff_of_false ?_ (List.cons_ne_nil _ _)
      cases rest <;> exact List.cons_ne_nil _ _

namespace Condition

variable (target : Target)

/-- A condition is compiled to nothing exactly if its formula has no leaves. -/
theorem isEmpty_predicate_iff :
    (∀ condition : Condition, condition.KeysOf target.kind →
      ((condition.predicate target).isEmpty = true ↔ condition.formula.size = 0)) ∧
      ∀ conditions : List Condition, AllKeysOf target.kind conditions →
        ((predicates target conditions).filter (!·.isEmpty) = [] ↔ Formula.sizes (formulas conditions) = 0) := by
  have hleaf : ∀ {p : Predicate}, IsLeafText p.format.toList → (p.isEmpty = true ↔ Formula.leaf.size = 0) := by
    intro p htext
    rw [htext.isEmpty_eq, Formula.size]
    simp
  refine predicate.mutual_induct
    (fun condition => condition.KeysOf target.kind →
      ((condition.predicate target).isEmpty = true ↔ condition.formula.size = 0))
    (fun conditions => AllKeysOf target.kind conditions →
      ((predicates target conditions).filter (!·.isEmpty) = [] ↔ Formula.sizes (formulas conditions) = 0))
    ?all ?equal ?call ?group ?nil ?cons
  case all =>
    intro _
    exact iff_of_true rfl rfl
  case equal =>
    intro key value hkey
    exact hleaf (target.isLeafText_comparison hkey value 0)
  case call =>
    intro inputs source extra returns hinputs
    exact hleaf (target.isLeafText_call hinputs source extra returns 0)
  case group =>
    intro connective operands ih hkeys
    rw [predicate, Sql.isEmpty_join_iff, formula, Formula.size]
    exact ih hkeys
  case nil =>
    intro _
    exact iff_of_true rfl rfl
  case cons =>
    intro condition rest ihcondition ihrest hkeys
    have hcondition := ihcondition hkeys.1
    have hrest := ihrest hkeys.2
    rw [predicates, List.filter_cons, formulas, Formula.sizes, Nat.add_eq_zero_iff, ← hcondition, ← hrest]
    cases (condition.predicate target).isEmpty <;> simp

/-- The operators of a compiled condition are its formula without the operands that have no leaves. -/
theorem formula_operators :
    (∀ condition : Condition, condition.KeysOf target.kind →
      (condition.operators target).formula = condition.formula.pruned) ∧
      ∀ conditions : List Condition, AllKeysOf target.kind conditions →
        OperatorTree.formulas (remaining target conditions) = Formula.kept (formulas conditions) := by
  refine predicate.mutual_induct
    (fun condition => condition.KeysOf target.kind →
      (condition.operators target).formula = condition.formula.pruned)
    (fun conditions => AllKeysOf target.kind conditions →
      OperatorTree.formulas (remaining target conditions) = Formula.kept (formulas conditions))
    ?all ?equal ?call ?group ?nil ?cons
  case all =>
    intro _
    rfl
  case equal =>
    intro key value _
    rfl
  case call =>
    intro inputs source extra returns _
    rfl
  case group =>
    intro connective operands ih hkeys
    rw [operators, OperatorTree.formula, ih hkeys]
    rfl
  case nil =>
    intro _
    rfl
  case cons =>
    intro condition rest ihcondition ihrest hkeys
    have hempty := (isEmpty_predicate_iff target).1 condition hkeys.1
    rw [remaining, formulas, Formula.kept]
    by_cases hnone : condition.formula.size = 0
    · rw [if_pos (hempty.mpr hnone), if_pos hnone, ihrest hkeys.2]
    · rw [if_neg (mt hempty.mp hnone), if_neg hnone, OperatorTree.formulas, ihcondition hkeys.1, ihrest hkeys.2]

end Condition

namespace Target

variable {target : Target} {matchAny : Bool}

/-- **What a compiled filter says.** The text of a compiled filter is a formula over as many comparisons and
calls as the filter has, and the filter is true wherever the text is. The two are worth the same under every
assignment of truth values exactly if no `or` of the filter has an operand without comparisons beside one
with comparisons; otherwise the text leaves the former out, although it is met by every record. -/
theorem holds_iff_of_compile {filter : Json} {p : Predicate} (h : target.compile matchAny filter = .ok p) :
    (∃ tree : OperatorTree, tree.Reads p.format) ∧ ∀ tree : OperatorTree, tree.Reads p.format →
      tree.formula.size = (Formula.ofFilter matchAny filter).size ∧
      (∀ truth, tree.formula.holds truth 0 = true → (Formula.ofFilter matchAny filter).holds truth 0 = true) ∧
      ((∀ truth, tree.formula.holds truth 0 = (Formula.ofFilter matchAny filter).holds truth 0) ↔
        ¬ (Formula.ofFilter matchAny filter).Mixed) := by
  obtain ⟨condition, hcondition, rfl⟩ := map_eq_ok_iff.mp h
  have hkeys := (Condition.keysOf_of_read _).1 filter condition hcondition
  have hsound := (Condition.sound_operators target).1 condition hkeys
  have htext := (Condition.toList_format_predicate target).1 condition
  have hformula := (Condition.formula_operators target).1 condition hkeys
  rw [(Condition.formula_of_read matchAny).1 filter condition hcondition] at hformula
  refine ⟨⟨_, hsound, htext⟩, fun tree htree => ?_⟩
  -- the text has one reading, up to connectives that connect nothing
  have halike : tree.Alike (condition.operators target) := by
    apply (OperatorTree.text_eq_iff.1 tree htree.1 _ hsound).mp
    rw [← htree.2, htext]
  have hholds : ∀ truth, tree.formula.holds truth 0 = (Formula.ofFilter matchAny filter).pruned.holds truth 0 := by
    intro truth
    rw [OperatorTree.holds_eq_of_alike halike, hformula]
  refine ⟨?_, fun truth htrue => ?_, ?_⟩
  · rw [OperatorTree.size_eq_of_alike halike, hformula, Formula.size_pruned]
  · rw [hholds] at htrue
    exact Formula.holds_of_holds_pruned htrue
  · simp only [hholds]
    exact Formula.holds_pruned_iff _

theorem holds_iff_of_compile_nested :
    let filter : Json := .array [.string "or",
      .array [.null, .object [("a", .nat 1)], .array [.string "OR"]],
      .array [.string "BIND", .string "b", .object [("$fn", .string "x => x")]]]
    ∃ p, (⟨.document, .empty, .sqlite⟩ : Target).compile true filter = .ok p ∧
      ∃ tree : OperatorTree, tree.Reads p.format ∧ tree.formula.size = 2 ∧
        ∀ truth, tree.formula.holds truth 0 = (truth 0 || truth 1) := by
  intro filter
  obtain ⟨p, hp⟩ : ∃ p, (⟨.document, .empty, .sqlite⟩ : Target).compile true filter = .ok p := ⟨_, rfl⟩
  obtain ⟨⟨tree, htree⟩, hall⟩ := holds_iff_of_compile hp
  obtain ⟨hsize, -, hiff⟩ := hall tree htree
  have hformula : Formula.ofFilter true filter =
      .node .or [.node .and [.node .and [], .node .or [.leaf], .node .or []], .leaf] := rfl
  have hunmixed : ¬ (Formula.ofFilter true filter).Mixed := by
    simp [hformula, Formula.mixed_node_iff, Formula.not_mixed_leaf, Formula.size, Formula.sizes]
  refine ⟨p, hp, tree, htree, hsize, fun truth => ?_⟩
  rw [hiff.mpr hunmixed truth, hformula]
  simp [Formula.holds, Formula.truths, Formula.size, Formula.sizes, Connective.combine]

/-- An `or` over `null` is met by every record, but its text asks for what is left. -/
theorem holds_lacking_null :
    let filter : Json := .array [.string "OR", .null, .object [("a", .nat 1)]]
    let truth : Nat → Bool := fun _ => false
    ∃ p, (⟨.document, .empty, .sqlite⟩ : Target).compile false filter = .ok p ∧
      ∃ tree : OperatorTree, tree.Reads p.format ∧ (Formula.ofFilter false filter).holds truth 0 = true ∧
        tree.formula.holds truth 0 = false := by
  intro filter truth
  obtain ⟨p, hp⟩ : ∃ p, (⟨.document, .empty, .sqlite⟩ : Target).compile false filter = .ok p := ⟨_, rfl⟩
  obtain ⟨tree, htree, hsound, htext⟩ := exists_operators hp
  cases htree
  exact ⟨p, hp, _, ⟨hsound, htext⟩, rfl, rfl⟩

end Target

end Dossier
