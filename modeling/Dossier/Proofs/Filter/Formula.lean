import Dossier.Filter.Operator
import Mathlib.Data.List.Forall2
import Mathlib.Tactic.Push
import Mathlib.Tactic.ByContra

/-!
Formulas of connectives over leaves. A combination of nothing is true, so an operand without leaves is, too. An
`and` can do without such operands, an `or` cannot. Main statement: a formula says the same without them,
whatever its leaves are worth, exactly if no `or` has operands of both sorts.
-/

namespace Dossier

/-! ### Connectives -/

namespace Connective

/-- What the connective makes of truth values. A combination of nothing is true. -/
def combine (truths : List Bool) : Connective → Bool
  | .and => truths.all id
  | .or => truths.isEmpty || truths.any id

variable (connective : Connective) {truths : List Bool}

theorem combine_nil : connective.combine [] = true := by
  cases connective <;> rfl

theorem combine_singleton (truth : Bool) : connective.combine [truth] = truth := by
  cases connective <;> simp [combine]

/-- A connective does not matter where there is nothing to connect. -/
theorem combine_of_length_lt (h : ¬ 2 ≤ truths.length) (other : Connective) :
    connective.combine truths = other.combine truths := by
  match truths with
  | [] => rw [combine_nil, combine_nil]
  | [truth] => rw [combine_singleton, combine_singleton]
  | _ :: _ :: rest => exact absurd (Nat.le_add_left 2 rest.length) h

theorem combine_of_true (h : ∀ truth ∈ truths, truth = true) : connective.combine truths = true := by
  cases connective with
  | and => simpa [combine] using h
  | or =>
      cases truths with
      | nil => rfl
      | cons truth rest => simp [combine, h truth List.mem_cons_self]

theorem combine_of_false (hne : truths ≠ []) (h : ∀ truth ∈ truths, truth = false) :
    connective.combine truths = false := by
  obtain ⟨truth, rest, rfl⟩ := List.exists_cons_of_ne_nil hne
  cases connective with
  | and => simp [combine, h truth List.mem_cons_self]
  | or => simpa [combine] using h

/-- What is combined of more is worth more. -/
theorem combine_mono {others : List Bool} (h : List.Forall₂ (fun b b' => b = true → b' = true) truths others)
    (htrue : connective.combine truths = true) : connective.combine others = true := by
  cases connective with
  | and =>
      rw [combine] at htrue ⊢
      induction h with
      | nil => rfl
      | cons hb _ ih =>
          rw [List.all_cons, Bool.and_eq_true] at htrue ⊢
          exact ⟨hb htrue.1, ih htrue.2⟩
  | or =>
      rw [combine, Bool.or_eq_true] at htrue ⊢
      refine htrue.imp (fun hnone => ?_) fun hsome => ?_
      · cases h with
        | nil => rfl
        | cons _ _ => cases hnone
      · induction h with
        | nil => cases hsome
        | cons hb _ ih =>
            rw [List.any_cons, Bool.or_eq_true] at hsome ⊢
            exact hsome.imp hb fun hsome => ih (Or.inr hsome) hsome

end Connective

/-! ### Formulas -/

/-- A formula of connectives, whose leaves are told apart by their places from left to right. -/
inductive Formula where
  | leaf
  | node (connective : Connective) (operands : List Formula)
  deriving Repr, Inhabited

namespace Formula

mutual

/-- The number of leaves. -/
def size : Formula → Nat
  | .leaf => 1
  | .node _ operands => sizes operands

def sizes : List Formula → Nat
  | [] => 0
  | formula :: rest => size formula + sizes rest

end

mutual

/-- The truth of a formula whose first leaf is number `next`, when leaf number `k` is worth `truth k`. -/
def holds (truth : Nat → Bool) : Nat → Formula → Bool
  | next, .leaf => truth next
  | next, .node connective operands => connective.combine (truths truth next operands)

def truths (truth : Nat → Bool) : Nat → List Formula → List Bool
  | _, [] => []
  | next, formula :: rest => holds truth next formula :: truths truth (next + size formula) rest

end

mutual

/-- The formula without the operands that have no leaves. -/
def pruned : Formula → Formula
  | .leaf => .leaf
  | .node connective operands => .node connective (kept operands)

def kept : List Formula → List Formula
  | [] => []
  | formula :: rest => if size formula = 0 then kept rest else pruned formula :: kept rest

end

/-- Somewhere in the formula an `or` has an operand without leaves beside one with leaves. -/
inductive Mixed : Formula → Prop where
  | here {operands : List Formula} {blank full : Formula} (hblank : blank ∈ operands) (hfull : full ∈ operands)
      (hnone : blank.size = 0) (hsome : full.size ≠ 0) : Mixed (.node .or operands)
  | inside {connective : Connective} {operands : List Formula} {operand : Formula} (hmem : operand ∈ operands)
      (h : Mixed operand) : Mixed (.node connective operands)

theorem not_mixed_leaf : ¬ Formula.leaf.Mixed := nofun

theorem mixed_node_iff {connective : Connective} {operands : List Formula} :
    (Formula.node connective operands).Mixed ↔
      (connective = .or ∧ (∃ blank ∈ operands, blank.size = 0) ∧ ∃ full ∈ operands, full.size ≠ 0) ∨
        ∃ operand ∈ operands, operand.Mixed := by
  constructor
  · intro h
    cases h with
    | here hblank hfull hnone hsome => exact .inl ⟨rfl, ⟨_, hblank, hnone⟩, _, hfull, hsome⟩
    | inside hmem h => exact .inr ⟨_, hmem, h⟩
  · rintro (⟨rfl, ⟨blank, hblank, hnone⟩, full, hfull, hsome⟩ | ⟨operand, hmem, h⟩)
    · exact Mixed.here hblank hfull hnone hsome
    · exact Mixed.inside hmem h

variable {truth truth' : Nat → Bool}

theorem sizes_append (before after : List Formula) : sizes (before ++ after) = sizes before + sizes after := by
  induction before with
  | nil => simp [sizes]
  | cons formula rest ih => simp [sizes, ih, Nat.add_assoc]

theorem size_le_sizes {formula : Formula} {operands : List Formula} (h : formula ∈ operands) :
    formula.size ≤ sizes operands := by
  obtain ⟨before, after, rfl⟩ := List.append_of_mem h
  rw [sizes_append, sizes]
  omega

theorem truths_append (next : Nat) (before after : List Formula) :
    truths truth next (before ++ after) = truths truth next before ++ truths truth (next + sizes before) after := by
  induction before generalizing next with
  | nil => rfl
  | cons formula rest ih => simp [truths, sizes, ih, Nat.add_assoc]

theorem kept_append (before after : List Formula) : kept (before ++ after) = kept before ++ kept after := by
  induction before with
  | nil => rfl
  | cons formula rest ih =>
      rw [List.cons_append, kept, kept, ih]
      split <;> rfl

mutual

theorem size_pruned : ∀ formula : Formula, formula.pruned.size = formula.size
  | .leaf => rfl
  | .node _ operands => sizes_kept operands

theorem sizes_kept : ∀ operands : List Formula, sizes (kept operands) = sizes operands
  | [] => rfl
  | formula :: rest => by
      rw [kept]
      split
      · rename_i hnone
        rw [sizes_kept rest, sizes, hnone, Nat.zero_add]
      · rw [sizes, sizes, size_pruned formula, sizes_kept rest]

end

mutual

/-- The truth of a formula depends on its own leaves only. -/
theorem holds_congr : ∀ {next : Nat} {formula : Formula},
    (∀ k, next ≤ k → k < next + formula.size → truth k = truth' k) →
      holds truth next formula = holds truth' next formula
  | next, .leaf, h => h next (Nat.le_refl next) (Nat.lt_succ_self next)
  | _, .node connective _, h => congrArg (fun truths => connective.combine truths) (truths_congr h)

theorem truths_congr : ∀ {next : Nat} {operands : List Formula},
    (∀ k, next ≤ k → k < next + sizes operands → truth k = truth' k) →
      truths truth next operands = truths truth' next operands
  | _, [], _ => rfl
  | next, formula :: rest, h => by
      rw [sizes] at h
      have hformula : holds truth next formula = holds truth' next formula :=
        holds_congr fun k hlow hhigh => h k hlow (by omega)
      have hrest : truths truth (next + formula.size) rest = truths truth' (next + formula.size) rest :=
        truths_congr fun k hlow hhigh => h k (by omega) (by omega)
      rw [truths, truths, hformula, hrest]

end

mutual

/-- A formula is true if all of its leaves are, and in particular if it has none. -/
theorem holds_of_true : ∀ {next : Nat} {formula : Formula},
    (∀ k, next ≤ k → k < next + formula.size → truth k = true) → holds truth next formula = true
  | next, .leaf, h => h next (Nat.le_refl next) (Nat.lt_succ_self next)
  | _, .node connective _, h => connective.combine_of_true (truths_of_true h)

theorem truths_of_true : ∀ {next : Nat} {operands : List Formula},
    (∀ k, next ≤ k → k < next + sizes operands → truth k = true) → ∀ b ∈ truths truth next operands, b = true
  | _, [], _ => fun _ hb => absurd hb List.not_mem_nil
  | next, formula :: rest, h => by
      rw [sizes] at h
      intro b hb
      rcases List.mem_cons.mp hb with rfl | hb
      · exact holds_of_true fun k hlow hhigh => h k hlow (by omega)
      · exact truths_of_true (fun k hlow hhigh => h k (by omega) (by omega)) b hb

end

theorem holds_of_size_eq_zero {next : Nat} {formula : Formula} (h : formula.size = 0) :
    holds truth next formula = true :=
  holds_of_true fun k hlow hhigh => by omega

theorem kept_ne_nil {operands : List Formula} (h : sizes operands ≠ 0) : kept operands ≠ [] := by
  intro hnil
  apply h
  rw [← sizes_kept, hnil]
  rfl

theorem truths_ne_nil {next : Nat} {operands : List Formula} (h : operands ≠ []) :
    truths truth next operands ≠ [] := by
  obtain ⟨formula, rest, rfl⟩ := List.exists_cons_of_ne_nil h
  exact List.cons_ne_nil _ _

mutual

/-- Without the operands that have no leaves, a formula is false if all of its leaves are. -/
theorem holds_pruned_of_false : ∀ {next : Nat} {formula : Formula}, formula.size ≠ 0 →
    (∀ k, next ≤ k → k < next + formula.size → truth k = false) → holds truth next formula.pruned = false
  | next, .leaf, _, h => h next (Nat.le_refl next) (Nat.lt_succ_self next)
  | _, .node connective _, hsome, h =>
      connective.combine_of_false (truths_ne_nil (kept_ne_nil hsome)) (truths_kept_of_false h)

theorem truths_kept_of_false : ∀ {next : Nat} {operands : List Formula},
    (∀ k, next ≤ k → k < next + sizes operands → truth k = false) →
      ∀ b ∈ truths truth next (kept operands), b = false
  | _, [], _ => fun _ hb => absurd hb List.not_mem_nil
  | next, formula :: rest, h => by
      rw [sizes] at h
      intro b hb
      rw [kept] at hb
      split at hb
      · exact truths_kept_of_false (fun k hlow hhigh => h k hlow (by omega)) b hb
      · rename_i hsome
        rw [truths, size_pruned] at hb
        rcases List.mem_cons.mp hb with rfl | hb
        · exact holds_pruned_of_false hsome fun k hlow hhigh => h k hlow (by omega)
        · exact truths_kept_of_false (fun k hlow hhigh => h k (by omega) (by omega)) b hb

end

/-! ### What operands without leaves are worth -/

theorem kept_eq_nil {operands : List Formula} (h : ∀ operand ∈ operands, operand.size = 0) :
    kept operands = [] := by
  induction operands with
  | nil => rfl
  | cons formula rest ih =>
      rw [kept, if_pos (h formula List.mem_cons_self)]
      exact ih fun operand hmem => h operand (List.mem_cons_of_mem formula hmem)

/-- Where no operand has leaves, all of them are true. -/
theorem truths_of_kept_eq_nil {next : Nat} {operands : List Formula} (h : kept operands = []) :
    ∀ b ∈ truths truth next operands, b = true := by
  apply truths_of_true
  intro k hlow hhigh
  have hnone : sizes operands = 0 := by rw [← sizes_kept, h, sizes]
  omega

mutual

/-- A formula is true where it is true without the operands that have no leaves. -/
theorem holds_of_holds_pruned : ∀ {next : Nat} {formula : Formula},
    holds truth next formula.pruned = true → holds truth next formula = true
  | _, .leaf, h => h
  | next, .node .and operands, h => by
      rw [pruned, holds, Connective.combine] at h
      rw [holds, Connective.combine]
      exact (truths_of_truths_kept next operands).1 h
  | next, .node .or operands, h => by
      rw [pruned, holds, Connective.combine, Bool.or_eq_true] at h
      rcases h with hempty | hany
      · have hnil : kept operands = [] := by
          by_contra hne
          exact truths_ne_nil hne (List.isEmpty_iff.mp hempty)
        exact Connective.or.combine_of_true (truths_of_kept_eq_nil hnil)
      · rw [holds, Connective.combine, (truths_of_truths_kept next operands).2 hany, Bool.or_true]

theorem truths_of_truths_kept : ∀ (next : Nat) (operands : List Formula),
    ((truths truth next (kept operands)).all id = true → (truths truth next operands).all id = true) ∧
      ((truths truth next (kept operands)).any id = true → (truths truth next operands).any id = true)
  | _, [] => ⟨id, id⟩
  | next, formula :: rest => by
      rw [kept]
      split
      · rename_i hnone
        have hrest := truths_of_truths_kept next rest
        have htrue : holds truth next formula = true := holds_of_size_eq_zero hnone
        rw [truths, hnone, Nat.add_zero, htrue]
        exact ⟨fun h => by simpa using hrest.1 h, fun _ => rfl⟩
      · have hrest := truths_of_truths_kept (next + formula.size) rest
        have hformula : holds truth next formula.pruned = true → holds truth next formula = true :=
          holds_of_holds_pruned
        simp only [truths, size_pruned, List.all_cons, List.any_cons, id, Bool.and_eq_true, Bool.or_eq_true]
        exact ⟨fun h => ⟨hformula h.1, hrest.1 h.2⟩, fun h => h.imp hformula hrest.2⟩

end

mutual

/-- Where no `or` has operands of both sorts, a formula is what it is without the operands that have no
leaves. -/
theorem holds_pruned : ∀ {next : Nat} {formula : Formula}, ¬ formula.Mixed →
    holds truth next formula.pruned = holds truth next formula
  | _, .leaf, _ => rfl
  | next, .node connective operands, h => by
      have hoperands := truths_kept next fun operand hmem hmixed => h (Mixed.inside hmem hmixed)
      rw [pruned, holds, holds]
      cases connective with
      | and => exact hoperands.1
      | or =>
          by_cases hfull : ∀ operand ∈ operands, operand.size ≠ 0
          · rw [hoperands.2 hfull]
          · -- one operand has no leaves, so none has
            push Not at hfull
            obtain ⟨blank, hblank, hnone⟩ := hfull
            have hnil : kept operands = [] := by
              apply kept_eq_nil
              intro operand hmem
              by_contra hsome
              exact h (Mixed.here hblank hmem hnone hsome)
            rw [hnil, Connective.combine_of_true _ (truths_of_kept_eq_nil hnil)]
            rfl

theorem truths_kept : ∀ (next : Nat) {operands : List Formula}, (∀ operand ∈ operands, ¬ operand.Mixed) →
    (truths truth next (kept operands)).all id = (truths truth next operands).all id ∧
      ((∀ operand ∈ operands, operand.size ≠ 0) →
        truths truth next (kept operands) = truths truth next operands)
  | _, [], _ => ⟨rfl, fun _ => rfl⟩
  | next, formula :: rest, h => by
      have hrest : ∀ operand ∈ rest, ¬ operand.Mixed := fun operand hmem => h operand (List.mem_cons_of_mem _ hmem)
      rw [kept, truths]
      split
      · rename_i hnone
        refine ⟨?_, fun hfull => absurd hnone (hfull formula List.mem_cons_self)⟩
        rw [hnone, Nat.add_zero, holds_of_size_eq_zero hnone, List.all_cons, (truths_kept next hrest).1]
        rfl
      · have hformula : holds truth next formula.pruned = holds truth next formula :=
          holds_pruned (h formula List.mem_cons_self)
        have htail := truths_kept (next + formula.size) hrest
        rw [truths, size_pruned, hformula, List.all_cons, List.all_cons, htail.1]
        exact ⟨rfl, fun hfull => by rw [htail.2 fun operand hmem => hfull operand (List.mem_cons_of_mem _ hmem)]⟩

end

/-- What shows in an operand shows in the formula around it, whose other leaves are worth what leaves its truth
to the operand. -/
theorem exists_truth_around (connective : Connective) (before after : List Formula) {operand : Formula} {next : Nat}
    {own : Nat → Bool} (hpruned : holds own (next + sizes before) operand.pruned = false)
    (hwhole : holds own (next + sizes before) operand = true) :
    ∃ truth, holds truth next (Formula.node connective (before ++ operand :: after)).pruned = false ∧
      holds truth next (.node connective (before ++ operand :: after)) = true := by
  have hsome : operand.size ≠ 0 := by
    intro hnone
    rw [holds_of_size_eq_zero (by rw [size_pruned, hnone])] at hpruned
    cases hpruned
  let truth : Nat → Bool := fun k =>
    if next + sizes before ≤ k ∧ k < next + sizes before + operand.size then own k else connective = .and
  have hinside : ∀ k, next + sizes before ≤ k → k < next + sizes before + operand.size → truth k = own k :=
    fun k hlow hhigh => if_pos ⟨hlow, hhigh⟩
  have hbefore : ∀ k, next ≤ k → k < next + sizes before → truth k = decide (connective = .and) :=
    fun k hlow hhigh => if_neg (by omega)
  have hafter : ∀ k, next + sizes before + operand.size ≤ k →
      k < next + sizes before + operand.size + sizes after → truth k = decide (connective = .and) :=
    fun k hlow hhigh => if_neg (by omega)
  have hpruned' : holds truth (next + sizes before) operand.pruned = false := by
    rw [← hpruned]
    exact holds_congr (by rwa [size_pruned])
  have hwhole' : holds truth (next + sizes before) operand = true := (holds_congr hinside).trans hwhole
  refine ⟨truth, ?_, ?_⟩
  · rw [pruned, kept_append, kept, if_neg hsome, holds, truths_append, sizes_kept, truths, size_pruned, hpruned']
    cases connective with
    | and => simp [Connective.combine]
    | or =>
        apply Connective.combine_of_false _ (by simp)
        simp only [List.forall_mem_append, List.forall_mem_cons]
        exact ⟨truths_kept_of_false hbefore, trivial, truths_kept_of_false hafter⟩
  · rw [holds, truths_append, truths, hwhole']
    cases connective with
    | or => simp [Connective.combine]
    | and =>
        apply Connective.combine_of_true
        simp only [List.forall_mem_append, List.forall_mem_cons]
        exact ⟨truths_of_true hbefore, trivial, truths_of_true hafter⟩

/-- An `or` with operands of both sorts shows: under some truths of the leaves the formula is true, but false
without the operands that have no leaves. -/
theorem exists_truth_of_mixed {formula : Formula} (h : formula.Mixed) (next : Nat) :
    ∃ truth, holds truth next formula.pruned = false ∧ holds truth next formula = true := by
  induction h generalizing next with
  | @here operands blank full hblank hfull hnone hsome =>
      refine ⟨fun _ => false, ?_, ?_⟩
      · have hsizes := size_le_sizes hfull
        apply holds_pruned_of_false
        · rw [size]
          omega
        · exact fun _ _ _ => rfl
      · obtain ⟨before, after, rfl⟩ := List.append_of_mem hblank
        rw [holds, truths_append, truths, holds_of_size_eq_zero hnone]
        simp [Connective.combine]
  | @inside connective operands operand hmem _ ih =>
      obtain ⟨before, after, rfl⟩ := List.append_of_mem hmem
      obtain ⟨own, hpruned, hwhole⟩ := ih (next + sizes before)
      exact exists_truth_around connective before after hpruned hwhole

/-- Leaving out the operands without leaves changes a formula exactly if an `or` has operands of both sorts. -/
theorem holds_pruned_iff (formula : Formula) :
    (∀ truth, holds truth 0 formula.pruned = holds truth 0 formula) ↔ ¬ formula.Mixed := by
  constructor
  · intro hsame hmixed
    obtain ⟨truth, hpruned, hwhole⟩ := exists_truth_of_mixed hmixed 0
    rw [hsame truth, hwhole] at hpruned
    cases hpruned
  · exact fun h truth => holds_pruned h

end Formula

end Dossier
