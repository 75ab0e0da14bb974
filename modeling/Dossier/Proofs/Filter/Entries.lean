import Dossier.Filter.Field
import Dossier.Filter.Order
import Dossier.Proofs.Filter.Rendering
import Dossier.Proofs.Sql.Clause
import Dossier.Proofs.Text.Pieces

/-!
Entries of selections, orderings and groupings. Each compiles to text with one placeholder for each of its
parameters: a field is an extraction or the description of relations, an ordering is an expression or a
filter, and the words behind it hold no dollar sign.
-/

namespace Dossier

open Sql (Counts Fragment StopsDigits)

/-- The field lands in a column of the kind, if it lands in a column. -/
def Landing.IsOf (kind : Kind) : Landing → Prop
  | .column name => ∃ c ∈ kind.columns, c.name = name
  | _ => True

namespace Target

variable {target : Target}

theorem spells_of_compile {matchAny : Bool} {filter : Json} {p : Sql.Predicate}
    (h : target.compile matchAny filter = .ok p) : ∃ text, p.Spells text := by
  obtain ⟨condition, hcondition, rfl⟩ := map_eq_ok_iff.mp h
  have hkeys := (Condition.keysOf_of_read _).1 filter condition hcondition
  exact ⟨_, (Condition.spells_inline target).1 condition hkeys⟩

/-! ### Fields -/

theorem isPlain_relatedExpression (description : String) : (target.relatedExpression description).IsPlain := by
  have hbefore : '$' ∉ ("docstore_related(\"id\", " ++ target.payloadColumn ++ ", ").toList :=
    dollar_not_mem_append (dollar_not_mem_append (by decide) target.dollar_not_mem_payloadColumn) (by decide)
  unfold relatedExpression
  dsimp only
  split
  · exact ⟨hbefore, Fragment.noDigitFirst_text _ (by decide), by decide, trivial⟩
  · exact ⟨hbefore, Fragment.noDigitFirst_text _ (by decide), by decide, trivial⟩

theorem counts_compileRelations {relations : List Json} {p : Sql.Predicate}
    (h : target.compileRelations relations = .ok p) : Counts p.format p.params := by
  obtain ⟨described, -, h⟩ := bind_eq_ok_iff.mp h
  cases h
  exact (isPlain_relatedExpression _).counts

theorem counts_compileField {field : Json} {p : Sql.Predicate} {landing : Landing}
    (h : target.compileField field = .ok (p, landing)) :
    Counts p.format p.params ∧ landing.IsOf target.kind := by
  unfold compileField at h
  split at h
  · obtain ⟨key, hkey, h⟩ := bind_eq_ok_iff.mp h
    cases h
    have hof := Key.isOf_of_ofText? hkey
    refine ⟨(target.isPlain_extraction hof true).counts, ?_⟩
    cases key with
    | column c epoch => exact ⟨c, hof, rfl⟩
    | path segments => exact trivial
  · split at h
    · obtain ⟨described, hdescribed, h⟩ := bind_eq_ok_iff.mp h
      cases h
      exact ⟨counts_compileRelations hdescribed, trivial⟩
    · cases h
  · cases h

/-! ### Orderings -/

theorem dollar_not_mem_of_isOrderWord {word : String} (h : isOrderWord word = true) :
    '$' ∉ (Text.asciiUpper word).toList := by
  intro hmem
  rw [Text.asciiUpper, String.toList_ofList, List.mem_map] at hmem
  obtain ⟨c, hc, hupper⟩ := hmem
  have hfold : '$' ∈ word.toList.map foldLetter :=
    List.mem_map.mpr ⟨'$', Text.eq_dollar_of_toUpper hupper ▸ hc, by decide⟩
  have hall : ∀ allowed ∈ orderWords, '$' ∉ allowed.toList := by decide
  have hin : String.ofList (word.toList.map foldLetter) ∈ orderWords := List.elem_iff.mp h
  refine hall _ hin ?_
  rwa [String.toList_ofList]

/-- The words behind an entry hold no dollar sign, and do not go on with digits. -/
theorem plain_of_orderSuffix {words : List Json} {suffix : String} (h : orderSuffix words = .ok suffix) :
    '$' ∉ suffix.toList ∧ StopsDigits suffix.toList := by
  induction words generalizing suffix with
  | nil =>
      cases h
      exact ⟨by decide, Sql.stopsDigits_nil⟩
  | cons word rest ih =>
      unfold orderSuffix at h
      split at h
      · rename_i hnil
        cases hnil
      · rename_i text others hcons
        cases hcons
        split at h
        · rename_i hword
          obtain ⟨tail, htail, rfl⟩ := map_eq_ok_iff.mp h
          refine ⟨dollar_not_mem_append (dollar_not_mem_append (by decide) ?_) (ih htail).1, ?_⟩
          · exact dollar_not_mem_of_isOrderWord hword
          · rw [String.append_assoc]
            exact Sql.stopsDigits_text _ (by decide)
        · cases h
      · cases h

theorem counts_orderHead {matchAny : Bool} {head : Json} {p : Sql.Predicate}
    (h : target.orderHead matchAny head = .ok p) : Counts p.format p.params := by
  unfold orderHead at h
  split at h
  · obtain ⟨key, hkey, h⟩ := bind_eq_ok_iff.mp h
    cases h
    exact (target.isPlain_castExpression (Key.isOf_of_ofText? hkey) _).counts
  · obtain ⟨text, hspells⟩ := spells_of_compile h
    exact hspells.counts
  · cases h

theorem counts_compileOrder {matchAny : Bool} {entry : Json} {p : Sql.Predicate}
    (h : target.compileOrder matchAny entry = .ok p) : Counts p.format p.params := by
  have hentry : ∀ head words, target.orderEntry matchAny head words = .ok p → Counts p.format p.params := by
    intro head words h
    obtain ⟨predicate, hhead, h⟩ := bind_eq_ok_iff.mp h
    obtain ⟨suffix, hsuffix, h⟩ := bind_eq_ok_iff.mp h
    cases h
    obtain ⟨hplain, hstop⟩ := plain_of_orderSuffix hsuffix
    have hcounts := (counts_orderHead hhead).append (Counts.plain hplain) hstop
    rwa [List.append_nil] at hcounts
  unfold compileOrder at h
  split at h
  · exact hentry _ _ h
  · exact hentry _ _ h
  · cases h

end Target

end Dossier
