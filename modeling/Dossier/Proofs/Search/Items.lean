import Dossier.Proofs.Filter.Bare
import Dossier.Proofs.Search.Description

/-!
Items of groupings and orderings. Main statement: an item begins with an expression exactly if the head of its
entry asks for something; a head of nulls and empty containers leaves nothing before the words of the entry.
-/

namespace Dossier.Query

open Sql (Predicate)
open Target (entryHead entryWords)

variable {target : Target}

/-- Compiled one by one, entries with a bare head are those that do not begin with an expression. -/
theorem opens_iff_of_entries {matchAny : Bool} {entries : List Json} {items : List Predicate}
    (h : List.Forall₂ (fun entry p => target.compileOrder matchAny entry = .ok p) entries items) :
    List.Forall₂ (fun entry p => p.Opens ↔ ¬ Bare (entryHead entry)) entries items :=
  h.imp fun _ _ => Target.opens_iff_of_compileOrder

/-- **What items begin with.** An accepted entry is its compiled head and the words behind it, and its head is
compiled to nothing exactly if it is made of nulls, empty objects and arrays of such. So an item of a grouping or
an ordering begins with an expression, and not with nothing or with the space before a word, exactly if the head
of its entry is not. -/
theorem opens_iff_of_ofTraits? (target : Target) :
    (∀ matchAny entry p, target.compileOrder matchAny entry = .ok p →
      ∃ expression, target.orderHead matchAny (entryHead entry) = .ok expression ∧
        p.format = expression.format ++ String.join ((entryWords entry).map (" " ++ Text.asciiUpper ·)) ∧
        (expression.isEmpty = true ↔ Bare (entryHead entry)) ∧ (p.Opens ↔ ¬ Bare (entryHead entry))) ∧
    ∀ filter traits query, ofTraits? target filter traits = .ok query →
      List.Forall₂ (fun entry p => p.Opens ↔ ¬ Bare (entryHead entry)) traits.group query.groups ∧
        List.Forall₂ (fun entry p => p.Opens ↔ ¬ Bare (entryHead entry)) traits.order query.orders := by
  constructor
  · intro matchAny entry p h
    obtain ⟨expression, hhead, hformat, -, -⟩ := Target.entry_of_compileOrder h
    refine ⟨expression, hhead, hformat, ?_, Target.opens_iff_of_compileOrder h⟩
    rcases Target.orderHead_cases hhead with ⟨hempty, hbare⟩ | ⟨hopens, hbare⟩
    · exact iff_of_true hempty hbare
    · exact iff_of_false (by rw [hopens.isEmpty_eq]; exact Bool.false_ne_true) hbare
  · intro filter traits query h
    obtain ⟨selected, own, hdescribes⟩ := describes_of_ofTraits? h
    exact ⟨opens_iff_of_entries hdescribes.groups, opens_iff_of_entries hdescribes.orders⟩

theorem opens_iff_of_ofTraits?_call :
    let target : Target := ⟨.document, .empty, .sqlite⟩
    let head : Json := .array [.null, .array [.string "BIND:text", .string "a", .object [("$fn", .string "f")]]]
    let traits : Traits := { Traits.default with group := [.string "b"], order := [.array [head, .string "desc"]] }
    ¬ Bare head ∧ ∃ query, ofTraits? target .null traits = .ok query ∧
      ∃ item, query.orders = [item] ∧ (item.Opens ↔ ¬ Bare head) ∧ item.Opens := by
  intro target head traits
  have htoken : Operator.ofToken? "BIND:text" = .ok (.call .text) := rfl
  have hbare : ¬ Bare head := by
    intro h
    have hitems := (bare_array_iff fun token rest heq => by cases heq).mp h
    have hcall := hitems _ (List.mem_cons_of_mem _ List.mem_cons_self)
    obtain ⟨⟨connective, hconnective⟩, -⟩ := (bare_operator_iff htoken).mp hcall
    cases hconnective
  obtain ⟨query, hquery, item, hitem⟩ : ∃ query, ofTraits? target .null traits = .ok query ∧
      ∃ item, query.orders = [item] := ⟨_, rfl, _, rfl⟩
  obtain ⟨-, hitems⟩ := (opens_iff_of_ofTraits? target).2 .null traits query hquery
  rw [hitem] at hitems
  obtain ⟨hopens, -⟩ := List.forall₂_cons.mp hitems
  exact ⟨hbare, query, hquery, item, hitem, hopens, hopens.mpr hbare⟩

/-- Behind an empty array the words of the entry stand alone, and the statement orders by nothing. -/
theorem compileOrder_empty_head :
    let target : Target := ⟨.document, .empty, .postgres⟩
    let entry : Json := .array [.array [], .string "DESC"]
    (∃ p, target.compileOrder false entry = .ok p ∧ p.format = " DESC") ∧
      ∃ query, ofTraits? target .null { Traits.default with order := [entry] } = .ok query ∧
        query.orderText = " ORDER BY  DESC LIMIT ALL" :=
  ⟨⟨_, rfl, by decide⟩, _, rfl, by decide⟩

end Dossier.Query
