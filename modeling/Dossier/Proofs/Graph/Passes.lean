import Dossier.Proofs.Graph.Union

/-!
Two passes over copies of one entity. The first pass leaves every copy covered by the first copy. Then no union of
the second pass changes the front, so what one of them has settled is not disturbed by the others. **`merge_spec`**:
a merge settles every copy with the first.
-/

namespace Dossier.Graph

variable {layout : Layout} {first other : Nat} {others : List Nat} {origin g next : Graph}

/-- The top of another copy than the first. -/
structure Beside (layout : Layout) (first other : Nat) : Prop where
  distinct : first ≠ other
  place : layout.place other = some []
  copy : layout.copy other = other

/-! ### One union -/

theorem union_spec (hlaid : Laid layout first g) (hbeside : Beside layout first other)
    (hfirst : g.isObject first = true) (hother : g.isObject other = true) :
    Unites layout first other [] first other g (g.union first other) := by
  refine unite_spec _ [] hlaid ⟨.first, hbeside.distinct, hlaid.root, hbeside.place, hbeside.copy⟩ hfirst hother
    ⟨List.nodup_nil, nofun, nofun⟩ ?_
  exact Nat.lt_succ_of_le (Nat.le_mul_self g.objectCount)

theorem union_of_not_isObject {a b : Nat} (h : ¬(g.isObject a = true ∧ g.isObject b = true)) : g.union a b = g := by
  rw [union, unite, if_pos]
  simp only [Bool.or_eq_true, Bool.not_eq_true', Bool.eq_false_iff]
  tauto

theorem union_advances (hlaid : Laid layout first g) (hbeside : Beside layout first other) :
    Advances layout first other [] g (g.union first other) := by
  by_cases hobjects : g.isObject first = true ∧ g.isObject other = true
  · exact (union_spec hlaid hbeside hobjects.1 hobjects.2).advances
  · rw [union_of_not_isObject hobjects]
    exact .refl hlaid

/-- A copy that is covered stays covered when the first is united with another one. -/
theorem Covers.advance {copy : Nat} (hlaid : Laid layout first g) (hadvances : Advances layout first copy [] g next)
    (hbeside : Beside layout first other) (hne : other ≠ copy) (h : g.Covers first other) :
    next.Covers first other := by
  have hkept : ∀ id, layout.copy id = other → ¬g.Front first id → next.nodes[id]? = g.nodes[id]? :=
    fun id hid hfront => hadvances.others id hfront (hid ▸ hne)
  refine h.grow hlaid hadvances.regroups (fun _ => hadvances.inert) hadvances.grown
    (fun id hid name target hfield => ?_) hkept .first (hlaid.root.trans hbeside.place.symm) (.inl hbeside.copy)
  exact (hlaid.kin hfield).imp_left fun h => h.trans hid

/-- A copy that is settled stays settled when the front is not changed. -/
theorem Settled.advance {copy : Nat} (hlaid : Laid layout first g) (hadvances : Advances layout first copy [] g next)
    (hfront : ∀ id, g.Front first id → next.nodes[id]? = g.nodes[id]?) (hbeside : Beside layout first other)
    (hne : other ≠ copy) (h : g.Settled first other) : next.Settled first other := by
  have hkept : ∀ id, g.Front first id ∨ layout.copy id = other → next.nodes[id]? = g.nodes[id]? := by
    intro id hid
    by_cases hin : g.Front first id
    · exact hfront id hin
    · exact hadvances.others id hin (hid.resolve_left hin ▸ hne)
  refine h.frame hkept (fun id hid name target hfield => ?_) (.inl .first) (.inr hbeside.copy)
  rcases hid with hin | hcopy
  · exact .inl (.field hin hfield)
  · exact (hlaid.kin hfield).symm.imp_right fun h => h.trans hcopy

/-! ### Passes -/

/-- What holds of the graph all the time while copies are merged. -/
structure Midway (layout : Layout) (first : Nat) (origin g : Graph) : Prop where
  laid : Laid layout first g
  regroups : Regroups origin g
  inert : ∀ id, layout.place id = none → g.nodes[id]? = origin.nodes[id]?

theorem Midway.union (h : Midway layout first origin g) (hbeside : Beside layout first other) :
    Midway layout first origin (g.union first other) := by
  have hadvances := union_advances h.laid hbeside
  exact ⟨hadvances.laid, h.regroups.trans hadvances.regroups, fun id hid =>
    (hadvances.inert hid).trans (h.inert id hid)⟩

theorem Midway.mergePass (h : Midway layout first origin g) (hothers : ∀ other ∈ others, Beside layout first other) :
    Midway layout first origin (mergePass first others g) :=
  List.foldlRecOn others _ h fun _ hnext other hmem => hnext.union (hothers other hmem)

theorem Midway.merge (h : Midway layout first origin g) (hothers : ∀ other ∈ others, Beside layout first other) :
    Midway layout first origin (g.merge (first :: others)) := (h.mergePass hothers).mergePass hothers

section

variable (hfirst : origin.isObject first = true) (hothers : ∀ other ∈ others, Beside layout first other)
  (hdistinct : others.Nodup) (h : Midway layout first origin g)

include hfirst hothers hdistinct h

theorem mergePass_covers :
    ∀ other ∈ others, origin.isObject other = true → (mergePass first others g).Covers first other := by
  refine (foldl_established (P := Midway layout first origin)
    (Q := fun g other => origin.isObject other = true → g.Covers first other) (fun other hmem g hg => ?_)
    (fun other hmem last hlast hne g hg hcovers hobject => ?_) hdistinct h).2
  · refine ⟨hg.union (hothers other hmem), fun hobject => Settled.covers ?_⟩
    exact (union_spec hg.laid (hothers other hmem) ((hg.regroups.isObject first).trans hfirst)
      ((hg.regroups.isObject other).trans hobject)).settled
  · exact (hcovers hobject).advance hg.laid (union_advances hg.laid (hothers last hlast)) (hothers other hmem) hne

theorem mergePass_settled (hcovers : ∀ other ∈ others, origin.isObject other = true → g.Covers first other) :
    ∀ other ∈ others, origin.isObject other = true → (mergePass first others g).Settled first other := by
  have hunion : ∀ other ∈ others, ∀ g, Midway layout first origin g → origin.isObject other = true →
      Unites layout first other [] first other g (g.union first other) := fun other hmem g hg hobject =>
    union_spec hg.laid (hothers other hmem) ((hg.regroups.isObject first).trans hfirst)
      ((hg.regroups.isObject other).trans hobject)
  have hidle : ∀ other, ∀ g, Midway layout first origin g → ¬origin.isObject other = true →
      g.union first other = g := fun other g hg hobject =>
    union_of_not_isObject fun h => hobject ((hg.regroups.isObject other).symm.trans h.2)
  -- all along, the copies are covered, so that no union changes the front
  refine (foldl_established
    (P := fun g => Midway layout first origin g ∧
      ∀ other ∈ others, origin.isObject other = true → g.Covers first other)
    (Q := fun g other => origin.isObject other = true → g.Settled first other) ?_ ?_ hdistinct ⟨h, hcovers⟩).2
  · rintro last hlast g ⟨hg, hcovers⟩
    refine ⟨⟨hg.union (hothers last hlast), fun other hmem hobject => ?_⟩, fun hobject =>
      (hunion last hlast g hg hobject).settled⟩
    by_cases heq : other = last
    · subst heq
      exact (hunion other hmem g hg hobject).settled.covers
    · exact (hcovers other hmem hobject).advance hg.laid (union_advances hg.laid (hothers last hlast))
        (hothers other hmem) heq
  · rintro other hmem last hlast hne g ⟨hg, hcovers⟩ hsettled hobject
    by_cases hlastObject : origin.isObject last = true
    · have hunites := hunion last hlast g hg hlastObject
      exact (hsettled hobject).advance hg.laid hunites.advances (hunites.covers (hcovers last hlast hlastObject))
        (hothers other hmem) hne
    · rw [hidle last g hg hlastObject]
      exact hsettled hobject

/-- **A merge settles all copies.** -/
theorem merge_spec :
    ∀ other ∈ others, origin.isObject other = true → (g.merge (first :: others)).Settled first other :=
  mergePass_settled hfirst hothers hdistinct (h.mergePass hothers)
    (mergePass_covers hfirst hothers hdistinct h)

end

end Dossier.Graph
