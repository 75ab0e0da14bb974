import Mathlib.Data.List.Forall2
import Mathlib.Data.List.Induction

/-!
Computations that may fail, taken apart by their success.
-/

namespace Dossier

variable {ε α β : Type}

theorem bind_eq_ok_iff {x : Except ε α} {f : α → Except ε β} {b : β} :
    x >>= f = .ok b ↔ ∃ a, x = .ok a ∧ f a = .ok b := by
  cases x with
  | error fault =>
      constructor
      · intro h
        cases h
      · rintro ⟨a, h, -⟩
        cases h
  | ok a =>
      constructor
      · intro h
        exact ⟨a, rfl, h⟩
      · rintro ⟨a, h, hb⟩
        cases h
        exact hb

theorem bind_eq_error_iff {x : Except ε α} {f : α → Except ε β} {fault : ε} :
    x >>= f = .error fault ↔ x = .error fault ∨ ∃ a, x = .ok a ∧ f a = .error fault := by
  cases x with
  | error other =>
      constructor
      · intro h
        cases h
        exact .inl rfl
      · rintro (h | ⟨a, h, -⟩)
        · cases h
          rfl
        · cases h
  | ok a =>
      constructor
      · intro h
        exact .inr ⟨a, rfl, h⟩
      · rintro (h | ⟨b, h, hb⟩)
        · cases h
        · cases h
          exact hb

theorem map_eq_ok_iff {x : Except ε α} {f : α → β} {b : β} : x.map f = .ok b ↔ ∃ a, x = .ok a ∧ f a = b := by
  cases x with
  | error fault =>
      constructor
      · intro h
        cases h
      · rintro ⟨a, h, -⟩
        cases h
  | ok a =>
      constructor
      · intro h
        cases h
        exact ⟨a, rfl, rfl⟩
      · rintro ⟨a, h, rfl⟩
        cases h
        rfl

theorem exists_map_eq_ok_iff {x : Except ε α} {f : α → β} : (∃ b, x.map f = .ok b) ↔ ∃ a, x = .ok a := by
  simp only [map_eq_ok_iff]
  constructor
  · rintro ⟨b, a, ha, -⟩
    exact ⟨a, ha⟩
  · rintro ⟨a, ha⟩
    exact ⟨f a, a, ha, rfl⟩

/-- Two computations, one after the other, succeed when both do. -/
theorem exists_both_eq_ok_iff {γ : Type} {x : Except ε α} {y : Except ε β} {f : α → β → γ} :
    (∃ c, (do return f (← x) (← y)) = Except.ok c) ↔ (∃ a, x = .ok a) ∧ ∃ b, y = .ok b := by
  constructor
  · rintro ⟨c, h⟩
    obtain ⟨a, ha, h⟩ := bind_eq_ok_iff.mp h
    obtain ⟨b, hb, -⟩ := bind_eq_ok_iff.mp h
    exact ⟨⟨a, ha⟩, b, hb⟩
  · rintro ⟨⟨a, ha⟩, b, hb⟩
    exact ⟨f a b, bind_eq_ok_iff.mpr ⟨a, ha, bind_eq_ok_iff.mpr ⟨b, hb, rfl⟩⟩⟩

/-- Computations that agree up to `f` fail alike, or their results do. -/
theorem map_eq_map_cases {x y : Except ε α} {f : α → β} (h : x.map f = y.map f) :
    (∃ fault, x = .error fault ∧ y = .error fault) ∨ ∃ a b, x = .ok a ∧ y = .ok b ∧ f a = f b := by
  cases x with
  | error fault =>
      cases y with
      | error fault' =>
          cases h
          exact .inl ⟨fault, rfl, rfl⟩
      | ok b => cases h
  | ok a =>
      cases y with
      | error fault => cases h
      | ok b =>
          injection h with h
          exact .inr ⟨a, b, rfl, rfl, h⟩

/-- Computations that agree up to `f` still do up to `g`, if what follows them makes of results that agree up
to `f` results that agree up to `g`. -/
theorem map_bind_eq_map_bind {γ δ : Type} {x y : Except ε α} {next next' : α → Except ε γ} {f : α → β} {g : γ → δ}
    (h : x.map f = y.map f) (hnext : ∀ a b, f a = f b → (next a).map g = (next' b).map g) :
    (x >>= next).map g = (y >>= next').map g := by
  rcases map_eq_map_cases h with ⟨fault, rfl, rfl⟩ | ⟨a, b, rfl, rfl, hab⟩
  · rfl
  · exact hnext a b hab

theorem map_map_eq_map_map {γ δ : Type} {x y : Except ε α} {f : α → β} {make make' : α → γ} {g : γ → δ}
    (h : x.map f = y.map f) (hmake : ∀ a b, f a = f b → g (make a) = g (make' b)) :
    (x.map make).map g = (y.map make').map g := by
  rcases map_eq_map_cases h with ⟨fault, rfl, rfl⟩ | ⟨a, b, rfl, rfl, hab⟩
  · rfl
  · exact congrArg Except.ok (hmake a b hab)

/-- A list of computations succeeds when each of them does. -/
theorem mapM_eq_ok_iff {f : α → Except ε β} {l : List α} {results : List β} :
    l.mapM f = .ok results ↔ List.Forall₂ (fun a b => f a = .ok b) l results := by
  induction l generalizing results with
  | nil =>
      rw [List.mapM_nil, List.forall₂_nil_left_iff]
      constructor
      · intro h
        cases h
        rfl
      · rintro rfl
        rfl
  | cons a l ih =>
      rw [List.mapM_cons, bind_eq_ok_iff]
      constructor
      · rintro ⟨b, hb, h⟩
        obtain ⟨rest, hrest, h⟩ := bind_eq_ok_iff.mp h
        cases h
        exact List.Forall₂.cons hb (ih.mp hrest)
      · intro h
        cases h with
        | cons hb hrest => exact ⟨_, hb, bind_eq_ok_iff.mpr ⟨_, ih.mpr hrest, rfl⟩⟩

/-- A list of computations fails where one of them does. -/
theorem exists_of_mapM_eq_error {f : α → Except ε β} {l : List α} {fault : ε} (h : l.mapM f = .error fault) :
    ∃ a ∈ l, f a = .error fault := by
  induction l with
  | nil => cases h
  | cons a l ih =>
      rw [List.mapM_cons, bind_eq_error_iff] at h
      rcases h with hfirst | ⟨b, -, h⟩
      · exact ⟨a, List.mem_cons_self, hfirst⟩
      · rcases bind_eq_error_iff.mp h with hrest | ⟨_, -, hnone⟩
        · obtain ⟨other, hother, hfault⟩ := ih hrest
          exact ⟨other, List.mem_cons_of_mem _ hother, hfault⟩
        · cases hnone

theorem mapM_congr {f g : α → Except ε β} {l : List α} (h : ∀ a ∈ l, f a = g a) : l.mapM f = l.mapM g := by
  induction l with
  | nil => rfl
  | cons a l ih =>
      rw [List.mapM_cons, List.mapM_cons, h a List.mem_cons_self, ih fun b hb => h b (List.mem_cons_of_mem _ hb)]

theorem exists_of_mem_mapM {f : α → Except ε β} {l : List α} {results : List β}
    (h : l.mapM f = .ok results) {b : β} (hb : b ∈ results) : ∃ a ∈ l, f a = .ok b := by
  have hall := mapM_eq_ok_iff.mp h
  obtain ⟨index, hindex, rfl⟩ := List.mem_iff_getElem.mp hb
  have hlength := hall.length_eq
  exact ⟨l[index], List.getElem_mem _, hall.get (hlength ▸ hindex) hindex⟩

/-- What each step of a fold keeps holds of its result. -/
theorem foldlM_invariant {P : β → Prop} {f : β → α → Except ε β} {l : List α} {start result : β}
    (h : l.foldlM f start = .ok result) (hstart : P start)
    (hstep : ∀ b a b', P b → f b a = .ok b' → P b') : P result := by
  induction l generalizing start with
  | nil =>
      cases h
      exact hstart
  | cons a l ih =>
      rw [List.foldlM_cons] at h
      obtain ⟨next, hnext, h⟩ := bind_eq_ok_iff.mp h
      exact ih h (hstep start a next hstart hnext)

/-- Steps that each establish something of their own item, and keep it of all others, establish it of all items. -/
theorem foldl_established {α β : Type} {step : β → α → β} {P : β → Prop} {Q : β → α → Prop} {l : List α}
    (hstep : ∀ a ∈ l, ∀ b, P b → P (step b a) ∧ Q (step b a) a)
    (hkeep : ∀ a ∈ l, ∀ a' ∈ l, a ≠ a' → ∀ b, P b → Q b a → Q (step b a') a) (hdistinct : l.Nodup)
    {start : β} (hstart : P start) : P (l.foldl step start) ∧ ∀ a ∈ l, Q (l.foldl step start) a := by
  induction l using List.reverseRecOn with
  | nil => exact ⟨hstart, nofun⟩
  | append_singleton l last ih =>
      have hsub : ∀ a ∈ l, a ∈ l ++ [last] := fun a ha => List.mem_append_left _ ha
      have hlast : last ∈ l ++ [last] := List.mem_append_right _ (List.mem_singleton_self last)
      rw [List.nodup_append] at hdistinct
      obtain ⟨hinv, hdone⟩ := ih (fun a ha => hstep a (hsub a ha))
        (fun a ha a' ha' => hkeep a (hsub a ha) a' (hsub a' ha')) hdistinct.1
      rw [List.foldl_append, List.foldl_cons, List.foldl_nil]
      obtain ⟨hinv', hown⟩ := hstep last hlast _ hinv
      refine ⟨hinv', fun a ha => ?_⟩
      rcases List.mem_append.mp ha with hold | hnew
      · exact hkeep a ha last hlast (hdistinct.2.2 a hold last (List.mem_singleton_self last)) _ hinv (hdone a hold)
      · rw [List.mem_singleton.mp hnew]
        exact hown

/-- Where some element has a property, one of them is the last that does. -/
theorem exists_last {α : Type} {P : α → Prop} {l : List α} (h : ∃ a ∈ l, P a) :
    ∃ before last after, l = before ++ last :: after ∧ P last ∧ ∀ a ∈ after, ¬ P a := by
  induction l with
  | nil =>
      obtain ⟨a, ha, -⟩ := h
      cases ha
  | cons first rest ih =>
      by_cases hrest : ∃ a ∈ rest, P a
      · obtain ⟨before, last, after, rfl, hlast, hafter⟩ := ih hrest
        exact ⟨first :: before, last, after, rfl, hlast, hafter⟩
      · have hnone : ∀ a ∈ rest, ¬ P a := fun a ha hp => hrest ⟨a, ha, hp⟩
        obtain ⟨a, ha, hp⟩ := h
        rcases List.mem_cons.mp ha with rfl | ha
        · exact ⟨[], a, rest, rfl, hp, hnone⟩
        · exact absurd hp (hnone a ha)

/-- Elements that are each related to something are related to a list. -/
theorem exists_forall₂ {α β : Type} {R : α → β → Prop} {l : List α} (h : ∀ a ∈ l, ∃ b, R a b) :
    ∃ results, List.Forall₂ R l results := by
  induction l with
  | nil => exact ⟨[], .nil⟩
  | cons a l ih =>
      obtain ⟨b, hb⟩ := h a List.mem_cons_self
      obtain ⟨results, hresults⟩ := ih fun a ha => h a (List.mem_cons_of_mem _ ha)
      exact ⟨b :: results, .cons hb hresults⟩

theorem exists_of_mem_forall₂ {α β : Type} {R : α → β → Prop} {l : List α} {results : List β}
    (h : List.Forall₂ R l results) {a : α} (ha : a ∈ l) : ∃ b ∈ results, R a b := by
  induction h with
  | nil => cases ha
  | cons hab _ ih =>
      rcases List.mem_cons.mp ha with rfl | hrest
      · exact ⟨_, List.mem_cons_self, hab⟩
      · obtain ⟨b, hb, hab⟩ := ih hrest
        exact ⟨b, List.mem_cons_of_mem _ hb, hab⟩

/-- Two lists that one list is related to are related to each other. -/
theorem forall₂_through {α β γ : Type} {R : α → β → Prop} {S : α → γ → Prop} {T : β → γ → Prop} {l : List α}
    {left : List β} {right : List γ} (hleft : List.Forall₂ R l left) (hright : List.Forall₂ S l right)
    (h : ∀ a ∈ l, ∀ b ∈ left, ∀ c, R a b → S a c → T b c) : List.Forall₂ T left right := by
  induction hleft generalizing right with
  | nil =>
      cases hright
      exact .nil
  | @cons a b l left hab _ ih =>
      cases hright with
      | cons hac hrest =>
          refine .cons (h a List.mem_cons_self b List.mem_cons_self _ hab hac) (ih hrest fun a ha b hb => ?_)
          exact h a (List.mem_cons_of_mem _ ha) b (List.mem_cons_of_mem _ hb)

end Dossier
