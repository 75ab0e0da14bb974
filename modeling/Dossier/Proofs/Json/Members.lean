import Dossier.Json.Basic
import Mathlib.Data.List.Nodup
import Mathlib.Data.String.Basic

/-!
Members of objects as finite maps: insertion keeps the order of names, and lists in that order with the same
members are equal.
-/

namespace Dossier.Members

/-- The names stand in order, each once. -/
def Sorted (members : Members) : Prop := members.names.Pairwise (· < ·)

instance (members : Members) : Decidable members.Sorted :=
  inferInstanceAs (Decidable (members.names.Pairwise (· < ·)))

theorem sorted_nil : Sorted [] := List.Pairwise.nil

theorem sorted_cons {name : String} {value : Json} {rest : Members} :
    Sorted ((name, value) :: rest) ↔ (∀ other ∈ rest.names, name < other) ∧ Sorted rest := List.pairwise_cons

theorem mem_names_iff {members : Members} {name : String} :
    name ∈ members.names ↔ ∃ value, (name, value) ∈ members := by simp [names]

theorem mem_of_get? {members : Members} {name : String} {value : Json} (h : members.get? name = some value) :
    (name, value) ∈ members := by
  induction members with
  | nil => cases h
  | cons member rest ih =>
      obtain ⟨key, old⟩ := member
      rw [get?] at h
      split at h
      · rename_i hkey
        cases h
        exact hkey ▸ List.mem_cons_self
      · exact List.mem_cons_of_mem _ (ih h)

theorem get?_of_mem {members : Members} (hsorted : members.Sorted) {name : String} {value : Json}
    (h : (name, value) ∈ members) : members.get? name = some value := by
  induction members with
  | nil => cases h
  | cons member rest ih =>
      obtain ⟨key, old⟩ := member
      obtain ⟨hfirst, hrest⟩ := sorted_cons.mp hsorted
      rcases List.mem_cons.mp h with heq | hmem
      · cases heq
        simp [get?]
      · have hlt : key < name := hfirst name (mem_names_iff.mpr ⟨value, hmem⟩)
        rw [get?, if_neg hlt.ne, ih hrest hmem]

theorem isSome_get?_iff {members : Members} {name : String} :
    (members.get? name).isSome ↔ name ∈ members.names := by
  induction members with
  | nil => simp [get?, names]
  | cons member rest ih =>
      obtain ⟨key, old⟩ := member
      by_cases hkey : key = name
      · simp [get?, names, hkey]
      · simpa [get?, names, hkey, Ne.symm hkey] using ih

theorem get?_eq_none_iff {members : Members} {name : String} : members.get? name = none ↔ name ∉ members.names := by
  rw [← isSome_get?_iff, Option.not_isSome_iff_eq_none]

theorem get?_insert (name : String) (value : Json) (members : Members) (other : String) :
    (insert name value members).get? other = if other = name then some value else members.get? other := by
  induction members with
  | nil => simp [insert, get?, eq_comm]
  | cons member rest ih =>
      obtain ⟨key, old⟩ := member
      rw [insert]
      split
      · rename_i hkey
        by_cases hother : other = name
        · simp [get?, hother]
        · simp [get?, hkey, hother, Ne.symm hother]
      · rename_i hkey
        split
        · by_cases hother : other = name
          · simp [get?, hother]
          · simp [get?, hother, Ne.symm hother]
        · by_cases hfound : key = other
          · simp [get?, hfound, hfound ▸ hkey]
          · simp [get?, hfound, ih]

theorem mem_names_insert {name : String} {value : Json} {members : Members} {other : String} :
    other ∈ (insert name value members).names ↔ other = name ∨ other ∈ members.names := by
  rw [← isSome_get?_iff, get?_insert, ← isSome_get?_iff]
  by_cases hother : other = name <;> simp [hother]

theorem mem_of_mem_insert {name : String} {value : Json} {members : Members} {member : String × Json}
    (h : member ∈ insert name value members) : member = (name, value) ∨ member ∈ members := by
  induction members with
  | nil => exact .inl (List.mem_singleton.mp h)
  | cons first rest ih =>
      rw [insert] at h
      split at h
      · exact (List.mem_cons.mp h).imp_right (List.mem_cons_of_mem _)
      · split at h
        · exact List.mem_cons.mp h
        · rcases List.mem_cons.mp h with rfl | hrest
          · exact .inr List.mem_cons_self
          · exact (ih hrest).imp_right (List.mem_cons_of_mem _)

theorem sorted_insert {members : Members} (h : members.Sorted) (name : String) (value : Json) :
    (insert name value members).Sorted := by
  induction members with
  | nil => exact List.pairwise_singleton _ _
  | cons member rest ih =>
      obtain ⟨key, old⟩ := member
      obtain ⟨hfirst, hrest⟩ := sorted_cons.mp h
      rw [insert]
      split
      · rename_i hkey
        exact sorted_cons.mpr ⟨hkey ▸ hfirst, hrest⟩
      · rename_i hkey
        split
        · rename_i hlt
          refine sorted_cons.mpr ⟨fun other hother => ?_, h⟩
          rcases List.mem_cons.mp hother with rfl | hmem
          · exact hlt
          · exact hlt.trans (hfirst other hmem)
        · rename_i hge
          refine sorted_cons.mpr ⟨fun other hother => ?_, ih hrest⟩
          rcases mem_names_insert.mp hother with rfl | hmem
          · exact lt_of_le_of_ne (not_lt.mp hge) hkey
          · exact hfirst other hmem

theorem get?_erase {members : Members} (h : members.Sorted) (name other : String) :
    (erase name members).get? other = if other = name then none else members.get? other := by
  induction members with
  | nil => simp [erase, get?]
  | cons member rest ih =>
      obtain ⟨key, old⟩ := member
      obtain ⟨hfirst, hrest⟩ := sorted_cons.mp h
      rw [erase]
      split
      · rename_i hkey
        subst hkey
        by_cases hother : other = key
        · have hnone : get? rest key = none := by
            rw [← Option.not_isSome_iff_eq_none, isSome_get?_iff]
            exact fun hmem => lt_irrefl key (hfirst key hmem)
          rw [if_pos hother, hother, hnone]
        · rw [if_neg hother, get?, if_neg (Ne.symm hother)]
      · rename_i hkey
        by_cases hfound : key = other
        · rw [get?, get?, if_pos hfound, if_pos hfound, if_neg (hfound ▸ hkey)]
        · rw [get?, get?, if_neg hfound, if_neg hfound, ih hrest]

theorem sorted_erase {members : Members} (h : members.Sorted) (name : String) : (erase name members).Sorted := by
  have hsublist : (erase name members).Sublist members := by
    clear h
    induction members with
    | nil => exact .slnil
    | cons member rest ih =>
        rw [erase]
        split
        · exact List.sublist_cons_self _ _
        · exact ih.cons_cons _
  exact List.Pairwise.sublist (hsublist.map Prod.fst) h

/-- Keeping some names keeps what stands under them. -/
theorem get?_filter (keep : String → Bool) (members : Members) (name : String) :
    get? (members.filter fun member => keep member.1) name = if keep name then members.get? name else none := by
  induction members with
  | nil => simp [get?]
  | cons member rest ih =>
      obtain ⟨key, value⟩ := member
      rw [List.filter_cons, get?]
      by_cases hkey : key = name
      · subst hkey
        cases hkeep : keep key with
        | true => simp [get?]
        | false => simp [ih, hkeep]
      · cases keep key with
        | true => simp [get?, hkey, ih]
        | false => simp [hkey, ih]

theorem sorted_filter {members : Members} (h : members.Sorted) (keep : String × Json → Bool) :
    Sorted (members.filter keep) := List.Pairwise.sublist (List.filter_sublist.map Prod.fst) h

/-- Members in order are determined by what is found under each name. -/
theorem Sorted.ext {members others : Members} (h : members.Sorted) (h' : others.Sorted)
    (heq : ∀ name, members.get? name = others.get? name) : members = others := by
  have hmem : ∀ member, member ∈ members ↔ member ∈ others := fun ⟨name, value⟩ =>
    ⟨fun hin => mem_of_get? ((heq name).symm.trans (get?_of_mem h hin)),
      fun hin => mem_of_get? ((heq name).trans (get?_of_mem h' hin))⟩
  have hnodup : ∀ {l : Members}, l.Sorted → l.Nodup := fun hl =>
    List.Nodup.of_map Prod.fst (List.Pairwise.imp ne_of_lt hl)
  have hperm := (List.perm_ext_iff_of_nodup (hnodup h) (hnodup h')).mpr hmem
  have hasymm : ∀ a b, a ∈ members → b ∈ others → a.1 < b.1 → b.1 < a.1 → a = b :=
    fun a b _ _ hab hba => absurd hab hba.asymm
  exact hperm.eq_of_pairwise hasymm (List.pairwise_map.mp h) (List.pairwise_map.mp h')

theorem foldl_insert {pairs : List (String × Json)} (hnames : (pairs.map Prod.fst).Nodup) (start : Members)
    (name : String) :
    (pairs.foldl (fun members pair => insert pair.1 pair.2 members) start).get? name =
      (get? pairs name).or (start.get? name) := by
  induction pairs generalizing start with
  | nil => simp [get?]
  | cons pair rest ih =>
      obtain ⟨key, value⟩ := pair
      obtain ⟨hnew, hrest⟩ := List.nodup_cons.mp hnames
      rw [List.foldl_cons, ih hrest, get?_insert, get?]
      by_cases hkey : key = name
      · have hnone : get? rest name = none := get?_eq_none_iff.mpr (hkey ▸ hnew)
        simp [hkey, hnone]
      · simp [hkey, Ne.symm hkey]

/-- Distinct pairs keep their places as members. -/
theorem get?_ofList {pairs : List (String × Json)} (hnames : (pairs.map Prod.fst).Nodup) (name : String) :
    (ofList pairs).get? name = get? pairs name := by
  rw [ofList, foldl_insert hnames]
  simp [get?]

theorem sorted_foldl_insert (pairs : List (String × Json)) {start : Members} (h : start.Sorted) :
    (pairs.foldl (fun members pair => insert pair.1 pair.2 members) start).Sorted := by
  induction pairs generalizing start with
  | nil => exact h
  | cons pair rest ih => exact ih (sorted_insert h pair.1 pair.2)

theorem sorted_ofList (pairs : List (String × Json)) : (ofList pairs).Sorted :=
  sorted_foldl_insert pairs List.Pairwise.nil

theorem ofList_of_sorted {members : Members} (h : members.Sorted) : ofList members = members :=
  (sorted_ofList members).ext h (get?_ofList (h.imp ne_of_lt))

end Dossier.Members
