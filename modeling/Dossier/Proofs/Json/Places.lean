import Dossier.Proofs.Json.Entities
import Dossier.Proofs.Results
import Dossier.Search.Result

/-!
Places inside objects, and values put there one after another. What is put at a path leaves alone what stands
at paths that part from it, and undoes what was put below it before. Main statement: a value into which its own
parts are put, over and over and in any order, is the same value again, if each part that is not put over by a
later one stands inside objects only.
-/

namespace Dossier.Json

/-! ### Places -/

/-- What stands at a path of members. -/
def at? : List String → Json → Option Json
  | [], value => some value
  | name :: path, value => (value.get? name).bind (at? path)

@[simp] theorem at?_cons (name : String) (path : List String) (value : Json) :
    at? (name :: path) value = (value.get? name).bind (at? path) := rfl

theorem at?_append (path rest : List String) (value : Json) :
    at? (path ++ rest) value = (at? path value).bind (at? rest) := by
  induction path generalizing value with
  | nil => rfl
  | cons name path ih =>
      rw [List.cons_append, at?_cons, at?_cons]
      cases value.get? name with
      | none => rfl
      | some inner => exact ih inner

theorem at?_null {path : List String} (h : path ≠ []) : at? path .null = none := by
  cases path with
  | nil => exact absurd rfl h
  | cons name path => rfl

/-- Only objects have anything below them. -/
theorem exists_object_of_at? {value : Json} {path : List String} (hpath : path ≠ []) (h : (at? path value).isSome) :
    ∃ members, value = .object members := by
  cases path with
  | nil => exact absurd rfl hpath
  | cons name path =>
      cases value with
      | object members => exact ⟨members, rfl⟩
      | _ => cases h

/-! ### Putting one value -/

theorem nest_nil (value slot : Json) : nest [] value slot = value := rfl

theorem get?_nest_cons (name : String) (path : List String) (value slot : Json) (other : String) :
    (nest (name :: path) value slot).get? other =
      if other = name then some (nest path value ((slot.get? name).getD .null)) else slot.get? other := by
  have hget : ∀ name, Members.get? ((slot.object?).getD []) name = slot.get? name := by
    intro name
    cases slot <;> rfl
  rw [nest]
  change Members.get? (Members.insert _ _ _) other = _
  rw [Members.get?_insert, hget, hget]

/-- What is put below a path changes what stands there. -/
theorem at?_nest_append (path rest : List String) (value slot : Json) :
    at? path (nest (path ++ rest) value slot) = some (nest rest value ((at? path slot).getD .null)) := by
  induction path generalizing slot with
  | nil => rfl
  | cons name path ih =>
      rw [List.cons_append, at?_cons, get?_nest_cons, if_pos rfl, Option.bind_some, ih, at?_cons]
      cases slot.get? name with
      | some inner => rfl
      | none =>
          rw [Option.getD_none, Option.bind_none, Option.getD_none]
          cases path <;> rfl

/-- What is put at a path leaves alone what stands at a path that parts from it. -/
theorem at?_nest_of_unrelated {path other : List String} (h : ¬ path <+: other) (h' : ¬ other <+: path)
    (value slot : Json) : at? path (nest other value slot) = at? path slot := by
  induction path generalizing other slot with
  | nil => exact absurd List.nil_prefix h
  | cons name path ih =>
      cases other with
      | nil => exact absurd List.nil_prefix h'
      | cons name' other =>
          rw [at?_cons, at?_cons, get?_nest_cons]
          by_cases hname : name = name'
          · subst hname
            rw [List.prefix_cons_inj] at h h'
            rw [if_pos rfl, Option.bind_some, ih h h']
            cases slot.get? name with
            | some inner => rfl
            | none =>
                have hpath : path ≠ [] := fun hnil => h (hnil ▸ List.nil_prefix)
                exact at?_null hpath
          · rw [if_neg hname]

/-! ### Putting many -/

/-- Puts a value at each of the paths, in their order. -/
def put (value : List String → Json) (paths : List (List String)) (slot : Json) : Json :=
  paths.foldl (fun slot path => nest path (value path) slot) slot

/-- The rest of the paths that go through a path, in their order. -/
def behind (path : List String) (paths : List (List String)) : List (List String) :=
  paths.filterMap path.isPrefixOf?

/-- What is put at the path is not put over by anything that comes later. -/
def Lasts (paths : List (List String)) (path : List String) : Prop :=
  ∃ before after, paths = before ++ path :: after ∧ ∀ later ∈ after, ¬ later <+: path

theorem mem_behind_iff {path rest : List String} {paths : List (List String)} :
    rest ∈ behind path paths ↔ path ++ rest ∈ paths := by
  simp [behind, List.isPrefixOf?_eq_some_iff_append_eq]

theorem isPrefixOf?_append (path rest : List String) : path.isPrefixOf? (path ++ rest) = some rest :=
  List.isPrefixOf?_eq_some_iff_append_eq.mpr rfl

theorem isPrefixOf?_eq_none {path other : List String} (h : ¬ path <+: other) : path.isPrefixOf? other = none := by
  cases hrest : path.isPrefixOf? other with
  | none => rfl
  | some rest => exact absurd ⟨rest, List.isPrefixOf?_eq_some_iff_append_eq.mp hrest⟩ h

theorem behind_append_cons (path rest : List String) (paths : List (List String)) :
    behind path ((path ++ rest) :: paths) = rest :: behind path paths :=
  List.filterMap_cons_some (isPrefixOf?_append path rest)

theorem behind_cons_of_unrelated {path other : List String} (h : ¬ path <+: other) (paths : List (List String)) :
    behind path (other :: paths) = behind path paths :=
  List.filterMap_cons_none (isPrefixOf?_eq_none h)

theorem lasts_of_suffix (before : List (List String)) {paths : List (List String)} {path : List String}
    (h : Lasts paths path) : Lasts (before ++ paths) path := by
  obtain ⟨front, after, rfl, hafter⟩ := h
  exact ⟨before ++ front, after, (List.append_assoc _ _ _).symm, hafter⟩

theorem not_lasts_nil (path : List String) : ¬ Lasts [] path := by
  rintro ⟨before, after, hnil, -⟩
  exact absurd hnil (by simp)

theorem lasts_cons_iff {first path : List String} {paths : List (List String)} : Lasts (first :: paths) path ↔
    (first = path ∧ ∀ later ∈ paths, ¬ later <+: path) ∨ Lasts paths path := by
  constructor
  · rintro ⟨before, after, hsplit, hafter⟩
    cases before with
    | nil =>
        cases hsplit
        exact .inl ⟨rfl, hafter⟩
    | cons other before =>
        cases hsplit
        exact .inr ⟨before, after, rfl, hafter⟩
  · rintro (⟨rfl, hafter⟩ | h)
    · exact ⟨[], paths, rfl, hafter⟩
    · exact lasts_of_suffix [first] h

theorem exists_lasts {paths : List (List String)} (h : paths ≠ []) : ∃ path, Lasts paths path :=
  ⟨paths.getLast h, paths.dropLast, [], (List.dropLast_append_getLast h).symm, nofun⟩

/-- What lasts behind a path lasts, where nothing is put above the path. -/
theorem Lasts.of_behind {path rest : List String} {paths : List (List String)}
    (habove : ∀ other ∈ paths, other <+: path → other = path) (h : Lasts (behind path paths) rest) :
    Lasts paths (path ++ rest) := by
  obtain ⟨front, later, hsplit, hlater⟩ := h
  obtain ⟨before, tail, rfl, -, htail⟩ := List.filterMap_eq_append_iff.mp hsplit
  obtain ⟨skipped, own, after, rfl, -, hown, rfl⟩ := List.filterMap_eq_cons_iff.mp htail
  obtain rfl := List.isPrefixOf?_eq_some_iff_append_eq.mp hown
  refine ⟨before ++ skipped, after, by simp, fun other hother hover => ?_⟩
  have hmem : other ∈ before ++ (skipped ++ (path ++ rest) :: after) := by simp [hother]
  have hthrough : path <+: other := by
    rcases List.prefix_or_prefix_of_prefix hover (List.prefix_append path rest) with habove' | hthrough
    · exact habove other hmem habove' ▸ List.prefix_refl _
    · exact hthrough
  obtain ⟨more, rfl⟩ := hthrough
  exact hlater more (mem_behind_iff.mpr hother) ((List.prefix_append_right_inj path).mp hover)

variable {value : List String → Json}

theorem put_cons (path : List String) (paths : List (List String)) (slot : Json) :
    put value (path :: paths) slot = put value paths (nest path (value path) slot) := rfl

theorem put_append (before after : List (List String)) (slot : Json) :
    put value (before ++ after) slot = put value after (put value before slot) := List.foldl_append

/-- What stands at a path in the end, where nothing is put above it: what was put through it. -/
theorem at?_put {path : List String} {paths : List (List String)} (slot : Json)
    (habove : ∀ other ∈ paths, other <+: path → other = path) :
    at? path (put value paths slot) =
      if behind path paths = [] then at? path slot
      else some (put (fun rest => value (path ++ rest)) (behind path paths) ((at? path slot).getD .null)) := by
  induction paths generalizing slot with
  | nil => rfl
  | cons other paths ih =>
      have hrest := ih (nest other (value other) slot) fun p hp => habove p (List.mem_cons_of_mem other hp)
      rw [put_cons, hrest]
      by_cases hthrough : path <+: other
      · obtain ⟨rest, rfl⟩ := hthrough
        rw [behind_append_cons, if_neg (List.cons_ne_nil _ _), put_cons, at?_nest_append, Option.getD_some]
        split
        · rename_i hnil
          rw [hnil]
          rfl
        · rfl
      · have habove' : ¬ other <+: path := fun h =>
          hthrough (habove other List.mem_cons_self h ▸ List.prefix_refl path)
        rw [behind_cons_of_unrelated hthrough, at?_nest_of_unrelated hthrough habove']

/-- Putting values into an object makes an object. -/
theorem put_object (value : List String → Json) {paths : List (List String)} (hpaths : [] ∉ paths) {members : Members}
    (h : members.Sorted) :
    ∃ result : Members, put value paths (.object members) = .object result ∧ result.Sorted := by
  induction paths generalizing members with
  | nil => exact ⟨members, rfl, h⟩
  | cons path paths ih =>
      rw [List.mem_cons, not_or] at hpaths
      obtain ⟨name, path, rfl⟩ := List.exists_cons_of_ne_nil (Ne.symm hpaths.1)
      exact ih hpaths.2 (Members.sorted_insert h name _)

/-! ### Looking up -/

variable {element : List Json → String → Option Json}

/-- What a path leads to, through members of objects and through elements of arrays. -/
def lookup (element : List Json → String → Option Json) : List String → Json → Option Json
  | [], value => some value
  | name :: path, .object members => (Members.get? members name).bind (lookup element path)
  | name :: path, .array items => (element items name).bind (lookup element path)
  | _ :: _, _ => none

theorem lookup_append (path rest : List String) (value : Json) :
    lookup element (path ++ rest) value = (lookup element path value).bind (lookup element rest) := by
  induction path generalizing value with
  | nil => rfl
  | cons name path ih =>
      cases value with
      | object members =>
          rw [List.cons_append, lookup, lookup, Option.bind_assoc]
          exact congrArg _ (funext ih)
      | array items =>
          rw [List.cons_append, lookup, lookup, Option.bind_assoc]
          exact congrArg _ (funext ih)
      | _ => rfl

/-- A path whose first part stands inside objects only is looked up from there. -/
theorem lookup_append_of_at? (element : List Json → String → Option Json) {path : List String}
    {value inner : Json} (h : at? path value = some inner) (rest : List String) :
    lookup element (path ++ rest) value = lookup element rest inner := by
  induction path generalizing value with
  | nil =>
      cases h
      rfl
  | cons name path ih =>
      cases value with
      | object members =>
          obtain ⟨member, hmember, h⟩ := Option.bind_eq_some_iff.mp h
          change Members.get? members name = some member at hmember
          rw [List.cons_append, lookup, hmember]
          exact ih h
      | _ => cases h

theorem lookup_of_at? (element : List Json → String → Option Json) {path : List String} {value inner : Json}
    (h : at? path value = some inner) : lookup element path value = some inner := by
  have hlookup := lookup_append_of_at? element h []
  rwa [List.append_nil] at hlookup

theorem lookup_mem_parts (helement : ∀ items name item, element items name = some item → item ∈ items)
    {path : List String} {value found : Json} (h : lookup element path value = some found) :
    found ∈ value.parts := by
  induction path generalizing value with
  | nil =>
      cases h
      exact self_mem_parts _
  | cons name path ih =>
      cases value with
      | object members =>
          obtain ⟨member, hmember, h⟩ := Option.bind_eq_some_iff.mp h
          exact parts_of_mem_members (Members.mem_of_get? hmember) (ih h)
      | array items =>
          obtain ⟨item, hitem, h⟩ := Option.bind_eq_some_iff.mp h
          exact parts_of_mem_items (helement items name item hitem) (ih h)
      | _ => cases h

/-! ### Putting a value's own parts -/

/-- What is looked up at the path, or null where there is nothing. -/
def found (element : List Json → String → Option Json) (stored : Json) (path : List String) : Json :=
  (lookup element path stored).getD .null

theorem found_eq {stored value : Json} {path : List String} (h : lookup element path stored = some value) :
    found element stored path = value := by
  rw [found, h, Option.getD_some]

/-- What is put at the value's own place starts it again. -/
theorem put_found_append_nil (before after : List (List String)) (stored slot : Json) :
    put (found element stored) (before ++ [] :: after) slot = put (found element stored) after stored := by
  rw [put_append, put_cons]
  rfl

/-- The value stays what it is, whatever lasting parts of it are put back inside objects. -/
def Restored (element : List Json → String → Option Json) (stored : Json) : Prop :=
  ∀ paths, (∀ path, Lasts paths path → (at? path stored).isSome) → put (found element stored) paths stored = stored

/-- What is put at the value's own place need not be looked at. -/
theorem restored_of_below {stored : Json} (h : ∀ paths, [] ∉ paths →
    (∀ path, Lasts paths path → (at? path stored).isSome) → put (found element stored) paths stored = stored) :
    Restored element stored := by
  intro paths hlasts
  by_cases hown : [] ∈ paths
  · obtain ⟨before, _, after, rfl, rfl, hafter⟩ := exists_last ⟨[], hown, rfl⟩
    rw [put_found_append_nil]
    have hbelow : [] ∉ after := fun hmem => hafter [] hmem rfl
    refine h after hbelow fun path hpath => hlasts path ?_
    rw [List.append_cons]
    exact lasts_of_suffix _ hpath
  · exact h paths hown hlasts

theorem found_append {stored value : Json} {above : List String} (h : lookup element above stored = some value) :
    (fun rest => found element stored (above ++ rest)) = found element value := by
  funext rest
  rw [found, lookup_append, h]
  rfl

/-- What is put through a place leaves what is looked up there as it is, if that stays what it is whatever parts
are put back, and the lasting ones stand inside objects of it. -/
theorem exists_put_behind {stored : Json} {above : List String} {paths : List (List String)}
    (hnone : behind above paths ≠ []) (hrestored : ∀ value, lookup element above stored = some value →
      Restored element value)
    (h : ∀ rest, Lasts (behind above paths) rest →
      ∃ value, lookup element above stored = some value ∧ (at? rest value).isSome) :
    ∃ value, lookup element above stored = some value ∧
      put (fun rest => found element stored (above ++ rest)) (behind above paths) value = value := by
  obtain ⟨first, hfirst⟩ := exists_lasts hnone
  obtain ⟨value, hvalue, -⟩ := h first hfirst
  refine ⟨value, hvalue, ?_⟩
  rw [found_append hvalue]
  refine hrestored value hvalue _ fun rest hrest => ?_
  obtain ⟨value', hvalue', hsome⟩ := h rest hrest
  rw [hvalue] at hvalue'
  cases hvalue'
  exact hsome

theorem restored_object {members : Members} (hsorted : members.Sorted)
    (ih : ∀ member ∈ members, Restored element member.2) : Restored element (.object members) := by
  apply restored_of_below
  intro paths hbelow hlasts
  obtain ⟨result, hput, hresult⟩ := put_object (found element (.object members)) hbelow hsorted
  rw [hput]
  refine congrArg Json.object (hresult.ext hsorted fun name => ?_)
  -- nothing but the object itself stands above a member
  have habove : ∀ other ∈ paths, other <+: [name] → other = [name] := by
    intro other hother hover
    rcases List.prefix_cons_iff.mp hover with rfl | ⟨rest, rfl, hrest⟩
    · exact absurd hother hbelow
    · rw [List.prefix_nil.mp hrest]
  have hat : ∀ value : Members, at? [name] (.object value) = value.get? name := fun _ => Option.bind_fun_some _
  have hlookup : lookup element [name] (.object members) = members.get? name := Option.bind_fun_some _
  rw [← hat, ← hput, at?_put _ habove, hat]
  split
  · rfl
  · rename_i hnone
    have hmembers : ∀ inner, lookup element [name] (.object members) = some inner → Restored element inner :=
      fun inner hinner => ih (name, inner) (Members.mem_of_get? (hlookup.symm.trans hinner))
    obtain ⟨inner, hinner, hsame⟩ := exists_put_behind hnone hmembers fun rest hrest => by
      have hsome : ((members.get? name).bind (at? rest)).isSome := hlasts _ (hrest.of_behind habove)
      obtain ⟨value, hvalue⟩ := Option.isSome_iff_exists.mp hsome
      obtain ⟨inner, hinner, hvalue⟩ := Option.bind_eq_some_iff.mp hvalue
      exact ⟨inner, hlookup.trans hinner, by rw [hvalue]; rfl⟩
    rw [← hlookup, hinner, Option.getD_some, hsame]

theorem restored_of_not_object {stored : Json} (h : ∀ members, stored ≠ .object members) :
    Restored element stored := by
  apply restored_of_below
  intro paths hbelow hlasts
  by_cases hnone : paths = []
  · rw [hnone]
    rfl
  · obtain ⟨path, hpath⟩ := exists_lasts hnone
    have hmem : path ∈ paths := by
      obtain ⟨before, after, rfl, -⟩ := hpath
      simp
    obtain ⟨members, hmembers⟩ := exists_object_of_at? (ne_of_mem_of_not_mem hmem hbelow) (hlasts path hpath)
    exact absurd hmembers (h members)

/-- **Parts put back.** A value into which its own parts are put stays what it is, if each of them that lasts
stands inside objects. -/
theorem put_found_self {stored : Json} (hordered : stored.Ordered) : Restored element stored := by
  induction stored using induct with
  | scalar value hscalar =>
      apply restored_of_not_object
      rintro members rfl
      cases hscalar
  | array items ih => exact restored_of_not_object nofun
  | object members ih =>
      obtain ⟨hsorted, hmembers⟩ := ordered_object.mp hordered
      exact restored_object hsorted fun member hmember => ih member hmember (hmembers member hmember)

/-! ### Reading back -/

/-- The path leads to what it leads to in the stored value; where that has nothing, to nothing or null. -/
def ReadsBack (element : List Json → String → Option Json) (stored record : Json) (path : List String) : Prop :=
  match lookup element path stored with
  | some value => lookup element path record = some value
  | none => ∀ value, lookup element path record = some value → value = .null

/-- What was put last above a path, or at it, stands there in the end as it was stored, with what was put below
it since then put into it. -/
theorem at?_put_of_last (element : List Json → String → Option Json) (stored slot : Json)
    (before : List (List String)) {after : List (List String)} {path : List String}
    (hlast : ∀ other ∈ after, ¬ other <+: path) :
    at? path (put (found element stored) (before ++ path :: after) slot) =
      some (put (fun rest => found element stored (path ++ rest)) (behind path after) (found element stored path)) := by
  have habove : ∀ other ∈ after, other <+: path → other = path := fun other hother hover =>
    absurd hover (hlast other hother)
  have hat : ∀ value, at? path (nest path (found element stored path) value) = some (found element stored path) := by
    intro value
    have hnest := at?_nest_append path [] (found element stored path) value
    rwa [List.append_nil, nest_nil] at hnest
  rw [put_append, put_cons, at?_put _ habove, hat]
  split
  · rename_i hnone
    rw [hnone]
    rfl
  · rfl

/-- Below a place that is as it was stored, paths read back. -/
theorem readsBack_of_at? {stored record : Json} {above : List String}
    (h : at? above record = some (found element stored above)) (rest : List String) :
    ReadsBack element stored record (above ++ rest) := by
  rw [ReadsBack, lookup_append, lookup_append_of_at? element h, found]
  cases lookup element above stored with
  | some value =>
      rw [Option.bind_some, Option.getD_some]
      split
      · assumption
      · rename_i hnone
        rw [hnone]
        exact nofun
  | none =>
      intro value hvalue
      cases rest with
      | nil =>
          cases hvalue
          rfl
      | cons name rest => cases hvalue

/-- A path reads back, if whatever lasts below a path above it stands inside objects there. -/
theorem readsBack_put (helement : ∀ items name item, element items name = some item → item ∈ items)
    {stored : Json} (hordered : stored.Ordered) {paths : List (List String)} {path : List String}
    (hpath : path ∈ paths) (slot : Json)
    (h : ∀ above ∈ paths, above <+: path → ∀ rest ≠ [], Lasts paths (above ++ rest) →
      ∃ value, lookup element above stored = some value ∧ (at? rest value).isSome) :
    ReadsBack element stored (put (found element stored) paths slot) path := by
  obtain ⟨before, above, after, rfl, habovepath, hlast⟩ :=
    exists_last (P := (· <+: path)) ⟨path, hpath, List.prefix_refl path⟩
  obtain ⟨rest, rfl⟩ := habovepath
  have hlast' : ∀ other ∈ after, ¬ other <+: above := fun other hother hover =>
    hlast other hother (hover.trans (List.prefix_append above rest))
  have hat := at?_put_of_last element stored slot before hlast'
  by_cases hnone : behind above after = []
  · rw [hnone] at hat
    exact readsBack_of_at? hat rest
  · -- something was put below, and what lasts of it are parts of the value put above
    have hbelow : ∀ rest, Lasts (behind above after) rest →
        ∃ value, lookup element above stored = some value ∧ (at? rest value).isSome := by
      intro rest hrest
      have hmem : above ++ rest ∈ after := by
        obtain ⟨front, later, hsplit, -⟩ := hrest
        exact mem_behind_iff.mp (by simp [hsplit])
      have hne : rest ≠ [] := by
        rintro rfl
        exact hlast' _ hmem (by simp)
      have hlasts : Lasts (before ++ above :: after) (above ++ rest) := by
        rw [List.append_cons]
        exact lasts_of_suffix _ (hrest.of_behind fun other hother hover => absurd hover (hlast' other hother))
      exact h above (by simp) (List.prefix_append _ _) rest hne hlasts
    obtain ⟨value, hvalue, hsame⟩ := exists_put_behind hnone
      (fun value hvalue => put_found_self (hordered.part (lookup_mem_parts helement hvalue))) hbelow
    rw [found_eq hvalue, hsame, ← found_eq hvalue] at hat
    exact readsBack_of_at? hat rest

/-- What lasts below a path that reads back stands inside objects there. -/
theorem at?_of_readsBack {stored slot : Json} {paths : List (List String)} {above rest : List String}
    (hrest : rest ≠ []) (hlasts : Lasts paths (above ++ rest))
    (h : ReadsBack element stored (put (found element stored) paths slot) above) :
    ∃ value, lookup element above stored = some value ∧ (at? rest value).isSome := by
  obtain ⟨before, after, rfl, hlast⟩ := hlasts
  have hat := at?_put_of_last element stored slot before hlast
  rw [at?_append] at hat
  obtain ⟨value, hvalue, hinner⟩ := Option.bind_eq_some_iff.mp hat
  have hlookup := lookup_of_at? element hvalue
  rw [ReadsBack] at h
  split at h
  · rename_i found hfound
    rw [hlookup] at h
    cases h
    exact ⟨value, hfound, by rw [hinner]; rfl⟩
  · obtain rfl := h value hlookup
    rw [at?_null hrest] at hinner
    cases hinner

end Dossier.Json
