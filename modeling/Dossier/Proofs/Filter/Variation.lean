import Dossier.Proofs.Filter.Rendering

/-!
Filters that vary in their values. Text and values part ways early: a predicate whose parameters are blanked
out is compiled from a condition whose values are, and a condition keeps of a value only whether it is null, a
scalar or a container. Main statement: two filters that differ in nothing else are refused with the same fault,
or compiled to predicates that differ in their parameters only, of which they have equally many.
-/

namespace Dossier

open Sql (Fragment Predicate)

/-! ### Blanked text -/

namespace Sql

namespace Fragment

/-- The fragment with null in the place of every value. -/
def blank (fragment : Fragment) : Fragment :=
  fragment.map fun
    | .text sql => .text sql
    | .value _ => .value .null

variable (fragment other : Fragment)

@[simp] theorem blank_nil : blank [] = [] := rfl

@[simp] theorem blank_text (sql : String) : blank (.text sql :: fragment) = .text sql :: fragment.blank := rfl

@[simp] theorem blank_value (value : Json) : blank (.value value :: fragment) = .value .null :: fragment.blank := rfl

@[simp] theorem blank_append : blank (fragment ++ other) = fragment.blank ++ other.blank := List.map_append

@[simp] theorem blank_wrap (before after : String) :
    (wrap before fragment after).blank = wrap before fragment.blank after := by
  simp [wrap]

theorem formatFrom_blank (next : Nat) : formatFrom next fragment.blank = formatFrom next fragment := by
  induction fragment generalizing next with
  | nil => rfl
  | cons piece rest ih =>
      cases piece with
      | text sql => rw [blank_text, formatFrom, formatFrom, ih]
      | value v => rw [blank_value, formatFrom, formatFrom, ih]

theorem params_blank : params fragment.blank = (params fragment).map fun _ => .null := by
  induction fragment with
  | nil => rfl
  | cons piece rest ih =>
      cases piece with
      | text sql => rw [blank_text, params, params, ih]
      | value v => rw [blank_value, params, params, ih, List.map_cons]

end Fragment

namespace Predicate

/-- The predicate with null in the place of every parameter. -/
def blank (p : Predicate) : Predicate := { p with params := p.params.map fun _ => .null }

@[simp] theorem blank_note (name : String) (value : Json) (p : Predicate) :
    (p.note name value).blank = p.blank.note name value := rfl

@[simp] theorem isEmpty_blank (p : Predicate) : p.blank.isEmpty = p.isEmpty := rfl

@[simp] theorem blank_ofFragment (fragment : Fragment) : (ofFragment fragment).blank = ofFragment fragment.blank := by
  rw [ofFragment, ofFragment, Fragment.formatFrom_blank, Fragment.params_blank]
  rfl

@[simp] theorem blank_join (predicates : List Predicate) (word : String) :
    (join predicates word).blank = join (predicates.map blank) word := by
  have hkept : (predicates.map blank).filter (!·.isEmpty) = (predicates.filter (!·.isEmpty)).map blank := by
    rw [List.filter_map]
    rfl
  unfold join
  rw [hkept]
  generalize predicates.filter (!·.isEmpty) = kept
  cases kept with
  | nil => rfl
  | cons first rest =>
      have hformat : ((first :: rest).map blank).map parenthesised = (first :: rest).map parenthesised := by
        rw [List.map_map]
        rfl
      have hparams : ((first :: rest).map blank).flatMap params =
          ((first :: rest).flatMap params).map fun _ => .null := by
        rw [List.flatMap_map, List.map_flatMap]
        rfl
      change _ = (ofParts (String.intercalate (" " ++ word ++ " ") (((first :: rest).map blank).map parenthesised))
        (((first :: rest).map blank).flatMap params)).note "operator" (.string word)
      rw [hformat, hparams]
      rfl

end Predicate

end Sql

/-! ### Blanked conditions -/

/-- The values are both null, both scalars or both containers. -/
def Json.Alike (value other : Json) : Prop :=
  (value = .null ↔ other = .null) ∧ value.isContainer = other.isContainer

/-- A value that stands for all that are alike. -/
def Json.standIn (value : Json) : Json :=
  match value with
  | .null => .null
  | .array _ | .object _ => .array []
  | _ => .bool false

theorem Json.standIn_eq_of_alike {value other : Json} (h : value.Alike other) : value.standIn = other.standIn := by
  obtain ⟨hnull, hcontainer⟩ := h
  cases value <;> cases other <;> simp_all [standIn, isContainer]

namespace Target

variable (target : Target)

theorem blank_boundValue (value other : Json) (cast : Cast) :
    (target.boundValue value cast).blank = (target.boundValue other cast).blank := by
  unfold boundValue
  cases target.dialect <;> cases cast <;> rfl

/-- A comparison keeps of its value whether it is null, a scalar or a container. -/
theorem blank_comparison (key : Key) (value : Json) :
    (target.comparison key value).blank = (target.comparison key value.standIn).blank := by
  have hbound := fun other cast => target.blank_boundValue value other cast
  cases value with
  | null => rfl
  | bool _ | number _ | string _ | array _ | object _ =>
      simp only [comparison, Json.standIn, Json.isContainer, Fragment.blank_append, Fragment.blank_text,
        if_true, if_false, Bool.false_eq_true]
      rw [hbound]

theorem blank_call (inputs : List Key) (source source' : String) (extra extra' : List Json) (returns : ReturnType) :
    (target.call inputs source extra returns).blank = (target.call inputs source' extra' returns).blank := by
  unfold call
  cases target.dialect <;> cases returns <;> simp

end Target

namespace Condition

mutual

/-- The condition without what its values, sources and extra values say. -/
def blank : Condition → Condition
  | .all => .all
  | .equal key value => .equal key value.standIn
  | .call inputs _ _ returns => .call inputs "" [] returns
  | .group connective operands => .group connective (blankAll operands)

def blankAll : List Condition → List Condition
  | [] => []
  | condition :: rest => blank condition :: blankAll rest

end

variable (target : Target)

mutual

theorem blank_predicate : ∀ condition : Condition,
    (condition.predicate target).blank = (condition.blank.predicate target).blank
  | .all => rfl
  | .equal key value => by
      rw [blank, predicate, predicate, Predicate.blank_ofFragment, Predicate.blank_ofFragment,
        target.blank_comparison]
  | .call inputs source extra returns => by
      simp only [blank, predicate, Target.callPredicate, Predicate.blank_note, Predicate.blank_ofFragment]
      rw [target.blank_call inputs source "" extra []]
  | .group connective operands => by
      rw [blank, predicate, predicate, Predicate.blank_join, Predicate.blank_join, blank_predicates operands]

theorem blank_predicates : ∀ conditions : List Condition,
    (predicates target conditions).map Predicate.blank =
      (predicates target (blankAll conditions)).map Predicate.blank
  | [] => rfl
  | condition :: rest => by
      rw [blankAll, predicates, predicates, List.map_cons, List.map_cons, blank_predicate condition,
        blank_predicates rest]

end

/-! ### Filters that vary -/

/-- The members have the same name and values that are alike. -/
def MemberVaries (member other : String × Json) : Prop := member.1 = other.1 ∧ member.2.Alike other.2

/-- The array calls the evaluator. -/
def Calls : List Json → Prop
  | .string token :: _ => ∃ returns, Operator.ofToken? token = .ok (.call returns)
  | _ => False

/-- The filters differ in values that are compared with, which stay null, scalars or containers, and in the
functions of calls and the values behind them. -/
inductive Varies : Json → Json → Prop where
  | same (filter : Json) : Varies filter filter
  | object {members others : Members} (h : List.Forall₂ MemberVaries members others) :
      Varies (.object members) (.object others)
  | call {token : String} {returns : ReturnType} {before after after' : List Json} {function function' : Json}
      (htoken : Operator.ofToken? token = .ok (.call returns)) (hfunction : (function? function).isSome)
      (hfunction' : (function? function').isSome) :
      Varies (.array (.string token :: before ++ function :: after))
        (.array (.string token :: before ++ function' :: after'))
  | array {items others : List Json} (hcalls : ¬ Calls items) (hlength : items.length = others.length)
      (h : ∀ pair ∈ items.zip others, Varies pair.1 pair.2) : Varies (.array items) (.array others)

/-! ### Reading -/

variable (kind : Kind) (connective : Connective)

/-- Members that vary are read as conditions that differ in their values. -/
theorem blank_readMembers {members others : Members} (h : List.Forall₂ MemberVaries members others) :
    (readMembers kind members).map blankAll = (readMembers kind others).map blankAll := by
  induction h with
  | nil => rfl
  | @cons member other members others hmember hrest ih =>
      obtain ⟨name, value⟩ := member
      obtain ⟨name', value'⟩ := other
      obtain ⟨hname, halike⟩ := hmember
      dsimp only at hname halike
      subst hname
      rw [readMembers, readMembers]
      refine map_bind_eq_map_bind (f := id) rfl ?_
      rintro key _ rfl
      refine map_bind_eq_map_bind ih fun conditions conditions' hconditions => ?_
      change Except.ok (.equal key value.standIn :: blankAll conditions) = _
      rw [hconditions, Json.standIn_eq_of_alike halike]
      rfl

theorem contains_eq_of_varies {members others : Members} (h : List.Forall₂ MemberVaries members others)
    (name : String) : Members.contains members name = Members.contains others name := by
  induction h with
  | nil => rfl
  | @cons member other members others hmember hrest ih =>
      obtain ⟨own, value⟩ := member
      obtain ⟨own', value'⟩ := other
      obtain ⟨hname, -⟩ := hmember
      dsimp only at hname
      subst hname
      simp only [Members.contains, Members.get?] at ih ⊢
      by_cases hown : own = name
      · simp [hown]
      · simpa [hown] using ih

/-- A call is cut at its first function, and what stands before it does not depend on what follows. -/
theorem cutAtFunction_append (before after after' : List Json) {function function' : Json}
    (hfunction : (function? function).isSome) (hfunction' : (function? function').isSome) :
    ∃ inputs source source' extra extra',
      cutAtFunction (before ++ function :: after) = some (inputs, source, extra) ∧
        cutAtFunction (before ++ function' :: after') = some (inputs, source', extra') := by
  induction before with
  | nil =>
      obtain ⟨source, hsource⟩ := Option.isSome_iff_exists.mp hfunction
      obtain ⟨source', hsource'⟩ := Option.isSome_iff_exists.mp hfunction'
      refine ⟨[], source, source', after, after', ?_, ?_⟩
      · rw [List.nil_append, cutAtFunction, hsource]
      · rw [List.nil_append, cutAtFunction, hsource']
  | cons item before ih =>
      obtain ⟨inputs, source, source', extra, extra', hcut, hcut'⟩ := ih
      rw [List.cons_append, List.cons_append, cutAtFunction, cutAtFunction, hcut, hcut']
      cases function? item with
      | some own => exact ⟨[], own, own, _, _, rfl, rfl⟩
      | none => exact ⟨item :: inputs, source, source', extra, extra', rfl, rfl⟩

theorem blank_readCall {before after after' : List Json} {function function' : Json}
    (hfunction : (function? function).isSome) (hfunction' : (function? function').isSome) (returns : ReturnType) :
    (readCall kind returns (before ++ function :: after)).map blank =
      (readCall kind returns (before ++ function' :: after')).map blank := by
  obtain ⟨inputs, source, source', extra, extra', hcut, hcut'⟩ :=
    cutAtFunction_append before after after' hfunction hfunction'
  rw [readCall, readCall, hcut, hcut']
  refine map_bind_eq_map_bind (f := id) rfl ?_
  rintro keys _ rfl
  rfl

/-- The two are the same word, if they are words, and filters that are read alike. -/
def ReadAlike (item other : Json) : Prop :=
  item.string? = other.string? ∧
    (ofJson? kind connective item).map blank = (ofJson? kind connective other).map blank

theorem blank_readItems {inner : Connective} {items others : List Json}
    (h : List.Forall₂ (ReadAlike kind connective) items others) :
    (readItems kind connective inner items).map blankAll = (readItems kind connective inner others).map blankAll := by
  induction h with
  | nil => rfl
  | @cons item other items others hitem hrest ih =>
      obtain ⟨hword, hread⟩ := hitem
      by_cases hstring : ∃ token, item = .string token
      · obtain ⟨token, rfl⟩ := hstring
        cases other with
        | string token' =>
            cases hword
            rfl
        | _ => cases hword
      · have hstring' : ¬ ∃ token, other = .string token := by
          rintro ⟨token, rfl⟩
          cases item with
          | string token' => exact hstring ⟨token', rfl⟩
          | _ => cases hword
        rw [readItems, readItems]
        · refine map_bind_eq_map_bind hread fun condition condition' hcondition => ?_
          refine map_bind_eq_map_bind ih fun conditions conditions' hconditions => ?_
          change Except.ok (condition.blank :: blankAll conditions) = _
          rw [hcondition, hconditions]
          rfl
        · exact fun token htoken => hstring' ⟨token, htoken⟩
        · exact fun token htoken => hstring ⟨token, htoken⟩

theorem blank_group {inner : Connective} {items others : List Json}
    (h : List.Forall₂ (ReadAlike kind connective) items others) :
    ((readItems kind connective inner items).map (.group inner)).map blank =
      ((readItems kind connective inner others).map (.group inner)).map blank := by
  refine map_map_eq_map_map (blank_readItems kind connective h) fun conditions conditions' hconditions => ?_
  rw [blank, blank, hconditions]

/-- Arrays whose items are read alike are read alike: by the connective at their head, or as conjunctions. -/
theorem blank_ofJson?_array {items others : List Json} (hcalls : ¬ Calls items)
    (h : List.Forall₂ (ReadAlike kind connective) items others) :
    (ofJson? kind connective (.array items)).map blank = (ofJson? kind connective (.array others)).map blank := by
  by_cases hword : ∃ token rest, items = .string token :: rest
  · obtain ⟨token, rest, rfl⟩ := hword
    cases h with
    | @cons _ other _ rest' hhead hrest =>
        cases other with
        | string token' =>
            cases hhead.1
            rw [ofJson?, ofJson?]
            cases htoken : Operator.ofToken? token with
            | error fault => rfl
            | ok operator =>
                cases operator with
                | call returns => exact absurd ⟨returns, htoken⟩ hcalls
                | connective inner => exact blank_group kind connective hrest
        | _ => cases hhead.1
  · have hword' : ¬ ∃ token rest, others = .string token :: rest := by
      rintro ⟨token, rest, rfl⟩
      cases h with
      | @cons item _ rest' _ hhead hrest =>
          cases item with
          | string token' => exact hword ⟨token', rest', rfl⟩
          | _ => cases hhead.1
    rw [ofJson?, ofJson?]
    · exact blank_group kind connective h
    · exact fun token rest hitems => hword' ⟨token, rest, hitems⟩
    · exact fun token rest hitems => hword ⟨token, rest, hitems⟩

variable {kind connective}

theorem string?_eq_of_varies {filter other : Json} (h : Varies filter other) : filter.string? = other.string? := by
  cases h <;> rfl

/-- Filters that vary are refused alike, or read as conditions that differ in their values. -/
theorem blank_ofJson? {filter other : Json} (h : Varies filter other) :
    (ofJson? kind connective filter).map blank = (ofJson? kind connective other).map blank := by
  induction h with
  | same filter => rfl
  | object h =>
      rw [ofJson?, ofJson?, contains_eq_of_varies h]
      split
      · rfl
      · refine map_map_eq_map_map (blank_readMembers kind h) fun conditions conditions' hconditions => ?_
        rw [blank, blank, hconditions]
  | call htoken hfunction hfunction' =>
      rw [List.cons_append, List.cons_append, ofJson?, ofJson?, htoken]
      exact blank_readCall kind hfunction hfunction' _
  | @array items others hcalls hlength h ih =>
      apply blank_ofJson?_array kind connective hcalls
      exact List.forall₂_iff_zip.mpr ⟨hlength, fun hmem => ⟨string?_eq_of_varies (h _ hmem), ih _ hmem⟩⟩

end Condition

/-- Filters that vary are refused alike, or compiled to predicates that differ in their parameters. -/
theorem Target.blank_compile {target : Target} {filter other : Json} (h : Condition.Varies filter other)
    (matchAny : Bool) : (target.compile matchAny filter).map Predicate.blank =
      (target.compile matchAny other).map Predicate.blank := by
  refine map_map_eq_map_map (Condition.blank_ofJson? h) fun condition condition' hcondition => ?_
  rw [condition.blank_predicate, condition'.blank_predicate, hcondition]

end Dossier
