import Dossier.Proofs.Filter.Truth
import Dossier.Proofs.Json.Members
import Dossier.Proofs.Search.Restriction

/-!
The types of the documents that a filter lets through. The type of a document decides what comparisons with the column
of types are worth, and nothing else. A filter negates nothing, so it lets a document of a type through exactly if it
does where every other comparison and every call is met. Main statement: `finds_iff_admits`.
-/

namespace Dossier

open Sql (Fragment Predicate grouped numbered numberedFrom)

variable {target : Target} {matchAny : Bool} {filter : Json} {condition : Condition} {type : Option String}

/-! ### Conditions -/

/-- A document of the type has the type that a parameter names, if it names one. -/
def Json.fits (type : Option String) : Json → Bool
  | .string name => type == some name
  | _ => true

namespace Condition

/-- A document of the type can meet the comparison. -/
def admitsValue (type : Option String) (key : Key) (value : Json) : Bool :=
  if key = .column .typeName false then
    match value with
    | .null => type.isNone
    | named => named.fits type
  else true

mutual

/-- A document of the type can meet the condition, where it meets all that does not ask for its type. Operands that
every record meets are left out, as they are when the condition is compiled. -/
def admits (type : Option String) : Condition → Bool
  | .all => true
  | .equal key value => admitsValue type key value
  | .call _ _ _ _ => true
  | .group connective operands => connective.combine (admitsEach type operands)

def admitsEach (type : Option String) : List Condition → List Bool
  | [] => []
  | condition :: rest =>
    if condition.formula.size = 0 then admitsEach type rest else admits type condition :: admitsEach type rest

end

end Condition

namespace Target

/-! ### Documents -/

/-- The comparison that is met by documents without a type. -/
def untyped : String := "\"type\" IS NULL"

/-- What comparisons and calls are worth for a document of the type, where `bound` are the parameters: comparisons with
its type are worth what they say. -/
structure Depicts (truth : String → Bool) (bound : List Json) (type : Option String) : Prop where
  named : ∀ {number name}, bound[number]? = some (.string name) →
    (truth (String.ofList (typeEquality number)) = true ↔ type = some name)
  unnamed : truth untyped = true ↔ type = none

/-- Some document of the type meets the text with these parameters, whatever else the document holds. -/
def Finds (bound : List Json) (text : List Char) (type : Option String) : Prop :=
  ∃ (tree : OperatorTree) (truth : String → Bool), tree.Sound ∧ tree.text = text ∧ Depicts truth bound type ∧
    tree.meets truth = true

/-- The most that a comparison or call is worth for a document of the type. -/
def allows (bound : List Json) (type : Option String) (text : String) : Bool :=
  (text != untyped || type.isNone) && (List.range bound.length).all fun number =>
    text != String.ofList (typeEquality number) || bound[number]?.all (Json.fits type)

variable {bound : List Json} {truth : String → Bool} {text : String} {value : Json} {number position next : Nat}

theorem typeEquality_inj {k m : Nat} (h : typeEquality k = typeEquality m) : k = m :=
  Sql.numbered_inj (List.append_cancel_left h)

theorem typeEquality_ne_untyped (number : Nat) : typeEquality number ≠ untyped.toList := nofun

theorem allows_eq_true_iff : allows bound type text = true ↔ (text.toList = untyped.toList → type = none) ∧
    ∀ number value, bound[number]? = some value → text.toList = typeEquality number → value.fits type = true := by
  have htext : ∀ number, text = String.ofList (typeEquality number) ↔ text.toList = typeEquality number := by
    intro number
    rw [← String.toList_inj, String.toList_ofList]
  simp only [allows, Bool.and_eq_true, Bool.or_eq_true, bne_iff_ne, ne_eq, List.all_eq_true, List.mem_range, htext,
    ← String.toList_inj, Option.isNone_iff_eq_none, ← imp_iff_not_or]
  refine and_congr_right fun _ => ⟨fun h number value hvalue hname => ?_, fun h number hnumber hname => ?_⟩
  · have hfits := h number (List.getElem?_eq_some_iff.mp hvalue).1 hname
    rwa [hvalue] at hfits
  · rw [List.getElem?_eq_getElem hnumber]
    exact h number _ (List.getElem?_eq_getElem hnumber) hname

theorem fits_named {name : String} : (Json.string name).fits type = true ↔ type = some name := beq_iff_eq

/-- The comparison of the type with a parameter is worth what the parameter says. -/
theorem allows_typeEquality (hvalue : bound[number]? = some value) :
    allows bound type (String.ofList (typeEquality number)) = value.fits type := by
  rw [Bool.eq_iff_iff, allows_eq_true_iff, String.toList_ofList]
  constructor
  · exact fun h => h.2 number value hvalue rfl
  · intro hfits
    refine ⟨fun h => absurd h (typeEquality_ne_untyped number), fun other value' hvalue' hname => ?_⟩
    obtain rfl := typeEquality_inj hname
    obtain rfl := Option.some.inj (hvalue.symm.trans hvalue')
    exact hfits

theorem allows_untyped : allows bound type untyped = type.isNone := by
  rw [Bool.eq_iff_iff, allows_eq_true_iff, Option.isNone_iff_eq_none]
  refine ⟨fun h => h.1 rfl, fun h => ⟨fun _ => h, fun number _ _ hname => ?_⟩⟩
  exact absurd hname.symm (typeEquality_ne_untyped number)

theorem depicts_allows : Depicts (allows bound type) bound type where
  named hname := by rw [allows_typeEquality hname, fits_named]
  unnamed := by rw [allows_untyped, Option.isNone_iff_eq_none]

/-- Nothing is worth more. -/
theorem Depicts.le_allows (h : Depicts truth bound type) (text : String) (htrue : truth text = true) :
    allows bound type text = true := by
  refine allows_eq_true_iff.mpr ⟨fun huntyped => ?_, fun number value hvalue hname => ?_⟩
  · rw [String.toList_inj.mp huntyped] at htrue
    exact h.unnamed.mp htrue
  · cases value with
    | string name =>
        rw [← String.ofList_toList (s := text), hname] at htrue
        exact fits_named.mpr ((h.named hvalue).mp htrue)
    | _ => rfl

/-! ### Comparisons and calls -/

/-- The text begins otherwise than comparisons with the type do. -/
def apart : List Char → Bool
  | [] => false
  | c :: rest => c != '"' || rest.head?.any (· != 't')

theorem apart_append {text : List Char} (h : apart text = true) (rest : List Char) : apart (text ++ rest) = true := by
  match text with
  | [c] =>
      rw [apart, List.head?_nil, Option.any_none, Bool.or_false] at h
      rw [List.singleton_append, apart, h, Bool.true_or]
  | _ :: _ :: _ => exact h

theorem apart_numberedFrom {text : List Char} (h : apart text = true) (next : Nat) :
    apart (numberedFrom next text) = true := by
  match text with
  | c :: rest =>
      by_cases hc : c = '"'
      · -- a quotation mark stays what it is, and so does the character behind it
        subst hc
        have hquote : '$' ∉ ['"'] := by decide
        have hnumbered : numberedFrom next ('"' :: rest) = '"' :: numberedFrom next rest :=
          Sql.numberedFrom_plain_append next hquote rest
        rw [hnumbered]
        match rest with
        | d :: behind =>
            obtain ⟨behind', hbehind⟩ := Sql.exists_numberedFrom_cons next d behind
            rw [hbehind]
            exact h
      · obtain ⟨behind, hbehind⟩ := Sql.exists_numberedFrom_cons next c rest
        rw [hbehind, apart, bne_iff_ne.mpr hc, Bool.true_or]

/-- The text of a comparison or call with its placeholders numbered on from `next`. -/
def textFrom (next : Nat) (fragment : Fragment) : String :=
  String.ofList (numberedFrom next (Fragment.formatFrom 0 fragment).toList)

theorem allows_of_apart (h : apart text.toList = true) : allows bound type text = true := by
  refine allows_eq_true_iff.mpr ⟨fun huntyped => ?_, fun number _ _ hname => ?_⟩
  · rw [huntyped] at h
    cases h
  · rw [hname] at h
    cases h

theorem allows_textFrom_of_apart {fragment : Fragment} (h : apart (Fragment.formatFrom 0 fragment).toList = true) :
    allows bound type (textFrom next fragment) = true := by
  apply allows_of_apart
  rw [textFrom, String.toList_ofList]
  exact apart_numberedFrom h next

theorem apart_text {sql : String} (h : apart sql.toList = true) (next : Nat) (rest : Fragment) :
    apart (Fragment.formatFrom next (.text sql :: rest)).toList = true := by
  rw [Fragment.formatFrom, String.toList_append]
  exact apart_append h _

/-- The column of types aside, what is compared does not begin as comparisons with the type do. -/
theorem apart_extraction {key : Key} (hkind : target.kind = .document) (hkey : key.IsOf target.kind)
    (hother : key ≠ .column .typeName false) (raw : Bool) (after : Fragment) :
    apart (Fragment.formatFrom next (target.extraction key raw ++ after)).toList = true := by
  rw [Fragment.formatFrom_append, String.toList_append]
  apply apart_append
  cases key with
  | column c epoch =>
      cases epoch with
      | false =>
          have hall : ∀ c ∈ Kind.document.columns, c ≠ .typeName →
              apart (Sql.quoteIdentifier c.name).toList = true := by
            decide
          rw [Key.IsOf, hkind] at hkey
          exact apart_text (hall c hkey fun hc => hother (by rw [hc])) _ _
      | true =>
          have hepoch : ∀ dialect column, apart (epochOf dialect column).toList = true := by
            intro dialect column
            unfold epochOf
            cases dialect <;> rw [String.toList_append, String.toList_append]
            · exact apart_append (apart_append (by decide) _) _
            · exact apart_append (apart_append (by decide) _) _
          exact apart_text (hepoch _ _) _ _
  | path segments =>
      have hpayload : ∀ arrow : String, apart (target.payloadColumn ++ arrow).toList = true := by
        intro arrow
        have hcolumn : apart (Sql.quoteIdentifier Kind.document.payload).toList = true := by decide
        rw [String.toList_append, payloadColumn, hkind]
        exact apart_append hcolumn _
      simp only [extraction]
      split
      · exact apart_text (hpayload _) _ _
      · exact apart_text (hpayload _) _ _
      · exact apart_text (hpayload _) _ _

theorem apart_castExpression {key : Key} (hkind : target.kind = .document) (hkey : key.IsOf target.kind)
    (hother : key ≠ .column .typeName false) (cast : Cast) (after : Fragment) :
    apart (Fragment.formatFrom next (target.castExpression key cast ++ after)).toList = true := by
  unfold castExpression
  split
  · exact apart_extraction hkind hkey hother false after
  · exact apart_extraction hkind hkey hother true after
  all_goals exact apart_text (by decide) _ _

theorem apart_comparison {key : Key} (hkind : target.kind = .document) (hkey : key.IsOf target.kind)
    (hother : key ≠ .column .typeName false) (value : Json) :
    apart (Fragment.formatFrom next (target.comparison key value)).toList = true := by
  unfold comparison
  split
  · exact apart_extraction hkind hkey hother false _
  · exact apart_castExpression hkind hkey hother _ _

theorem apart_call (inputs : List Key) (source : String) (extra : List Json) (returns : ReturnType) :
    apart (Fragment.formatFrom next (target.call inputs source extra returns)).toList = true := by
  unfold call
  split <;> split <;> exact apart_text (by decide) _ _

/-- The comparison of the type with a scalar is one with a parameter. -/
theorem comparison_type_scalar (target : Target) (hscalar : value.isContainer = false) (hnull : value ≠ .null) :
    target.comparison (.column .typeName false) value = [.text "\"type\"", .text " = ", .value value] := by
  cases value with
  | null => exact absurd rfl hnull
  | array _ | object _ => cases hscalar
  | bool _ | number _ | string _ => rfl

/-- The comparison of the type with an array or object is more than one with a parameter. -/
theorem format_comparison_type_container (target : Target) (hvalue : value.isContainer = true) :
    (Fragment.formatFrom 0 (target.comparison (.column .typeName false) value)).toList =
        "\"type\" = $1::jsonb".toList ∨
      (Fragment.formatFrom 0 (target.comparison (.column .typeName false) value)).toList =
        "\"type\" = json($1)".toList := by
  obtain ⟨kind, schema, dialect⟩ := target
  cases value with
  | array _ | object _ =>
      cases dialect with
      | postgres => exact .inl rfl
      | sqlite => exact .inr rfl
  | _ => cases hvalue

/-- A text that names the sort `json` compares no type with a name, and asks for no document without a type. -/
theorem allows_of_mem {before after : List Char} (hbefore : '$' ∉ before) (hafter : '$' ∉ after)
    (hstop : Sql.StopsDigits after) (hmem : 'j' ∈ before ++ after) :
    allows bound type (String.ofList (numberedFrom next (before ++ (numbered 0 ++ after)))) = true := by
  have hmem' : 'j' ∈ before ++ (numbered next ++ after) := by
    rw [List.mem_append] at hmem ⊢
    exact hmem.imp_right (List.mem_append_right _)
  have huntyped : 'j' ∉ untyped.toList := by decide
  have hequality : ∀ number, 'j' ∉ typeEquality number := by
    intro number hj
    rcases List.mem_append.mp hj with hj | hj
    · revert hj
      decide
    · rcases List.mem_cons.mp hj with hj | hj
      · cases hj
      · have hdigit := Sql.isDecimalDigit_of_mem_toDigits hj
        revert hdigit
        decide
  rw [Sql.numberedFrom_between next 0 hbefore hafter hstop]
  refine allows_eq_true_iff.mpr ⟨fun hname => ?_, fun number _ _ hname => ?_⟩
  · rw [String.toList_ofList] at hname
    exact absurd (hname ▸ hmem') huntyped
  · rw [String.toList_ofList] at hname
    exact absurd (hname ▸ hmem') (hequality number)

theorem allows_container (target : Target) (hvalue : value.isContainer = true) :
    allows bound type (textFrom next (target.comparison (.column .typeName false) value)) = true := by
  rcases format_comparison_type_container target hvalue with htext | htext
  · have hsplit : "\"type\" = $1::jsonb".toList = "\"type\" = ".toList ++ (numbered 0 ++ "::jsonb".toList) := by decide
    rw [textFrom, htext, hsplit]
    exact allows_of_mem (by decide) (by decide) (Sql.stopsDigits_cons _ (by decide)) (by decide)
  · have hsplit : "\"type\" = json($1)".toList = "\"type\" = json(".toList ++ (numbered 0 ++ ")".toList) := by decide
    rw [textFrom, htext, hsplit]
    exact allows_of_mem (by decide) (by decide) (Sql.stopsDigits_cons _ (by decide)) (by decide)

/-- Of what a document is worth to a comparison, its type decides what the comparison asks for it. -/
theorem allows_comparison {key : Key} (hkind : target.kind = .document) (hkey : key.IsOf target.kind) (value : Json)
    (hbound : (target.comparison key value).params <+: bound.drop next) :
    allows bound type (textFrom next (target.comparison key value)) = Condition.admitsValue type key value := by
  unfold Condition.admitsValue
  by_cases hother : key = .column .typeName false
  · subst hother
    rw [if_pos rfl]
    have hscalar : value.isContainer = false → value ≠ .null →
        allows bound type (textFrom next (target.comparison (.column .typeName false) value)) = value.fits type := by
      intro hvalue hnull
      rw [comparison_type_scalar target hvalue hnull] at hbound ⊢
      have htext : (Fragment.formatFrom 0 [.text "\"type\"", .text " = ", .value value]).toList =
        "\"type\" = $1".toList := rfl
      have hname : bound[next]? = some value := by
        obtain ⟨rest, hrest⟩ := hbound
        rw [← Nat.add_zero next, ← List.getElem?_drop, ← hrest]
        rfl
      rw [textFrom, htext, numberedFrom_typeEquality, allows_typeEquality hname]
    cases value with
    | null =>
        have hnull : (Fragment.formatFrom 0 (target.comparison (.column .typeName false) .null)).toList =
          untyped.toList := rfl
        rw [textFrom, hnull, Sql.numberedFrom_plain next (by decide), String.ofList_toList, allows_untyped]
    | array _ | object _ => exact allows_container target rfl
    | bool _ | number _ | string _ => exact hscalar rfl nofun
  · rw [if_neg hother]
    exact allows_textFrom_of_apart (apart_comparison hkind hkey hother value)

end Target

/-! ### Conditions that documents of a type meet -/

namespace Condition

open OperatorTree (meetsEach numberEach)
open Target (Finds allows)

variable {bound : List Json} {position : Nat}

theorem countPlaceholders_operators (target : Target) {condition : Condition} (hkeys : condition.KeysOf target.kind) :
    Sql.countPlaceholders (Sql.scan (condition.operators target).text) =
      (condition.predicate target).params.length := by
  rw [← (toList_format_predicate target).1 condition]
  exact ((spells_inline target).1 condition hkeys).counts.countPlaceholders_eq

/-- Where all that does not speak against a document of the type is met, the condition is met if it admits the type. -/
theorem meets_allows (hkind : target.kind = .document) (bound : List Json) (type : Option String) :
    (∀ condition : Condition, condition.KeysOf target.kind → ∀ next,
      (condition.predicate target).params <+: bound.drop next →
        ((condition.operators target).numberFrom next).meets (allows bound type) = condition.admits type) ∧
      ∀ conditions : List Condition, AllKeysOf target.kind conditions → ∀ next,
        ((predicates target conditions).filter (!·.isEmpty)).flatMap (·.params) <+: bound.drop next →
          meetsEach (allows bound type) (numberEach next (remaining target conditions)) =
            admitsEach type conditions := by
  refine predicate.mutual_induct
    (fun condition => condition.KeysOf target.kind → ∀ next,
      (condition.predicate target).params <+: bound.drop next →
        ((condition.operators target).numberFrom next).meets (allows bound type) = condition.admits type)
    (fun conditions => AllKeysOf target.kind conditions → ∀ next,
      ((predicates target conditions).filter (!·.isEmpty)).flatMap (·.params) <+: bound.drop next →
        meetsEach (allows bound type) (numberEach next (remaining target conditions)) = admitsEach type conditions)
    ?all ?equal ?call ?group ?nil ?cons
  case all => exact fun _ _ _ => rfl
  case equal =>
    intro key value hkey next hbound
    exact Target.allows_comparison hkind hkey value hbound
  case call =>
    intro inputs source extra returns _ next _
    exact Target.allows_textFrom_of_apart (Target.apart_call inputs source extra returns)
  case group =>
    intro connective operands ih hkeys next hbound
    rw [predicate, Predicate.params_join] at hbound
    exact congrArg connective.combine (ih hkeys next hbound)
  case nil => exact fun _ _ _ => rfl
  case cons =>
    intro condition rest ihcondition ihrest hkeys next hbound
    have hempty := (isEmpty_predicate_iff target).1 condition hkeys.1
    rw [predicates, List.filter_cons] at hbound
    rw [remaining, admitsEach]
    by_cases hnone : condition.formula.size = 0
    · rw [if_pos (hempty.mpr hnone), if_pos hnone]
      rw [hempty.mpr hnone] at hbound
      exact ihrest hkeys.2 next hbound
    · have hfull : (condition.predicate target).isEmpty = false := Bool.eq_false_iff.mpr (mt hempty.mp hnone)
      rw [hfull, Bool.not_false, if_pos rfl, List.flatMap_cons] at hbound
      rw [if_neg (mt hempty.mp hnone), if_neg hnone, numberEach, meetsEach]
      obtain ⟨later, hlater⟩ := hbound
      rw [List.append_assoc] at hlater
      rw [ihcondition hkeys.1 next ⟨_, hlater⟩, countPlaceholders_operators target hkeys.1, ihrest hkeys.2]
      exact ⟨later, by rw [← List.drop_drop, ← hlater, List.drop_left]⟩

/-- A document of the type can meet the text of a condition exactly if the condition admits the type. -/
theorem finds_iff_admits (hkind : target.kind = .document) (hkeys : condition.KeysOf target.kind)
    (hbound : (condition.predicate target).params <+: bound.drop position) :
    Finds bound (numberedFrom position (condition.predicate target).format.toList) type ↔
      condition.admits type = true := by
  have hsound := OperatorTree.sound_numberFrom position ((sound_operators target).1 condition hkeys)
  have htext := OperatorTree.text_numberFrom position (condition.operators target)
  rw [← (toList_format_predicate target).1 condition] at htext
  rw [← (meets_allows hkind bound type).1 condition hkeys position hbound]
  constructor
  · rintro ⟨tree, truth, hreads, hsame, hdepicts, hmeets⟩
    have halike := (OperatorTree.text_eq_iff.1 tree hreads _ hsound).mp (hsame.trans htext.symm)
    rw [← OperatorTree.meets_eq_of_alike halike]
    exact OperatorTree.meets_mono hdepicts.le_allows hmeets
  · exact fun hmeets => ⟨_, _, hsound, htext, Target.depicts_allows, hmeets⟩

/-! ### Filters that ask for a type -/

/-- The filter asks for documents of the type beside all else that it asks: an object whose other members `AND` joins to
the type, or that has no others, or an array whose items `AND` joins and one of which asks so. -/
inductive Demands (matchAny : Bool) (typeName : String) : Json → Prop where
  | object {members : Members} (hname : members.get? "$type" = some (.string typeName))
      (hjoined : matchAny = false ∨ members.length = 1) : Demands matchAny typeName (.object members)
  | led {token : String} {items : List Json} {item : Json} (htoken : Operator.ofToken? token = .ok (.connective .and))
      (hmem : item ∈ items) (h : Demands matchAny typeName item) :
      Demands matchAny typeName (.array (.string token :: items))
  | plain {items : List Json} {item : Json} (hplain : ∀ token rest, items ≠ .string token :: rest) (hmem : item ∈ items)
      (h : Demands matchAny typeName item) : Demands matchAny typeName (.array items)

variable {typeName : String}

theorem exists_of_mem_readMembers {kind : Kind} {members : List (String × Json)} {conditions : List Condition}
    (h : readMembers kind members = .ok conditions) {name : String} {value : Json} (hmem : (name, value) ∈ members) :
    ∃ key, Key.ofText? kind name = .ok key ∧ .equal key value ∈ conditions := by
  induction members generalizing conditions with
  | nil => cases hmem
  | cons member members ih =>
      rw [readMembers] at h
      obtain ⟨key, hkey, h⟩ := bind_eq_ok_iff.mp h
      obtain ⟨rest, hrest, h⟩ := bind_eq_ok_iff.mp h
      cases h
      rcases List.mem_cons.mp hmem with rfl | hmem
      · exact ⟨key, hkey, List.mem_cons_self⟩
      · obtain ⟨key, hkey, hin⟩ := ih hrest hmem
        exact ⟨key, hkey, List.mem_cons_of_mem _ hin⟩

theorem exists_of_mem_readItems {kind : Kind} {connective inner : Connective} {items : List Json}
    {conditions : List Condition} (h : readItems kind connective inner items = .ok conditions) {item : Json}
    (hmem : item ∈ items) : ∃ condition ∈ conditions, ofJson? kind connective item = .ok condition := by
  induction items generalizing conditions with
  | nil => cases hmem
  | cons first items ih =>
      obtain ⟨condition, rest, hfirst, hrest, rfl⟩ := exists_of_readItems_cons h
      rcases List.mem_cons.mp hmem with rfl | hmem
      · exact ⟨condition, List.mem_cons_self, hfirst⟩
      · obtain ⟨condition, hin, hread⟩ := ih hrest hmem
        exact ⟨condition, List.mem_cons_of_mem _ hin, hread⟩

/-- What every record meets admits all types. -/
theorem admits_of_size_eq_zero {condition : Condition} (h : condition.formula.size = 0) :
    condition.admits type = true := by
  have hnone : ∀ conditions : List Condition, Formula.sizes (formulas conditions) = 0 →
      admitsEach type conditions = [] := by
    intro conditions
    induction conditions with
    | nil => exact fun _ => rfl
    | cons condition rest ih =>
        intro hsizes
        rw [formulas, Formula.sizes, Nat.add_eq_zero_iff] at hsizes
        rw [admitsEach, if_pos hsizes.1, ih hsizes.2]
  cases condition with
  | all => rfl
  | equal key value => cases h
  | call inputs source extra returns => cases h
  | group connective operands =>
      rw [admits, hnone operands h]
      exact connective.combine_nil

/-- A type that a conjunction admits is admitted by all that it joins. -/
theorem admits_of_mem_and {operands : List Condition} (h : (group .and operands).admits type = true)
    (hmem : condition ∈ operands) : condition.admits type = true := by
  rw [admits, Connective.combine, List.all_eq_true] at h
  by_cases hnone : condition.formula.size = 0
  · exact admits_of_size_eq_zero hnone
  · refine h _ ?_
    clear h
    induction operands with
    | nil => cases hmem
    | cons first rest ih =>
        rw [admitsEach]
        rcases List.mem_cons.mp hmem with rfl | hmem
        · rw [if_neg hnone]
          exact List.mem_cons_self
        · split
          · exact ih hmem
          · exact List.mem_cons_of_mem _ (ih hmem)

theorem admits_type_iff : (equal (.column .typeName false) (.string typeName)).admits type = true ↔
    type = some typeName := by
  have hvalue : admitsValue type (.column .typeName false) (.string typeName) = (Json.string typeName).fits type :=
    if_pos rfl
  rw [admits, hvalue, Target.fits_named]

/-- A filter that demands a type admits no other. -/
theorem eq_of_demands (hdemands : Demands matchAny typeName filter)
    (hread : ofJson? .document (Target.connectiveOf matchAny) filter = .ok condition)
    (hadmits : condition.admits type = true) : type = some typeName := by
  induction hdemands generalizing condition with
  | @object members hname hjoined =>
      rw [ofJson?] at hread
      split at hread
      · cases hread
      · obtain ⟨conditions, hconditions, rfl⟩ := map_eq_ok_iff.mp hread
        obtain ⟨key, hkey, hmem⟩ := exists_of_mem_readMembers hconditions (Members.mem_of_get? hname)
        obtain rfl : Key.column .typeName false = key := Except.ok.inj hkey
        rcases hjoined with rfl | halone
        · exact admits_type_iff.mp (admits_of_mem_and hadmits hmem)
        · obtain ⟨member, rfl⟩ := List.length_eq_one_iff.mp halone
          obtain rfl := List.mem_singleton.mp (Members.mem_of_get? hname)
          obtain ⟨_, hsame, hconditions⟩ := bind_eq_ok_iff.mp hconditions
          obtain rfl := Except.ok.inj (hkey.symm.trans hsame)
          cases hconditions
          rw [admits] at hadmits
          exact admits_type_iff.mp ((Connective.combine_singleton _ _).symm.trans hadmits)
  | led htoken hmem _ ih =>
      rw [ofJson?, htoken] at hread
      obtain ⟨conditions, hconditions, rfl⟩ := map_eq_ok_iff.mp hread
      obtain ⟨condition, hin, hread⟩ := exists_of_mem_readItems hconditions hmem
      exact ih hread (admits_of_mem_and hadmits hin)
  | plain hplain hmem _ ih =>
      rw [ofJson?] at hread
      · obtain ⟨conditions, hconditions, rfl⟩ := map_eq_ok_iff.mp hread
        obtain ⟨condition, hin, hread⟩ := exists_of_mem_readItems hconditions hmem
        exact ih hread (admits_of_mem_and hadmits hin)
      · exact hplain

end Condition

namespace Target

/-- What a filter that names a type makes of documents by their types, where `text` is what it is compiled to. -/
structure Narrows (matchAny : Bool) (filter : Json) (typeName : String) (bound : List Json) (text : List Char) :
    Prop where
  /-- Documents of a type can meet the text exactly if the operators of the filter admit the type. -/
  admitted : ∃ condition, Condition.ofJson? .document (connectiveOf matchAny) filter = .ok condition ∧
    ∀ type, Finds bound text type ↔ condition.admits type = true
  /-- Where the filter demands the type that it names, only documents of that type can. -/
  demanded : Condition.Demands matchAny typeName filter → ∀ type, Finds bound text type → type = some typeName

theorem narrows_of_compile (typeName : String) {bound : List Json} {position : Nat} {p : Predicate}
    (hkind : target.kind = .document) (hp : target.compile matchAny filter = .ok p) (hbound : p.params <+: bound.drop position) :
    Narrows matchAny filter typeName bound (numberedFrom position p.format.toList) := by
  obtain ⟨condition, hread, hpredicate⟩ := map_eq_ok_iff.mp hp
  subst hpredicate
  have hkeys := (Condition.keysOf_of_read _).1 filter condition hread
  have hfinds : ∀ type, Finds bound (numberedFrom position (condition.predicate target).format.toList) type ↔
      condition.admits type = true := fun _ => Condition.finds_iff_admits hkind hkeys hbound
  rw [hkind] at hread
  exact ⟨⟨condition, hread, hfinds⟩, fun hdemands type hfound =>
    Condition.eq_of_demands hdemands hread ((hfinds type).mp hfound)⟩

end Target

namespace Formula

theorem mem_ofOperands {items : List Json} {item : Json} (h : item ∈ items) :
    ofFilter matchAny item ∈ ofOperands matchAny items := by
  induction items with
  | nil => cases h
  | cons first items ih =>
      rcases List.mem_cons.mp h with rfl | h
      · exact List.mem_cons_self
      · exact List.mem_cons_of_mem _ (ih h)

theorem size_ofFilter_array {items : List Json} {item : Json} (hmem : item ∈ items)
    (hitem : ∀ token, item ≠ .string token) (hsome : (ofFilter matchAny item).size ≠ 0) :
    (ofFilter matchAny (.array items)).size ≠ 0 := by
  have hoperands : ∀ rest, item ∈ rest → sizes (ofOperands matchAny rest) ≠ 0 :=
    fun rest hin => Nat.ne_of_gt (Nat.lt_of_lt_of_le (Nat.pos_of_ne_zero hsome) (size_le_sizes (mem_ofOperands hin)))
  by_cases hword : ∃ token rest, items = .string token :: rest
  · obtain ⟨token, rest, rfl⟩ := hword
    rw [ofFilter]
    split
    · exact hoperands rest ((List.mem_cons.mp hmem).resolve_left (hitem token))
    · exact Nat.one_ne_zero
  · rw [ofFilter]
    · exact hoperands items hmem
    · exact fun token rest hitems => hword ⟨token, rest, hitems⟩

/-- A filter that asks for a type on its surface is not met by every record. -/
theorem size_ofFilter_of_typeFilter {typeName : String} (h : Session.typeFilter filter = some typeName) :
    (ofFilter matchAny filter).size ≠ 0 := by
  have hobject : ∀ {members : Members} {value : Json}, members.get? "$type" = some value →
      (ofFilter matchAny (.object members)).size ≠ 0 := by
    intro members value hvalue
    cases members with
    | nil => cases hvalue
    | cons member members =>
        rw [ofFilter, size, List.map_cons, sizes, size]
        omega
  cases filter with
  | object members =>
      obtain ⟨value, hvalue, -⟩ := Option.bind_eq_some_iff.mp h
      exact hobject hvalue
  | array items =>
      obtain ⟨item, hmem, hitem⟩ := List.exists_of_findSome?_eq_some h
      obtain ⟨value, hvalue, -⟩ := Option.bind_eq_some_iff.mp hitem
      cases item with
      | object members =>
          refine size_ofFilter_array hmem (fun token hword => ?_) (hobject hvalue)
          cases hword
      | _ => cases hvalue
  | _ => cases h

end Formula

/-- A filter that asks for a type on its surface is compiled to some text. -/
theorem Target.isEmpty_of_typeFilter {typeName : String} {p : Predicate}
    (hasks : Session.typeFilter filter = some typeName) (hp : target.compile matchAny filter = .ok p) :
    p.isEmpty = false := by
  obtain ⟨condition, hread, rfl⟩ := map_eq_ok_iff.mp hp
  have hkeys := (Condition.keysOf_of_read _).1 filter condition hread
  have hsize : condition.formula.size ≠ 0 := by
    rw [(Condition.formula_of_read matchAny).1 filter condition hread]
    exact Formula.size_ofFilter_of_typeFilter hasks
  exact Bool.eq_false_iff.mpr (mt ((Condition.isEmpty_predicate_iff target).1 condition hkeys).mp hsize)

end Dossier
