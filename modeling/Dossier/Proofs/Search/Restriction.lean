import Dossier.Proofs.Filter.Reading
import Dossier.Proofs.Search.Assembly
import Dossier.Proofs.Search.Description
import Dossier.Session.Records

/-!
Searches for documents of one type. The demand for the type is put before the caller's filter, and what the filter is
compiled to stands in a group of its own: it is balanced, so it closes no parenthesis of the demand's, and `AND` stands
between the two whatever connective the traits ask for. Main statement: `restricts_of_ofTraits?`.
-/

namespace Dossier

open Session (typedFilter)
open Sql (Balanced Predicate grouped numbered numberedFrom renumber)

variable {target : Target} {matchAny : Bool} {filter : Json} {typeName : String} {own p : Predicate} {position : Nat}

namespace Sql

/-- The text, and parentheses that enclose it as a whole. -/
inductive Enclosed (text : List Char) : List Char → Prop
  | bare : Enclosed text text
  | inside {whole : List Char} : Enclosed text whole → Enclosed text (grouped whole [])

theorem balanced_of_enclosed {text whole : List Char} (h : Enclosed text whole) (htext : Balanced text) :
    Balanced whole := by
  induction h with
  | bare => exact htext
  | inside _ ih => exact ih.grouped balanced_nil

namespace Predicate

theorem params_join (predicates : List Predicate) (word : String) :
    (join predicates word).params = (predicates.filter (!·.isEmpty)).flatMap (·.params) := by
  unfold join
  split
  · rename_i hnone
    rw [hnone]
    rfl
  · rfl

theorem toList_format_join_singleton (h : p.isEmpty = false) (word : String) :
    (join [p] word).format.toList = grouped p.format.toList [] := by
  rw [toList_format_join, List.filter_cons_of_pos (by rw [h]; rfl)]
  rfl

theorem isEmpty_of_toList_eq_grouped {inner rest : List Char} (h : p.format.toList = grouped inner rest) :
    p.isEmpty = false := by
  rw [isEmpty, ← Bool.not_eq_true, String.isEmpty_iff]
  intro hempty
  rw [hempty] at h
  exact List.cons_ne_nil _ _ h.symm

end Predicate

end Sql

/-! ### The condition -/

/-- The operands of an array are read one by one. -/
theorem Condition.exists_of_readItems_cons {kind : Kind} {connective inner : Connective} {item : Json}
    {items : List Json} {conditions : List Condition}
    (h : readItems kind connective inner (item :: items) = .ok conditions) :
    ∃ condition rest, ofJson? kind connective item = .ok condition ∧
      readItems kind connective inner items = .ok rest ∧ conditions = condition :: rest := by
  have hread : (do
      let condition ← ofJson? kind connective item
      let rest ← readItems kind connective inner items
      return condition :: rest) = .ok conditions := by
    cases item with
    | string token => cases h
    | _ => exact h
  obtain ⟨condition, hcondition, hread⟩ := bind_eq_ok_iff.mp hread
  obtain ⟨rest, hrest, hread⟩ := bind_eq_ok_iff.mp hread
  cases hread
  exact ⟨condition, rest, hcondition, hrest, rfl⟩

namespace Target

/-- The comparison of the column of types with the parameter behind `position` others. -/
def typeEquality (position : Nat) : List Char := "\"type\" = ".toList ++ numbered position

/-- The comparison, joined by `AND` to the group of what else is asked if there is anything. -/
def restriction (position : Nat) (own : Predicate) : List Char :=
  if own.isEmpty then typeEquality position
  else grouped (grouped (typeEquality position) [])
    (" AND ".toList ++ grouped (numberedFrom (position + 1) own.format.toList) [])

/-- The demand for a type, by itself. -/
def typeDemand (matchAny : Bool) (typeName : String) : Predicate :=
  Predicate.join [Predicate.ofParts "\"type\" = $1" [.string typeName]] (connectiveOf matchAny).word

theorem compile_type (hkind : target.kind = .document) (matchAny : Bool) (typeName : String) :
    target.compile matchAny (.object [("$type", .string typeName)]) = .ok (typeDemand matchAny typeName) := by
  obtain ⟨kind, schema, dialect⟩ := target
  cases hkind
  rfl

theorem toList_format_typeDemand (matchAny : Bool) (typeName : String) :
    (typeDemand matchAny typeName).format.toList = grouped "\"type\" = $1".toList [] :=
  Predicate.toList_format_join_singleton rfl _

/-- The demand for a type comes first, and then what the caller's filter is compiled to. -/
theorem compile_pair (hkind : target.kind = .document)
    (h : target.compile matchAny (.array [.object [("$type", .string typeName)], filter]) = .ok p) :
    ∃ own, target.compile matchAny filter = .ok own ∧
      p = Predicate.join [typeDemand matchAny typeName, own] Connective.and.word := by
  obtain ⟨demand, hdemand, hpredicate⟩ := map_eq_ok_iff.mp (compile_type hkind matchAny typeName)
  obtain ⟨both, hboth, rfl⟩ := map_eq_ok_iff.mp h
  change (Condition.readItems target.kind (connectiveOf matchAny) .and _).map (Condition.group .and) = _ at hboth
  obtain ⟨conditions, hitems, rfl⟩ := map_eq_ok_iff.mp hboth
  obtain ⟨first, rest, hfirst, hrest, rfl⟩ := Condition.exists_of_readItems_cons hitems
  obtain ⟨condition, others, hcondition, hothers, rfl⟩ := Condition.exists_of_readItems_cons hrest
  obtain rfl : demand = first := Except.ok.inj (hdemand.symm.trans hfirst)
  cases hothers
  refine ⟨condition.predicate target, map_eq_ok_iff.mpr ⟨condition, hcondition, rfl⟩, ?_⟩
  rw [Condition.predicate, Condition.predicates, hpredicate]
  rfl

/-- What a search for documents of a type is compiled to. -/
theorem compile_typedFilter (hkind : target.kind = .document)
    (h : target.compile matchAny (typedFilter typeName filter) = .ok p) :
    ∃ own, target.compile matchAny filter = .ok own ∧ (p = typeDemand matchAny typeName ∧ own = Predicate.empty ∨
      p = Predicate.join [typeDemand matchAny typeName, own] Connective.and.word) := by
  cases filter with
  | null =>
      rw [typedFilter, compile_type hkind] at h
      cases h
      exact ⟨Predicate.empty, rfl, .inl ⟨rfl, rfl⟩⟩
  | _ =>
      obtain ⟨own, hown, hp⟩ := compile_pair hkind h
      exact ⟨own, hown, .inr hp⟩

/-- Filters are compiled to balanced texts. -/
theorem balanced_of_compile (h : target.compile matchAny filter = .ok p) : Balanced p.format.toList := by
  obtain ⟨tree, -, hsound, htext⟩ := exists_operators h
  rw [htext]
  exact OperatorTree.balanced_text.1 tree hsound

/-- The comparison is numbered like any text. -/
theorem numberedFrom_typeEquality (next : Nat) : numberedFrom next "\"type\" = $1".toList = typeEquality next := by
  have hequality : "\"type\" = $1".toList = "\"type\" = ".toList ++ numbered 0 := by decide
  have hplain : '$' ∉ "\"type\" = ".toList := by decide
  rw [hequality, Sql.numberedFrom_plain_append next hplain, Sql.numberedFrom_numbered]
  rfl

theorem balanced_typeEquality (position : Nat) : Balanced (typeEquality position) :=
  numberedFrom_typeEquality position ▸ Balanced.numberedFrom (Sql.balanced_of_depthBehind rfl) position

theorem numberedFrom_typeDemand (next : Nat) (matchAny : Bool) (typeName : String) :
    numberedFrom next (typeDemand matchAny typeName).format.toList = grouped (typeEquality next) [] := by
  rw [toList_format_typeDemand, Sql.numberedFrom_grouped, numberedFrom_typeEquality]
  rfl

theorem isEmpty_typeDemand (matchAny : Bool) (typeName : String) : (typeDemand matchAny typeName).isEmpty = false :=
  Predicate.isEmpty_of_toList_eq_grouped (toList_format_typeDemand matchAny typeName)

theorem params_typeDemand (matchAny : Bool) (typeName : String) :
    (typeDemand matchAny typeName).params = [.string typeName] := by
  have hsome : (Predicate.ofParts "\"type\" = $1" [.string typeName]).isEmpty = false := rfl
  rw [typeDemand, Predicate.params_join, List.filter_cons_of_pos (by rw [hsome]; rfl)]
  rfl

/-- A filter that compiles to nothing has no parameters. -/
theorem params_eq_nil_of_isEmpty (h : target.compile matchAny filter = .ok own) (hempty : own.isEmpty = true) :
    own.params = [] := by
  obtain ⟨text, htext⟩ := spells_of_compile h
  have hcount := htext.counts.countPlaceholders_eq
  rw [String.isEmpty_iff.mp hempty] at hcount
  exact List.eq_nil_of_length_eq_zero hcount.symm

/-- Both demands, or the one for the type if the caller's filter asks for nothing. -/
theorem toList_format_pair (matchAny : Bool) (typeName : String) (own : Predicate) :
    (Predicate.join [typeDemand matchAny typeName, own] Connective.and.word).format.toList =
      grouped (typeDemand matchAny typeName).format.toList
        (if own.isEmpty then [] else " AND ".toList ++ grouped own.format.toList []) := by
  rw [Sql.toList_format_join, List.filter_cons_of_pos (by rw [isEmpty_typeDemand]; rfl)]
  cases hempty : own.isEmpty with
  | true =>
      rw [List.filter_cons_of_neg (by rw [hempty]; exact Bool.false_ne_true)]
      rfl
  | false =>
      rw [List.filter_cons_of_pos (by rw [hempty]; rfl)]
      rfl

theorem params_pair (matchAny : Bool) (typeName : String) (hown : own.isEmpty = true → own.params = []) :
    (Predicate.join [typeDemand matchAny typeName, own] Connective.and.word).params =
      .string typeName :: own.params := by
  rw [Predicate.params_join, List.filter_cons_of_pos (by rw [isEmpty_typeDemand]; rfl), List.flatMap_cons,
    params_typeDemand, List.singleton_append]
  cases hempty : own.isEmpty with
  | true =>
      rw [List.filter_cons_of_neg (by rw [hempty]; exact Bool.false_ne_true), hown hempty]
      rfl
  | false =>
      rw [List.filter_cons_of_pos (by rw [hempty]; rfl)]
      exact congrArg _ (List.flatMap_singleton _ _)

/-- The filter of a search for documents of a type, numbered on from any number, is the restriction. -/
theorem enclosed_typedFilter (hkind : target.kind = .document)
    (h : target.compile matchAny (typedFilter typeName filter) = .ok p) :
    ∃ own, target.compile matchAny filter = .ok own ∧ p.isEmpty = false ∧
      p.params = .string typeName :: own.params ∧
      ∀ position, Sql.Enclosed (restriction position own) (numberedFrom position p.format.toList) := by
  obtain ⟨own, hown, ⟨rfl, rfl⟩ | rfl⟩ := compile_typedFilter hkind h
  · refine ⟨Predicate.empty, hown, isEmpty_typeDemand _ _, params_typeDemand _ _, fun position => ?_⟩
    rw [numberedFrom_typeDemand]
    exact .inside .bare
  · have hformat := toList_format_pair matchAny typeName own
    have hcount : Sql.countPlaceholders (Sql.scan (typeDemand matchAny typeName).format.toList) = 1 := by
      obtain ⟨text, htext⟩ := spells_of_compile (compile_type hkind matchAny typeName)
      rw [htext.counts.countPlaceholders_eq, params_typeDemand]
      rfl
    refine ⟨own, hown, Predicate.isEmpty_of_toList_eq_grouped hformat,
      params_pair _ _ (params_eq_nil_of_isEmpty hown), fun position => ?_⟩
    rw [hformat, Sql.numberedFrom_grouped, numberedFrom_typeDemand, hcount, restriction]
    split
    · exact .inside (.inside .bare)
    · have hand : '$' ∉ " AND ".toList := by decide
      rw [Sql.numberedFrom_plain_append _ hand, Sql.numberedFrom_grouped]
      exact .bare

theorem balanced_restriction (hown : Balanced (numberedFrom (position + 1) own.format.toList)) :
    Balanced (restriction position own) := by
  have hequality := balanced_typeEquality position
  have hand : Balanced " AND ".toList := Sql.balanced_of_depthBehind rfl
  unfold restriction
  split
  · exact hequality
  · exact (hequality.grouped Sql.balanced_nil).grouped (hand.append (hown.grouped Sql.balanced_nil))

end Target

/-! ### What the condition asks -/

namespace Target

variable {condition : List Char} {tree : OperatorTree} {truth : String → Bool}

theorem isLeafText_typeEquality (position : Nat) : IsLeafText (typeEquality position) :=
  ⟨balanced_typeEquality position, .other _ (by decide)⟩

/-- The restriction can be read. -/
theorem exists_tree_of_enclosed (h : Sql.Enclosed (restriction position own) condition)
    (hown : target.compile matchAny filter = .ok own) :
    ∃ tree : OperatorTree, tree.Sound ∧ tree.text = condition := by
  induction h with
  | bare =>
      obtain ⟨operators, -, hsound, htext⟩ := exists_operators hown
      have hnumbered := OperatorTree.sound_numberFrom (position + 1) hsound
      let equality : OperatorTree := .leaf (String.ofList (typeEquality position))
      have hequality : equality.text = typeEquality position := String.toList_ofList
      have hleaf : equality.Sound := by
        rw [OperatorTree.Sound, String.toList_ofList]
        exact isLeafText_typeEquality position
      unfold restriction
      split
      · exact ⟨equality, hleaf, hequality⟩
      · refine ⟨.node .and [.node .and [equality], operators.numberFrom (position + 1)],
          ⟨⟨hleaf, trivial⟩, hnumbered, trivial⟩, ?_⟩
        rw [htext, ← OperatorTree.text_numberFrom, ← hequality]
        rfl
  | inside _ ih =>
      obtain ⟨tree, hsound, rfl⟩ := ih
      exact ⟨.node .and [tree], ⟨hsound, trivial⟩, rfl⟩

/-- Whatever the comparisons are worth, the restriction asks for the type. -/
theorem meets_typeEquality (h : Sql.Enclosed (restriction position own) condition)
    (hown : Balanced (numberedFrom (position + 1) own.format.toList)) (hsound : tree.Sound)
    (htext : tree.text = condition) (hmeets : tree.meets truth = true) :
    truth (String.ofList (typeEquality position)) = true := by
  have hequality := balanced_typeEquality position
  induction h generalizing tree with
  | bare =>
      unfold restriction at htext
      split at htext
      · rwa [OperatorTree.meets_leaf_of_text_eq hsound (isLeafText_typeEquality position) htext] at hmeets
      · obtain ⟨first, hfirst, hfirstText, himp⟩ :=
          OperatorTree.exists_first hsound (hequality.grouped Sql.balanced_nil) hown htext
        obtain ⟨inside, hinside, hinsideText, hsame⟩ := OperatorTree.exists_inside hfirst hequality hfirstText
        rw [← OperatorTree.meets_leaf_of_text_eq hinside (isLeafText_typeEquality position) hinsideText truth,
          ← hsame truth]
        exact himp truth hmeets
  | inside h ih =>
      obtain ⟨inside, hinside, hinsideText, hsame⟩ :=
        OperatorTree.exists_inside hsound (Sql.balanced_of_enclosed h (balanced_restriction hown)) htext
      exact ih hinside hinsideText (hsame truth ▸ hmeets)

end Target

/-! ### The statement -/

namespace Query

variable {query : Query} {statement : Statement} {traits : Traits}

/-- The parameters of what is selected; they stand before those of the condition. -/
def selectedParams (query : Query) : List Json := if query.count then [] else query.fields.flatMap (·.params)

/-- The parameters of the groups and of the ordering. -/
def laterParams (query : Query) : List Json :=
  query.groups.flatMap (·.params) ++ if query.count then [] else query.orders.flatMap (·.params)

/-- The filters of a search are the one that is compiled, unless it is compiled to nothing. -/
theorem filters_of_ofTraits? (h : ofTraits? target filter traits = .ok query) :
    ∃ p, target.compile traits.matchAny filter = .ok p ∧ query.filters = if p.isEmpty then [] else [p] := by
  obtain ⟨_, p, hdescribes⟩ := describes_of_ofTraits? h
  exact ⟨p, hdescribes.filter, hdescribes.filters⟩

theorem built_of_ofTraits? (h : ofTraits? target filter traits = .ok query) : query.Built := by
  obtain ⟨p, -, hfilters⟩ := filters_of_ofTraits? h
  refine ⟨(collected_of_ofTraits? h).1, fun q hq => ?_⟩
  rw [hfilters] at hq
  split at hq
  · cases hq
  · rename_i hsome
    rw [List.mem_singleton.mp hq]
    exact Bool.eq_false_iff.mpr hsome

/-- The clauses of a statement are numbered on, each from where the one before it ends. -/
theorem Collected.toList_renumber_draft (h : query.Collected) : (renumber query.draft).1.toList =
    numberedFrom 0 query.selectText.toList ++ (numberedFrom query.selectedParams.length query.whereText.toList ++
      numberedFrom (query.selectedParams.length + (Predicate.join query.filters Connective.and.word).params.length)
        (query.groupText ++ query.orderText).toList) := by
  have htail := h.groupText.append h.orderText
  have hwhere := h.whereText.append htail
  have hdraft : query.draft.toList =
      query.selectText.toList ++ (query.whereText.toList ++ (query.groupText ++ query.orderText).toList) := by
    simp only [Query.draft, String.toList_append, List.append_assoc]
  have hselected := h.selectText.countPlaceholders_eq
  rw [Sql.toList_renumber, hdraft, Sql.numberedFrom_append _ _ (String.toList_append ▸ hwhere.2),
    Sql.numberedFrom_append _ _ htail.2, h.whereText.1.countPlaceholders_eq, hselected, Nat.zero_add, selectedParams]

/-- The statement carries what a filter is compiled to: in parentheses behind `WHERE`, with its parameters behind those
of what is selected. -/
structure Carries (query : Query) (statement : Statement) (p : Predicate) : Prop where
  text : statement.sql.toList = numberedFrom 0 query.selectText.toList ++ (" WHERE ".toList ++
    (grouped (numberedFrom query.selectedParams.length p.format.toList) [] ++
      numberedFrom (query.selectedParams.length + p.params.length) (query.groupText ++ query.orderText).toList))
  params : statement.params = query.selectedParams ++ (p.params ++ query.laterParams)

theorem carries_of_ofTraits? (hquery : ofTraits? target filter traits = .ok query)
    (hstatement : query.statement? = .ok statement) (hp : target.compile traits.matchAny filter = .ok p)
    (hsome : p.isEmpty = false) : query.Carries statement p := by
  obtain ⟨p', hp', hfilters⟩ := filters_of_ofTraits? hquery
  obtain rfl : p = p' := Except.ok.inj (hp.symm.trans hp')
  obtain ⟨hsql, hbound⟩ := of_statement?_eq_ok hstatement
  obtain ⟨hcollected, -⟩ := collected_of_ofTraits? hquery
  rw [hsome, if_neg Bool.false_ne_true] at hfilters
  have hjoined : (Predicate.join query.filters Connective.and.word).params = p.params := by
    rw [hfilters, Predicate.params_join, List.filter_cons_of_pos (by rw [hsome]; rfl)]
    exact List.flatMap_singleton _ _
  have hwhere : query.whereText.toList = " WHERE ".toList ++ grouped p.format.toList [] := by
    rw [whereText, hfilters, if_neg (by simp), String.toList_append, Predicate.toList_format_join_singleton hsome]
  have hplain : '$' ∉ " WHERE ".toList := by decide
  constructor
  · rw [hsql, hcollected.toList_renumber_draft, hjoined, hwhere, Sql.numberedFrom_plain_append _ hplain,
      Sql.numberedFrom_grouped, List.append_assoc]
    rfl
  · rw [hbound, Query.params, hjoined, selectedParams, laterParams]
    simp only [List.append_assoc]

/-- The statement restricts a search to a type, beside what the caller's filter is compiled to. -/
structure Restricts (query : Query) (statement : Statement) (typeName : String) (own : Predicate)
    (condition : List Char) : Prop where
  /-- The condition stands behind `WHERE`, between what is selected and the groups, the ordering and the limits. -/
  text : statement.sql.toList = numberedFrom 0 query.selectText.toList ++ (" WHERE ".toList ++ (condition ++
    numberedFrom (query.selectedParams.length + (own.params.length + 1)) (query.groupText ++ query.orderText).toList))
  /-- It is the demand for the type, alone or joined by `AND` to the group of what the caller asks. -/
  enclosed : Sql.Enclosed (Target.restriction query.selectedParams.length own) condition
  /-- The group closes no parenthesis that it has not opened. -/
  balanced : Balanced (numberedFrom (query.selectedParams.length + 1) own.format.toList)
  /-- What the caller's filter binds comes behind the name of the type. -/
  params : statement.params = query.selectedParams ++ .string typeName :: (own.params ++ query.laterParams)
  /-- The name of the type is bound where the demand has its placeholder. -/
  bound : statement.params[query.selectedParams.length]? = some (.string typeName)
  readable : ∃ tree : OperatorTree, tree.Sound ∧ tree.text = condition
  /-- A record that meets the condition meets the demand, whatever the comparisons and calls are worth. -/
  asks : ∀ tree : OperatorTree, tree.Sound → tree.text = condition → ∀ truth, tree.meets truth = true →
    truth (String.ofList (Target.typeEquality query.selectedParams.length)) = true

/-- A search for documents of a type restricts its statement to the type, whatever else the filter and the traits
ask. -/
theorem restricts_of_ofTraits? (hkind : target.kind = .document)
    (hquery : ofTraits? target (typedFilter typeName filter) traits = .ok query)
    (hstatement : query.statement? = .ok statement) :
    ∃ own condition, target.compile traits.matchAny filter = .ok own ∧
      query.Restricts statement typeName own condition := by
  obtain ⟨p, hp, -⟩ := filters_of_ofTraits? hquery
  obtain ⟨own, hown, hsome, hparams, henclosed⟩ := Target.enclosed_typedFilter hkind hp
  obtain ⟨hsql, hall⟩ := carries_of_ofTraits? hquery hstatement hp hsome
  rw [hparams] at hsql hall
  have hcondition : Sql.Enclosed (Target.restriction query.selectedParams.length own)
      (grouped (numberedFrom query.selectedParams.length p.format.toList) []) := .inside (henclosed _)
  have hbalanced := (Target.balanced_of_compile hown).numberedFrom (query.selectedParams.length + 1)
  refine ⟨own, _, hown, hsql, hcondition, hbalanced, hall, ?_, Target.exists_tree_of_enclosed hcondition hown, ?_⟩
  · rw [hall, List.getElem?_append_right (Nat.le_refl _), Nat.sub_self]
    rfl
  · exact fun tree hsound htext truth hmeets =>
      Target.meets_typeEquality hcondition hbalanced hsound htext hmeets

end Query

end Dossier
