import Dossier.Filter.Compiled
import Dossier.Proofs.Filter.Keys
import Dossier.Proofs.Sql.Engine

/-!
One comparison in two dialects. An attribute of the payload without a type is compared as text; the text is
the engine's, and that of the other side is written by the compiler. Main statement: `compile_meets_iff`,
which tells where both dialects agree.
-/

namespace Dossier

open Sql (Dialect Engine Fragment Phrase Predicate)

namespace Sql.Predicate

theorem join_singleton {p : Predicate} {word : String} (h : p.isEmpty = false) :
    join [p] word = (ofParts p.parenthesised p.params).note "operator" (.string word) := by
  have hkept : [p].filter (!·.isEmpty) = [p] := by
    rw [List.filter_cons_of_pos (by rw [h]; rfl), List.filter_nil]
  have hformat : String.intercalate (" " ++ word ++ " ") [p.parenthesised] = p.parenthesised :=
    String.intercalate_singleton
  have hparams : [p].flatMap params = p.params := List.flatMap_singleton params p
  rw [join, hkept]
  change (ofParts (String.intercalate _ [p.parenthesised]) ([p].flatMap params)).note _ _ = _
  rw [hformat, hparams]

end Sql.Predicate

namespace Key

theorem ofText?_segment {key : String} (hkey : isSegment key.toList = true) (kind : Kind) :
    ofText? kind key = .ok (.path [key]) := by
  have hdot : '.' ∉ key.toList := not_mem_segment (by decide) hkey
  have hsegments : segments? key = some [key] := by
    rw [segments?, Text.splitAt_of_not_mem hdot, List.all_cons, hkey, List.all_nil, Bool.and_true, if_pos rfl,
      List.map_singleton, String.ofList_toList]
  unfold ofText?
  split
  · rename_i rest heq
    have hdollar : '$' ∉ key.toList := not_mem_segment (by decide) hkey
    exact absurd (heq ▸ List.mem_cons_self) hdollar
  · rw [hsegments]

end Key

namespace Target

variable {kind : Kind} {schema : Schema} {matchAny : Bool} {key : String} {v : Json} {payload : Members}

/-! ### Compiling -/

/-- The comparison of an attribute with a text. -/
def textComparison (target : Target) (key text : String) : Fragment :=
  target.castExpression (.path [key]) .text ++ [.text " = ", .value (.string text)]

theorem comparison_eq {target : Target} (hschema : target.schema.propertyType [key] = none) (hv : v.IsPlain) :
    target.comparison (.path [key]) v = target.textComparison key (comparedText v) := by
  have hcast : target.castOf (.path [key]) = .text := by rw [castOf, hschema]
  have hscalar : target.comparison (.path [key]) v =
      target.castExpression (.path [key]) (target.castOf (.path [key])) ++
        .text " = " :: target.boundValue v (target.castOf (.path [key])) := by
    match v, hv with
    | .bool _, _ | .number (.int _), _ | .string _, _ => rfl
  rw [hscalar, hcast]
  rfl

theorem compile_segment {target : Target} (hkey : Key.isSegment key.toList = true)
    (hschema : target.schema.propertyType [key] = none) (hv : v.IsPlain) :
    target.compile matchAny (.object [(key, v)]) =
      .ok (Predicate.join [Predicate.ofFragment (target.textComparison key (comparedText v))]
        (connectiveOf matchAny).word) := by
  have hname : Members.contains [(key, v)] Condition.functionName = false := by
    have hdollar : '$' ∉ key.toList := Key.not_mem_segment (by decide) hkey
    have hne : key ≠ Condition.functionName := by
      rintro rfl
      exact hdollar (by decide)
    rw [Members.contains, Members.get?, if_neg hne]
    rfl
  have hread : Condition.ofJson? target.kind (connectiveOf matchAny) (.object [(key, v)]) =
      .ok (.group (connectiveOf matchAny) [.equal (.path [key]) v]) := by
    rw [Condition.ofJson?, hname, if_neg Bool.false_ne_true, Condition.readMembers, Key.ofText?_segment hkey]
    rfl
  rw [compile, hread, ← comparison_eq hschema hv]
  rfl

/-- How the comparison is read in each dialect. -/
def reading (kind : Kind) : Dialect → Phrase
  | .postgres => .equal (.extract (.column kind.payload) (.castText (.parameter 1))) (.parameter 2)
  | .sqlite => .equal (.castText (.extract (.column kind.payload) (.parameter 1))) (.parameter 2)

/-- The name or the path that is bound for an attribute. -/
def boundKey (key : String) : Dialect → String
  | .postgres => key
  | .sqlite => jsonPath [key]

/-- The name and the value that are bound leave no trace in the text. -/
theorem format_textComparison (kind : Kind) (schema : Schema) (dialect : Dialect) (key text : String) :
    Fragment.formatFrom 0 (textComparison ⟨kind, schema, dialect⟩ key text) =
      Fragment.formatFrom 0 (textComparison ⟨kind, .empty, dialect⟩ "" "") := by
  cases dialect <;> rfl

theorem params_textComparison (kind : Kind) (schema : Schema) (dialect : Dialect) (key text : String) :
    (textComparison ⟨kind, schema, dialect⟩ key text).params = [.string (boundKey key dialect), .string text] := by
  cases dialect <;> rfl

/-- The compiled condition is read as the comparison, with its name and its text bound. -/
theorem read_compiled (kind : Kind) (matchAny : Bool) (hkey : Key.isSegment key.toList = true)
    (hschema : schema.propertyType [key] = none) (hv : v.IsPlain) (dialect : Dialect) :
    ∃ p, compile ⟨kind, schema, dialect⟩ matchAny (.object [(key, v)]) = .ok p ∧
      Phrase.ofText? p.format = some (reading kind dialect) ∧
      p.params = [.string (boundKey key dialect), .string (comparedText v)] := by
  set comparison := textComparison ⟨kind, schema, dialect⟩ key (comparedText v) with hcomparison
  have hsome : (Predicate.ofFragment comparison).isEmpty = false := by
    change (Fragment.formatFrom 0 comparison).isEmpty = false
    rw [hcomparison, format_textComparison]
    cases kind <;> cases dialect <;> decide +kernel
  refine ⟨_, compile_segment hkey hschema hv, ?_⟩
  rw [← hcomparison, Predicate.join_singleton hsome]
  constructor
  · change Phrase.ofText? ("(" ++ Fragment.formatFrom 0 comparison ++ ")") = some (reading kind dialect)
    rw [hcomparison, format_textComparison]
    cases kind <;> cases dialect <;> decide +kernel
  · exact params_textComparison kind schema dialect key (comparedText v)

theorem jsonPath_segment (hdigits : key.toList.all Text.isDigit = false) : jsonPath [key] = Engine.memberPath key := by
  have hstep : pathStep key = ".\"" ++ key ++ "\"" := by
    rw [pathStep, hdigits, if_neg Bool.false_ne_true]
  have hjoin : String.join [pathStep key] = pathStep key := String.empty_append
  rw [jsonPath, List.map_singleton, hjoin, hstep, Engine.memberPath, ← String.append_assoc, ← String.append_assoc]
  rfl

/-! ### Meeting -/

/-- The two spellings seek the same but for flags. -/
theorem spelled_iff_iff (held : Option Json) (text : String) :
    ((Engine.spelled? Engine.flagDigit (held.getD .null) = some text) ↔
        Engine.spelled? Engine.flagName (held.getD .null) = some text) ↔
      ¬∃ flag, held = some (.bool flag) ∧ (text = Engine.flagName flag ∨ text = Engine.flagDigit flag) := by
  by_cases hflag : ∃ flag, held = some (.bool flag)
  · obtain ⟨flag, rfl⟩ := hflag
    have hne : Engine.flagDigit flag ≠ Engine.flagName flag := by cases flag <;> decide
    have hsome : (∃ flag', some (Json.bool flag) = some (.bool flag') ∧
        (text = Engine.flagName flag' ∨ text = Engine.flagDigit flag')) ↔
        text = Engine.flagName flag ∨ text = Engine.flagDigit flag := by
      constructor
      · rintro ⟨flag', hflag', htext⟩
        cases hflag'
        exact htext
      · exact fun htext => ⟨flag, rfl, htext⟩
    rw [hsome, Option.getD_some, Engine.spelled?, Engine.spelled?, Option.some_inj, Option.some_inj]
    constructor
    · rintro hiff (rfl | rfl)
      · exact hne (hiff.mpr rfl)
      · exact hne (hiff.mp rfl).symm
    · exact fun hnone => iff_of_false (fun h => hnone (.inr h.symm)) (fun h => hnone (.inl h.symm))
  · have hspelled : Engine.spelled? Engine.flagDigit (held.getD .null) =
        Engine.spelled? Engine.flagName (held.getD .null) := by
      match held with
      | some (.bool flag) => exact absurd ⟨flag, rfl⟩ hflag
      | some (.number (.int _)) | some (.number (.real _)) | some (.string _) | some .null | some (.array _)
      | some (.object _) | none => rfl
    rw [hspelled]
    exact iff_of_true Iff.rfl fun ⟨flag, hheld, _⟩ => hflag ⟨flag, hheld⟩

/-- A record meets the condition in Postgres if the text of what it holds is the text that is sought. -/
theorem meets_postgres_iff {post : Engine} (hpost : post.IsPostgres) (hplain : payload.HoldsPlain key) {p : Predicate}
    {text : String} (hread : Phrase.ofText? p.format = some (reading kind .postgres))
    (hparams : p.params = [.string key, .string text]) :
    post.Meets kind.payload payload p ↔
      Engine.spelled? Engine.flagName ((payload.get? key).getD .null) = some text := by
  have hmeaning : post.meaning? kind.payload payload p.params (reading kind .postgres) =
      some (.truth (post.equal (post.extract payload (post.castText (.text key))) (.text text))) := by
    rw [hparams]
    simp [reading, Engine.meaning?, Scalar.ofJson]
  have hvalue : post.extract payload (post.castText (.text key)) =
      Engine.textOrNull (Engine.spelled? Engine.flagName ((payload.get? key).getD .null)) := by
    rw [hpost.castText_text, hpost.extract_plain hplain]
  rw [Engine.Meets, hread, ← hpost.equal_iff, ← hvalue]
  simp [hmeaning]

theorem meets_sqlite_iff {lite : Engine} (hlite : lite.IsSqlite) (hkey : '"' ∉ key.toList)
    (hplain : payload.HoldsPlain key) {p : Predicate} {text : String}
    (hread : Phrase.ofText? p.format = some (reading kind .sqlite))
    (hparams : p.params = [.string (Engine.memberPath key), .string text]) :
    lite.Meets kind.payload payload p ↔
      Engine.spelled? Engine.flagDigit ((payload.get? key).getD .null) = some text := by
  have hmeaning : lite.meaning? kind.payload payload p.params (reading kind .sqlite) = some (.truth (lite.equal
      (lite.castText (lite.extract payload (.text (Engine.memberPath key)))) (.text text))) := by
    rw [hparams]
    simp [reading, Engine.meaning?, Scalar.ofJson]
  rw [Engine.Meets, hread, ← hlite.equal_iff, ← hlite.castText_plain hkey hplain]
  simp [hmeaning]

/-- **A condition in two dialects.** The condition that seeks a plain value under a key without a type is met in
Postgres by the records that hold the text of the value there. In SQLite it is met by the same records, unless a
record holds a flag and the text is the name of the flag or its digit: the name is found in Postgres only, and the
digit in SQLite only. -/
theorem compile_meets_iff (kind : Kind) (schema : Schema) (matchAny : Bool) (key : String) (v : Json)
    (payload : Members) {post lite : Engine} (hpost : post.IsPostgres) (hlite : lite.IsSqlite)
    (hkey : Key.isSegment key.toList = true) (hdigits : key.toList.all Text.isDigit = false)
    (hschema : schema.propertyType [key] = none) (hv : v.IsPlain) (hplain : payload.HoldsPlain key) :
    ∃ p q, compile ⟨kind, schema, .postgres⟩ matchAny (.object [(key, v)]) = .ok p ∧
      compile ⟨kind, schema, .sqlite⟩ matchAny (.object [(key, v)]) = .ok q ∧
      (post.Meets kind.payload payload p ↔
        Engine.spelled? Engine.flagName ((payload.get? key).getD .null) = some (comparedText v)) ∧
      ((lite.Meets kind.payload payload q ↔ post.Meets kind.payload payload p) ↔
        ¬∃ flag, payload.get? key = some (.bool flag) ∧
          (comparedText v = Engine.flagName flag ∨ comparedText v = Engine.flagDigit flag)) := by
  obtain ⟨p, hp, hreadp, hparamsp⟩ := read_compiled kind matchAny hkey hschema hv .postgres
  obtain ⟨q, hq, hreadq, hparamsq⟩ := read_compiled kind matchAny hkey hschema hv .sqlite
  have hpostgres := meets_postgres_iff hpost hplain hreadp hparamsp
  refine ⟨p, q, hp, hq, hpostgres, ?_⟩
  have hquote : '"' ∉ key.toList := Key.not_mem_segment (by decide) hkey
  rw [boundKey, jsonPath_segment hdigits] at hparamsq
  rw [hpostgres, meets_sqlite_iff hlite hquote hplain hreadq hparamsq]
  exact spelled_iff_iff _ _

/-- A number finds the string of its digits. -/
theorem compile_meets_iff_number :
    ∃ p q, compile ⟨.document, .empty, .postgres⟩ false (.object [("nick", .int 7)]) = .ok p ∧
      compile ⟨.document, .empty, .sqlite⟩ false (.object [("nick", .int 7)]) = .ok q ∧
      Engine.postgres.Meets "content" [("nick", .string "7")] p ∧
      Engine.sqlite.Meets "content" [("nick", .string "7")] q := by
  obtain ⟨p, q, hp, hq, hpostgres, hagree⟩ := compile_meets_iff .document .empty false "nick" (.int 7)
    [("nick", .string "7")] Engine.isPostgres_postgres Engine.isSqlite_sqlite (by decide) (by decide) (by decide)
    trivial (.inr trivial)
  have hpost := hpostgres.mpr rfl
  refine ⟨p, q, hp, hq, hpost, (hagree.mpr ?_).mpr hpost⟩
  rintro ⟨flag, hflag, -⟩
  cases hflag

/-- A flag is found by its value in Postgres and missed in SQLite. -/
theorem compile_flag_apart :
    ∃ p q, compile ⟨.document, .empty, .postgres⟩ false (.object [("flag", .bool true)]) = .ok p ∧
      compile ⟨.document, .empty, .sqlite⟩ false (.object [("flag", .bool true)]) = .ok q ∧
      Engine.postgres.Meets "content" [("flag", .bool true)] p ∧
      ¬Engine.sqlite.Meets "content" [("flag", .bool true)] q := by
  have hkey : Key.isSegment "flag".toList = true := by decide
  have hschema : Schema.empty.propertyType ["flag"] = none := by decide
  have hplain : Members.HoldsPlain [("flag", .bool true)] "flag" := .inr trivial
  have hv : (Json.bool true).IsPlain := trivial
  obtain ⟨p, hp, hreadp, hparamsp⟩ := read_compiled .document false hkey hschema hv .postgres
  obtain ⟨q, hq, hreadq, hparamsq⟩ := read_compiled .document false hkey hschema hv .sqlite
  rw [boundKey, jsonPath_segment (by decide)] at hparamsq
  refine ⟨p, q, hp, hq, ?_, ?_⟩
  · exact (meets_postgres_iff Engine.isPostgres_postgres hplain hreadp hparamsp).mpr rfl
  · intro hmeets
    have hspelled := (meets_sqlite_iff Engine.isSqlite_sqlite (by decide) hplain hreadq hparamsq).mp hmeets
    exact absurd hspelled (by decide)

end Target

end Dossier
