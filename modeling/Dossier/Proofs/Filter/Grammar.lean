import Dossier.Filter.Compiled
import Dossier.Proofs.Filter.Keys
import Dossier.Proofs.Json.Members

/-!
The filters that are accepted, as a grammar of its own: keys, the words at the head of an array, and the filters
built of them. Main statement: `compile_accepts_iff`, by which a filter is compiled exactly if the grammar has it,
whatever the schema, the dialect and the connective of its objects, and is refused for one reason otherwise.
-/

namespace Dossier

/-! ### Words at the head of an array -/

/-- The names of a type that calls return. -/
def ReturnType.spellings : ReturnType → List String
  | .boolean => ["boolean", "bool"]
  | .number => ["number", "numeric"]
  | .text => ["text", "string"]
  | .json => ["json", "jsonb"]

/-- The word begins a call: alone, or with the name of a type behind a colon. -/
def OpensCall (token : String) : Prop :=
  token = "BIND" ∨ ∃ name, token = "BIND:" ++ name ∧ ∃ returns : ReturnType, Text.asciiLower name ∈ returns.spellings

theorem ReturnType.ofName?_eq_ok_iff {name : String} {returns : ReturnType} :
    ofName? name = .ok returns ↔ Text.asciiLower name ∈ returns.spellings := by
  unfold ofName?
  constructor
  · intro h
    split at h <;> cases h <;> simp_all [spellings]
  · intro h
    cases returns <;> rcases List.mem_pair.mp h with h | h <;> rw [h] <;> rfl

namespace Operator

variable {token : String}

theorem equalIgnoringCase_word_iff {connective : Connective} :
    Text.equalIgnoringCase token connective.word = true ↔ Text.asciiUpper token = connective.word := by
  have hword : connective.word.toList.all (·.isUpper) = true := by cases connective <;> rfl
  exact (Text.asciiUpper_eq_iff (List.all_eq_true.mp hword)).symm

theorem ofToken?_of_connective {connective : Connective} (h : Text.asciiUpper token = connective.word) :
    ofToken? token = .ok (.connective connective) := by
  cases connective with
  | and => rw [ofToken?, if_pos (equalIgnoringCase_word_iff.mpr h)]
  | or =>
      have hand : ¬ Text.equalIgnoringCase token Connective.and.word = true := by
        rw [equalIgnoringCase_word_iff, h]
        decide
      rw [ofToken?, if_neg hand, if_pos (equalIgnoringCase_word_iff.mpr h)]

/-- The marker of calls and a name, with a colon between them, are taken apart at the colon. -/
theorem eq_marked_iff {name : String} :
    token = "BIND:" ++ name ↔ Text.cutAt ':' token.toList = some (callMarker.toList, name.toList) := by
  have hchars : ("BIND:" ++ name).toList = callMarker.toList ++ ':' :: name.toList := String.toList_append
  rw [Text.cutAt_eq_some_iff, ← hchars, String.toList_inj]
  exact (and_iff_right (by decide)).symm

/-- A word that is no connective in any case begins a call, or nothing. -/
theorem ofToken?_of_ne (h : ∀ connective : Connective, Text.asciiUpper token ≠ connective.word)
    (operator : Operator) :
    ofToken? token = .ok operator ↔
      (token = "BIND" ∧ operator = .call .boolean) ∨
        ∃ name returns, token = "BIND:" ++ name ∧ Text.asciiLower name ∈ ReturnType.spellings returns ∧
          operator = .call returns := by
  have hne : ∀ connective : Connective, ¬ Text.equalIgnoringCase token connective.word = true :=
    fun connective hword => h connective (equalIgnoringCase_word_iff.mp hword)
  rw [ofToken?, if_neg (hne .and), if_neg (hne .or)]
  simp only [eq_marked_iff]
  cases hcut : Text.cutAt ':' token.toList with
  | none =>
      dsimp only
      by_cases htoken : token = callMarker
      · rw [if_pos htoken]
        constructor
        · intro h
          cases h
          exact .inl ⟨htoken, rfl⟩
        · rintro (⟨-, rfl⟩ | ⟨_, _, hname, -⟩)
          · rfl
          · cases hname
      · rw [if_neg htoken]
        refine iff_of_false nofun ?_
        rintro (⟨h, -⟩ | ⟨_, _, hname, -⟩)
        · exact htoken h
        · cases hname
  | some cut =>
      obtain ⟨marker, returns⟩ := cut
      have hword : token ≠ "BIND" := by
        rintro rfl
        cases hcut
      dsimp only
      by_cases hmarker : String.ofList marker = callMarker
      · rw [if_pos hmarker]
        constructor
        · intro h
          obtain ⟨found, hfound, rfl⟩ := map_eq_ok_iff.mp h
          refine .inr ⟨String.ofList returns, found, ?_, ReturnType.ofName?_eq_ok_iff.mp hfound, rfl⟩
          rw [← hmarker, String.toList_ofList, String.toList_ofList]
        · rintro (⟨h, -⟩ | ⟨name, found, hname, hfound, rfl⟩)
          · exact absurd h hword
          · cases hname
            rw [String.ofList_toList]
            exact map_eq_ok_iff.mpr ⟨found, ReturnType.ofName?_eq_ok_iff.mpr hfound, rfl⟩
      · rw [if_neg hmarker]
        refine iff_of_false nofun ?_
        rintro (⟨h, -⟩ | ⟨name, _, hname, -⟩)
        · exact hword h
        · cases hname
          exact hmarker String.ofList_toList

/-- A word is read as a connective exactly if it is the connective in some case. -/
theorem ofToken?_connective_iff {connective : Connective} :
    ofToken? token = .ok (.connective connective) ↔ Text.asciiUpper token = connective.word := by
  refine ⟨fun h => ?_, ofToken?_of_connective⟩
  by_cases hsome : ∃ own : Connective, Text.asciiUpper token = own.word
  · obtain ⟨own, hown⟩ := hsome
    rw [ofToken?_of_connective hown] at h
    cases h
    exact hown
  · rw [ofToken?_of_ne fun own hown => hsome ⟨own, hown⟩] at h
    rcases h with ⟨-, h⟩ | ⟨_, _, -, -, h⟩ <;> cases h

theorem ofToken?_call_iff : (∃ returns, ofToken? token = .ok (.call returns)) ↔ OpensCall token := by
  constructor
  · rintro ⟨returns, h⟩
    have hne : ∀ connective : Connective, Text.asciiUpper token ≠ connective.word := by
      intro connective hword
      rw [ofToken?_of_connective hword] at h
      cases h
    rcases (ofToken?_of_ne hne _).mp h with ⟨htoken, -⟩ | ⟨name, returns, htoken, hname, -⟩
    · exact .inl htoken
    · exact .inr ⟨name, htoken, returns, hname⟩
  · intro h
    have hhead : ∃ rest, token.toList = 'B' :: rest := by
      rcases h with rfl | ⟨name, rfl, -⟩
      · exact ⟨_, rfl⟩
      · exact ⟨_, String.toList_append⟩
    have hne : ∀ connective : Connective, Text.asciiUpper token ≠ connective.word := by
      obtain ⟨rest, hrest⟩ := hhead
      intro connective hword
      have hchars := congrArg String.toList hword
      rw [Text.asciiUpper, hrest, String.toList_ofList, List.map_cons] at hchars
      cases connective <;> exact absurd (List.cons.inj hchars).1 (by decide)
    rcases h with htoken | ⟨name, htoken, returns, hname⟩
    · exact ⟨.boolean, (ofToken?_of_ne hne _).mpr (.inl ⟨htoken, rfl⟩)⟩
    · exact ⟨returns, (ofToken?_of_ne hne _).mpr (.inr ⟨name, returns, htoken, hname, rfl⟩)⟩

end Operator

/-! ### Filters -/

/-- The items are those of a call: keys, then a function. -/
def IsCall (kind : Kind) (items : List Json) : Prop :=
  ∃ before function after source, items = before ++ function :: after ∧
    function.get? Condition.functionName = some (.string source) ∧
    ∀ item ∈ before, ∃ text, item = .string text ∧ ValidKey kind text

/-- The filter is in the grammar: nothing, an object of keys, filters behind a connective or without one, or a call
of a function on keys. -/
inductive Accepted (kind : Kind) : Json → Prop
  | null : Accepted kind .null
  | object {members : List (String × Json)} (hfunction : Condition.functionName ∉ Members.names members)
      (hkeys : ∀ member ∈ members, ValidKey kind member.1) : Accepted kind (.object members)
  | array {items : List Json} (h : ∀ item ∈ items, Accepted kind item) : Accepted kind (.array items)
  | connective {token : String} {connective : Connective} {items : List Json}
      (htoken : Text.asciiUpper token = connective.word) (h : ∀ item ∈ items, Accepted kind item) :
      Accepted kind (.array (.string token :: items))
  | call {token : String} {items : List Json} (htoken : OpensCall token) (hcall : IsCall kind items) :
      Accepted kind (.array (.string token :: items))

namespace Condition

variable {kind : Kind}

theorem function?_eq_some_iff {value : Json} {source : String} :
    function? value = some source ↔ value.get? functionName = some (.string source) := by
  rw [function?, Option.bind_eq_some_iff]
  constructor
  · rintro ⟨held, hheld, hsource⟩
    cases held with
    | string text =>
        cases hsource
        exact hheld
    | null | bool | number | array | object => cases hsource
  · exact fun h => ⟨_, h, rfl⟩

/-- A call is cut at its first function. -/
theorem cutAtFunction_eq_some_iff {items before after : List Json} {source : String} :
    cutAtFunction items = some (before, source, after) ↔
      ∃ function, items = before ++ function :: after ∧ function? function = some source ∧
        ∀ item ∈ before, function? item = none := by
  induction items generalizing before with
  | nil =>
      refine iff_of_false nofun ?_
      rintro ⟨function, h, -⟩
      cases before <;> cases h
  | cons item rest ih =>
      rw [cutAtFunction]
      cases hitem : function? item with
      | some own =>
          constructor
          · intro h
            cases h
            exact ⟨item, rfl, hitem, nofun⟩
          · rintro ⟨function, h, hfunction, hbefore⟩
            cases before with
            | nil =>
                cases h
                rw [hitem] at hfunction
                cases hfunction
                rfl
            | cons first before =>
                cases h
                rw [hbefore item List.mem_cons_self] at hitem
                cases hitem
      | none =>
          dsimp only
          rw [Option.map_eq_some_iff]
          constructor
          · rintro ⟨⟨before', source', after'⟩, hcut, h⟩
            cases h
            obtain ⟨function, rfl, hfunction, hbefore⟩ := ih.mp hcut
            exact ⟨function, rfl, hfunction, List.forall_mem_cons.mpr ⟨hitem, hbefore⟩⟩
          · rintro ⟨function, h, hfunction, hbefore⟩
            cases before with
            | nil =>
                cases h
                rw [hitem] at hfunction
                cases hfunction
            | cons first before =>
                cases h
                have hrest := ih.mpr ⟨function, rfl, hfunction, (List.forall_mem_cons.mp hbefore).2⟩
                exact ⟨_, hrest, rfl⟩

theorem readInput_accepts_iff {item : Json} :
    (∃ key, readInput kind item = .ok key) ↔ ∃ text, item = .string text ∧ ValidKey kind text := by
  constructor
  · intro h
    cases item with
    | string text => exact ⟨text, rfl, Key.ofText?_accepts_iff.mp h⟩
    | null | bool | number | array | object =>
        obtain ⟨key, h⟩ := h
        cases h
  · rintro ⟨text, rfl, h⟩
    exact Key.ofText?_accepts_iff.mpr h

theorem readCall_accepts_iff {returns : ReturnType} {items : List Json} :
    (∃ condition, readCall kind returns items = .ok condition) ↔ IsCall kind items := by
  rw [readCall]
  constructor
  · rintro ⟨condition, h⟩
    split at h
    · cases h
    · rename_i before source after hcut
      obtain ⟨function, rfl, hfunction, -⟩ := cutAtFunction_eq_some_iff.mp hcut
      obtain ⟨inputs, hinputs, -⟩ := bind_eq_ok_iff.mp h
      refine ⟨before, function, after, source, rfl, function?_eq_some_iff.mp hfunction, fun item hitem => ?_⟩
      obtain ⟨key, -, hkey⟩ := exists_of_mem_forall₂ (mapM_eq_ok_iff.mp hinputs) hitem
      exact readInput_accepts_iff.mp ⟨key, hkey⟩
  · rintro ⟨before, function, after, source, rfl, hfunction, hbefore⟩
    have hnone : ∀ item ∈ before, function? item = none := by
      intro item hitem
      obtain ⟨text, rfl, -⟩ := hbefore item hitem
      rfl
    obtain ⟨inputs, hinputs⟩ := exists_forall₂ fun item hitem => readInput_accepts_iff.mpr (hbefore item hitem)
    rw [cutAtFunction_eq_some_iff.mpr ⟨function, rfl, function?_eq_some_iff.mpr hfunction, hnone⟩]
    exact ⟨_, bind_eq_ok_iff.mpr ⟨inputs, mapM_eq_ok_iff.mpr hinputs, rfl⟩⟩

theorem readMembers_accepts_iff {members : List (String × Json)} :
    (∃ conditions, readMembers kind members = .ok conditions) ↔ ∀ member ∈ members, ValidKey kind member.1 := by
  induction members with
  | nil => exact iff_of_true ⟨[], rfl⟩ nofun
  | cons member rest ih =>
      obtain ⟨name, value⟩ := member
      rw [List.forall_mem_cons, ← ih, ← Key.ofText?_accepts_iff, readMembers]
      exact exists_both_eq_ok_iff

/-! ### Members of the grammar -/

theorem not_accepted_string (text : String) : ¬ Accepted kind (.string text) := nofun

theorem accepted_object_iff {members : List (String × Json)} :
    Accepted kind (.object members) ↔
      ¬ Members.contains members functionName = true ∧ ∀ member ∈ members, ValidKey kind member.1 := by
  rw [Members.contains, Members.isSome_get?_iff]
  constructor
  · intro h
    cases h with
    | object hfunction hkeys => exact ⟨hfunction, hkeys⟩
  · exact fun h => .object h.1 h.2

theorem accepted_array_iff {items : List Json} (hitems : ∀ token rest, items ≠ .string token :: rest) :
    Accepted kind (.array items) ↔ ∀ item ∈ items, Accepted kind item := by
  constructor
  · intro h
    cases h with
    | array h => exact h
    | connective => exact absurd rfl (hitems _ _)
    | call => exact absurd rfl (hitems _ _)
  · exact .array

/-- Behind a word stand the operands of a connective, or what a call takes. -/
theorem accepted_word_iff {token : String} {rest : List Json} :
    Accepted kind (.array (.string token :: rest)) ↔
      (∃ connective : Connective, Text.asciiUpper token = connective.word ∧ ∀ item ∈ rest, Accepted kind item) ∨
        (OpensCall token ∧ IsCall kind rest) := by
  constructor
  · intro h
    cases h with
    | array h => exact absurd (h _ List.mem_cons_self) (not_accepted_string token)
    | connective htoken h => exact .inl ⟨_, htoken, h⟩
    | call htoken hcall => exact .inr ⟨htoken, hcall⟩
  · rintro (⟨connective, htoken, h⟩ | ⟨htoken, hcall⟩)
    · exact .connective htoken h
    · exact .call htoken hcall

/-- A filter is read exactly if the grammar has it. -/
theorem ofJson?_accepts_iff (kind : Kind) (connective : Connective) :
    (∀ filter, (∃ condition, ofJson? kind connective filter = .ok condition) ↔ Accepted kind filter) ∧
      ∀ inner items, (∃ conditions, readItems kind connective inner items = .ok conditions) ↔
        ∀ item ∈ items, Accepted kind item := by
  refine ofJson?.mutual_induct
    (fun filter => (∃ condition, ofJson? kind connective filter = .ok condition) ↔ Accepted kind filter)
    (fun inner items => (∃ conditions, readItems kind connective inner items = .ok conditions) ↔
      ∀ item ∈ items, Accepted kind item) ?null ?function ?object ?unknown ?call ?connective ?array ?scalar ?nil
    ?token ?cons
  case null => exact iff_of_true ⟨.all, rfl⟩ .null
  case function =>
    intro members hfunction
    rw [ofJson?, if_pos hfunction, accepted_object_iff]
    exact iff_of_false nofun fun h => h.1 hfunction
  case object =>
    intro members hfunction
    rw [ofJson?, if_neg hfunction, accepted_object_iff, and_iff_right hfunction, ← readMembers_accepts_iff]
    exact exists_map_eq_ok_iff
  case unknown =>
    intro token rest fault htoken
    rw [ofJson?, htoken, accepted_word_iff]
    refine iff_of_false nofun ?_
    rintro (⟨inner, hword, -⟩ | ⟨hcall, -⟩)
    · rw [Operator.ofToken?_connective_iff.mpr hword] at htoken
      cases htoken
    · obtain ⟨returns, hcall⟩ := Operator.ofToken?_call_iff.mpr hcall
      rw [hcall] at htoken
      cases htoken
  case call =>
    intro token rest returns htoken
    rw [ofJson?, htoken, accepted_word_iff, and_iff_right (Operator.ofToken?_call_iff.mp ⟨returns, htoken⟩)]
    refine readCall_accepts_iff.trans (or_iff_right ?_).symm
    rintro ⟨inner, hword, -⟩
    rw [Operator.ofToken?_connective_iff.mpr hword] at htoken
    cases htoken
  case connective =>
    intro token rest inner htoken ih
    have hword := Operator.ofToken?_connective_iff.mp htoken
    have hcall : ¬ OpensCall token := by
      rw [← Operator.ofToken?_call_iff, htoken]
      rintro ⟨returns, h⟩
      cases h
    rw [ofJson?, htoken, accepted_word_iff, or_iff_left fun h => hcall h.1]
    refine exists_map_eq_ok_iff.trans (ih.trans ?_)
    exact ⟨fun h => ⟨inner, hword, h⟩, fun ⟨_, _, h⟩ => h⟩
  case array =>
    intro items hitems ih
    rw [accepted_array_iff hitems, ← ih, ofJson?]
    · exact exists_map_eq_ok_iff
    · exact hitems
  case scalar =>
    intro scalar hnull hobject htoken harray
    refine iff_of_false ?_ ?_
    · rw [ofJson?]
      · exact nofun
      all_goals assumption
    · intro h
      cases h with
      | null => exact hnull rfl
      | object => exact hobject _ rfl
      | array => exact harray _ rfl
      | connective => exact htoken _ _ rfl
      | call => exact htoken _ _ rfl
  case nil => exact fun inner => iff_of_true ⟨[], rfl⟩ nofun
  case token =>
    intro inner token rest
    refine iff_of_false nofun fun h => ?_
    exact not_accepted_string token (h _ List.mem_cons_self)
  case cons =>
    intro inner item rest hitem ihitem ihrest
    rw [List.forall_mem_cons, ← ihitem, ← ihrest, readItems]
    · exact exists_both_eq_ok_iff
    · exact hitem

/-- Why a filter is refused does not depend on the connective of its objects. -/
theorem map_ofJson?_eq (kind : Kind) (connective other : Connective) :
    (∀ filter, (ofJson? kind connective filter).map (fun _ => ()) = (ofJson? kind other filter).map fun _ => ()) ∧
      ∀ inner items, (readItems kind connective inner items).map (fun _ => ()) =
        (readItems kind other inner items).map fun _ => () := by
  refine ofJson?.mutual_induct
    (fun filter => (ofJson? kind connective filter).map (fun _ => ()) = (ofJson? kind other filter).map fun _ => ())
    (fun inner items => (readItems kind connective inner items).map (fun _ => ()) =
      (readItems kind other inner items).map fun _ => ()) ?null ?function ?object ?unknown ?call ?connective ?array
    ?scalar ?nil ?token ?cons
  case null => rfl
  case function =>
    intro members hfunction
    rw [ofJson?, ofJson?, if_pos hfunction, if_pos hfunction]
  case object =>
    intro members hfunction
    rw [ofJson?, ofJson?, if_neg hfunction, if_neg hfunction]
    exact map_map_eq_map_map (f := id) rfl fun _ _ _ => rfl
  case unknown =>
    intro token rest fault htoken
    rw [ofJson?, ofJson?, htoken]
  case call =>
    intro token rest returns htoken
    rw [ofJson?, ofJson?, htoken]
  case connective =>
    intro token rest inner htoken ih
    rw [ofJson?, ofJson?, htoken]
    exact map_map_eq_map_map ih fun _ _ _ => rfl
  case array =>
    intro items hitems ih
    rw [ofJson?, ofJson?]
    · exact map_map_eq_map_map ih fun _ _ _ => rfl
    all_goals exact hitems
  case scalar =>
    intro scalar hnull hobject htoken harray
    rw [ofJson?, ofJson?]
    all_goals assumption
  case nil => exact fun inner => rfl
  case token => exact fun inner token rest => rfl
  case cons =>
    intro inner item rest hitem ihitem ihrest
    rw [readItems, readItems]
    · exact map_bind_eq_map_bind ihitem fun _ _ _ => map_bind_eq_map_bind ihrest fun _ _ _ => rfl
    all_goals exact hitem

end Condition

namespace Target

theorem compile_accepts_iff_accepted (target : Target) (matchAny : Bool) (filter : Json) :
    (∃ p, target.compile matchAny filter = .ok p) ↔ Accepted target.kind filter :=
  exists_map_eq_ok_iff.trans ((Condition.ofJson?_accepts_iff target.kind (connectiveOf matchAny)).1 filter)

/-- Two targets of one kind refuse a filter for one reason. -/
theorem compile_fault_eq {target other : Target} (hkind : target.kind = other.kind) {matchAny matchAny' : Bool}
    {filter : Json} {fault : CompileFault} (h : target.compile matchAny filter = .error fault) :
    other.compile matchAny' filter = .error fault := by
  have hread := (Condition.map_ofJson?_eq target.kind (connectiveOf matchAny) (connectiveOf matchAny')).1 filter
  have hmap : (target.compile matchAny filter).map (fun _ => ()) =
      (other.compile matchAny' filter).map fun _ => () := by
    rw [compile, compile, ← hkind]
    exact map_map_eq_map_map hread fun _ _ _ => rfl
  rcases map_eq_map_cases hmap with ⟨fault', hfault, hfault'⟩ | ⟨p, _, hp, -, -⟩
  · rw [h] at hfault
    cases hfault
    exact hfault'
  · rw [h] at hp
    cases hp

/-- **Accepted filters.** A filter is compiled exactly if it is in the grammar, whatever the schema, the dialect and
the connective of its objects are. Every other filter is refused, for a reason that does not depend on them. -/
theorem compile_accepts_iff (kind : Kind) (filter : Json) :
    (∀ schema dialect matchAny,
        (∃ p, compile ⟨kind, schema, dialect⟩ matchAny filter = .ok p) ↔ Accepted kind filter) ∧
      ((∃ fault, ∀ schema dialect matchAny, compile ⟨kind, schema, dialect⟩ matchAny filter = .error fault) ↔
        ¬ Accepted kind filter) := by
  refine ⟨fun schema dialect matchAny => compile_accepts_iff_accepted _ _ _, ?_⟩
  have hfirst := compile_accepts_iff_accepted ⟨kind, .empty, .postgres⟩ false filter
  rw [← hfirst]
  constructor
  · rintro ⟨fault, hfault⟩ ⟨p, hp⟩
    rw [hfault] at hp
    cases hp
  · intro hnone
    cases hcompile : compile ⟨kind, .empty, .postgres⟩ false filter with
    | ok p => exact absurd ⟨p, hcompile⟩ hnone
    | error fault =>
        refine ⟨fault, fun schema dialect matchAny => ?_⟩
        have hkind : kind = (⟨kind, schema, dialect⟩ : Target).kind := rfl
        exact compile_fault_eq hkind hcompile

end Target

end Dossier
