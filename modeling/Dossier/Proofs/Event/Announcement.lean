import Dossier.Event.Change
import Dossier.Proofs.Text.Pieces

/-!
Announcements of row changes, written and read. Each part of the format is a beginning of the text with
exactly one form, so its reader is settled by one equivalence: it takes a part off a text precisely when the
text is that part, as it is written, and the rest.

Main statement: `ofPayload?_payload`, which makes writing and reading inverse to each other.
-/

namespace Dossier.RowChange

open Text (replaceChar)

/-! ### The parts of an announcement -/

/-- What can stand in double quotes as a name: something, without a double quote. -/
def IsQuotable (name : String) : Prop := name ≠ "" ∧ '"' ∉ name.toList

theorem readName_eq_some_iff {cs rest : List Char} {name : String} :
    readName cs = some (name, rest) ↔ IsQuotable name ∧ cs = '"' :: (name.toList ++ '"' :: rest) := by
  constructor
  · intro h
    unfold readName at h
    split at h
    · rename_i inner
      obtain ⟨⟨before, after⟩, hcut, h⟩ := Option.bind_eq_some_iff.mp h
      obtain ⟨hmark, hinner⟩ := Text.cutAt_eq_some_iff.mp hcut
      dsimp only at h
      split at h
      · cases h
      · rename_i hne
        cases h
        refine ⟨⟨fun hnil => hne ?_, ?_⟩, ?_⟩
        · rw [List.isEmpty_iff, ← String.toList_ofList (l := before), hnil, String.toList_empty]
        · rwa [String.toList_ofList]
        · rw [String.toList_ofList, hinner]
    · cases h
  · rintro ⟨⟨hne, hmark⟩, rfl⟩
    have hsome : name.toList.isEmpty = false := by
      rw [List.isEmpty_eq_false_iff]
      exact fun hnil => hne (String.toList_eq_nil_iff.mp hnil)
    rw [readName, Text.cutAt_append hmark rest, Option.bind_eq_bind, Option.bind_some]
    dsimp only
    rw [if_neg (by rw [hsome]; exact Bool.false_ne_true), String.ofList_toList]

theorem readAction_eq_some_iff {cs rest : List Char} {action : Action} :
    readAction cs = some (action, rest) ↔ cs = ',' :: action.code :: ',' :: rest := by
  constructor
  · intro h
    unfold readAction at h
    split at h
    · rename_i c tail
      obtain ⟨found, hfound, hpair⟩ := Option.map_eq_some_iff.mp h
      have hcode := List.find?_some hfound
      cases hpair
      rw [eq_of_beq hcode]
    · cases h
  · rintro rfl
    cases action <;> rfl

/-- A value as it is written: each quote in it twice, and one quote after it. -/
def closedValue (value : List Char) : List Char := replaceChar '\'' ['\'', '\''] value ++ ['\'']

theorem closedValue_cons (c : Char) (value : List Char) :
    closedValue (c :: value) = (if c = '\'' then ['\'', '\''] else [c]) ++ closedValue value := by
  rw [closedValue, closedValue, replaceChar, List.flatMap_cons, List.append_assoc]
  rfl

/-- The reader goes by pairs of quotes, and the writer by characters; a run of quotes is read from its
first one on, so that the two agree on it. -/
theorem readValue_eq_some_iff {cs value : List Char} :
    readValue cs = some value ↔ cs = closedValue value := by
  constructor
  · intro h
    induction cs using readValue.induct generalizing value with
    | case1 => cases h
    | case2 =>
        cases h
        rfl
    | case3 rest ih =>
        obtain ⟨inner, hinner, rfl⟩ := Option.map_eq_some_iff.mp h
        rw [ih hinner, closedValue_cons, if_pos rfl]
        rfl
    | case4 rest hlone hpair =>
        rw [readValue] at h
        cases h
        · exact hlone
        · exact hpair
    | case5 c rest hlone hpair hc ih =>
        rw [readValue, if_neg hc] at h
        · obtain ⟨inner, hinner, rfl⟩ := Option.map_eq_some_iff.mp h
          rw [ih hinner, closedValue_cons, if_neg hc]
          rfl
        · exact hlone
        · exact hpair
  · rintro rfl
    induction value with
    | nil => rfl
    | cons c value ih =>
        rw [closedValue_cons]
        by_cases hc : c = '\''
        · subst hc
          rw [if_pos rfl, List.cons_append, List.cons_append, List.nil_append, readValue, ih]
          rfl
        · rw [if_neg hc, List.singleton_append, readValue, if_neg hc, ih]
          · rfl
          · exact fun h => absurd h hc
          · exact fun _ h => absurd h hc

/-! ### The whole announcement -/

theorem toList_payload (change : RowChange) : change.payload.toList =
    '"' :: (change.table.toList ++ '"' :: (',' :: change.action.code :: ',' ::
      ('"' :: (change.column.toList ++ '"' :: (['=', '\''] ++ closedValue change.value.toList))))) := by
  simp [payload, closedValue]

theorem ofChars?_eq_some_iff {cs : List Char} {change : RowChange} :
    ofChars? cs = some change ↔
      (IsQuotable change.table ∧ IsQuotable change.column) ∧ cs = change.payload.toList := by
  rw [toList_payload]
  constructor
  · intro h
    obtain ⟨⟨table, afterTable⟩, htable, h⟩ := Option.bind_eq_some_iff.mp h
    obtain ⟨⟨action, afterAction⟩, haction, h⟩ := Option.bind_eq_some_iff.mp h
    obtain ⟨⟨column, afterColumn⟩, hcolumn, h⟩ := Option.bind_eq_some_iff.mp h
    obtain ⟨written, hwritten, h⟩ := Option.bind_eq_some_iff.mp h
    obtain ⟨value, hvalue, h⟩ := Option.bind_eq_some_iff.mp h
    cases h
    obtain ⟨hquotable, rfl⟩ := readName_eq_some_iff.mp htable
    rw [readAction_eq_some_iff.mp haction]
    obtain ⟨hquotable', rfl⟩ := readName_eq_some_iff.mp hcolumn
    rw [Text.afterStart_eq_some_iff.mp hwritten, readValue_eq_some_iff.mp hvalue, String.toList_ofList]
    exact ⟨⟨hquotable, hquotable'⟩, rfl⟩
  · rintro ⟨⟨htable, hcolumn⟩, rfl⟩
    refine Option.bind_eq_some_iff.mpr ⟨_, readName_eq_some_iff.mpr ⟨htable, rfl⟩, ?_⟩
    refine Option.bind_eq_some_iff.mpr ⟨_, readAction_eq_some_iff.mpr rfl, ?_⟩
    refine Option.bind_eq_some_iff.mpr ⟨_, readName_eq_some_iff.mpr ⟨hcolumn, rfl⟩, ?_⟩
    refine Option.bind_eq_some_iff.mpr ⟨_, Text.afterStart_eq_some_iff.mpr rfl, ?_⟩
    refine Option.bind_eq_some_iff.mpr ⟨_, readValue_eq_some_iff.mpr rfl, ?_⟩
    rw [String.ofList_toList]
    rfl

/-- Announcements begin and end with quotes, so there is nothing to trim. -/
theorem trimChars_payload (change : RowChange) :
    Text.trimChars change.payload.toList = change.payload.toList := by
  apply Text.trimChars_of_ends
  · intro c hc
    rw [toList_payload, List.head?_cons, Option.mem_some_iff] at hc
    subst hc
    decide
  · intro c hc
    have hlast : change.payload.toList.getLast? = some '\'' := by
      rw [payload, String.toList_append]
      exact List.getLast?_concat
    rw [hlast, Option.mem_some_iff] at hc
    subst hc
    decide

theorem ofPayload?_eq_ok_iff {text : String} {change : RowChange} :
    ofPayload? text = .ok change ↔
      (IsQuotable change.table ∧ IsQuotable change.column) ∧ change.payload = Text.trim text := by
  have hread : ofPayload? text = .ok change ↔ ofChars? (Text.trimChars text.toList) = some change := by
    unfold ofPayload?
    cases ofChars? (Text.trimChars text.toList) <;> simp
  rw [hread, ofChars?_eq_some_iff, Text.trim, ← String.toList_inj, String.toList_ofList]
  exact and_congr_right fun _ => eq_comm

/-- **Announcements are read as they are written.** An announced change is read back, whatever its value,
precisely when its table and its column can be quoted; and a text is read as a change only if, without the
blanks around it, it is the announcement of that change. -/
theorem ofPayload?_payload :
    (∀ change : RowChange, ofPayload? change.payload = .ok change ↔
      IsQuotable change.table ∧ IsQuotable change.column) ∧
    ∀ (text : String) (change : RowChange), ofPayload? text = .ok change ↔
      (IsQuotable change.table ∧ IsQuotable change.column) ∧ change.payload = Text.trim text := by
  refine ⟨fun change => ?_, fun text change => ofPayload?_eq_ok_iff⟩
  rw [ofPayload?_eq_ok_iff, Text.trim, trimChars_payload, String.ofList_toList]
  exact and_iff_left rfl

end Dossier.RowChange
