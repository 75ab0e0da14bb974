import Dossier.Filter.Key
import Dossier.Proofs.Record.Columns
import Dossier.Proofs.Text.Pieces

/-!
Keys as texts. Main statement: `ofText?_accepts_iff`, which tells the texts that are read as keys of a kind.
-/

namespace Dossier

/-- The text is a key of the kind: a column behind `$`, with `:ms` if it holds times, or segments with dots
between them. -/
inductive ValidKey (kind : Kind) : String → Prop
  | column {c : Column} (hc : c ∈ kind.columns) : ValidKey kind ("$" ++ c.name)
  | milliseconds {c : Column} (hc : c ∈ kind.columns) (htype : c.type = .timestamp) :
      ValidKey kind ("$" ++ c.name ++ ":ms")
  | path {segments : List String} (hsome : segments ≠ [])
      (h : ∀ segment ∈ segments, segment ≠ "" ∧ ∀ c ∈ segment.toList, Text.isSegmentChar c = true) :
      ValidKey kind (String.intercalate "." segments)

namespace Key

variable {kind : Kind} {text : String}

theorem not_mem_segment {key : String} {mark : Char} (hmark : Text.isSegmentChar mark = false)
    (hkey : isSegment key.toList = true) : mark ∉ key.toList := by
  rw [isSegment, Bool.and_eq_true] at hkey
  exact Text.not_mem_of_isSegmentChar hmark hkey.2

theorem isSegment_iff {segment : String} :
    isSegment segment.toList = true ↔ segment ≠ "" ∧ ∀ c ∈ segment.toList, Text.isSegmentChar c = true := by
  rw [isSegment, Bool.and_eq_true, Bool.not_eq_true', List.isEmpty_eq_false_iff, List.all_eq_true, ne_eq,
    String.toList_eq_nil_iff]

/-- A text has segments exactly if it is put together of them. -/
theorem segments?_eq_some_iff {segments : List String} :
    segments? text = some segments ↔
      segments ≠ [] ∧ (∀ segment ∈ segments, isSegment segment.toList = true) ∧
        text = String.intercalate "." segments := by
  rw [segments?]
  constructor
  · intro h
    split at h
    · rename_i hall
      obtain rfl := Option.some.inj h
      refine ⟨fun hnil => Text.splitAt_ne_nil _ _ (List.map_eq_nil_iff.mp hnil), ?_, ?_⟩
      · intro segment hsegment
        obtain ⟨piece, hpiece, rfl⟩ := List.mem_map.mp hsegment
        rw [String.toList_ofList]
        exact List.all_eq_true.mp hall piece hpiece
      · have hpieces : String.toList ∘ String.ofList = id := funext fun _ => String.toList_ofList
        rw [← String.toList_inj, String.toList_intercalate, List.map_map, hpieces, List.map_id]
        exact (Text.intercalate_splitAt '.' text.toList).symm
    · cases h
  · rintro ⟨hsome, hall, rfl⟩
    have hpieces : Text.splitAt '.' (String.intercalate "." segments).toList = segments.map String.toList := by
      rw [String.toList_intercalate]
      refine Text.splitAt_intercalate (fun hnil => hsome (List.map_eq_nil_iff.mp hnil)) fun piece hpiece => ?_
      obtain ⟨segment, hsegment, rfl⟩ := List.mem_map.mp hpiece
      exact not_mem_segment (by decide) (hall segment hsegment)
    have hpass : (segments.map String.toList).all isSegment = true := by
      rw [List.all_map, List.all_eq_true]
      exact hall
    have hback : String.ofList ∘ String.toList = id := funext fun _ => String.ofList_toList
    rw [hpieces, if_pos hpass, List.map_map, hback, List.map_id]

theorem columnName_of_mem {c : Column} (hc : c ∈ kind.columns) : columnName c.name.toList = (c.name, false) := by
  revert c
  cases kind <;> decide +kernel

theorem columnName_append (name : String) : columnName (name.toList ++ [':', 'm', 's']) = (name, true) := by
  rw [columnName, Text.beforeEnd_eq_some_iff.mpr rfl]
  exact congrArg (·, true) String.ofList_toList

theorem eq_of_columnName {cs : List Char} {name : String} {epoch : Bool} (h : columnName cs = (name, epoch)) :
    cs = name.toList ++ if epoch then [':', 'm', 's'] else [] := by
  unfold columnName at h
  split at h
  · rename_i before hbefore
    cases h
    rw [if_pos rfl, String.toList_ofList]
    exact Text.beforeEnd_eq_some_iff.mp hbefore
  · cases h
    rw [if_neg Bool.false_ne_true, String.toList_ofList, List.append_nil]

theorem find?_column {c : Column} (hc : c ∈ kind.columns) : kind.columns.find? (·.name == c.name) = some c := by
  cases hfind : kind.columns.find? (·.name == c.name) with
  | none => exact absurd (beq_self_eq_true c.name) (List.find?_eq_none.mp hfind c hc)
  | some found =>
      have hname := List.find?_some hfind
      rw [Kind.eq_of_name_eq (List.mem_of_find?_eq_some hfind) hc (eq_of_beq hname)]

/-- A text behind `$` names a column, and only one that holds times in milliseconds. -/
theorem ofText?_dollar_accepts_iff {rest : List Char} (htext : text.toList = '$' :: rest) :
    (∃ key, ofText? kind text = .ok key) ↔
      ∃ c ∈ kind.columns, ∃ epoch, columnName rest = (c.name, epoch) ∧ (epoch = true → c.type = .timestamp) := by
  unfold ofText?
  split
  swap
  · rename_i hplain
    exact absurd htext (hplain rest)
  rename_i rest' htext'
  obtain rfl := (List.cons.inj (htext.symm.trans htext')).2
  dsimp only
  constructor
  · rintro ⟨key, h⟩
    split at h
    · cases h
    · rename_i c hfind
      have hname := List.find?_some hfind
      refine ⟨c, List.mem_of_find?_eq_some hfind, (columnName rest).2, Prod.ext (eq_of_beq hname).symm rfl, ?_⟩
      intro hepoch
      split at h
      · cases h
      · rename_i htype
        rw [hepoch, Bool.true_and, bne_iff_ne, not_not] at htype
        exact htype
  · rintro ⟨c, hc, epoch, hname, htype⟩
    have hpass : ¬ (epoch && c.type != .timestamp) = true := by
      rw [Bool.and_eq_true, bne_iff_ne]
      exact fun h => h.2 (htype h.1)
    rw [hname]
    dsimp only
    rw [find?_column hc]
    exact ⟨_, if_neg hpass⟩

/-- No key of segments begins with `$`. -/
theorem intercalate_ne_dollar {segments : List String} (h : ∀ s ∈ segments, isSegment s.toList = true)
    (rest : List Char) : (String.intercalate "." segments).toList ≠ '$' :: rest := by
  intro hdollar
  have hmem : '$' ∈ (String.intercalate "." segments).toList := hdollar ▸ List.mem_cons_self
  rcases Text.mem_intercalate hmem with hmem | ⟨segment, hsegment, hmem⟩
  · exact absurd hmem (by decide)
  · exact not_mem_segment (by decide) (h segment hsegment) hmem

/-- A text is read as a key exactly if it is one. -/
theorem ofText?_accepts_iff : (∃ key, ofText? kind text = .ok key) ↔ ValidKey kind text := by
  constructor
  · intro h
    by_cases hdollar : ∃ rest, text.toList = '$' :: rest
    · obtain ⟨rest, htext⟩ := hdollar
      obtain ⟨c, hc, epoch, hname, htype⟩ := (ofText?_dollar_accepts_iff htext).mp h
      rw [eq_of_columnName hname] at htext
      cases epoch with
      | false =>
          have heq : text = "$" ++ c.name := by
            rw [← String.toList_inj, htext, if_neg Bool.false_ne_true, List.append_nil, String.toList_append]
            rfl
          exact heq ▸ .column hc
      | true =>
          have heq : text = "$" ++ c.name ++ ":ms" := by
            rw [← String.toList_inj, htext, if_pos rfl, String.toList_append, String.toList_append]
            rfl
          exact heq ▸ .milliseconds hc (htype rfl)
    · obtain ⟨key, h⟩ := h
      unfold ofText? at h
      split at h
      · rename_i rest htext
        exact absurd ⟨rest, htext⟩ hdollar
      · split at h
        · rename_i segments hsegments
          obtain ⟨hsome, hall, rfl⟩ := segments?_eq_some_iff.mp hsegments
          exact .path hsome fun segment hsegment => isSegment_iff.mp (hall segment hsegment)
        · cases h
  · intro h
    cases h with
    | @column c hc =>
        have htext : ("$" ++ c.name).toList = '$' :: c.name.toList := String.toList_append
        exact (ofText?_dollar_accepts_iff htext).mpr ⟨c, hc, false, columnName_of_mem hc, nofun⟩
    | @milliseconds c hc htype =>
        have htext : ("$" ++ c.name ++ ":ms").toList = '$' :: (c.name.toList ++ [':', 'm', 's']) := by
          rw [String.toList_append, String.toList_append]
          rfl
        exact (ofText?_dollar_accepts_iff htext).mpr ⟨c, hc, true, columnName_append c.name, fun _ => htype⟩
    | @path segments hsome h =>
        have hsegments := segments?_eq_some_iff.mpr ⟨hsome, fun s hs => isSegment_iff.mpr (h s hs), rfl⟩
        unfold ofText?
        split
        · rename_i rest htext
          exact absurd htext (intercalate_ne_dollar (fun s hs => isSegment_iff.mpr (h s hs)) rest)
        · rw [hsegments]
          exact ⟨_, rfl⟩

end Key

end Dossier
