import Dossier.Event.Identifier
import Dossier.Proofs.Text.Pieces

/-!
Identifiers of events, written and read again. The marks in a text stand for the parts that are there, so
the text of an accepted identifier reads as the identifier itself. One form has no mark of its own: an event
without a type and an identity. Alone, it reads as that event only if it is the name of a change, and as a
type if it is not.
-/

namespace Dossier.EventId

open Text (cutAt trimChars isSegmentChar isName)

/-- The identifier is an event alone, and not the name of a change. -/
def isBareEvent (id : EventId) : Bool :=
  id.typeName.isNone && id.id.isNone && id.event.any fun event => (EventName.source? event).isNone

/-- What accepted identifiers are made of: names, and an identity in normal form. -/
structure Sound (id : EventId) : Prop where
  typeName : ∀ name, id.typeName = some name → isName name = true
  event : ∀ name, id.event = some name → isName name = true
  id : ∀ identity, id.id = some identity → isValidId identity = true ∧ normalId identity = identity

/-! ### Tokens -/

theorem token?_of_segment {cs : List Char} (hne : cs ≠ []) (h : cs.all isSegmentChar = true) :
    token? cs = some (String.ofList cs) := by
  rw [token?, Text.trimChars_of_segment h]
  exact if_neg (by simp [hne])

theorem token?_toList {s : String} (hne : s.toList ≠ []) (h : s.toList.all isSegmentChar = true) :
    token? s.toList = some s := by rw [token?_of_segment hne h, String.ofList_toList]

theorem token?_name {name : String} (h : isName name = true) : token? name.toList = some name :=
  token?_toList (Text.isSegmentChar_of_isName h).2.2 (Text.isSegmentChar_of_isName h).1

theorem isValidId_iff {identity : String} :
    isValidId identity = true ↔ identity.toList ≠ [] ∧ identity.toList.all isSegmentChar = true := by
  rw [isValidId, Bool.and_eq_true, Bool.not_eq_true', ← Bool.not_eq_true, String.isEmpty_iff, ne_eq,
    String.toList_eq_nil_iff]

theorem token?_identity {identity : String} (h : isValidId identity = true) :
    token? identity.toList = some identity :=
  token?_toList (isValidId_iff.mp h).1 (isValidId_iff.mp h).2

theorem isIdentity_of_isName {name : String} (h : isName name = true) : isIdentity name = false := by
  rw [isIdentity, Text.splitAt_of_not_mem (Text.isSegmentChar_of_isName h).2.1]
  rw [Bool.and_eq_false_iff]
  exact Or.inl (by simp)

/-! ### Accepted identifiers -/

theorem isValidId_normalId {identity : String} (h : isValidId identity = true) :
    isValidId (normalId identity) = true := by
  rw [normalId]
  split
  · obtain ⟨hne, hall⟩ := isValidId_iff.mp h
    rw [isValidId_iff, Text.asciiLower, String.toList_ofList]
    refine ⟨by simpa using hne, List.all_eq_true.mpr fun c hc => ?_⟩
    obtain ⟨d, hd, rfl⟩ := List.mem_map.mp hc
    exact Text.isSegmentChar_toLower (List.all_eq_true.mp hall d hd)
  · exact h

theorem normalId_normalId (identity : String) : normalId (normalId identity) = normalId identity := by
  by_cases h : isIdentity identity = true
  · have hlower : normalId identity = Text.asciiLower identity := if_pos h
    rw [hlower, normalId, Text.asciiLower_asciiLower, ite_self]
  · have hkept : normalId identity = identity := if_neg h
    rw [hkept, hkept]

/-- No part is bad when each part is well formed. -/
theorem badPart_eq_none_iff {id : EventId} :
    id.badPart = .none ↔ (∀ name, id.typeName = some name → isName name = true) ∧
      (∀ identity, id.id = some identity → isValidId identity = true) ∧
      ∀ name, id.event = some name → isName name = true := by
  have hfilter : ∀ (part : Option String) (good : String → Bool),
      part.filter (!good ·) = .none ↔ ∀ name, part = some name → good name = true := by
    intro part good
    cases part <;> simp [Option.filter]
  rw [← hfilter, ← hfilter, ← hfilter, badPart]
  split
  · simp [*]
  · split
    · simp [*]
    · simp [*]

theorem sound_of_ofText? {text : String} {id : EventId} (h : ofText? text = .ok id) : id.Sound := by
  unfold ofText? at h
  dsimp only at h
  split at h
  · cases h
  · rename_i hbad
    cases h
    obtain ⟨htype, hid, hevent⟩ := badPart_eq_none_iff.mp hbad
    refine ⟨htype, hevent, fun identity hidentity => ?_⟩
    obtain ⟨written, hwritten, rfl⟩ := Option.map_eq_some_iff.mp hidentity
    exact ⟨isValidId_normalId (hid written hwritten), normalId_normalId written⟩

/-- Sound parts are accepted as they are. -/
theorem ofText?_of_parts {text : String} {id : EventId} (hsound : id.Sound) (hparts : parts text = id) :
    ofText? text = .ok id := by
  have hbad := badPart_eq_none_iff.mpr ⟨hsound.typeName, fun identity h => (hsound.id identity h).1, hsound.event⟩
  have hnormal : id.id.map normalId = id.id := by
    cases hidentity : id.id with
    | none => rfl
    | some identity => rw [Option.map_some, (hsound.id identity hidentity).2]
  simp only [ofText?, hparts, hbad, hnormal]

/-! ### Reading what was written -/

/-- The identifier without its type, as it is written. -/
def tail (id : EventId) : String := ((id.id.map (· ++ "@")).getD "") ++ id.event.getD ""

/-- The parts of a text whose type is already read. -/
def partsAfter (typeName : Option String) (rest : List Char) : EventId :=
  match cutAt '@' rest with
  | some (id, event) => ⟨typeName, token? id, token? event⟩
  | .none =>
    match token? rest with
    | some token => ofToken typeName token
    | .none => ⟨typeName, .none, .none⟩

/-- What can stand behind the mark of a type: no blanks, and no such mark. -/
def IsTail (cs : List Char) : Prop := ∀ c ∈ cs, Text.isBlank c = false ∧ c ≠ '#'

theorem isTail_of_segment {cs : List Char} (h : cs.all isSegmentChar = true) : IsTail cs := by
  intro c hc
  have hsegment := List.all_eq_true.mp h c hc
  refine ⟨Text.isBlank_of_isSegmentChar hsegment, ?_⟩
  rintro rfl
  exact absurd hsegment (by decide)

theorem parts_typed {name : String} {rest : List Char} (hname : isName name = true) (hrest : IsTail rest) :
    parts (String.ofList (name.toList ++ '#' :: rest)) = partsAfter (some name) rest := by
  obtain ⟨hsegment, -, -⟩ := Text.isSegmentChar_of_isName hname
  have htrim : trimChars (name.toList ++ '#' :: rest) = name.toList ++ '#' :: rest := by
    apply Text.trimChars_of_not_blank
    intro c hc
    rcases List.mem_append.mp hc with hc | hc
    · exact (isTail_of_segment hsegment c hc).1
    · rcases List.mem_cons.mp hc with rfl | hc
      · decide
      · exact (hrest c hc).1
  have hmark : '#' ∉ name.toList := fun hmem => (isTail_of_segment hsegment _ hmem).2 rfl
  simp only [parts, String.toList_ofList, htrim, Text.cutAt_append hmark, token?_name hname]
  rfl

theorem parts_untyped {rest : List Char} (hrest : IsTail rest) :
    parts (String.ofList rest) = partsAfter .none rest := by
  have hmark : '#' ∉ rest := fun hmem => (hrest _ hmem).2 rfl
  simp only [parts, String.toList_ofList, Text.trimChars_of_not_blank fun c hc => (hrest c hc).1,
    Text.cutAt_of_not_mem hmark]
  rfl

variable {id : EventId}

theorem Sound.isTail (hsound : id.Sound) : IsTail id.tail.toList := by
  intro c hc
  rw [tail, String.toList_append, List.mem_append] at hc
  rcases hc with hc | hc
  · cases hidentity : id.id with
    | none =>
        rw [hidentity] at hc
        cases hc
    | some identity =>
        rw [hidentity, Option.map_some, Option.getD_some, String.toList_append, List.mem_append] at hc
        rcases hc with hc | hc
        · exact isTail_of_segment (isValidId_iff.mp (hsound.id identity hidentity).1).2 c hc
        · rw [List.mem_singleton.mp hc]
          decide
  · cases hevent : id.event with
    | none =>
        rw [hevent] at hc
        cases hc
    | some event =>
        rw [hevent] at hc
        exact isTail_of_segment (Text.isSegmentChar_of_isName (hsound.event event hevent)).1 c hc

/-- Behind an identity's mark an event needs none; without an identity the token must tell what it is. -/
theorem Sound.partsAfter_tail (hsound : id.Sound) :
    partsAfter id.typeName id.tail.toList =
      match id.id, id.event with
      | .none, some event => ofToken id.typeName event
      | _, _ => id := by
  obtain ⟨typeName, identity, event⟩ := id
  cases identity with
  | some identity =>
      have hvalid := (hsound.id identity rfl).1
      have hmark : '@' ∉ identity.toList :=
        Text.not_mem_of_isSegmentChar (by decide) (isValidId_iff.mp hvalid).2
      have htail : (tail ⟨typeName, some identity, event⟩).toList =
          identity.toList ++ '@' :: (event.getD "").toList := by
        simp [tail, String.toList_append]
      have hevent : token? (event.getD "").toList = event := by
        cases event with
        | none => rfl
        | some event => exact token?_name (hsound.event event rfl)
      rw [partsAfter, htail, Text.cutAt_append hmark]
      simp only [token?_identity hvalid, hevent]
  | none =>
      cases event with
      | none => rfl
      | some event =>
          have hname := hsound.event event rfl
          have hmark : '@' ∉ event.toList :=
            Text.not_mem_of_isSegmentChar (by decide) (Text.isSegmentChar_of_isName hname).1
          have htail : (tail ⟨typeName, .none, some event⟩).toList = event.toList := by
            simp [tail]
          simp only [partsAfter, htail, Text.cutAt_of_not_mem hmark, token?_name hname]

theorem Sound.parts_text (hsound : id.Sound) : parts id.text = partsAfter id.typeName id.tail.toList := by
  cases htype : id.typeName with
  | none =>
      have htext : id.text = String.ofList id.tail.toList := by
        simp [text, tail, htype]
      rw [htext, parts_untyped hsound.isTail]
  | some name =>
      have htext : id.text = String.ofList (name.toList ++ '#' :: id.tail.toList) := by
        rw [← String.toList_inj]
        simp [text, tail, htype]
      rw [htext, parts_typed (hsound.typeName name htype) hsound.isTail]

theorem ofToken_of_isName {typeName : Option String} {event : String} (h : isName event = true) :
    ofToken typeName event = if typeName.isSome || (EventName.source? event).isSome
      then ⟨typeName, .none, some event⟩ else ⟨some event, .none, .none⟩ := by
  rw [ofToken, if_neg (by simp [isIdentity_of_isName h])]

theorem Sound.parts_text_eq (hsound : id.Sound) :
    parts id.text = if id.isBareEvent then ⟨id.event, .none, .none⟩ else id := by
  rw [hsound.parts_text, hsound.partsAfter_tail]
  obtain ⟨typeName, identity, event⟩ := id
  cases identity with
  | some identity => simp [isBareEvent]
  | none =>
      cases event with
      | none => simp [isBareEvent]
      | some event =>
          dsimp only
          rw [ofToken_of_isName (hsound.event event rfl)]
          cases typeName <;> cases hsource : EventName.source? event <;> simp [isBareEvent, hsource]

theorem Sound.ofEvent (hsound : id.Sound) : Sound ⟨id.event, .none, .none⟩ where
  typeName := hsound.event
  event _ h := by cases h
  id _ h := by cases h

theorem ne_of_isBareEvent (h : id.isBareEvent = true) : (⟨id.event, .none, .none⟩ : EventId) ≠ id := by
  intro heq
  have hevent : id.event = id.typeName := congrArg typeName heq
  rw [isBareEvent, Bool.and_eq_true, Bool.and_eq_true, Option.isNone_iff_eq_none] at h
  rw [hevent, h.1.1] at h
  cases h.2

/-- **The text of an identifier reads as the identifier.** The text of every accepted identifier is accepted.
It reads as the identifier again, unless that is an event alone which is not the name of a change: such an
event has no mark of its own, and reads as the type of that name. -/
theorem ofText?_text_iff {text : String} {id : EventId} (h : ofText? text = .ok id) :
    (ofText? id.text = .ok id ↔ id.isBareEvent = false) ∧
      (id.isBareEvent = true → ofText? id.text = .ok ⟨id.event, .none, .none⟩) := by
  have hsound := sound_of_ofText? h
  have hparts := hsound.parts_text_eq
  cases hbare : id.isBareEvent with
  | true =>
      rw [if_pos hbare] at hparts
      have htype := ofText?_of_parts hsound.ofEvent hparts
      refine ⟨⟨fun hself => ?_, fun hfalse => by cases hfalse⟩, fun _ => htype⟩
      rw [htype] at hself
      exact absurd (Except.ok.inj hself) (ne_of_isBareEvent hbare)
  | false =>
      rw [hbare, if_neg Bool.false_ne_true] at hparts
      exact ⟨iff_of_true (ofText?_of_parts hsound hparts) rfl, fun htrue => by cases htrue⟩

theorem ofText?_text_iff_uuid :
    ofText? " User # 0C0E6F52-3A8B-4C4F-9D61-2B1F5E0A9C77 " =
        .ok ⟨some "User", some "0c0e6f52-3a8b-4c4f-9d61-2b1f5e0a9c77", .none⟩ ∧
      ofText? "User#0c0e6f52-3a8b-4c4f-9d61-2b1f5e0a9c77@" =
        .ok ⟨some "User", some "0c0e6f52-3a8b-4c4f-9d61-2b1f5e0a9c77", .none⟩ :=
  ⟨rfl, (@ofText?_text_iff " User # 0C0E6F52-3A8B-4C4F-9D61-2B1F5E0A9C77 " _ rfl).1.mpr rfl⟩

/-- An event behind a bare mark is accepted, and its text reads as a type. -/
theorem ofText?_bare_event :
    ofText? "@foo" = .ok ⟨.none, .none, some "foo"⟩ ∧
      ofText? (EventId.text ⟨.none, .none, some "foo"⟩) = .ok ⟨some "foo", .none, .none⟩ := ⟨rfl, rfl⟩

end Dossier.EventId
