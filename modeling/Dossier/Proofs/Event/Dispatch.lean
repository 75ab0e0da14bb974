import Dossier.Proofs.Event.Announcement
import Dossier.Proofs.Event.Router
import Dossier.Proofs.Results
import Dossier.Session.State

/-!
What an announcement raises. A text that announces no change is refused; any other raises one event for each
identifier with a subscription that stands on its channel and lets the change through, and nothing if the table has no
events. Main statement, `announce_after`: that is so after any moves, however often and in which spelling identifiers
were subscribed.
-/

namespace Dossier

/-! ### Changes and their names -/

/-- The text announces the change: it is written that way, but for blanks around it. -/
structure RowChange.AnnouncedBy (change : RowChange) (text : String) : Prop where
  table : IsQuotable change.table
  column : IsQuotable change.column
  written : change.payload = Text.trim text

theorem RowChange.ofPayload?_iff {change : RowChange} {text : String} :
    ofPayload? text = .ok change ↔ change.AnnouncedBy text := by
  rw [ofPayload?_eq_ok_iff]
  constructor
  · rintro ⟨⟨htable, hcolumn⟩, hwritten⟩
    exact ⟨htable, hcolumn, hwritten⟩
  · intro h
    exact ⟨⟨h.table, h.column⟩, h.written⟩

/-- Any other text is refused, with the text as it came. -/
theorem RowChange.ofPayload?_eq_error_iff {text : String} {fault : EventFault} :
    ofPayload? text = .error fault ↔ fault = .badPayload text ∧ ¬∃ change : RowChange, change.AnnouncedBy text := by
  simp only [← ofPayload?_iff]
  unfold ofPayload?
  cases ofChars? (Text.trimChars text.toList) <;> simp [eq_comm]

/-- The events of a table are named after it and the action, if its kind is announced. -/
theorem EventName.ofTable?_eq_some {kind : Kind} (hkind : kind ∈ announced) (action : Action) :
    ofTable? kind.table action = some (kind.table ++ action.ending) := by
  obtain ⟨found, hfound⟩ : ∃ found, announced.find? (·.table == kind.table) = some found := by
    rw [← Option.isSome_iff_exists, List.find?_isSome]
    exact ⟨kind, hkind, beq_self_eq_true kind.table⟩
  have htable : found.table = kind.table := by simpa using List.find?_some hfound
  rw [ofTable?, hfound, Option.map_some, ofChange, htable]

theorem EventName.ofTable?_eq_none {table : String} (h : ∀ kind ∈ announced, kind.table ≠ table) (action : Action) :
    ofTable? table action = none := by
  have hnone : announced.find? (·.table == table) = none := by
    rw [List.find?_eq_none]
    intro kind hkind
    rw [beq_iff_eq]
    exact h kind hkind
  rw [ofTable?, hnone]
  rfl

/-! ### Who wants a change -/

/-- The identifier lets an event of a record through on a channel: it names that record, in any case of ASCII letters,
or none, and that event, letter by letter, or none. -/
structure EventId.Wants (id : EventId) (channel identity event : String) : Prop where
  channel : id.channel = channel
  identity : ∀ wanted, id.id = some wanted → Text.asciiLower wanted = Text.asciiLower identity
  event : ∀ wanted, id.event = some wanted → wanted = event

theorem EventId.wants_iff {id : EventId} {channel identity event : String} :
    id.Wants channel identity event ↔ (id.channel == channel && id.accepts identity event) = true := by
  have hlower : ∀ a b, Text.equalIgnoringCase a b = true ↔ Text.asciiLower a = Text.asciiLower b := by
    intro a b
    rw [Text.equalIgnoringCase, beq_iff_eq, Text.asciiLower, Text.asciiLower, ← String.toList_inj,
      String.toList_ofList, String.toList_ofList]
  have haccepts : id.accepts identity event = true ↔
      (∀ wanted, id.id = some wanted → Text.asciiLower wanted = Text.asciiLower identity) ∧
        ∀ wanted, id.event = some wanted → wanted = event := by
    rw [accepts, Bool.and_eq_true]
    refine and_congr ?_ ?_
    · cases id.id <;> simp [hlower]
    · cases id.event <;> simp
  rw [Bool.and_eq_true, beq_iff_eq, haccepts]
  constructor
  · intro h
    exact ⟨h.channel, h.identity, h.event⟩
  · rintro ⟨hchannel, hidentity, hevent⟩
    exact ⟨hchannel, hidentity, hevent⟩

namespace Router

/-! ### Announcements -/

/-- What comes of an announcement: the router it leaves behind, the events that are emitted, and the answer, which is
their number if the announcement is understood. -/
structure Outcome where
  router : Router
  emitted : List ChangeEvent
  answer : Except EventFault Nat

def announce (router : Router) (notification : Notification) : Outcome :=
  match router.dispatch notification.channel notification.payload with
  | .ok events => ⟨router, events, .ok events.length⟩
  | .error fault => ⟨router, [], .error fault⟩

/-- A session that still gets announcements tells its callers what the router emits, and nothing else changes. -/
theorem deliver_eq_announce {s : Session} (hattentive : s.attentive = true) (notification : Notification) :
    s.deliver [notification] = { s with
      router := (s.router.announce notification).router
      notices := s.notices ++ (s.router.announce notification).emitted.map .change } := by
  unfold Session.deliver announce
  rw [if_pos hattentive, List.flatMap_singleton]
  cases s.router.dispatch notification.channel notification.payload <;> rfl

section

variable {router : Router} {notification : Notification} {change : RowChange}

theorem router_announce (router : Router) (notification : Notification) :
    (router.announce notification).router = router := by
  unfold announce
  split <;> rfl

theorem announce_refused (h : ¬∃ change : RowChange, change.AnnouncedBy notification.payload) :
    router.announce notification = ⟨router, [], .error (.badPayload notification.payload)⟩ := by
  have hfault := RowChange.ofPayload?_eq_error_iff.mpr ⟨rfl, h⟩
  have hdispatch : router.dispatch notification.channel notification.payload =
      .error (.badPayload notification.payload) := by
    rw [dispatch, hfault]
    rfl
  rw [announce, hdispatch]

/-- The events for a change whose table has none. -/
theorem announce_nameless (h : change.AnnouncedBy notification.payload)
    (htable : ∀ kind ∈ EventName.announced, kind.table ≠ change.table) :
    router.announce notification = ⟨router, [], .ok 0⟩ := by
  have hnone : change.eventName? = none := EventName.ofTable?_eq_none htable change.action
  have hdispatch : router.dispatch notification.channel notification.payload = .ok [] := by
    refine bind_eq_ok_iff.mpr ⟨change, RowChange.ofPayload?_iff.mpr h, ?_⟩
    dsimp only
    rw [hnone]
    rfl
  rw [announce, hdispatch]
  rfl

/-- The event that an identifier gets for a change under a name. -/
def eventOf (change : RowChange) (name : String) (id : EventId) : ChangeEvent :=
  ⟨id, ⟨id.typeName, some change.value, some name⟩, change.table, change.action⟩

theorem announce_named (h : change.AnnouncedBy notification.payload) {kind : Kind}
    (hkind : kind ∈ EventName.announced) (htable : kind.table = change.table) :
    let name := kind.table ++ change.action.ending
    let ids := router.filters.filter fun id => id.channel == notification.channel && id.accepts change.value name
    router.announce notification = ⟨router, ids.map (eventOf change name), .ok ids.length⟩ := by
  intro name ids
  have hsome : change.eventName? = some name := by
    rw [RowChange.eventName?, ← htable]
    exact EventName.ofTable?_eq_some hkind change.action
  have hdispatch : router.dispatch notification.channel notification.payload = .ok (ids.map (eventOf change name)) := by
    refine bind_eq_ok_iff.mpr ⟨change, RowChange.ofPayload?_iff.mpr h, ?_⟩
    dsimp only
    rw [hsome]
    show Except.ok _ = Except.ok _
    simp only [ids, filters, List.filter_map, List.map_map]
    rfl
  rw [announce, hdispatch]
  simp only [List.length_map]

/-- What is understood is answered with the number of the events. -/
theorem answer_announce (h : change.AnnouncedBy notification.payload) :
    (router.announce notification).answer = .ok (router.announce notification).emitted.length := by
  by_cases hnamed : ∃ kind ∈ EventName.announced, kind.table = change.table
  · obtain ⟨kind, hkind, htable⟩ := hnamed
    rw [announce_named h hkind htable, List.length_map]
  · rw [announce_nameless h fun kind hkind htable => hnamed ⟨kind, hkind, htable⟩]
    rfl

theorem answer_announce_eq_error_iff {fault : EventFault} : (router.announce notification).answer = .error fault ↔
    fault = .badPayload notification.payload ∧ ¬∃ change : RowChange, change.AnnouncedBy notification.payload := by
  by_cases hread : ∃ change : RowChange, change.AnnouncedBy notification.payload
  · obtain ⟨change, h⟩ := hread
    rw [answer_announce h]
    exact ⟨nofun, fun ⟨_, hnone⟩ => absurd ⟨change, h⟩ hnone⟩
  · rw [announce_refused hread, Except.error.injEq]
    exact ⟨fun heq => ⟨heq.symm, hread⟩, fun h => h.1.symm⟩

end

/-- After any moves those listen whose balance is positive. -/
theorem mem_filters_after {moves : List Move} {id : EventId} :
    id ∈ (empty.after moves).filters ↔ 0 < balance id moves := by
  have h : Tallies (empty.after moves) (balance · moves) := tallies_after moves
  constructor
  · exact fun hlistens => (h.mem_filters_iff (h.sound id hlistens)).mp hlistens
  · exact fun hpositive => (h.mem_filters_iff (sound_of_balance hpositive)).mpr hpositive

/-- **What an announcement raises after any moves.** It fails, and emits nothing, exactly when its text announces no
change. A change of a table without events emits nothing. Any other emits one event for each identifier that has a
subscription and lets the change through, and for no other; the event tells that identifier, its type, the record and
the name of the event. The answer is the number of events, and the router stays as it is. -/
theorem announce_after (moves : List Move) (notification : Notification) :
    let router := empty.after moves
    let outcome := router.announce notification
    outcome.router = router ∧
    (∀ fault, outcome.answer = .error fault ↔
      fault = .badPayload notification.payload ∧ ¬∃ change : RowChange, change.AnnouncedBy notification.payload) ∧
    ((∃ fault, outcome.answer = .error fault) → outcome.emitted = []) ∧
    ∀ change : RowChange, change.AnnouncedBy notification.payload →
      outcome.answer = .ok outcome.emitted.length ∧
      ((∀ kind ∈ EventName.announced, kind.table ≠ change.table) → outcome.emitted = []) ∧
      ∀ kind ∈ EventName.announced, kind.table = change.table →
        let name := kind.table ++ change.action.ending
        ∃ ids : List EventId, ids.Nodup ∧
          (∀ id, id ∈ ids ↔ 0 < balance id moves ∧ id.Wants notification.channel change.value name) ∧
          outcome.emitted = ids.map fun id =>
            ⟨id, ⟨id.typeName, some change.value, some name⟩, change.table, change.action⟩ := by
  intro router outcome
  refine ⟨router_announce router notification, fun fault => answer_announce_eq_error_iff, fun ⟨fault, hfault⟩ => ?_,
    fun change hchange => ⟨answer_announce hchange, fun htable => ?_, fun kind hkind htable => ?_⟩⟩
  · have hnone := (answer_announce_eq_error_iff.mp hfault).2
    exact congrArg Outcome.emitted (announce_refused hnone)
  · exact congrArg Outcome.emitted (announce_nameless hchange htable)
  · have hdistinct := (tallies_after moves).distinct
    refine ⟨_, hdistinct.filter _, fun id => ?_, congrArg Outcome.emitted (announce_named hchange hkind htable)⟩
    rw [List.mem_filter, mem_filters_after, ← EventId.wants_iff]

/-- A record is created: the listener to this event and the one to that record each get one event, though the first
subscribed twice; a text that is no announcement is refused. -/
theorem announce_after_created :
    let moves : List Move := [.subscribe "User#documentCreated", .subscribe "User#X1@",
      .subscribe "User#documentCreated", .subscribe "User#documentRemoved"]
    let change : RowChange := ⟨"document", .insert, "id", "x1"⟩
    let outcome := (empty.after moves).announce ⟨"tcnuser", " \"document\",I,\"id\"='x1'"⟩
    change.AnnouncedBy " \"document\",I,\"id\"='x1'" ∧ outcome.answer = .ok outcome.emitted.length ∧
      (∃ event ∈ outcome.emitted, event.subscription = ⟨some "User", some "X1", none⟩) ∧
      ((empty.after moves).announce ⟨"tcnuser", "document"⟩).answer = .error (.badPayload "document") := by
  intro moves change outcome
  have hchange : change.AnnouncedBy " \"document\",I,\"id\"='x1'" := RowChange.ofPayload?_iff.mp rfl
  have hrefused : RowChange.ofPayload? "document" = .error (.badPayload "document") := rfl
  obtain ⟨-, -, -, hraised⟩ := announce_after moves ⟨"tcnuser", " \"document\",I,\"id\"='x1'"⟩
  obtain ⟨hanswer, -, hnamed⟩ := hraised change hchange
  obtain ⟨ids, -, hmem, hemitted⟩ := hnamed .document (by decide) rfl
  have hwants : (⟨some "User", some "X1", none⟩ : EventId).Wants "tcnuser" "x1" "documentCreated" :=
    EventId.wants_iff.mpr rfl
  refine ⟨hchange, hanswer, ?_, ?_⟩
  · have hid := (hmem ⟨some "User", some "X1", none⟩).mpr ⟨Nat.one_pos, hwants⟩
    exact ⟨_, hemitted ▸ List.mem_map_of_mem hid, rfl⟩
  · obtain ⟨-, hanswer', -⟩ := announce_after moves ⟨"tcnuser", "document"⟩
    exact (hanswer' _).mpr (RowChange.ofPayload?_eq_error_iff.mp hrefused)

end Router

end Dossier
