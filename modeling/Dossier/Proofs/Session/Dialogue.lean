import Dossier.Proofs.Session.Documents
import Dossier.Proofs.Session.Outcomes

/-!
What an operation asks of storage, one statement after another, when storage may behave at each statement as it likes.
A connection has one delay, for the next slow call, and the answers of a script are fixed before an operation starts; so
the runs of an operation on a given connection say little about its later statements. Here an operation is followed
statement by statement instead: between two of them it neither looks at storage nor at the clock, so that storage may
be exchanged there. Every operation on records can be followed so, whatever storage does.
-/

namespace Dossier.Session

variable {α β : Type}

/-- How storage behaves at a statement: what it holds, the calls that fail, and the time that it takes. -/
structure Conduct where
  backend : Backend
  failing : List (CallKind × String)
  delay : Nat

/-- The session when storage behaves in another way from now on. -/
def facing (conduct : Conduct) (s : Session) : Session :=
  s.onConnection fun connection =>
    { connection with backend := conduct.backend, failing := conduct.failing, delay := conduct.delay }

/-- How storage behaves by itself. -/
def conduct (s : Session) : Conduct := ⟨s.connection.backend, s.connection.failing, s.connection.delay⟩

/-- A statement, and the operation that asks it. -/
structure Inquiry where
  operation : Operation
  sql : String
  params : List Json

namespace Inquiry

def call (inquiry : Inquiry) : Call := .query inquiry.sql inquiry.params

def ask (inquiry : Inquiry) : Work (List Row) := query inquiry.operation inquiry.sql inquiry.params

end Inquiry

/-- A statement together with the session in which it is asked. -/
structure Issue where
  inquiry : Inquiry
  session : Session

/-- Work that ends without storage, and leaves results and caches at most. -/
structure Finishes (w : Work α) (s : Session) (result : Except Fault α) (last : Session) : Prop where
  course : SameCourse s last
  runs : ∀ conduct, w.run (s.facing conduct) = (result, last.facing conduct)

/-- Work that comes to ask storage, and goes on with the rows that it gets. -/
structure ComesTo (w : Work α) (s : Session) (inquiry : Inquiry) (issued : Session) (rest : List Row → Work α) :
    Prop where
  course : SameCourse s issued
  runs : ∀ conduct, w.run (s.facing conduct) = (inquiry.ask >>= rest).run (issued.facing conduct)

/-- What work asks, when storage behaves at its statements in the given ways, and what it ends with. -/
inductive Dialogue : Stream' Conduct → Work α → Session → List Issue → Except Fault α → Session → Prop
  | finished {storage : Stream' Conduct} {w : Work α} {s last : Session} {result : Except Fault α} :
      Finishes w s result last → Dialogue storage w s [] result last
  | failed {storage : Stream' Conduct} {w : Work α} {s issued last : Session} {inquiry : Inquiry}
      {rest : List Row → Work α} {fault : Fault} : ComesTo w s inquiry issued rest →
      inquiry.ask.run (issued.facing storage.head) = (.error fault, last) →
      Dialogue storage w s [⟨inquiry, issued.facing storage.head⟩] (.error fault) last
  | answered {storage : Stream' Conduct} {w : Work α} {s issued next last : Session} {inquiry : Inquiry}
      {rest : List Row → Work α} {rows : List Row} {asked : List Issue} {result : Except Fault α} :
      ComesTo w s inquiry issued rest →
      inquiry.ask.run (issued.facing storage.head) = (.ok rows, next) →
      Dialogue storage.tail (rest rows) next asked result last →
      Dialogue storage w s (⟨inquiry, issued.facing storage.head⟩ :: asked) result last

/-- Work that can be followed from a session, whatever storage does: statement by statement, to an end. -/
inductive Follows : Work α → Session → Prop
  | finishes {w : Work α} {s last : Session} {result : Except Fault α} : Finishes w s result last → Follows w s
  | asks {w : Work α} {s issued : Session} {inquiry : Inquiry} {rest : List Row → Work α} :
      ComesTo w s inquiry issued rest →
      (∀ conduct rows next, inquiry.ask.run (issued.facing conduct) = (.ok rows, next) → Follows (rest rows) next) →
      Follows w s

/-- Work that can be followed from every session. -/
def Orderly (w : Work α) : Prop := ∀ s, Follows w s

/-! ### Exchanged storage -/

theorem facing_conduct (s : Session) : s.facing s.conduct = s := rfl

theorem SameCourse.facing {s next : Session} (h : SameCourse s next) (conduct : Conduct) :
    SameCourse (s.facing conduct) (next.facing conduct) where
  settings := h.settings
  connection := by rw [Session.facing, Session.facing, onConnection, onConnection, h.connection]
  phase := h.phase
  router := h.router
  attentive := h.attentive
  notices := h.notices
  now := h.now
  deadline := h.deadline
  finishing := h.finishing
  alarm := h.alarm

/-! ### Dialogues of work that can be followed -/

theorem Follows.exists_dialogue {w : Work α} {s : Session} (h : Follows w s) (storage : Stream' Conduct) :
    ∃ asked result last, Dialogue storage w s asked result last := by
  induction h generalizing storage with
  | finishes hfinishes => exact ⟨_, _, _, .finished hfinishes⟩
  | @asks w s issued inquiry rest hcomes _ ih =>
      rcases hasked : inquiry.ask.run (issued.facing storage.head) with ⟨fault | rows, next⟩
      · exact ⟨_, _, _, .failed hcomes hasked⟩
      · obtain ⟨asked, result, last, hrest⟩ := ih _ rows next hasked storage.tail
        exact ⟨_, _, _, .answered hcomes hasked hrest⟩

/-- The run on the connection of the session itself is among the dialogues. -/
theorem Follows.dialogue_run {w : Work α} {s : Session} (h : Follows w s) :
    ∃ storage asked, Dialogue storage w s asked (w.run s).1 (w.run s).2 := by
  induction h with
  | @finishes w s last result hfinishes =>
      have hrun := hfinishes.runs s.conduct
      have hlast : last.facing s.conduct = last := by
        have hconduct : s.conduct = last.conduct := by rw [conduct, conduct, hfinishes.course.connection]
        rw [hconduct, facing_conduct]
      rw [facing_conduct, hlast] at hrun
      rw [hrun]
      exact ⟨Stream'.const s.conduct, _, .finished hfinishes⟩
  | @asks w s issued inquiry rest hcomes _ ih =>
      have hrun := hcomes.runs s.conduct
      rw [facing_conduct, run_bind] at hrun
      rw [hrun]
      rcases hasked : inquiry.ask.run (issued.facing s.conduct) with ⟨fault | rows, next⟩
      · exact ⟨Stream'.const s.conduct, _, .failed hcomes hasked⟩
      · obtain ⟨storage, asked, hrest⟩ := ih _ rows next hasked
        exact ⟨Stream'.cons s.conduct storage, _, .answered hcomes hasked hrest⟩

/-- A statement that is answered leaves the session open. -/
theorem Inquiry.active_of_ask {inquiry : Inquiry} {s next : Session} {rows : List Row}
    (hrun : inquiry.ask.run s = (.ok rows, next)) : next.phase = .active := by
  have hphase := phase_of_run_ok (congrArg Prod.fst hrun)
  exact (congrArg (·.2.phase) hrun).symm.trans hphase

theorem ComesTo.queries {w : Work α} {s issued next : Session} {inquiry : Inquiry} {rest : List Row → Work α}
    {conduct : Conduct} {answer : Except Fault (List Row)} (h : ComesTo w s inquiry issued rest)
    (hactive : s.phase = .active) (hrun : inquiry.ask.run (issued.facing conduct) = (answer, next)) :
    next.queries = s.queries ++ [(inquiry.sql, inquiry.params)] := by
  have hfacing : (issued.facing conduct).phase = .active := h.course.phase.trans hactive
  have hasked := queries_query inquiry.operation inquiry.sql inquiry.params hfacing
  rw [← h.course.queries]
  exact (congrArg (·.2.queries) hrun).symm.trans hasked

/-- Storage is asked the statements of a dialogue, in their order. -/
theorem Dialogue.queries {storage : Stream' Conduct} {w : Work α} {s last : Session} {asked : List Issue}
    {result : Except Fault α} (h : Dialogue storage w s asked result last) (hactive : s.phase = .active) :
    last.queries = s.queries ++ asked.map fun issue => (issue.inquiry.sql, issue.inquiry.params) := by
  induction h with
  | finished hfinishes => exact hfinishes.course.queries.trans (List.append_nil _).symm
  | failed hcomes hrun => exact hcomes.queries hactive hrun
  | answered hcomes hrun _ ih =>
      rw [ih (Inquiry.active_of_ask hrun), hcomes.queries hactive hrun, List.map_cons, List.append_assoc,
        List.singleton_append]

/-! ### Work that can be followed -/

/-- Work that does as other work does from a session that differs in results and caches. -/
theorem ComesTo.of_run {w other : Work α} {s next issued : Session} {inquiry : Inquiry} {rest : List Row → Work α}
    (h : ComesTo w next inquiry issued rest) (hcourse : SameCourse s next)
    (hruns : ∀ conduct, other.run (s.facing conduct) = w.run (next.facing conduct)) :
    ComesTo other s inquiry issued rest :=
  ⟨hcourse.trans h.course, fun conduct => (hruns conduct).trans (h.runs conduct)⟩

theorem ComesTo.bind {w : Work α} {s issued : Session} {inquiry : Inquiry} {rest : List Row → Work α}
    (h : ComesTo w s inquiry issued rest) (f : α → Work β) :
    ComesTo (w >>= f) s inquiry issued fun rows => rest rows >>= f := by
  refine ⟨h.course, fun conduct => ?_⟩
  rw [run_bind, h.runs, ← run_bind, bind_assoc]

theorem comesTo_query (operation : Operation) (sql : String) (params : List Json) (s : Session) :
    ComesTo (query operation sql params) s ⟨operation, sql, params⟩ s pure :=
  ⟨.refl s, fun _ => by rw [Inquiry.ask, bind_pure]⟩

theorem Follows.of_run {w other : Work α} {s next : Session} (h : Follows w next) (hcourse : SameCourse s next)
    (hruns : ∀ conduct, other.run (s.facing conduct) = w.run (next.facing conduct)) : Follows other s := by
  cases h with
  | finishes hfinishes =>
      exact .finishes ⟨hcourse.trans hfinishes.course, fun conduct => (hruns conduct).trans (hfinishes.runs conduct)⟩
  | asks hcomes hrest => exact .asks (hcomes.of_run hcourse hruns) hrest

theorem Follows.bind {w : Work α} {f : α → Work β} {s : Session} (h : Follows w s) (hf : ∀ a, Orderly (f a)) :
    Follows (w >>= f) s := by
  induction h with
  | @finishes w s last result hfinishes =>
      cases result with
      | error fault =>
          have hruns : ∀ conduct, (w >>= f).run (s.facing conduct) = (.error fault, last.facing conduct) := by
            intro conduct
            rw [run_bind, hfinishes.runs]
          exact .finishes ⟨hfinishes.course, hruns⟩
      | ok a =>
          refine (hf a last).of_run hfinishes.course fun conduct => ?_
          rw [run_bind, hfinishes.runs]
  | asks hcomes _ ih => exact .asks (hcomes.bind f) ih

namespace Orderly

theorem bind {w : Work α} {f : α → Work β} (hw : Orderly w) (hf : ∀ a, Orderly (f a)) : Orderly (w >>= f) :=
  fun s => (hw s).bind hf

theorem pure (a : α) : Orderly (pure a : Work α) := fun s => .finishes ⟨.refl s, fun _ => rfl⟩

theorem throw (fault : Fault) : Orderly (throw fault : Work α) := fun s => .finishes ⟨.refl s, fun _ => rfl⟩

theorem attempt (result : Except Fault α) : Orderly (attempt result) := fun s => .finishes ⟨.refl s, fun _ => rfl⟩

/-- What work learns of the session does not depend on storage. -/
theorem reads {f : Session → Work α} (hreads : ∀ s conduct, f (s.facing conduct) = f s) (hf : ∀ s, Orderly (f s)) :
    Orderly (get >>= f) := by
  refine fun s => (hf s s).of_run (.refl s) fun conduct => ?_
  rw [run_bind, run_get]
  exact congrArg (fun w : Work α => w.run (s.facing conduct)) (hreads s conduct)

theorem change {f : Session → Session} (hcourse : ∀ s, SameCourse s (f s))
    (hfacing : ∀ s conduct, f (s.facing conduct) = (f s).facing conduct) : Orderly (change f) :=
  fun s => .finishes ⟨hcourse s, fun conduct => congrArg (Prod.mk _) (hfacing s conduct)⟩

theorem query (operation : Operation) (sql : String) (params : List Json) : Orderly (query operation sql params) :=
  fun s => .asks (comesTo_query operation sql params s) fun _ rows next _ => Orderly.pure rows next

theorem mapM {f : α → Work β} (hf : ∀ a, Orderly (f a)) (l : List α) : Orderly (l.mapM f) := by
  induction l with
  | nil => exact .pure []
  | cons a l ih =>
      rw [List.mapM_cons]
      exact .bind (hf a) fun _ => .bind ih fun _ => .pure _

theorem push (value : Json) : Orderly (push value) :=
  .change (fun _ => ⟨rfl, rfl, rfl, rfl, rfl, rfl, rfl, rfl, rfl, rfl⟩) fun _ _ => rfl

theorem remember (record : Json) : Orderly (remember record) := by
  unfold Session.remember
  split
  · exact .change (fun _ => ⟨rfl, rfl, rfl, rfl, rfl, rfl, rfl, rfl, rfl, rfl⟩) fun _ _ => rfl
  · exact .pure ()

theorem collect (statement : Statement) (rows : List Row) : Orderly (collect statement rows) := by
  refine .mapM (fun row => .bind (.attempt _) fun record => ?_) rows
  split
  · exact .bind (.remember record) fun _ => .pure record
  · exact .pure record

theorem select (target : Target) (filter : Json) (traits : Traits) : Orderly (select target filter traits) :=
  .bind (.attempt _) fun _ => .bind (.attempt _) fun statement => .bind (.query _ _ _) fun rows =>
    .collect statement rows

theorem lookup (kind : Kind) (key text : String) : Orderly (lookup kind key text) :=
  .reads (fun _ _ => rfl) fun _ => .bind (.select _ _ _) fun _ => .pure _

theorem lookupType (name : String) : Orderly (lookupType name) := by
  refine .reads (fun _ _ => rfl) fun s => ?_
  split
  · exact .pure _
  · exact .bind (.lookup _ _ _) fun found => .bind
      (.change (fun _ => ⟨rfl, rfl, rfl, rfl, rfl, rfl, rfl, rfl, rfl, rfl⟩) fun _ _ => rfl) fun _ => .pure found

theorem typeSchema (name : String) : Orderly (typeSchema name) := .bind (.lookupType name) fun _ => .pure _

theorem getType (name : String) : Orderly (getType name) :=
  .bind (.lookupType name) fun _ => .bind (.push _) fun _ => .pure _

theorem execute (sql : String) (params : List Json) : Orderly (execute sql params) :=
  .bind (.query _ _ _) fun _ => .bind (.push _) fun _ => .pure _

theorem create (kind : Kind) (record : Json) : Orderly (create kind record) :=
  .bind (.attempt _) fun _ => .reads (fun _ _ => rfl) fun _ => .bind (.query _ _ _) fun _ => .bind (.attempt _)
    fun _ => .bind (.remember _) fun _ => .bind (.push _) fun _ => .pure _

theorem freshIdentity : Orderly freshIdentity := by
  -- the name of the new identity is read before the count of identities goes on
  have hcount : Orderly (Session.change fun s => { s with identities := s.identities + 1 }) :=
    .change (fun _ => ⟨rfl, rfl, rfl, rfl, rfl, rfl, rfl, rfl, rfl, rfl⟩) fun _ _ => rfl
  exact .reads (fun _ _ => rfl) fun _ => .bind hcount fun _ => .pure _

theorem createDocument (typeName : String) (content : Json) : Orderly (createDocument typeName content) := by
  refine .bind (.attempt _) fun record => ?_
  dsimp only
  split
  · exact .create _ _
  · exact .bind .freshIdentity fun _ => .create _ _

theorem createType (name : String) (schema metadata : Json) : Orderly (createType name schema metadata) := by
  have hrest : ∀ record : Members, Orderly (do
      let record := Members.insert "schema" schema (Members.insert "name" (.string name) record)
      let created ← Session.create .type (.object record)
      Session.change fun s => { s with types := (name, some created) :: s.types }
      return created) := fun _ => .bind (.create _ _) fun created =>
    .bind (.change (fun _ => ⟨rfl, rfl, rfl, rfl, rfl, rfl, rfl, rfl, rfl, rfl⟩) fun _ _ => rfl) fun _ => .pure created
  unfold Session.createType
  split
  · exact .bind (.pure _) hrest
  · exact .bind (.attempt _) hrest

theorem writeChanges (kind : Kind) (id : String) (before after : Row) :
    Orderly (writeChanges kind id before after) := by
  unfold Session.writeChanges
  split
  · exact .bind (.push _) fun _ => .pure _
  · exact .reads (fun _ _ => rfl) fun _ => .bind (.query _ _ _) fun _ => .bind (.attempt _) fun _ =>
      .bind (.remember _) fun _ => .bind (.push _) fun _ => .pure _

theorem update (kind : Kind) (record : Json) : Orderly (update kind record) := by
  refine .bind (.attempt _) fun changes => ?_
  split
  · exact .throw _
  · refine .bind (.lookup _ _ _) fun found => ?_
    split
    · exact .throw _
    · exact .bind (.attempt _) fun _ => .writeChanges _ _ _ _

theorem delete (kind : Kind) (id : String) : Orderly (delete kind id) :=
  .bind (.query _ _ _) fun _ => .bind
    (.change (fun _ => ⟨rfl, rfl, rfl, rfl, rfl, rfl, rfl, rfl, rfl, rfl⟩) fun _ _ => rfl) fun _ =>
      .bind (.push _) fun _ => .pure _

theorem read (kind : Kind) (id : String) : Orderly (read kind id) :=
  .bind (.lookup _ _ _) fun _ => .bind (.push _) fun _ => .pure _

theorem selectResult (kind : Kind) (schema : Schema) (filter : Json) (traits : Traits) :
    Orderly (selectResult kind schema filter traits) :=
  .reads (fun _ _ => rfl) fun _ => .bind (.select _ _ _) fun _ => .bind (.push _) fun _ => .pure _

theorem search (kind : Kind) (filter : Json) (traits : Traits) : Orderly (search kind filter traits) := by
  unfold Session.search
  split
  · exact .bind (.typeSchema _) fun _ => .selectResult _ _ _ _
  · exact .bind (.pure _) fun _ => .selectResult _ _ _ _

theorem searchDocuments (typeName : String) (filter : Json) (traits : Traits) :
    Orderly (searchDocuments typeName filter traits) :=
  .bind (.typeSchema _) fun _ => .selectResult _ _ _ _

theorem count (kind : Kind) (filter : Json) : Orderly (count kind filter) := .bind (.search _ _ _) fun _ => .pure _

/-- Every operation with an outcome can be followed. -/
theorem answerRequest {request : Request} (h : request.hasOutcome = true) : Orderly (answerRequest request) := by
  cases request with
  | execute sql params => exact .bind (.execute _ _) fun _ => .pure _
  | create kind record => exact .bind (.create _ _) fun _ => .pure _
  | createDocument typeName content => exact .bind (.createDocument _ _) fun _ => .pure _
  | createType name schema metadata => exact .bind (.createType _ _ _) fun _ => .pure _
  | read kind id => exact .bind (.read _ _) fun _ => .pure _
  | search kind filter traits => exact .bind (.search _ _ _) fun _ => .pure _
  | searchDocuments typeName filter traits => exact .bind (.searchDocuments _ _ _) fun _ => .pure _
  | count kind filter => exact .bind (.count _ _) fun _ => .pure _
  | update kind record => exact .bind (.update _ _) fun _ => .pure _
  | delete kind id => exact .bind (.delete _ _) fun _ => .pure _
  | getType name => exact .bind (.getType _) fun _ => .pure _
  | _ => cases h

end Orderly

/-! ### Searches -/

variable {s : Session} {kind : Kind} {filter : Json} {traits : Traits} {schema : Schema} {built : Query}
  {statement : Statement}

theorem comesTo_select {target : Target} (h : Composes target filter traits built statement) (s : Session) :
    ComesTo (select target filter traits) s ⟨.search, statement.sql, statement.params⟩ s (collect statement) := by
  have hsearch := (comesTo_query .search statement.sql statement.params s).bind (collect statement)
  simp only [pure_bind] at hsearch
  refine hsearch.of_run (.refl s) fun conduct => ?_
  unfold select
  rw [run_bind, run_attempt, h.1]
  dsimp only [Except.mapError]
  rw [run_bind, run_attempt, h.2]

theorem comesTo_selectResult (h : Composes (s.targetOf kind schema) filter traits built statement) :
    ComesTo (selectResult kind schema filter traits) s ⟨.search, statement.sql, statement.params⟩ s fun rows =>
      collect statement rows >>= fun records =>
        push (searchResult records traits.count) >>= fun _ => pure (searchResult records traits.count) := by
  refine ((comesTo_select h s).bind _).of_run (.refl s) fun conduct => ?_
  unfold selectResult
  rw [run_bind, run_get]
  rfl

/-- A type that is not known is looked up, and remembered when storage has answered. -/
theorem comesTo_typeSchema {name : String} (hunknown : s.types.lookup name = none)
    (h : Composes (s.targetOf .type Schema.empty) (.object [("$name", .string name)]) single built statement) :
    ComesTo (typeSchema name) s ⟨.search, statement.sql, statement.params⟩ s fun rows =>
      collect statement rows >>= fun records =>
        change (fun s => { s with types := (name, records.head?) :: s.types }) >>= fun _ =>
          pure (schemaOf records.head?) := by
  refine ((comesTo_select h s).bind _).of_run (.refl s) fun conduct => ?_
  have hmissing : (s.facing conduct).types.lookup name = none := hunknown
  unfold typeSchema lookupType lookup
  rw [bind_assoc, run_bind, run_get]
  dsimp only
  rw [hmissing]
  simp only [bind_assoc, pure_bind]
  rw [run_bind, run_get]
  rfl

end Dossier.Session
