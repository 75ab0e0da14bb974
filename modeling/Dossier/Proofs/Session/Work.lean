import Dossier.Session.Script

/-!
What the operations of a session have in common. A relation between sessions is respected by work that
leads from every session to a related one, whether it succeeds or fails. A preorder is carried through every
operation, and so through every script, if it holds across their parts: a query, a subscription or its end, an
end of the transaction, a look of the watchdog, a change that touches neither the transaction nor the clock. It
holds across these parts if it holds across each elementary step that they are made of.
-/

namespace Dossier

/-- The calls that an operation makes on an open transaction without meaning to end it. -/
def Call.isOrdinary : Call → Bool
  | .query _ _ | .listen _ | .unlisten _ => true
  | .begin | .commit | .rollback | .disconnect => false

namespace Session

variable {α β : Type} {R : Session → Session → Prop}

/-- Nothing but results, samples and caches differs: the transaction goes on as it was. -/
structure SameCourse (s next : Session) : Prop where
  settings : next.settings = s.settings
  connection : next.connection = s.connection
  phase : next.phase = s.phase
  router : next.router = s.router
  attentive : next.attentive = s.attentive
  notices : next.notices = s.notices
  now : next.now = s.now
  deadline : next.deadline = s.deadline
  finishing : next.finishing = s.finishing
  alarm : next.alarm = s.alarm

/-- A preorder that holds across each part of the operations of a session. -/
structure Carries (R : Session → Session → Prop) : Prop where
  refl : ∀ s, R s s
  trans : ∀ {a b c}, R a b → R b c → R a c
  aside : ∀ {s next}, SameCourse s next → R s next
  watch : ∀ s, R s s.watch
  query : ∀ operation sql params s, s.phase = .active → R s ((query operation sql params).run s).2
  subscribe : ∀ text s, s.phase = .active → R s ((subscribe text).run s).2
  unsubscribe : ∀ text s, s.phase = .active → R s ((unsubscribe text).run s).2
  finish : ∀ ending s, R s ((finish ending).run s).2
  happen : ∀ circumstance s, R s (s.happen circumstance)

/-- A preorder that holds across what operations do on an open session: they ask storage and change the router. -/
structure AdmitsCalls (R : Session → Session → Prop) : Prop where
  refl : ∀ s, R s s
  trans : ∀ {a b c}, R a b → R b c → R a c
  route : ∀ s router, R s { s with router }
  call : ∀ s request, s.phase = .active → request.isOrdinary = true → R s (s.perform request).2

/-- A preorder that holds across each elementary step of a session. -/
structure Admits (R : Session → Session → Prop) : Prop extends AdmitsCalls R where
  aside : ∀ {s next}, SameCourse s next → R s next
  touch : ∀ s, R s s.touch
  watch : ∀ s, R s s.watch
  finish : ∀ ending s, R s ((finish ending).run s).2
  happen : ∀ circumstance s, R s (s.happen circumstance)

def Respects (R : Session → Session → Prop) (w : Work α) : Prop := ∀ s, R s (w.run s).2

theorem Respects.change {f : Session → Session} (hf : ∀ s, R s (f s)) : Respects R (change f) := hf

theorem run_bind (w : Work α) (f : α → Work β) (s : Session) :
    (w >>= f).run s = match w.run s with
      | (.ok a, next) => (f a).run next
      | (.error fault, next) => (.error fault, next) := by
  change (match (w.run s : Except Fault α × Session) with | (a, t) => ExceptT.bindCont f a t) = _
  rcases w.run s with ⟨result, next⟩
  cases result <;> rfl

theorem run_bind_pure (w : Work α) (f : α → β) (s : Session) :
    ((w >>= fun a => pure (f a)).run s).2 = (w.run s).2 := by
  rw [run_bind]
  rcases w.run s with ⟨result, next⟩
  cases result <;> rfl

theorem run_call (request : Call) (s : Session) :
    (call request).run s = (.ok (s.perform request).1, (s.perform request).2) := rfl

theorem run_change (f : Session → Session) (s : Session) : (change f).run s = (.ok (), f s) := rfl

theorem run_attempt (result : Except Fault α) (s : Session) : (attempt result).run s = (result, s) := rfl

theorem run_get (s : Session) : (get : Work Session).run s = (.ok s, s) := rfl

theorem run_setRouter (router : Router) (s : Session) :
    (setRouter router).run s = (.ok (), { s with router }) := rfl

theorem run_ensureOpen (operation : Operation) (s : Session) :
    (ensureOpen operation).run s =
      (if s.phase.isFinal then .error (.wrongPhase s.phase operation) else .ok (), s) := by
  unfold ensureOpen
  rw [run_bind]
  change (if s.phase.isFinal then throw (.wrongPhase s.phase operation) else pure () : Work Unit).run s = _
  split <;> rfl

theorem Phase.eq_active_of_not_isFinal {phase : Phase} (h : ¬phase.isFinal = true) : phase = .active := by
  cases phase <;> first | rfl | exact absurd rfl h

theorem run_beginEnding (ending : Ending) (s : Session) :
    (beginEnding ending).run s =
      if s.phase.isFinal || s.finishing then (.error (.wrongPhase s.phase ending.operation), s)
      else (.ok (), { s with finishing := true }) := by
  unfold beginEnding
  rw [run_bind, run_get]
  dsimp only
  split <;> rfl

theorem run_finish_refused {ending : Ending} {s : Session} (h : (s.phase.isFinal || s.finishing) = true) :
    (finish ending).run s = (.error (.wrongPhase s.phase ending.operation), s) := by
  unfold finish
  rw [run_bind, run_beginEnding, if_pos h]

theorem run_finish_begun {ending : Ending} {s : Session} (h : (s.phase.isFinal || s.finishing) = false) :
    (finish ending).run s = (conclude ending).run { s with finishing := true } := by
  unfold finish
  rw [run_bind, run_beginEnding, if_neg (by rw [h]; exact Bool.false_ne_true)]

/-- The second of two ends is refused, so the session becomes what the first makes of it. -/
theorem finishTwice_snd (first second : Ending) (s : Session) :
    (s.finishTwice first second).2 = ((finish first).run s).2 := by
  unfold finishTwice
  rw [run_beginEnding]
  cases hrefused : s.phase.isFinal || s.finishing with
  | true =>
      rw [if_pos rfl, run_finish_refused hrefused]
      dsimp only
      rw [run_finish_refused hrefused]
  | false =>
      have hbusy : (s.phase.isFinal || true) = true := Bool.or_true _
      rw [if_neg Bool.false_ne_true, run_finish_begun hrefused]
      dsimp only
      rw [run_finish_refused hbusy]
      rfl

/-- The watchdog moves the clock on, the deadline and its alarm, and may end an open transaction. A preorder that
holds across each of these holds across all turns of the watchdog. -/
theorem elapse_induction (hrefl : ∀ s, R s s) (htrans : ∀ {a b c}, R a b → R b c → R a c)
    (hclock : ∀ s now deadline alarm, s.now ≤ now → R s { s with now, deadline, alarm })
    (hexpire : ∀ moment s, s.phase = .active → R s (s.expire moment)) (wake turns : Nat) (s : Session) :
    R s (s.elapse wake turns) := by
  have hturn : ∀ moment s, R s (s.turn moment) := by
    intro moment s
    unfold turn
    split
    · exact hclock s s.now s.deadline _ (Nat.le_refl _)
    · split
      · exact hclock s s.now s.deadline _ (Nat.le_refl _)
      · rename_i hopen
        split
        · exact hclock s s.now _ _ (Nat.le_refl _)
        · exact hexpire moment s (Phase.eq_active_of_not_isFinal hopen)
  induction turns generalizing s with
  | zero => exact hrefl s
  | succ turns ih =>
      unfold elapse
      split
      · rename_i moment _
        split
        · exact htrans (htrans (hclock s _ s.deadline s.alarm (Nat.le_max_left _ _)) (hturn moment _)) (ih _)
        · exact hrefl s
      · exact hrefl s

/-- Work on an open session, up to the end of the operation: what it gave is lost when the watchdog acts. -/
theorem run_run {operation : Operation} {statement : Option (String × List Json)} {work : Work α} {s : Session}
    (hactive : s.phase = .active) :
    (run operation statement work).run s =
      let ended := ((work.run s).2.sample operation.name statement).watch.touch
      (if ended.phase.isFinal then .error (.wrongPhase ended.phase operation) else (work.run s).1, ended) := by
  have hopen : (ensureOpen operation).run s = (.ok (), s) := by
    rw [run_ensureOpen, if_neg (by rw [hactive]; decide)]
  unfold run
  rw [run_bind, hopen]
  change (ensureOpen operation >>= fun _ => attempt (work.run s).1).run
    ((work.run s).2.sample operation.name statement).watch.touch = _
  rw [run_bind, run_ensureOpen]
  dsimp only
  by_cases hfinal : ((work.run s).2.sample operation.name statement).watch.touch.phase.isFinal = true
  · rw [if_pos hfinal, if_pos hfinal]
  · rw [if_neg hfinal, if_neg hfinal]
    rfl

/-- A query on an open session: the rows that storage gives, or its fault. -/
theorem run_query {operation : Operation} {sql : String} {params : List Json} {s : Session}
    (hactive : s.phase = .active) :
    (query operation sql params).run s =
      let ended := ((s.perform (.query sql params)).2.sample operation.name (some (sql, params))).watch.touch
      (if ended.phase.isFinal then .error (.wrongPhase ended.phase operation)
        else (s.perform (.query sql params)).1.mapError .execution, ended) := by
  unfold query
  rw [run_run hactive, run_bind, run_call]
  rcases s.perform (.query sql params) with ⟨answer, asked⟩
  cases answer <;> rfl

/-! ### Queries that storage answers

Samples are kept beside everything that storage and the watchdog do, so they do not decide whether a session
outlasts a query. -/

def withSamples (samples : List Sample) (s : Session) : Session := { s with samples }

theorem exists_sample (name : String) (statement : Option (String × List Json)) (s : Session) :
    ∃ samples, s.sample name statement = s.withSamples samples := by
  unfold sample
  split
  · exact ⟨_, rfl⟩
  · exact ⟨s.samples, rfl⟩

theorem deliver_withSamples (samples : List Sample) (sent : List Notification) (s : Session) :
    deliver sent (s.withSamples samples) = (deliver sent s).withSamples samples := by
  unfold deliver
  change (if s.attentive then _ else _) = _
  split <;> rfl

theorem perform_withSamples (samples : List Sample) (request : Call) (s : Session) :
    ((s.withSamples samples).perform request).2 = (s.perform request).2.withSamples samples := by
  rcases hrun : s.connection.perform request with ⟨connection, outcome⟩
  unfold perform
  rw [show (s.withSamples samples).connection = s.connection from rfl, hrun]
  exact deliver_withSamples samples outcome.sent { s with connection, now := s.now + outcome.took }

theorem turn_withSamples (samples : List Sample) (moment : Nat) (s : Session) :
    turn moment (s.withSamples samples) = (turn moment s).withSamples samples := by
  unfold turn
  change (if moment < s.deadline then _ else if s.phase.isFinal then _ else if s.finishing then _ else _) = _
  split
  · rfl
  split
  · rfl
  split
  · rfl
  · unfold expire
    dsimp only
    rw [← perform_withSamples, ← perform_withSamples]
    rfl

theorem elapse_withSamples (samples : List Sample) (wake turns : Nat) (s : Session) :
    elapse wake turns (s.withSamples samples) = (elapse wake turns s).withSamples samples := by
  induction turns generalizing s with
  | zero => rfl
  | succ turns ih =>
      have halarm : (s.withSamples samples).alarm = s.alarm := rfl
      rw [elapse, elapse, halarm]
      cases s.alarm with
      | none => rfl
      | some moment =>
          dsimp only
          split
          · rw [← ih, ← turn_withSamples]
            rfl
          · rfl

/-- The session is open, and no turn of the watchdog that comes due while storage is busy with the call ends it. -/
def Outlasts (s : Session) (request : Call) : Prop :=
  s.phase = .active ∧ (s.perform request).2.watch.phase = .active

/-- A query that storage answers gives the rows if the session outlasts it, and fails otherwise. -/
theorem query_cases (operation : Operation) {sql : String} {params : List Json} {s : Session} {rows : List Row}
    (hanswer : (s.perform (.query sql params)).1 = .ok rows) :
    (s.Outlasts (.query sql params) ∧ ∃ next, (query operation sql params).run s = (.ok rows, next)) ∨
      ¬s.Outlasts (.query sql params) ∧
        ∃ fault next, (query operation sql params).run s = (.error fault, next) := by
  by_cases hfinal : s.phase.isFinal = true
  · refine .inr ⟨fun hlasts => ?_, .wrongPhase s.phase operation, s, ?_⟩
    · rw [hlasts.1] at hfinal
      cases hfinal
    · unfold query run
      rw [run_bind, run_ensureOpen, if_pos hfinal]
  · have hactive := Phase.eq_active_of_not_isFinal hfinal
    have hphase : ((s.perform (.query sql params)).2.sample operation.name (some (sql, params))).watch.touch.phase =
        (s.perform (.query sql params)).2.watch.phase := by
      generalize (s.perform (.query sql params)).2 = answered
      obtain ⟨samples, hsamples⟩ := exists_sample operation.name (some (sql, params)) answered
      have hwatch : (answered.withSamples samples).watch = answered.watch.withSamples samples :=
        elapse_withSamples samples _ _ answered
      rw [hsamples, hwatch]
      rfl
    rw [run_query hactive, hanswer]
    dsimp only
    rw [hphase]
    split
    · rename_i hover
      refine .inr ⟨fun hlasts => ?_, _, _, rfl⟩
      rw [hlasts.2] at hover
      cases hover
    · rename_i hopen
      exact .inl ⟨⟨hactive, Phase.eq_active_of_not_isFinal hopen⟩, _, rfl⟩

/-- Work that succeeds does so through each of its parts. -/
theorem run_bind_ok {w : Work α} {f : α → Work β} {s : Session} {b : β} (h : ((w >>= f).run s).1 = .ok b) :
    ∃ a, (w.run s).1 = .ok a ∧ (w >>= f).run s = (f a).run (w.run s).2 := by
  rw [run_bind] at h ⊢
  rcases hrun : w.run s with ⟨result, next⟩
  rw [hrun] at h
  cases result with
  | error fault => cases h
  | ok a => exact ⟨a, rfl, rfl⟩

/-- An operation that succeeds leaves the session open. -/
theorem phase_of_run_ok {operation : Operation} {statement : Option (String × List Json)} {work : Work α}
    {s : Session} {a : α} (h : ((run operation statement work).run s).1 = .ok a) :
    ((run operation statement work).run s).2.phase = .active := by
  by_cases hfinal : s.phase.isFinal = true
  · unfold run at h
    rw [run_bind, run_ensureOpen, if_pos hfinal] at h
    cases h
  · rw [run_run (Phase.eq_active_of_not_isFinal hfinal)] at h ⊢
    refine Phase.eq_active_of_not_isFinal fun hover => ?_
    dsimp only at h
    rw [if_pos hover] at h
    cases h

theorem Respects.bind (htrans : ∀ a b c, R a b → R b c → R a c) {w : Work α}
    {f : α → Work β} (hw : Respects R w) (hf : ∀ a, Respects R (f a)) : Respects R (w >>= f) := by
  intro s
  have hs := hw s
  rw [run_bind]
  rcases hrun : w.run s with ⟨result, next⟩
  rw [hrun] at hs
  cases result with
  | error fault => exact hs
  | ok a => exact htrans _ _ _ hs (hf a next)

theorem Respects.mapM (hrefl : ∀ s, R s s) (htrans : ∀ a b c, R a b → R b c → R a c) {f : α → Work β}
    (hf : ∀ a, Respects R (f a)) (l : List α) : Respects R (l.mapM f) := by
  induction l with
  | nil => exact hrefl
  | cons a l ih =>
      rw [List.mapM_cons]
      exact .bind htrans (hf a) fun _ => .bind htrans ih fun _ => hrefl

namespace Carries

variable (hR : Carries R)

include hR

theorem pure (a : α) : Respects R (pure a : Work α) := hR.refl

theorem throw (fault : Fault) : Respects R (throw fault : Work α) := hR.refl

theorem attempt (result : Except Fault α) : Respects R (attempt result) := hR.refl

theorem get : Respects R (get : Work Session) := hR.refl

/-- What follows some work leads on from the session that the work left. -/
theorem bindRest {w : Work α} {f : α → Work β} (hf : ∀ a, Respects R (f a)) (s : Session) :
    R (w.run s).2 ((w >>= f).run s).2 := by
  rw [run_bind]
  rcases w.run s with ⟨result, next⟩
  cases result with
  | error fault => exact hR.refl next
  | ok a => exact hf a next

theorem bindAt {w : Work α} {f : α → Work β} {s : Session} (hw : R s (w.run s).2)
    (hf : ∀ a, Respects R (f a)) : R s ((w >>= f).run s).2 := hR.trans hw (hR.bindRest hf s)

theorem bind {w : Work α} {f : α → Work β} (hw : Respects R w) (hf : ∀ a, Respects R (f a)) :
    Respects R (w >>= f) := fun s => hR.bindAt (hw s) hf

theorem mapM {f : α → Work β} (hf : ∀ a, Respects R (f a)) (l : List α) : Respects R (l.mapM f) :=
  .mapM hR.refl (fun _ _ _ => hR.trans) hf l

/-! ### Operations -/

/-- A change of results, samples or caches. -/
theorem changeAside {f : Session → Session} (hf : ∀ s, SameCourse s (f s)) :
    Respects R (Session.change f) :=
  Respects.change fun s => hR.aside (hf s)

theorem push (value : Json) : Respects R (push value) :=
  hR.changeAside fun _ => ⟨rfl, rfl, rfl, rfl, rfl, rfl, rfl, rfl, rfl, rfl⟩

theorem remember (record : Json) : Respects R (remember record) := by
  unfold Session.remember
  split
  · exact hR.changeAside fun _ => ⟨rfl, rfl, rfl, rfl, rfl, rfl, rfl, rfl, rfl, rfl⟩
  · exact hR.pure ()

/-- A call made on an open session is refused by any other. -/
theorem runAny {operation : Operation} {statement : Option (String × List Json)} {work : Work α}
    (hactive : ∀ s, s.phase = .active → R s ((Session.run operation statement work).run s).2) :
    Respects R (Session.run operation statement work) := by
  intro s
  by_cases hfinal : s.phase.isFinal = true
  · unfold Session.run
    rw [run_bind, run_ensureOpen, if_pos hfinal]
    exact hR.refl s
  · exact hactive s (Phase.eq_active_of_not_isFinal hfinal)

theorem queryAny (operation : Operation) (sql : String) (params : List Json) :
    Respects R (Session.query operation sql params) := hR.runAny fun s => hR.query operation sql params s

theorem collect (statement : Statement) (rows : List Row) : Respects R (collect statement rows) := by
  refine hR.mapM (fun row => hR.bind (hR.attempt _) fun record => ?_) rows
  split
  · exact hR.bind (hR.remember record) fun _ => hR.pure record
  · exact hR.pure record

theorem select (target : Target) (filter : Json) (traits : Traits) :
    Respects R (select target filter traits) :=
  hR.bind (hR.attempt _) fun _ => hR.bind (hR.attempt _) fun statement =>
    hR.bind (hR.queryAny _ _ _) fun rows => hR.collect statement rows

theorem lookup (kind : Kind) (key text : String) : Respects R (lookup kind key text) :=
  hR.bind hR.get fun _ => hR.bind (hR.select _ _ _) fun _ => hR.pure _

theorem lookupType (name : String) : Respects R (lookupType name) := by
  refine hR.bind hR.get fun s => ?_
  split
  · exact hR.pure _
  · exact hR.bind (hR.lookup _ _ _) fun found =>
      hR.bind (hR.changeAside fun _ => ⟨rfl, rfl, rfl, rfl, rfl, rfl, rfl, rfl, rfl, rfl⟩) fun _ => hR.pure found

theorem typeSchema (name : String) : Respects R (typeSchema name) :=
  hR.bind (hR.lookupType name) fun _ => hR.pure _

theorem getType (name : String) : Respects R (getType name) :=
  hR.bind (hR.lookupType name) fun _ => hR.bind (hR.push _) fun _ => hR.pure _

theorem execute (sql : String) (params : List Json) : Respects R (execute sql params) :=
  hR.bind (hR.queryAny _ _ _) fun _ => hR.bind (hR.push _) fun _ => hR.pure _

theorem create (kind : Kind) (record : Json) : Respects R (create kind record) :=
  hR.bind (hR.attempt _) fun _ => hR.bind hR.get fun _ => hR.bind (hR.queryAny _ _ _) fun _ =>
    hR.bind (hR.attempt _) fun _ => hR.bind (hR.remember _) fun _ => hR.bind (hR.push _) fun _ => hR.pure _

theorem freshIdentity : Respects R freshIdentity :=
  hR.bind hR.get fun _ => hR.bind (hR.changeAside fun _ => ⟨rfl, rfl, rfl, rfl, rfl, rfl, rfl, rfl, rfl, rfl⟩)
    fun _ => hR.pure _

theorem createDocument (typeName : String) (content : Json) :
    Respects R (createDocument typeName content) := by
  refine hR.bind (hR.attempt _) fun record => ?_
  dsimp only
  split
  · exact hR.create _ _
  · exact hR.bind hR.freshIdentity fun _ => hR.create _ _

theorem createType (name : String) (schema metadata : Json) : Respects R (createType name schema metadata) := by
  have hrest : ∀ record : Members, Respects R (do
      let record := Members.insert "schema" schema (Members.insert "name" (.string name) record)
      let created ← Session.create .type (.object record)
      Session.change fun s => { s with types := (name, some created) :: s.types }
      return created) := fun _ =>
    hR.bind (hR.create _ _) fun created =>
      hR.bind (hR.changeAside fun _ => ⟨rfl, rfl, rfl, rfl, rfl, rfl, rfl, rfl, rfl, rfl⟩) fun _ => hR.pure created
  unfold Session.createType
  split
  · exact hR.bind (hR.pure _) hrest
  · exact hR.bind (hR.attempt _) hrest

theorem writeChanges (kind : Kind) (id : String) (before after : Row) :
    Respects R (writeChanges kind id before after) := by
  unfold Session.writeChanges
  split
  · exact hR.bind (hR.push _) fun _ => hR.pure _
  · exact hR.bind hR.get fun _ => hR.bind (hR.queryAny _ _ _) fun _ => hR.bind (hR.attempt _) fun _ =>
      hR.bind (hR.remember _) fun _ => hR.bind (hR.push _) fun _ => hR.pure _

theorem update (kind : Kind) (record : Json) : Respects R (update kind record) := by
  refine hR.bind (hR.attempt _) fun changes => ?_
  split
  · exact hR.throw _
  · refine hR.bind (hR.lookup _ _ _) fun found => ?_
    split
    · exact hR.throw _
    · exact hR.bind (hR.attempt _) fun _ => hR.writeChanges _ _ _ _

theorem delete (kind : Kind) (id : String) : Respects R (delete kind id) :=
  hR.bind (hR.queryAny _ _ _) fun _ =>
    hR.bind (hR.changeAside fun _ => ⟨rfl, rfl, rfl, rfl, rfl, rfl, rfl, rfl, rfl, rfl⟩) fun _ =>
      hR.bind (hR.push _) fun _ => hR.pure _

theorem read (kind : Kind) (id : String) : Respects R (read kind id) :=
  hR.bind (hR.lookup _ _ _) fun _ => hR.bind (hR.push _) fun _ => hR.pure _

theorem selectResult (kind : Kind) (schema : Schema) (filter : Json) (traits : Traits) :
    Respects R (selectResult kind schema filter traits) :=
  hR.bind hR.get fun _ => hR.bind (hR.select _ _ _) fun _ => hR.bind (hR.push _) fun _ => hR.pure _

theorem search (kind : Kind) (filter : Json) (traits : Traits) : Respects R (search kind filter traits) := by
  unfold Session.search
  split
  · exact hR.bind (hR.typeSchema _) fun _ => hR.selectResult _ _ _ _
  · exact hR.bind (hR.pure _) fun _ => hR.selectResult _ _ _ _

theorem searchDocuments (typeName : String) (filter : Json) (traits : Traits) :
    Respects R (searchDocuments typeName filter traits) :=
  hR.bind (hR.typeSchema _) fun _ => hR.selectResult _ _ _ _

theorem count (kind : Kind) (filter : Json) : Respects R (count kind filter) :=
  hR.bind (hR.search _ _ _) fun _ => hR.pure _

theorem subscribeAny (text : String) : Respects R (Session.subscribe text) := hR.runAny fun s => hR.subscribe text s

theorem unsubscribeAny (text : String) : Respects R (Session.unsubscribe text) :=
  hR.runAny fun s => hR.unsubscribe text s

theorem subscriptions (text : String) : Respects R (subscriptions text) :=
  hR.bind (hR.attempt _) fun _ => hR.bind hR.get fun _ => hR.pure _

theorem fetch : Respects R fetch := by
  refine hR.bind hR.get fun s => ?_
  split
  · exact hR.pure _
  · exact hR.bind (hR.changeAside fun _ => ⟨rfl, rfl, rfl, rfl, rfl, rfl, rfl, rfl, rfl, rfl⟩) fun _ => hR.pure _

theorem fetchSingle : Respects R fetchSingle := by
  refine hR.bind hR.get fun s => ?_
  have hrest : Respects R (do return (← Session.fetch).bind onlyRecord) :=
    hR.bind hR.fetch fun _ => hR.pure _
  dsimp only
  split
  · exact hR.bind (hR.throw _) fun _ => hrest
  · exact hrest

theorem fetchFirst : Respects R fetchFirst := hR.bind hR.fetch fun _ => hR.pure _

/-! ### Scripts -/

theorem answerRequest (request : Request) : Respects R (answerRequest request) := by
  cases request with
  | execute sql params => exact hR.bind (hR.execute _ _) fun _ => hR.pure _
  | create kind record => exact hR.bind (hR.create _ _) fun _ => hR.pure _
  | createDocument typeName content => exact hR.bind (hR.createDocument _ _) fun _ => hR.pure _
  | createType name schema metadata => exact hR.bind (hR.createType _ _ _) fun _ => hR.pure _
  | read kind id => exact hR.bind (hR.read _ _) fun _ => hR.pure _
  | search kind filter traits => exact hR.bind (hR.search _ _ _) fun _ => hR.pure _
  | searchDocuments typeName filter traits =>
      exact hR.bind (hR.searchDocuments _ _ _) fun _ => hR.pure _
  | count kind filter => exact hR.bind (hR.count _ _) fun _ => hR.pure _
  | update kind record => exact hR.bind (hR.update _ _) fun _ => hR.pure _
  | delete kind id => exact hR.bind (hR.delete _ _) fun _ => hR.pure _
  | getType name => exact hR.bind (hR.getType _) fun _ => hR.pure _
  | subscribe event => exact hR.bind (hR.subscribeAny _) fun _ => hR.pure _
  | unsubscribe event => exact hR.bind (hR.unsubscribeAny _) fun _ => hR.pure _
  | subscriptions event => exact hR.bind (hR.subscriptions _) fun _ => hR.pure _
  | finish ending => exact hR.bind (hR.finish ending) fun _ => hR.pure _
  | fetch => exact hR.bind hR.fetch fun _ => hR.pure _
  | fetchSingle => exact hR.bind hR.fetchSingle fun _ => hR.pure _
  | fetchFirst => exact hR.bind hR.fetchFirst fun _ => hR.pure _

/-- The relation holds across every step of a script. -/
theorem step (next : Step) (s : Session) : R s (s.step next).2 := by
  cases next with
  | request request => exact hR.trans (hR.answerRequest request s) (hR.watch _)
  | overlap first second =>
      unfold Session.step
      dsimp only
      rw [finishTwice_snd]
      exact hR.trans (hR.finish first s) (hR.watch _)
  | circumstance circumstance => exact hR.trans (hR.happen circumstance s) (hR.watch _)

/-- The relation holds between a session and what a script makes of it. -/
theorem after (script : List Step) (s : Session) : R s (s.after script) := by
  induction script generalizing s with
  | nil => exact hR.refl s
  | cons next script ih => exact hR.trans (hR.step next s) (ih (s.step next).2)

end Carries

/-! ### Elementary steps -/

theorem SameCourse.refl (s : Session) : SameCourse s s := ⟨rfl, rfl, rfl, rfl, rfl, rfl, rfl, rfl, rfl, rfl⟩

theorem SameCourse.trans {a b c : Session} (hab : SameCourse a b) (hbc : SameCourse b c) : SameCourse a c where
  settings := hbc.settings.trans hab.settings
  connection := hbc.connection.trans hab.connection
  phase := hbc.phase.trans hab.phase
  router := hbc.router.trans hab.router
  attentive := hbc.attentive.trans hab.attentive
  notices := hbc.notices.trans hab.notices
  now := hbc.now.trans hab.now
  deadline := hbc.deadline.trans hab.deadline
  finishing := hbc.finishing.trans hab.finishing
  alarm := hbc.alarm.trans hab.alarm

theorem sameCourse_remember (record : Json) (s : Session) : SameCourse s ((remember record).run s).2 := by
  unfold remember
  split
  · exact ⟨rfl, rfl, rfl, rfl, rfl, rfl, rfl, rfl, rfl, rfl⟩
  · exact .refl s

/-- The rows that storage gave are decoded and remembered. -/
theorem sameCourse_collect (statement : Statement) (rows : List Row) :
    Respects SameCourse (collect statement rows) := by
  refine .mapM .refl (fun _ _ _ => .trans) (fun row => .bind (fun _ _ _ => .trans) .refl fun record => ?_) rows
  split
  · exact .bind (fun _ _ _ => .trans) (sameCourse_remember record) fun _ => .refl
  · exact .refl

theorem sameCourse_sample (name : String) (statement : Option (String × List Json)) (s : Session) :
    SameCourse s (s.sample name statement) := by
  unfold sample
  split <;> exact ⟨rfl, rfl, rfl, rfl, rfl, rfl, rfl, rfl, rfl, rfl⟩

/-- A subscription on an open session: the router changes before storage is asked. -/
theorem subscribe_cases (text : String) {s : Session} (hactive : s.phase = .active) :
    ∃ asked, ((subscribe text).run s).2 = (asked.sample Operation.subscribe.name none).watch.touch ∧
      (asked = s ∨ ∃ id, let router := (s.router.subscribe id).1
        ((s.router.subscribe id).2 = none ∧ asked = { s with router }) ∨
          ∃ channel, (s.router.subscribe id).2 = some channel ∧
            asked = ((listen id channel).run { s with router }).2) := by
  unfold Session.subscribe
  rw [run_run hactive]
  refine ⟨_, rfl, ?_⟩
  rw [run_bind, run_attempt]
  cases parseEvent text with
  | error fault => exact .inl rfl
  | ok id =>
      refine .inr ⟨id, ?_⟩
      dsimp only
      rw [run_bind, run_get]
      dsimp only
      rw [run_bind, run_setRouter]
      dsimp only
      cases hopens : (s.router.subscribe id).2 with
      | none => exact .inl ⟨rfl, rfl⟩
      | some channel =>
          refine .inr ⟨channel, rfl, ?_⟩
          dsimp only
          rw [run_bind_pure]

/-- The end of a subscription on an open session. -/
theorem unsubscribe_cases (text : String) {s : Session} (hactive : s.phase = .active) :
    ∃ asked, ((unsubscribe text).run s).2 = (asked.sample Operation.unsubscribe.name none).watch.touch ∧
      (asked = s ∨ ∃ id, let router := (s.router.unsubscribe id).1
        ((s.router.unsubscribe id).2 = none ∧ asked = { s with router }) ∨
          ∃ channel, (s.router.unsubscribe id).2 = some channel ∧
            asked = ((unlisten channel).run { s with router }).2) := by
  unfold Session.unsubscribe
  rw [run_run hactive]
  refine ⟨_, rfl, ?_⟩
  rw [run_bind, run_attempt]
  cases parseEvent text with
  | error fault => exact .inl rfl
  | ok id =>
      refine .inr ⟨id, ?_⟩
      dsimp only
      rw [run_bind, run_get]
      dsimp only
      rw [run_bind, run_setRouter]
      dsimp only
      cases hcloses : (s.router.unsubscribe id).2 with
      | none => exact .inl ⟨rfl, rfl⟩
      | some channel =>
          refine .inr ⟨channel, rfl, ?_⟩
          dsimp only
          rw [run_bind_pure]

namespace AdmitsCalls

variable (hR : AdmitsCalls R) {s : Session} (hactive : s.phase = .active)

include hR hactive

theorem listen (id : EventId) (channel : String) : R s ((listen id channel).run s).2 := by
  have hcall := hR.call s (.listen channel) hactive rfl
  unfold Session.listen
  rw [run_bind, run_call]
  dsimp only
  split
  · exact hcall
  · exact hR.trans hcall (hR.route _ _)

theorem unlisten (channel : String) : R s ((unlisten channel).run s).2 := by
  have hcall := hR.call s (.unlisten channel) hactive rfl
  unfold Session.unlisten
  rw [run_bind, run_call]
  dsimp only
  split <;> exact hcall

/-- A subscription, up to the end of the operation. -/
theorem exists_subscribe (text : String) :
    ∃ asked, R s asked ∧
      ((subscribe text).run s).2 = (asked.sample Operation.subscribe.name none).watch.touch := by
  obtain ⟨asked, hrun, hasked⟩ := subscribe_cases text hactive
  refine ⟨asked, ?_, hrun⟩
  rcases hasked with rfl | ⟨id, ⟨-, rfl⟩ | ⟨channel, -, rfl⟩⟩
  · exact hR.refl asked
  · exact hR.route s _
  · let entered : Session := { s with router := (s.router.subscribe id).1 }
    exact hR.trans (hR.route s _) (@listen _ hR entered hactive id channel)

theorem exists_unsubscribe (text : String) :
    ∃ asked, R s asked ∧
      ((unsubscribe text).run s).2 = (asked.sample Operation.unsubscribe.name none).watch.touch := by
  obtain ⟨asked, hrun, hasked⟩ := unsubscribe_cases text hactive
  refine ⟨asked, ?_, hrun⟩
  rcases hasked with rfl | ⟨id, ⟨-, rfl⟩ | ⟨channel, -, rfl⟩⟩
  · exact hR.refl asked
  · exact hR.route s _
  · let left : Session := { s with router := (s.router.unsubscribe id).1 }
    exact hR.trans (hR.route s _) (@unlisten _ hR left hactive channel)

end AdmitsCalls

namespace Admits

variable (hR : Admits R)

include hR

/-- Around what an operation does stands nothing but samples and the watchdog. -/
theorem ended {s asked : Session} (hasked : R s asked) (name : String) (statement : Option (String × List Json)) :
    R s (asked.sample name statement).watch.touch :=
  hR.trans hasked (hR.trans (hR.aside (sameCourse_sample name statement asked))
    (hR.trans (hR.watch _) (hR.touch _)))

theorem query (operation : Operation) (sql : String) (params : List Json) {s : Session}
    (hactive : s.phase = .active) : R s ((query operation sql params).run s).2 := by
  rw [run_query hactive]
  exact hR.ended (hR.call s (.query sql params) hactive rfl) _ _

theorem subscribe (text : String) {s : Session} (hactive : s.phase = .active) :
    R s ((subscribe text).run s).2 := by
  obtain ⟨asked, hasked, hrun⟩ := hR.exists_subscribe hactive text
  rw [hrun]
  exact hR.ended hasked _ _

theorem unsubscribe (text : String) {s : Session} (hactive : s.phase = .active) :
    R s ((unsubscribe text).run s).2 := by
  obtain ⟨asked, hasked, hrun⟩ := hR.exists_unsubscribe hactive text
  rw [hrun]
  exact hR.ended hasked _ _

/-- The elementary steps carry the relation through every operation. -/
theorem carries : Carries R where
  refl := hR.refl
  trans := hR.trans
  aside := hR.aside
  watch := hR.watch
  query operation sql params _ hactive := hR.query operation sql params hactive
  subscribe text _ hactive := hR.subscribe text hactive
  unsubscribe text _ hactive := hR.unsubscribe text hactive
  finish := hR.finish
  happen := hR.happen

end Admits

end Session

end Dossier
