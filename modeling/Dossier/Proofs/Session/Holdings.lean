import Dossier.Proofs.Session.Watchdog

/-!
What a session holds beside its transaction: the queue of results and what it knows of types. Storage, time,
subscriptions and ends of the transaction change none of it, and neither does the reading of records. For the former
it is enough that a relation between sessions overlooks the transaction.
-/

namespace Dossier.Session

variable {α β : Type} {R : Session → Session → Prop}

/-- A preorder that holds across whatever happens to the transaction and to the channels. What remains is what
statements do, and what is done with their rows. -/
structure Overlooks (R : Session → Session → Prop) : Prop where
  refl : ∀ s, R s s
  trans : ∀ {a b c}, R a b → R b c → R a c
  course : ∀ s phase samples router attentive notices now deadline finishing alarm,
    R s { s with phase, samples, router, attentive, notices, now, deadline, finishing, alarm }
  call : ∀ s request, request.kind ≠ .query → R s (s.perform request).2

namespace Overlooks

variable (hR : Overlooks R)

include hR

theorem elapse (wake turns : Nat) (s : Session) : R s (s.elapse wake turns) := by
  refine elapse_induction hR.refl hR.trans (fun _ _ _ _ _ => hR.course _ _ _ _ _ _ _ _ _ _) (fun moment s _ => ?_)
    wake turns s
  have hmarked : R s { s with
      phase := .rolledBack, notices := s.notices ++ [.timeout moment], alarm := none } :=
    hR.course _ _ _ _ _ _ _ _ _ _
  exact hR.trans hmarked (hR.trans (hR.call _ .rollback (by decide)) (hR.call _ .disconnect (by decide)))

theorem watch (s : Session) : R s s.watch := hR.elapse _ _ s

theorem sample (name : String) (statement : Option (String × List Json)) (s : Session) :
    R s (s.sample name statement) := by
  unfold Session.sample
  split
  · exact hR.course _ _ _ _ _ _ _ _ _ _
  · exact hR.refl s

theorem pure (a : α) : Respects R (pure a : Work α) := hR.refl

theorem throw (fault : Fault) : Respects R (throw fault : Work α) := hR.refl

theorem attempt (result : Except Fault α) : Respects R (attempt result) := hR.refl

theorem get : Respects R (get : Work Session) := hR.refl

theorem bind {w : Work α} {f : α → Work β} (hw : Respects R w) (hf : ∀ a, Respects R (f a)) : Respects R (w >>= f) :=
  Respects.bind (R := R) (fun _ _ _ => hR.trans) hw hf

theorem setRouter (router : Router) : Respects R (setRouter router) := fun _ => hR.course _ _ _ _ _ _ _ _ _ _

/-- A call without a statement. -/
theorem callAside {request : Call} (h : request.kind ≠ .query) : Respects R (Session.call request) :=
  fun s => hR.call s request h

/-- An operation does nothing beside what it does on the open session. -/
theorem run {operation : Operation} {statement : Option (String × List Json)} {work : Work α}
    (hwork : Respects R work) : Respects R (Session.run operation statement work) := by
  intro s
  by_cases hfinal : s.phase.isFinal = true
  · unfold Session.run
    rw [run_bind, run_ensureOpen, if_pos hfinal]
    exact hR.refl s
  · rw [run_run (Phase.eq_active_of_not_isFinal hfinal)]
    exact hR.trans (hwork s) (hR.trans (hR.sample _ _ _) (hR.trans (hR.watch _) (hR.course _ _ _ _ _ _ _ _ _ _)))

theorem query (hasked : ∀ s sql params, R s (s.perform (.query sql params)).2) (operation : Operation) (sql : String)
    (params : List Json) : Respects R (Session.query operation sql params) := by
  refine hR.run (hR.bind (fun s => hasked s sql params) fun answer => ?_)
  cases answer with
  | ok rows => exact hR.pure rows
  | error cause => exact hR.throw _

theorem listen (id : EventId) (channel : String) : Respects R (Session.listen id channel) := by
  refine hR.bind (hR.callAside nofun) fun answer => ?_
  cases answer with
  | ok _ => exact hR.pure ()
  | error cause => exact hR.bind hR.get fun _ => hR.bind (hR.setRouter _) fun _ => hR.throw _

theorem unlisten (channel : String) : Respects R (Session.unlisten channel) := by
  refine hR.bind (hR.callAside nofun) fun answer => ?_
  cases answer with
  | ok _ => exact hR.pure ()
  | error cause => exact hR.throw _

theorem subscribe (text : String) : Respects R (Session.subscribe text) := by
  refine hR.run (hR.bind (hR.attempt _) fun id => hR.bind hR.get fun s => ?_)
  rcases s.router.subscribe id with ⟨router, channel⟩
  refine hR.bind (hR.setRouter router) fun _ => ?_
  cases channel with
  | some channel => exact hR.bind (hR.listen id channel) fun _ => hR.pure id
  | none => exact hR.bind (hR.pure ()) fun _ => hR.pure id

theorem unsubscribe (text : String) : Respects R (Session.unsubscribe text) := by
  refine hR.run (hR.bind (hR.attempt _) fun id => hR.bind hR.get fun s => ?_)
  rcases s.router.unsubscribe id with ⟨router, channel⟩
  refine hR.bind (hR.setRouter router) fun _ => ?_
  cases channel with
  | some channel => exact hR.bind (hR.unlisten channel) fun _ => hR.pure id
  | none => exact hR.bind (hR.pure ()) fun _ => hR.pure id

theorem beginEnding (ending : Ending) : Respects R (Session.beginEnding ending) := by
  refine hR.bind hR.get fun s => ?_
  dsimp only
  split
  · exact hR.bind (hR.throw _) fun _ _ => hR.course _ _ _ _ _ _ _ _ _ _
  · exact fun _ => hR.course _ _ _ _ _ _ _ _ _ _

theorem conclude (ending : Ending) : Respects R (Session.conclude ending) := by
  have hchange : ∀ {f : Session → Session}, (∀ s, R s (f s)) → Respects R (change f) := Respects.change
  refine hR.bind (hR.callAside (by cases ending <;> nofun)) fun answer => hR.bind (hchange hR.watch) fun _ =>
    hR.bind (hchange fun _ => hR.course _ _ _ _ _ _ _ _ _ _) fun _ => ?_
  cases answer with
  | error cause => exact hR.bind (hchange fun _ => hR.course _ _ _ _ _ _ _ _ _ _) fun _ => hR.throw _
  | ok _ =>
      refine hR.bind (hchange fun _ => hR.course _ _ _ _ _ _ _ _ _ _) fun _ => hR.bind (hchange (hR.sample _ _))
        fun _ => hR.bind ?_ fun _ => hchange fun s => hR.trans (hR.sample _ _ s) (hR.sample _ _ _)
      cases ending with
      | disconnect => exact hchange fun _ => hR.course _ _ _ _ _ _ _ _ _ _
      | _ => exact hR.bind (hR.callAside nofun) fun _ => hR.pure ()

theorem finish (ending : Ending) : Respects R (Session.finish ending) :=
  hR.bind (hR.beginEnding ending) fun _ => hR.conclude ending

end Overlooks

/-- The session holds the same results and knows the same types. -/
structure SameHoldings (s next : Session) : Prop where
  queue : next.queue = s.queue
  types : next.types = s.types

theorem SameHoldings.refl (s : Session) : SameHoldings s s := ⟨rfl, rfl⟩

theorem SameHoldings.trans {a b c : Session} (hab : SameHoldings a b) (hbc : SameHoldings b c) : SameHoldings a c :=
  ⟨hbc.queue.trans hab.queue, hbc.types.trans hab.types⟩

/-! ### Storage and time -/

theorem sameHoldings_deliver (sent : List Notification) (s : Session) : SameHoldings s (s.deliver sent) := by
  obtain ⟨notices, hdeliver⟩ := exists_deliver sent s
  rw [hdeliver]
  exact ⟨rfl, rfl⟩

theorem sameHoldings_perform (request : Call) (s : Session) : SameHoldings s (s.perform request).2 := by
  obtain ⟨connection, notices, now, hperform, -⟩ := exists_perform request s
  rw [hperform]
  exact ⟨rfl, rfl⟩

theorem overlooks_sameHoldings : Overlooks SameHoldings :=
  ⟨.refl, .trans, fun _ _ _ _ _ _ _ _ _ _ => ⟨rfl, rfl⟩, fun s request _ => sameHoldings_perform request s⟩

theorem sameHoldings_watch (s : Session) : SameHoldings s s.watch := overlooks_sameHoldings.watch s

theorem sameHoldings_happen (circumstance : Circumstance) (s : Session) : SameHoldings s (s.happen circumstance) := by
  cases circumstance with
  | sleep duration => exact (overlooks_sameHoldings.elapse _ _ s).trans ⟨rfl, rfl⟩
  | announce notification =>
      unfold happen
      dsimp only
      split
      · exact sameHoldings_deliver _ s
      · exact .refl s
  | _ => exact ⟨rfl, rfl⟩

/-! ### Work -/

/-- Work that changes nothing of what the session holds. -/
abbrev Unheld (w : Work α) : Prop := Respects SameHoldings w

namespace Unheld

theorem bind {w : Work α} {f : α → Work β} (hw : Unheld w) (hf : ∀ a, Unheld (f a)) : Unheld (w >>= f) :=
  Respects.bind (fun _ _ _ => .trans) hw hf

theorem pure (a : α) : Unheld (pure a : Work α) := .refl

theorem throw (fault : Fault) : Unheld (throw fault : Work α) := .refl

theorem attempt (result : Except Fault α) : Unheld (attempt result) := .refl

theorem get : Unheld (get : Work Session) := .refl

theorem query (operation : Operation) (sql : String) (params : List Json) : Unheld (query operation sql params) :=
  overlooks_sameHoldings.query (fun s _ _ => sameHoldings_perform _ s) operation sql params

theorem remember (record : Json) : Unheld (remember record) := by
  unfold Session.remember
  split
  · exact fun _ => ⟨rfl, rfl⟩
  · exact .pure ()

theorem collect (statement : Statement) (rows : List Row) : Unheld (collect statement rows) := by
  refine Respects.mapM .refl (fun _ _ _ => .trans) (fun row => Unheld.bind (.attempt _) fun record => ?_) rows
  split
  · exact .bind (.remember record) fun _ => .pure record
  · exact .pure record

theorem select (target : Target) (filter : Json) (traits : Traits) : Unheld (select target filter traits) :=
  .bind (.attempt _) fun _ => .bind (.attempt _) fun statement => .bind (.query _ _ _) fun rows =>
    .collect statement rows

/-- Records are looked up without a trace in what the session holds. -/
theorem lookup (kind : Kind) (key text : String) : Unheld (lookup kind key text) :=
  .bind .get fun _ => .bind (.select _ _ _) fun _ => .pure _

theorem subscribe (text : String) : Unheld (subscribe text) := overlooks_sameHoldings.subscribe text

theorem unsubscribe (text : String) : Unheld (unsubscribe text) := overlooks_sameHoldings.unsubscribe text

theorem finish (ending : Ending) : Unheld (finish ending) := overlooks_sameHoldings.finish ending

end Unheld

end Dossier.Session
