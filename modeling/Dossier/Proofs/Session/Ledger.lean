import Dossier.Proofs.Session.Work

/-!
The calls of a transaction. While it is open a session asks storage for queries and channels, and for ends
that storage refuses; one end closes it, and after that there are no calls at all. Main statement: so it is
for every script after a successful start, and the phase never changes after it is final.
-/

namespace Dossier

/-- A call with the verdict of storage. -/
structure Exchange where
  call : Call
  accepted : Bool

/-- The exchange belongs to an open transaction: no end of it was accepted. -/
def Exchange.KeepsOpen : Exchange → Prop
  | ⟨.query _ _, _⟩ | ⟨.listen _, _⟩ | ⟨.unlisten _, _⟩ => True
  | ⟨.commit, accepted⟩ | ⟨.rollback, accepted⟩ | ⟨.disconnect, accepted⟩ => accepted = false
  | ⟨.begin, _⟩ => False

/-- The exchanges that end a transaction in a final phase, and how many timeouts are announced with them. A
caller's end must be accepted; the watchdog's rollback, which is announced, ends the transaction anyway. -/
inductive Ended : Phase → List Exchange → Nat → Prop
  | committed (released : Bool) : Ended .committed [⟨.commit, true⟩, ⟨.disconnect, released⟩] 0
  | rolledBack (released : Bool) : Ended .rolledBack [⟨.rollback, true⟩, ⟨.disconnect, released⟩] 0
  | timedOut (accepted released : Bool) :
      Ended .rolledBack [⟨.rollback, accepted⟩, ⟨.disconnect, released⟩] 1
  | disconnected : Ended .disconnected [⟨.disconnect, true⟩] 0

theorem Ended.ne_active {phase : Phase} {ending : List Exchange} {timeouts : Nat}
    (h : Ended phase ending timeouts) : phase ≠ .active := by
  cases h <;> decide

def Notice.isTimeout : Notice → Bool
  | .timeout _ => true
  | .change _ => false

namespace Session

/-- How many timeouts the session has announced. -/
def timeouts (s : Session) : Nat := s.notices.countP Notice.isTimeout

/-- The exchanges are those by which the connection of `next` is ahead of the connection before. -/
def Made (before : Connection) (next : Session) (exchanges : List Exchange) : Prop :=
  next.connection.log = before.log ++ exchanges.map (·.call) ∧
    next.connection.verdicts = before.verdicts ++ exchanges.map (·.accepted)

/-- What can become of a session: it stays open, or it is ended once, or it was over and stays as it was. -/
inductive Continues (s next : Session) : Prop
  | stillOpen (calls : List Exchange) : s.phase = .active → next.phase = .active →
      Made s.connection next calls → (∀ exchange ∈ calls, exchange.KeepsOpen) →
      next.timeouts = s.timeouts → Continues s next
  | ended (calls ending : List Exchange) (timeouts : Nat) : s.phase = .active →
      Made s.connection next (calls ++ ending) → (∀ exchange ∈ calls, exchange.KeepsOpen) →
      Ended next.phase ending timeouts → next.timeouts = s.timeouts + timeouts → Continues s next
  | settled : s.phase ≠ .active → next.phase = s.phase → Made s.connection next [] →
      next.timeouts = s.timeouts → Continues s next

/-! ### Exchanges -/

theorem made_nil {before : Connection} {next : Session} (hlog : next.connection.log = before.log)
    (hverdicts : next.connection.verdicts = before.verdicts) : Made before next [] :=
  ⟨by rw [hlog, List.map_nil, List.append_nil], by rw [hverdicts, List.map_nil, List.append_nil]⟩

theorem Made.append {before : Connection} {s next : Session} {first second : List Exchange}
    (hfirst : Made before s first) (hsecond : Made s.connection next second) :
    Made before next (first ++ second) := by
  obtain ⟨hlog, hverdicts⟩ := hfirst
  obtain ⟨hlog', hverdicts'⟩ := hsecond
  exact ⟨by rw [hlog', hlog, List.append_assoc, List.map_append],
    by rw [hverdicts', hverdicts, List.append_assoc, List.map_append]⟩

theorem phase_deliver (sent : List Notification) (s : Session) : (s.deliver sent).phase = s.phase := by
  unfold deliver
  split <;> rfl

theorem connection_deliver (sent : List Notification) (s : Session) :
    (s.deliver sent).connection = s.connection := by
  unfold deliver
  split <;> rfl

/-- Deliveries announce changes only. -/
theorem timeouts_deliver (sent : List Notification) (s : Session) :
    (s.deliver sent).timeouts = s.timeouts := by
  have hchanges : ∀ events : List ChangeEvent, (events.map Notice.change).countP Notice.isTimeout = 0 := by
    intro events
    rw [List.countP_eq_zero]
    intro notice hnotice
    obtain ⟨event, -, rfl⟩ := List.mem_map.mp hnotice
    exact Bool.false_ne_true
  unfold deliver
  split
  · rw [timeouts, List.countP_append, hchanges, Nat.add_zero]
    rfl
  · rfl

theorem phase_perform (request : Call) (s : Session) : (s.perform request).2.phase = s.phase :=
  phase_deliver _ _

theorem timeouts_perform (request : Call) (s : Session) : (s.perform request).2.timeouts = s.timeouts :=
  timeouts_deliver _ _

theorem made_perform (request : Call) (s : Session) :
    Made s.connection (s.perform request).2 [⟨request, (s.perform request).1.isOk⟩] := by
  have hconnection : (s.perform request).2.connection = (s.connection.perform request).1 :=
    connection_deliver _ _
  refine ⟨?_, ?_⟩ <;> rw [hconnection] <;> rfl

/-! ### Steps -/

/-- Without a call, a change of phase or a timeout the session continues as it was. -/
theorem Continues.quiet {s next : Session} (hphase : next.phase = s.phase)
    (hmade : Made s.connection next []) (htimeouts : next.timeouts = s.timeouts) : Continues s next := by
  by_cases hactive : s.phase = .active
  · exact .stillOpen [] hactive (hphase.trans hactive) hmade (fun _ h => absurd h List.not_mem_nil) htimeouts
  · exact .settled hactive hphase hmade htimeouts

theorem Continues.trans {a b c : Session} (hab : Continues a b) (hbc : Continues b c) : Continues a c := by
  cases hab with
  | stillOpen calls ha hb hmade hkeeps htimeouts =>
      cases hbc with
      | stillOpen more _ hc hmade' hkeeps' htimeouts' =>
          refine .stillOpen (calls ++ more) ha hc (hmade.append hmade') ?_ (htimeouts'.trans htimeouts)
          intro exchange hexchange
          exact (List.mem_append.mp hexchange).elim (hkeeps exchange) (hkeeps' exchange)
      | ended more ending timeouts _ hmade' hkeeps' hended htimeouts' =>
          refine .ended (calls ++ more) ending timeouts ha ?_ ?_ hended (htimeouts ▸ htimeouts')
          · rw [List.append_assoc]
            exact hmade.append hmade'
          · intro exchange hexchange
            exact (List.mem_append.mp hexchange).elim (hkeeps exchange) (hkeeps' exchange)
      | settled hfinal _ _ _ => exact absurd hb hfinal
  | ended calls ending timeouts ha hmade hkeeps hended htimeouts =>
      cases hbc with
      | stillOpen _ hb _ _ _ _ => exact absurd hb hended.ne_active
      | ended _ _ _ hb _ _ _ _ => exact absurd hb hended.ne_active
      | settled _ hphase hmade' htimeouts' =>
          refine .ended calls ending timeouts ha ?_ hkeeps (hphase ▸ hended) (htimeouts'.trans htimeouts)
          have hall := hmade.append hmade'
          rwa [List.append_nil] at hall
  | settled ha hphase hmade htimeouts =>
      cases hbc with
      | stillOpen _ hb _ _ _ _ => exact absurd (hphase ▸ hb) ha
      | ended _ _ _ hb _ _ _ _ => exact absurd (hphase ▸ hb) ha
      | settled _ hphase' hmade' htimeouts' =>
          exact .settled ha (hphase'.trans hphase) (hmade.append hmade') (htimeouts'.trans htimeouts)

theorem SameCourse.continues {s next : Session} (h : SameCourse s next) : Continues s next :=
  .quiet h.phase (made_nil (by rw [h.connection]) (by rw [h.connection]))
    (by rw [timeouts, timeouts, h.notices])

/-- The watchdog ends an open transaction, whatever storage says. -/
theorem continues_expire {s : Session} (moment : Nat) (hactive : s.phase = .active) :
    Continues s (s.expire moment) := by
  -- the phase is final, and the timeout announced, before storage is asked
  let marked : Session :=
    { s with phase := .rolledBack, notices := s.notices ++ [Notice.timeout moment], alarm := none }
  have hmarked : marked.timeouts = s.timeouts + 1 := List.countP_append
  have hmade := (made_perform .rollback marked).append (made_perform .disconnect (marked.perform .rollback).2)
  refine .ended [] _ 1 hactive hmade (fun _ h => absurd h List.not_mem_nil) ?_ ?_
  · have hphase : (s.expire moment).phase = .rolledBack := by
      change ((marked.perform .rollback).2.perform .disconnect).2.phase = .rolledBack
      rw [phase_perform, phase_perform]
    rw [hphase]
    exact .timedOut _ _
  · change ((marked.perform .rollback).2.perform .disconnect).2.timeouts = s.timeouts + 1
    rw [timeouts_perform, timeouts_perform, hmarked]

theorem continues_elapse (wake turns : Nat) (s : Session) : Continues s (s.elapse wake turns) :=
  elapse_induction (fun _ => .quiet rfl (made_nil rfl rfl) rfl) .trans
    (fun _ _ _ _ _ => .quiet rfl (made_nil rfl rfl) rfl) (fun moment _ => continues_expire moment) wake turns s

theorem continues_watch (s : Session) : Continues s s.watch := continues_elapse _ _ s

theorem continues_sleep (duration : Nat) (s : Session) : Continues s (s.sleep duration) :=
  (continues_elapse _ _ s).trans (.quiet rfl (made_nil rfl rfl) rfl)

theorem continues_call (s : Session) (request : Call) (hactive : s.phase = .active)
    (hordinary : request.isOrdinary = true) : Continues s (s.perform request).2 := by
  refine .stillOpen _ hactive ((phase_perform request s).trans hactive) (made_perform request s) ?_
    (timeouts_perform request s)
  intro exchange hexchange
  rw [List.mem_singleton.mp hexchange]
  cases request <;> first | exact trivial | cases hordinary

theorem continues_happen (circumstance : Circumstance) (s : Session) : Continues s (s.happen circumstance) := by
  cases circumstance with
  | answer rows => exact .quiet rfl (made_nil rfl rfl) rfl
  | fail kind message => exact .quiet rfl (made_nil rfl rfl) rfl
  | delay duration => exact .quiet rfl (made_nil rfl rfl) rfl
  | sleep duration => exact continues_sleep duration s
  | announce notification =>
      unfold happen
      dsimp only
      split
      · have hconnection := connection_deliver [notification] s
        exact .quiet (phase_deliver _ _) (made_nil (by rw [hconnection]) (by rw [hconnection]))
          (timeouts_deliver _ _)
      · exact .quiet rfl (made_nil rfl rfl) rfl

/-- Giving the connection back makes the second exchange of a commit or a rollback, and none otherwise. -/
theorem ended_release (ending : Ending) (s : Session) (hphase : s.phase = ending.phase) :
    ∃ released, Made s.connection ((release ending).run s).2 released ∧
      Ended ((release ending).run s).2.phase (⟨ending.request, true⟩ :: released) 0 ∧
      ((release ending).run s).2.timeouts = s.timeouts := by
  have hcalled := made_perform .disconnect s
  have hkept : (s.perform .disconnect).2.phase = ending.phase := (phase_perform _ _).trans hphase
  cases ending with
  | commit =>
      refine ⟨_, hcalled, ?_, timeouts_perform _ _⟩
      change Ended (s.perform .disconnect).2.phase _ 0
      rw [hkept]
      exact .committed _
  | rollback =>
      refine ⟨_, hcalled, ?_, timeouts_perform _ _⟩
      change Ended (s.perform .disconnect).2.phase _ 0
      rw [hkept]
      exact .rolledBack _
  | disconnect =>
      refine ⟨[], made_nil rfl rfl, ?_, rfl⟩
      change Ended s.phase _ 0
      rw [hphase]
      exact .disconnected

/-- The watchdog wakes by a moment, and the deadline has passed by then. -/
structure WakesBy (bound : Nat) (s : Session) : Prop where
  deadline : s.deadline ≤ bound
  alarm : ∃ alarm, s.alarm = some alarm ∧ alarm ≤ bound

/-- While an end is under way the watchdog only waits, each time for one timeout more at most. -/
theorem elapse_finishing {wake turns : Nat} {s : Session} (hactive : s.phase = .active)
    (hfinishing : s.finishing = true) (hwake : wake ≤ s.now) :
    ∃ deadline alarm, s.elapse wake turns = { s with deadline, alarm } ∧
      ∀ bound, s.now + s.settings.timeout ≤ bound → s.WakesBy bound → (s.elapse wake turns).WakesBy bound := by
  induction turns generalizing s with
  | zero => exact ⟨_, _, rfl, fun _ _ h => h⟩
  | succ turns ih =>
      unfold elapse
      split
      · rename_i moment halarm
        split
        · rename_i hdue
          have hnow : ({ s with now := max s.now moment } : Session) = s := by
            rw [Nat.max_eq_left (Nat.le_trans hdue hwake)]
          rw [hnow]
          have hturn : ∃ deadline alarm, s.turn moment = { s with deadline, alarm } ∧
              ∀ bound, s.now + s.settings.timeout ≤ bound → s.WakesBy bound → (s.turn moment).WakesBy bound := by
            unfold turn
            split
            · exact ⟨_, _, rfl, fun bound _ h => ⟨h.deadline, _, rfl, h.deadline⟩⟩
            · have hopen : ¬s.phase.isFinal = true := by rw [hactive]; decide
              rw [if_neg hopen]
              refine ⟨_, _, rfl, fun bound hbound _ => ?_⟩
              have hnext := Nat.le_trans (Nat.add_le_add_right (Nat.le_trans hdue hwake) _) hbound
              exact ⟨hnext, _, rfl, hnext⟩
          obtain ⟨deadline, alarm, hturn, hwakes⟩ := hturn
          rw [hturn] at hwakes ⊢
          obtain ⟨deadline', alarm', hrest, hwakes'⟩ :=
            @ih { s with deadline, alarm } hactive hfinishing hwake
          exact ⟨deadline', alarm', hrest, fun bound hbound h => hwakes' bound hbound (hwakes bound hbound h)⟩
        · exact ⟨_, _, rfl, fun _ _ h => h⟩
      · exact ⟨_, _, rfl, fun _ _ h => h⟩

/-- What follows an end that storage accepted. -/
def closing (ending : Ending) : Work Unit := do
  change fun s => { s with phase := ending.phase, alarm := none }
  change (sample ending.operation.name none)
  release ending
  change sampleWhole

theorem run_closing (ending : Ending) (s : Session) :
    ((closing ending).run s).2 = ((release ending).run
      (sample ending.operation.name none { s with phase := ending.phase, alarm := none })).2.sampleWhole := by
  cases ending <;> rfl

theorem finishing_perform (request : Call) (s : Session) : (s.perform request).2.finishing = s.finishing := by
  have hdeliver : ∀ sent (s : Session), (s.deliver sent).finishing = s.finishing := by
    intro sent s
    unfold deliver
    split <;> rfl
  exact hdeliver _ _

/-- A caller's end on an open session: storage is asked, and what the watchdog does meanwhile shows in its
alarm and in the deadline only. -/
theorem run_finish (ending : Ending) {s : Session} (hactive : s.phase = .active) (hfinishing : s.finishing = false) :
    let asked := ({ s with finishing := true } : Session).perform ending.request
    ∃ deadline alarm, asked.2.watch = { asked.2 with deadline, alarm } ∧
      (∀ bound, asked.2.now + asked.2.settings.timeout ≤ bound → asked.2.WakesBy bound →
        asked.2.watch.WakesBy bound) ∧
      ((finish ending).run s).2 = match asked.1 with
        | .error _ => touch { asked.2 with deadline, alarm, finishing := false }
        | .ok _ => ((closing ending).run { asked.2 with deadline, alarm, finishing := false }).2 := by
  dsimp only
  have hopen : (s.phase.isFinal || s.finishing) = false := by
    rw [hactive, hfinishing]
    rfl
  rw [run_finish_begun hopen]
  unfold conclude
  rw [run_bind, run_call]
  dsimp only
  generalize hasked : ({ s with finishing := true } : Session).perform ending.request = asked
  have hphase : asked.2.phase = .active := hasked ▸ (phase_perform _ _).trans hactive
  have hbusy : asked.2.finishing = true := hasked ▸ finishing_perform _ _
  obtain ⟨deadline, alarm, hwatch, hwakes⟩ :=
    @elapse_finishing _ (asked.2.now + 1) _ hphase hbusy (Nat.le_refl _)
  have hturns : asked.2.watch = { asked.2 with deadline, alarm } := hwatch
  refine ⟨deadline, alarm, hturns, hwakes, ?_⟩
  rw [run_bind, run_change]
  dsimp only
  rw [hturns]
  cases asked.1 <;> rfl

theorem continues_finish (ending : Ending) (s : Session) : Continues s ((finish ending).run s).2 := by
  cases hrefused : s.phase.isFinal || s.finishing with
  | true =>
      rw [run_finish_refused hrefused]
      exact .quiet rfl (made_nil rfl rfl) rfl
  | false =>
      rw [Bool.or_eq_false_iff] at hrefused
      have hactive := Phase.eq_active_of_not_isFinal (Bool.eq_false_iff.mp hrefused.1)
      obtain ⟨deadline, alarm, -, -, hrun⟩ := run_finish ending hactive hrefused.2
      rw [hrun]
      generalize hbegun : ({ s with finishing := true } : Session) = begun
      have hbegunPhase : begun.phase = .active := hbegun ▸ hactive
      have hbefore : Continues s begun := hbegun ▸ .quiet rfl (made_nil rfl rfl) rfl
      have hasked := made_perform ending.request begun
      refine hbefore.trans ?_
      rcases hverdict : (begun.perform ending.request).1 with cause | rows <;> rw [hverdict] at hasked
      · refine .stillOpen _ hbegunPhase ((phase_perform _ _).trans hbegunPhase) hasked ?_ (timeouts_perform _ _)
        intro exchange hexchange
        rw [List.mem_singleton.mp hexchange]
        cases ending <;> rfl
      · dsimp only
        rw [run_closing]
        let closed : Session :=
          { (begun.perform ending.request).2 with phase := ending.phase, deadline, alarm := none, finishing := false }
        have hsampled := sameCourse_sample ending.operation.name none closed
        obtain ⟨released, hmade, hended, htimeouts⟩ := ended_release ending _ hsampled.phase
        have hcalls : Made (begun.perform ending.request).2.connection _ released := hsampled.connection ▸ hmade
        have hreleased : Continues begun ((release ending).run (closed.sample ending.operation.name none)).2 := by
          refine .ended [] (⟨ending.request, true⟩ :: released) 0 hbegunPhase (hasked.append hcalls)
            (fun _ h => absurd h List.not_mem_nil) hended ?_
          rw [htimeouts, timeouts, hsampled.notices]
          exact timeouts_perform _ _
        exact (hreleased.trans (sameCourse_sample _ _ _).continues).trans (sameCourse_sample _ _ _).continues

theorem admits_continues : Admits Continues where
  refl _ := .quiet rfl (made_nil rfl rfl) rfl
  trans := .trans
  aside := SameCourse.continues
  route _ _ := .quiet rfl (made_nil rfl rfl) rfl
  touch _ := .quiet rfl (made_nil rfl rfl) rfl
  watch := continues_watch
  call := continues_call
  finish := continues_finish
  happen := continues_happen

theorem carries_continues : Carries Continues := admits_continues.carries

/-! ### Scripts -/

/-- A successful start opens the transaction with one accepted call, and the watchdog has its first look. -/
theorem exists_opened {settings : Settings} {connection : Connection} {attentive : Bool} {s : Session}
    (hstart : start settings connection attentive = .ok s) :
    ∃ begun, s.after [] = (opened settings begun attentive).watch ∧
      Made connection (opened settings begun attentive) [⟨.begin, true⟩] := by
  unfold start at hstart
  dsimp only at hstart
  have hverdict : (connection.perform .begin).2.rows = (connection.ask .begin).2.1 := rfl
  have hlog : (connection.perform .begin).1.log = connection.log ++ [.begin] := rfl
  have hverdicts : (connection.perform .begin).1.verdicts =
      connection.verdicts ++ [(connection.ask .begin).2.1.isOk] := rfl
  rw [hverdict] at hstart
  cases hrows : (connection.ask .begin).2.1 with
  | error cause =>
      rw [hrows] at hstart
      cases hstart
  | ok rows =>
      rw [hrows] at hstart hverdicts
      cases hstart
      exact ⟨_, rfl, hlog, hverdicts⟩

end Session

end Dossier
