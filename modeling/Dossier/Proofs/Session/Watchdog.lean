import Dossier.Proofs.Session.Ledger

/-!
When the watchdog acts. A session is active when a call of an operation is done and when an end of its
transaction is refused. Main statement: an open session that its callers do not end is rolled back a timeout
after it was last active, and at no other moment, with one timeout announced; nothing is announced for any other
session, and nothing while an end is under way.
-/

namespace Dossier.Session

/-- Something that matters to the watchdog: activity at a moment, or the end of the transaction by a caller. -/
inductive Mark where
  | active (moment : Nat)
  | closed

/-- A call of an operation is done, unless the transaction was over before. -/
def completed (reached : Session) : List Mark := if reached.phase.isFinal then [] else [.active reached.now]

/-- An end was accepted, or it was refused, which is activity. -/
def answered (reached : Session) : List Mark := if reached.phase.isFinal then [.closed] else [.active reached.now]

/-- What happened from one session to a later one, part by part, and the marks that it left. -/
inductive Chronicle : Session → List Mark → Session → Prop
  | aside {s next : Session} : SameCourse s next → Chronicle s [] next
  | watch (s : Session) : Chronicle s [] s.watch
  | happen (circumstance : Circumstance) (s : Session) : Chronicle s [] (s.happen circumstance)
  | query (operation : Operation) (sql : String) (params : List Json) {s : Session} : s.phase = .active →
      Chronicle s (completed ((query operation sql params).run s).2) ((query operation sql params).run s).2
  | subscribe (text : String) {s : Session} : s.phase = .active →
      Chronicle s (completed ((subscribe text).run s).2) ((subscribe text).run s).2
  | unsubscribe (text : String) {s : Session} : s.phase = .active →
      Chronicle s (completed ((unsubscribe text).run s).2) ((unsubscribe text).run s).2
  | finish (ending : Ending) {s : Session} : s.phase = .active → s.finishing = false →
      Chronicle s (answered ((finish ending).run s).2) ((finish ending).run s).2
  | trans {a b c : Session} {first second : List Mark} :
      Chronicle a first b → Chronicle b second c → Chronicle a (first ++ second) c

/-- When the session was last active; the transaction began at the moment 0. -/
def lastActive (marks : List Mark) : Nat :=
  marks.foldl (fun last mark => match mark with
    | .active moment => moment
    | .closed => last) 0

/-- The moments of the timeouts that were announced. -/
def expiries (s : Session) : List Nat :=
  s.notices.filterMap fun
    | .timeout moment => some moment
    | .change _ => none

variable {timeout last wake : Nat} {s next : Session} {marks before : List Mark}

/-- The transaction is open, and the watchdog will look at a deadline one timeout after the activity. -/
structure Ticking (timeout last : Nat) (s : Session) : Prop where
  active : s.phase = .active
  idle : s.finishing = false
  settings : s.settings.timeout = timeout
  deadline : s.deadline = last + timeout
  since : last ≤ s.now
  wakes : s.WakesBy (last + timeout)
  silent : s.expiries = []

/-- The watchdog ended the transaction when the timeout had passed. -/
structure Expired (timeout last : Nat) (s : Session) : Prop where
  phase : s.phase = .rolledBack
  due : last + timeout ≤ s.now
  expiries : s.expiries = [last + timeout]
  rolledBack : ∃ calls, s.connection.log = calls ++ [.rollback, .disconnect]

/-- What the marks say of a session. -/
inductive Timed (timeout : Nat) (s : Session) (marks : List Mark) : Prop
  | ticking : Mark.closed ∉ marks → Ticking timeout (lastActive marks) s →
      s.now < lastActive marks + timeout → Timed timeout s marks
  | expired : Mark.closed ∉ marks → Expired timeout (lastActive marks) s → Timed timeout s marks
  | closed : Mark.closed ∈ marks → s.phase.isFinal = true → s.expiries = [] → Timed timeout s marks

/-! ### Ended transactions -/

/-- A transaction that is over stays as it ended. -/
structure Rests (s next : Session) : Prop where
  phase : next.phase = s.phase
  log : next.connection.log = s.connection.log
  expiries : next.expiries = s.expiries
  later : s.now ≤ next.now

theorem Rests.refl (s : Session) : Rests s s := ⟨rfl, rfl, rfl, Nat.le_refl _⟩

theorem Rests.trans {a b c : Session} (hab : Rests a b) (hbc : Rests b c) : Rests a c :=
  ⟨hbc.phase.trans hab.phase, hbc.log.trans hab.log, hbc.expiries.trans hab.expiries,
    Nat.le_trans hab.later hbc.later⟩

/-- Announcements are no timeouts. -/
theorem expiries_deliver (sent : List Notification) (s : Session) : (s.deliver sent).expiries = s.expiries := by
  unfold deliver
  split
  · have hchanges : ∀ events : List ChangeEvent, events.filterMap (fun _ => (none : Option Nat)) = [] := by simp
    rw [expiries, List.filterMap_append, List.filterMap_map]
    exact (congrArg _ (hchanges _)).trans (List.append_nil _)
  · rfl

/-- Announcements change nothing but what is announced. -/
theorem exists_deliver (sent : List Notification) (s : Session) :
    ∃ notices, s.deliver sent = { s with notices } := by
  unfold deliver
  split <;> exact ⟨_, rfl⟩

/-- A call takes its time and changes what is known of storage. -/
theorem exists_perform (request : Call) (s : Session) :
    ∃ connection notices now, (s.perform request).2 = { s with connection, notices, now } ∧ s.now ≤ now := by
  obtain ⟨notices, hdeliver⟩ := exists_deliver (s.connection.perform request).2.sent
    { s with
      connection := (s.connection.perform request).1, now := s.now + (s.connection.perform request).2.took }
  exact ⟨_, notices, _, hdeliver, Nat.le_add_right _ _⟩

theorem expiries_perform (request : Call) (s : Session) : (s.perform request).2.expiries = s.expiries :=
  expiries_deliver _ _

theorem SameCourse.rests (h : SameCourse s next) : Rests s next :=
  ⟨h.phase, by rw [h.connection], by rw [expiries, expiries, h.notices], Nat.le_of_eq h.now.symm⟩

theorem rests_elapse (wake turns : Nat) (hfinal : s.phase.isFinal = true) : Rests s (s.elapse wake turns) := by
  refine @elapse_induction (fun s next => s.phase.isFinal = true → Rests s next) (fun s _ => .refl s) ?_ ?_ ?_
    wake turns s hfinal
  · intro a b c hab hbc hfinal
    have hrests := hab hfinal
    exact hrests.trans (hbc (by rw [hrests.phase]; exact hfinal))
  · exact fun s now deadline alarm hnow _ => ⟨rfl, rfl, rfl, hnow⟩
  · intro moment s hactive hfinal
    rw [hactive] at hfinal
    cases hfinal

theorem rests_happen (circumstance : Circumstance) (hfinal : s.phase.isFinal = true) :
    Rests s (s.happen circumstance) := by
  cases circumstance with
  | answer rows => exact ⟨rfl, rfl, rfl, Nat.le_refl _⟩
  | fail kind message => exact ⟨rfl, rfl, rfl, Nat.le_refl _⟩
  | delay duration => exact ⟨rfl, rfl, rfl, Nat.le_refl _⟩
  | sleep duration => exact (rests_elapse _ _ hfinal).trans ⟨rfl, rfl, rfl, Nat.le_max_left _ _⟩
  | announce notification =>
      unfold happen
      dsimp only
      split
      · obtain ⟨notices, hdeliver⟩ := exists_deliver [notification] s
        have hexpiries := expiries_deliver [notification] s
        rw [hdeliver] at hexpiries ⊢
        exact ⟨rfl, rfl, hexpiries, Nat.le_refl _⟩
      · exact .refl s

theorem Timed.rests (h : Timed timeout s marks) (hfinal : s.phase.isFinal = true) (hrests : Rests s next) :
    Timed timeout next marks := by
  cases h with
  | ticking _ hticking _ =>
      rw [hticking.active] at hfinal
      cases hfinal
  | expired hopen hexpired =>
      obtain ⟨calls, hcalls⟩ := hexpired.rolledBack
      exact .expired hopen ⟨hrests.phase.trans hexpired.phase, Nat.le_trans hexpired.due hrests.later,
        hrests.expiries.trans hexpired.expiries, calls, hrests.log.trans hcalls⟩
  | closed hclosed _ hsilent =>
      exact .closed hclosed (by rw [hrests.phase]; exact hfinal) (hrests.expiries.trans hsilent)

/-! ### Turns of the watchdog -/

theorem elapse_stopped {turns : Nat} (h : s.alarm = none) : s.elapse wake turns = s := by
  cases turns with
  | zero => rfl
  | succ turns =>
      unfold elapse
      rw [h]

theorem elapse_early {turns alarm : Nat} (halarm : s.alarm = some alarm) (hearly : wake < alarm) :
    s.elapse wake turns = s := by
  cases turns with
  | zero => rfl
  | succ turns =>
      unfold elapse
      rw [halarm]
      exact if_neg (Nat.not_le.mpr hearly)

theorem elapse_due {turns alarm : Nat} (halarm : s.alarm = some alarm) (hdue : alarm ≤ wake) :
    s.elapse wake (turns + 1) = (turn alarm { s with now := max s.now alarm }).elapse wake turns := by
  rw [elapse, halarm]
  exact if_pos hdue

namespace Ticking

theorem sameCourse (h : Ticking timeout last s) (hcourse : SameCourse s next) : Ticking timeout last next where
  active := hcourse.phase.trans h.active
  idle := hcourse.finishing.trans h.idle
  settings := by rw [hcourse.settings, h.settings]
  deadline := hcourse.deadline.trans h.deadline
  since := by rw [hcourse.now]; exact h.since
  wakes := ⟨by rw [hcourse.deadline]; exact h.wakes.deadline, by rw [hcourse.alarm]; exact h.wakes.alarm⟩
  silent := by rw [expiries, hcourse.notices]; exact h.silent

/-- Calls and time do not move the deadline. -/
theorem later (h : Ticking timeout last s) {connection : Connection} {notices : List Notice} {now : Nat}
    (hnow : s.now ≤ now) (hsilent : expiries { s with connection, notices, now } = s.expiries) :
    Ticking timeout last { s with connection, notices, now } :=
  ⟨h.active, h.idle, h.settings, h.deadline, Nat.le_trans h.since hnow, ⟨h.wakes.deadline, h.wakes.alarm⟩,
    hsilent.trans h.silent⟩

theorem perform (h : Ticking timeout last s) (request : Call) : Ticking timeout last (s.perform request).2 := by
  obtain ⟨connection, notices, now, hperform, hnow⟩ := exists_perform request s
  have hexpiries := expiries_perform request s
  rw [hperform] at hexpiries ⊢
  exact h.later hnow hexpiries

/-- At the deadline the watchdog ends the transaction, and stops. -/
theorem expire (h : Ticking timeout last s) (hnow : last + timeout ≤ s.now) :
    Expired timeout last (s.expire (last + timeout)) ∧ (s.expire (last + timeout)).alarm = none := by
  let marked : Session :=
    { s with phase := .rolledBack, notices := s.notices ++ [Notice.timeout (last + timeout)], alarm := none }
  have hmarked : marked.expiries = [last + timeout] :=
    (List.filterMap_append ..).trans (congrArg (· ++ [last + timeout]) h.silent)
  have hlog := ((made_perform .rollback marked).append (made_perform .disconnect (marked.perform .rollback).2)).1
  obtain ⟨one, noticesOne, nowOne, hone, hlaterOne⟩ := exists_perform .rollback marked
  obtain ⟨two, noticesTwo, nowTwo, htwo, hlaterTwo⟩ := exists_perform .disconnect (marked.perform .rollback).2
  have hexpire : s.expire (last + timeout) = ((marked.perform .rollback).2.perform .disconnect).2 := rfl
  have hnowOne : (marked.perform .rollback).2.now = nowOne := by rw [hone]
  rw [hexpire]
  refine ⟨⟨?_, ?_, ?_, s.connection.log, hlog⟩, ?_⟩
  · rw [phase_perform, phase_perform]
  · rw [htwo]
    exact Nat.le_trans (Nat.le_trans hnow hlaterOne) (hnowOne ▸ hlaterTwo)
  · rw [expiries_perform, expiries_perform, hmarked]
  · rw [htwo, hone]

/-- The watchdog lets time pass before the deadline, and ends the transaction at the deadline. -/
theorem elapse (h : Ticking timeout last s) (hwake : s.now ≤ wake) :
    (wake < last + timeout ∧ Ticking timeout last (s.pass wake) ∧ (s.pass wake).now ≤ wake) ∨
      Expired timeout last (s.pass wake) := by
  obtain ⟨alarm, halarm, hle⟩ := h.wakes.alarm
  -- at the deadline there is no turn after the one that ends the transaction
  have hexpired : ∀ {woken : Session} {turns : Nat}, Ticking timeout last woken → last + timeout ≤ woken.now →
      Expired timeout last ((woken.turn (last + timeout)).elapse wake turns) := by
    intro woken turns hticking hnow
    have hturn : woken.turn (last + timeout) = woken.expire (last + timeout) := by
      have hopen : ¬woken.phase.isFinal = true := by rw [hticking.active]; decide
      have hidle : ¬woken.finishing = true := by rw [hticking.idle]; exact Bool.false_ne_true
      rw [turn, hticking.deadline, if_neg (Nat.lt_irrefl _), if_neg hopen, if_neg hidle]
    obtain ⟨hreached, hstopped⟩ := hticking.expire hnow
    rw [hturn, elapse_stopped hstopped]
    exact hreached
  rcases Nat.lt_or_ge wake alarm with hearly | hdue
  · rw [pass, elapse_early halarm hearly]
    exact .inl ⟨Nat.lt_of_lt_of_le hearly hle, h, hwake⟩
  · rw [pass, elapse_due halarm hdue]
    have hwoken : Ticking timeout last { s with now := max s.now alarm } := h.later (Nat.le_max_left _ _) rfl
    rcases Nat.lt_or_ge alarm (last + timeout) with hstale | hreached
    · -- an alarm from before the deadline moved only finds out when to wake next
      generalize hasleep : turn alarm { s with now := max s.now alarm } = asleep
      have hturn : asleep = { s with now := max s.now alarm, alarm := some s.deadline } :=
        hasleep.symm.trans (if_pos (h.deadline ▸ hstale))
      have halarm' : asleep.alarm = some (last + timeout) := by rw [hturn, h.deadline]
      have hnow : asleep.now = max s.now alarm := by rw [hturn]
      have hticking : Ticking timeout last asleep := by
        rw [hturn]
        exact ⟨h.active, h.idle, h.settings, h.deadline, hwoken.since,
          ⟨h.wakes.deadline, _, rfl, h.wakes.deadline⟩, h.silent⟩
      rcases Nat.lt_or_ge wake (last + timeout) with hwait | hpast
      · rw [elapse_early halarm' hwait]
        exact .inl ⟨hwait, hticking, hnow ▸ Nat.max_le.mpr ⟨hwake, hdue⟩⟩
      · obtain ⟨turns, rfl⟩ := Nat.exists_eq_succ_of_ne_zero (show wake ≠ 0 by omega)
        rw [elapse_due halarm' hpast]
        exact .inr (hexpired (hticking.later (Nat.le_max_left _ _) rfl) (Nat.le_max_right _ _))
    · obtain rfl : alarm = last + timeout := Nat.le_antisymm hle hreached
      exact .inr (hexpired hwoken (Nat.le_max_right _ _))

/-- Activity at this moment moves the deadline. -/
theorem touch (hactive : s.phase = .active) (hidle : s.finishing = false) (hsettings : s.settings.timeout = timeout)
    (halarm : s.WakesBy (s.now + timeout)) (hsilent : s.expiries = []) : Ticking timeout s.now s.touch := by
  subst hsettings
  exact ⟨hactive, hidle, rfl, rfl, Nat.le_refl _, ⟨Nat.le_refl _, halarm.alarm⟩, hsilent⟩

end Ticking

/-! ### Marks -/

theorem lastActive_active (moment : Nat) : lastActive (before ++ [.active moment]) = moment :=
  List.foldl_append

theorem WakesBy.mono {bound later : Nat} (h : s.WakesBy bound) (hle : bound ≤ later) : s.WakesBy later := by
  obtain ⟨alarm, halarm, hbound⟩ := h.alarm
  exact ⟨Nat.le_trans h.deadline hle, alarm, halarm, Nat.le_trans hbound hle⟩

/-- A transaction that goes on after some activity. -/
theorem Timed.active (hopen : Mark.closed ∉ before) (h : Ticking timeout s.now s) (hpositive : 0 < timeout) :
    Timed timeout s (before ++ [.active s.now]) := by
  refine .ticking ?_ ?_ ?_
  · simpa using hopen
  · rw [lastActive_active]
    exact h
  · rw [lastActive_active]
    exact Nat.lt_add_of_pos_right hpositive

theorem Timed.congr_nil (h : Timed timeout s before) : Timed timeout s (before ++ []) :=
  (List.append_nil before).symm ▸ h

/-- The end of an operation is activity, unless the watchdog came first. -/
theorem Ticking.ended (h : Ticking timeout (lastActive before) s) (hopen : Mark.closed ∉ before) (name : String)
    (statement : Option (String × List Json)) :
    let reached := (s.sample name statement).watch.touch
    Timed timeout reached (before ++ completed reached) := by
  intro reached
  rcases (h.sameCourse (sameCourse_sample name statement s)).elapse (Nat.le_refl _) with
    ⟨hwait, hticking, hnow⟩ | hexpired
  · have hdue := Nat.le_trans hticking.since hnow
    have hpositive : 0 < timeout := by omega
    have hreached : Ticking timeout reached.now reached :=
      @Ticking.touch _ (s.sample name statement).watch hticking.active hticking.idle hticking.settings
        (hticking.wakes.mono (Nat.add_le_add_right hticking.since timeout)) hticking.silent
    have hmarks : completed reached = [.active reached.now] := by rw [completed, hreached.active]; rfl
    rw [hmarks]
    exact .active hopen hreached hpositive
  · have hphase : reached.phase = .rolledBack := hexpired.phase
    have hmarks : completed reached = [] := by rw [completed, hphase]; rfl
    rw [hmarks]
    exact .congr_nil (.expired hopen ⟨hphase, hexpired.due, hexpired.expiries, hexpired.rolledBack⟩)

/-- Giving the connection back announces no timeout. -/
theorem expiries_closing (ending : Ending) (s : Session) :
    ((closing ending).run s).2.phase = ending.phase ∧ ((closing ending).run s).2.expiries = s.expiries := by
  have hsample : ∀ name statement (s : Session), Rests s (s.sample name statement) :=
    fun name statement s => (sameCourse_sample name statement s).rests
  have hrelease : ∀ s : Session, ((release ending).run s).2.phase = s.phase ∧
      ((release ending).run s).2.expiries = s.expiries := by
    intro s
    cases ending with
    | commit | rollback => exact ⟨phase_perform .disconnect s, expiries_perform .disconnect s⟩
    | disconnect => exact ⟨rfl, rfl⟩
  rw [run_closing]
  generalize hreached : ({ s with phase := ending.phase, alarm := none } : Session) = reached
  have hphase : reached.phase = ending.phase := by rw [← hreached]
  have hexpiries : reached.expiries = s.expiries := by rw [← hreached]; rfl
  have hbefore := hsample ending.operation.name none reached
  obtain ⟨hreleased, hsilent⟩ := hrelease (reached.sample ending.operation.name none)
  have hafter :=
    (hsample "transaction" none ((release ending).run (reached.sample ending.operation.name none)).2).trans
    (hsample "transaction:server" none _)
  exact ⟨hafter.phase.trans (hreleased.trans (hbefore.phase.trans hphase)),
    hafter.expiries.trans (hsilent.trans (hbefore.expiries.trans hexpiries))⟩

/-- No timeout is announced while an end is under way, whatever time it takes. A refused end is activity. -/
theorem Ticking.finish (h : Ticking timeout last s) (ending : Ending) :
    let reached := ((finish ending).run s).2
    reached.expiries = [] ∧ (reached.phase.isFinal = true ∨ Ticking timeout reached.now reached) := by
  intro reached
  obtain ⟨deadline, alarm, hwatch, hwakes, hrun⟩ := run_finish ending h.active h.idle
  generalize hbegun : ({ s with finishing := true } : Session) = begun at hwatch hwakes hrun
  obtain ⟨connection, notices, now, hperform, hnow⟩ := exists_perform ending.request begun
  have hsilent : (begun.perform ending.request).2.expiries = [] := by
    rw [expiries_perform, ← hbegun]
    exact h.silent
  generalize hasked : begun.perform ending.request = asked at hwatch hwakes hrun hperform hsilent
  have hsettings : asked.2.settings.timeout = timeout := by rw [hperform, ← hbegun]; exact h.settings
  have hreached : reached = _ := hrun
  split at hreached
  · have hbefore : asked.2.WakesBy (asked.2.now + timeout) := by
      have hlast : last ≤ asked.2.now := by
        rw [hperform]
        exact Nat.le_trans h.since (by rw [← hbegun] at hnow; exact hnow)
      refine WakesBy.mono ⟨?_, ?_⟩ (Nat.add_le_add_right hlast timeout) <;> rw [hperform, ← hbegun]
      · exact h.wakes.deadline
      · exact h.wakes.alarm
    have hafter : WakesBy (asked.2.now + timeout) { asked.2 with deadline, alarm } :=
      hwatch ▸ hwakes _ (Nat.le_of_eq (by rw [hsettings])) hbefore
    have hticking : Ticking timeout reached.now reached := by
      rw [hreached]
      refine @Ticking.touch timeout { asked.2 with deadline, alarm, finishing := false } ?_ rfl hsettings
        ⟨hafter.deadline, hafter.alarm⟩ hsilent
      change asked.2.phase = .active
      rw [hperform, ← hbegun]
      exact h.active
    exact ⟨hticking.silent, .inr hticking⟩
  · obtain ⟨hphase, hexpiries⟩ := expiries_closing ending { asked.2 with deadline, alarm, finishing := false }
    rw [hreached]
    refine ⟨hexpiries.trans hsilent, .inl ?_⟩
    rw [hphase]
    cases ending <;> rfl

theorem Ticking.happen (h : Ticking timeout (lastActive marks) s) (hopen : Mark.closed ∉ marks)
    (hnow : s.now < lastActive marks + timeout) (circumstance : Circumstance) :
    Timed timeout (s.happen circumstance) marks := by
  cases circumstance with
  | answer rows => exact .ticking hopen (h.later (Nat.le_refl _) rfl) hnow
  | fail kind message => exact .ticking hopen (h.later (Nat.le_refl _) rfl) hnow
  | delay duration => exact .ticking hopen (h.later (Nat.le_refl _) rfl) hnow
  | sleep duration =>
      rcases h.elapse (Nat.le_add_right s.now duration) with ⟨hwait, hticking, hslept⟩ | hexpired
      · exact .ticking hopen (hticking.later (Nat.le_max_left _ _) rfl) (Nat.max_lt.mpr ⟨by omega, hwait⟩)
      · exact .expired hopen ⟨hexpired.phase, Nat.le_trans hexpired.due (Nat.le_max_left _ _), hexpired.expiries,
          hexpired.rolledBack⟩
  | announce notification =>
      unfold Session.happen
      dsimp only
      split
      · obtain ⟨notices, hdeliver⟩ := exists_deliver [notification] s
        have hexpiries := expiries_deliver [notification] s
        rw [hdeliver] at hexpiries ⊢
        exact .ticking hopen (h.later (Nat.le_refl _) hexpiries) hnow
      · exact .ticking hopen h hnow

/-- The watchdog looks at a transaction that may be overdue. -/
theorem Ticking.watch (h : Ticking timeout (lastActive marks) s) (hopen : Mark.closed ∉ marks) :
    Timed timeout s.watch marks := by
  rcases h.elapse (Nat.le_refl _) with ⟨hwait, hticking, hnow⟩ | hexpired
  · exact .ticking hopen hticking (Nat.lt_of_le_of_lt hnow hwait)
  · exact .expired hopen hexpired

/-! ### Chronicles -/

theorem Timed.ticking_of_active (h : Timed timeout s marks) (hactive : s.phase = .active) :
    Mark.closed ∉ marks ∧ Ticking timeout (lastActive marks) s ∧ s.now < lastActive marks + timeout := by
  cases h with
  | ticking hopen hticking hnow => exact ⟨hopen, hticking, hnow⟩
  | expired _ hexpired => cases hexpired.phase.symm.trans hactive
  | closed _ hfinal _ =>
      rw [hactive] at hfinal
      cases hfinal

theorem admitsCalls_ticking : AdmitsCalls fun s next => Ticking timeout last s → Ticking timeout last next where
  refl _ h := h
  trans hab hbc h := hbc (hab h)
  route _ _ h := ⟨h.active, h.idle, h.settings, h.deadline, h.since, ⟨h.wakes.deadline, h.wakes.alarm⟩, h.silent⟩
  call _ request _ _ h := h.perform request

/-- The marks tell whether the watchdog has ended the transaction: each part of what happened keeps it so. -/
theorem Chronicle.timed (hchronicle : Chronicle s marks next) (h : Timed timeout s before) :
    Timed timeout next (before ++ marks) := by
  induction hchronicle generalizing before with
  | @aside s next hcourse =>
      refine .congr_nil ?_
      by_cases hfinal : s.phase.isFinal = true
      · exact h.rests hfinal hcourse.rests
      · obtain ⟨hopen, hticking, hnow⟩ := h.ticking_of_active (Phase.eq_active_of_not_isFinal hfinal)
        exact .ticking hopen (hticking.sameCourse hcourse) (by rw [hcourse.now]; exact hnow)
  | watch s =>
      refine .congr_nil ?_
      by_cases hfinal : s.phase.isFinal = true
      · exact h.rests hfinal (rests_elapse _ _ hfinal)
      · obtain ⟨hopen, hticking, -⟩ := h.ticking_of_active (Phase.eq_active_of_not_isFinal hfinal)
        exact hticking.watch hopen
  | happen circumstance s =>
      refine .congr_nil ?_
      by_cases hfinal : s.phase.isFinal = true
      · exact h.rests hfinal (rests_happen circumstance hfinal)
      · obtain ⟨hopen, hticking, hnow⟩ := h.ticking_of_active (Phase.eq_active_of_not_isFinal hfinal)
        exact hticking.happen hopen hnow circumstance
  | query operation sql params hactive =>
      obtain ⟨hopen, hticking, -⟩ := h.ticking_of_active hactive
      rw [run_query hactive]
      exact (hticking.perform _).ended hopen _ _
  | subscribe text hactive =>
      obtain ⟨hopen, hticking, -⟩ := h.ticking_of_active hactive
      obtain ⟨asked, hasked, hrun⟩ := admitsCalls_ticking.exists_subscribe hactive text
      rw [hrun]
      exact (hasked hticking).ended hopen _ _
  | unsubscribe text hactive =>
      obtain ⟨hopen, hticking, -⟩ := h.ticking_of_active hactive
      obtain ⟨asked, hasked, hrun⟩ := admitsCalls_ticking.exists_unsubscribe hactive text
      rw [hrun]
      exact (hasked hticking).ended hopen _ _
  | finish ending hactive _ =>
      obtain ⟨hopen, hticking, hnow⟩ := h.ticking_of_active hactive
      obtain ⟨hsilent, hreached⟩ := hticking.finish ending
      have hsince := hticking.since
      rcases hreached with hfinal | hrefused
      · rw [answered, if_pos hfinal]
        exact .closed (List.mem_append_right _ (List.mem_singleton_self _)) hfinal hsilent
      · rw [answered, if_neg (by rw [hrefused.active]; decide)]
        exact .active hopen hrefused (by omega)
  | trans _ _ ihfirst ihsecond =>
      rw [← List.append_assoc]
      exact ihsecond (ihfirst h)

theorem carries_chronicle : Carries fun s next => ∃ marks, Chronicle s marks next where
  refl _ := ⟨_, .aside ⟨rfl, rfl, rfl, rfl, rfl, rfl, rfl, rfl, rfl, rfl⟩⟩
  trans := fun ⟨_, hfirst⟩ ⟨_, hsecond⟩ => ⟨_, hfirst.trans hsecond⟩
  aside h := ⟨_, .aside h⟩
  watch s := ⟨_, .watch s⟩
  query operation sql params _ hactive := ⟨_, .query operation sql params hactive⟩
  subscribe text _ hactive := ⟨_, .subscribe text hactive⟩
  unsubscribe text _ hactive := ⟨_, .unsubscribe text hactive⟩
  finish ending s := by
    cases hrefused : s.phase.isFinal || s.finishing with
    | true =>
        rw [run_finish_refused hrefused]
        exact ⟨_, .aside ⟨rfl, rfl, rfl, rfl, rfl, rfl, rfl, rfl, rfl, rfl⟩⟩
    | false =>
        rw [Bool.or_eq_false_iff] at hrefused
        exact ⟨_, .finish ending (Phase.eq_active_of_not_isFinal (Bool.eq_false_iff.mp hrefused.1)) hrefused.2⟩
  happen circumstance s := ⟨_, .happen circumstance s⟩

end Dossier.Session
