import Dossier.Proofs.Event.Router
import Dossier.Proofs.Session.Ledger

/-!
What storage listens on. A subscription that storage refuses is taken back from the router, but a channel that
storage refuses to close is gone from the router all the same: it is abandoned, until storage accepts to open or
to close it later. Main statement: after any script storage listens on the open channels of the router and on
the abandoned ones, and no channel is both.
-/

namespace Dossier

/-- Whether the call is about a channel. -/
def Call.isListening : Call → Bool
  | .listen _ | .unlisten _ => true
  | .begin | .commit | .rollback | .disconnect | .query _ _ => false

namespace Exchange

/-- Storage listens on a channel once it accepts to open it, and until it accepts to close it. -/
def listening (channel : String) (before : Bool) : Exchange → Bool
  | ⟨.listen name, true⟩ => before || name == channel
  | ⟨.unlisten name, true⟩ => before && name != channel
  | _ => before

/-- A channel is abandoned once storage refuses to close it, and until it accepts to open or to close it. -/
def abandoning (channel : String) (before : Bool) : Exchange → Bool
  | ⟨.listen name, true⟩ | ⟨.unlisten name, true⟩ => before && name != channel
  | ⟨.unlisten name, false⟩ => before || name == channel
  | _ => before

end Exchange

namespace Session

variable {s next : Session} {channel : String} {exchanges : List Exchange}

def listens (channel : String) (exchanges : List Exchange) : Bool :=
  exchanges.foldl (Exchange.listening channel) false

def abandons (channel : String) (exchanges : List Exchange) : Bool :=
  exchanges.foldl (Exchange.abandoning channel) false

/-- Storage listens on the channel if the router has it open or has abandoned it. -/
structure Accords (channel : String) (router : Router) (exchanges : List Exchange) : Prop where
  listens : listens channel exchanges = (router.isOpen channel || abandons channel exchanges)
  apart : router.isOpen channel = true → abandons channel exchanges = false

/-- Whatever was said before, the channels of the router and those of storage keep the accord. -/
def KeepsAccord (s next : Session) : Prop :=
  ∃ exchanges, Made s.connection next exchanges ∧ ∀ channel before,
    Accords channel s.router before → Accords channel next.router (before ++ exchanges)

/-- No channel was opened or closed, or asked to be. -/
structure KeepsChannels (s next : Session) : Prop where
  router : next.router = s.router
  exchanges : ∃ exchanges, Made s.connection next exchanges ∧
    ∀ exchange ∈ exchanges, exchange.call.isListening = false

/-! ### Exchanges -/

theorem listens_concat (exchange : Exchange) :
    listens channel (exchanges ++ [exchange]) = exchange.listening channel (listens channel exchanges) :=
  List.foldl_concat ..

theorem abandons_concat (exchange : Exchange) :
    abandons channel (exchanges ++ [exchange]) = exchange.abandoning channel (abandons channel exchanges) :=
  List.foldl_concat ..

/-- An abandoned channel is one that storage refused to close. -/
theorem refused_of_abandons (h : abandons channel exchanges = true) : ⟨.unlisten channel, false⟩ ∈ exchanges := by
  induction exchanges using List.reverseRecOn with
  | nil => cases h
  | append_singleton exchanges exchange ih =>
      rw [abandons_concat] at h
      rw [List.mem_append, List.mem_singleton]
      obtain ⟨call, accepted⟩ := exchange
      cases call <;> cases accepted <;> simp only [Exchange.abandoning, Bool.and_eq_true, Bool.or_eq_true] at h
      case unlisten.false name =>
        refine h.imp ih fun hname => ?_
        rw [beq_iff_eq.mp hname]
      all_goals first | exact .inl (ih h) | exact .inl (ih h.1)

theorem Accords.of_quiet {router : Router} {before : List Exchange} (h : Accords channel router before)
    (hquiet : ∀ exchange ∈ exchanges, exchange.call.isListening = false) :
    Accords channel router (before ++ exchanges) := by
  induction exchanges using List.reverseRecOn with
  | nil => rwa [List.append_nil]
  | append_singleton exchanges exchange ih =>
      have hlast := hquiet exchange (List.mem_append_right _ (List.mem_singleton_self _))
      have hbefore := ih fun other hother => hquiet other (List.mem_append_left _ hother)
      obtain ⟨call, accepted⟩ := exchange
      rw [← List.append_assoc]
      constructor
      · rw [listens_concat, abandons_concat]
        cases call <;> first | exact hbefore.listens | cases hlast
      · rw [abandons_concat]
        cases call <;> first | exact hbefore.apart | cases hlast

/-! ### Steps -/

theorem KeepsAccord.refl (s : Session) : KeepsAccord s s :=
  ⟨[], made_nil rfl rfl, fun _ before h => (List.append_nil before).symm ▸ h⟩

theorem KeepsAccord.trans {a b c : Session} (hab : KeepsAccord a b) (hbc : KeepsAccord b c) :
    KeepsAccord a c := by
  obtain ⟨first, hfirst, hkeeps⟩ := hab
  obtain ⟨second, hsecond, hkeeps'⟩ := hbc
  refine ⟨first ++ second, hfirst.append hsecond, fun channel before h => ?_⟩
  rw [← List.append_assoc]
  exact hkeeps' channel _ (hkeeps channel before h)

theorem KeepsChannels.keepsAccord (h : KeepsChannels s next) : KeepsAccord s next := by
  obtain ⟨exchanges, hmade, hquiet⟩ := h.exchanges
  exact ⟨exchanges, hmade, fun _ _ hbefore => h.router ▸ hbefore.of_quiet hquiet⟩

theorem keepsChannels_of_eq (hrouter : next.router = s.router) (hconnection : next.connection = s.connection) :
    KeepsChannels s next :=
  ⟨hrouter, [], made_nil (by rw [hconnection]) (by rw [hconnection]), fun _ h => absurd h List.not_mem_nil⟩

theorem SameCourse.keepsChannels (h : SameCourse s next) : KeepsChannels s next :=
  keepsChannels_of_eq h.router h.connection

theorem KeepsChannels.trans {a b c : Session} (hab : KeepsChannels a b) (hbc : KeepsChannels b c) :
    KeepsChannels a c := by
  obtain ⟨first, hfirst, hquiet⟩ := hab.exchanges
  obtain ⟨second, hsecond, hquiet'⟩ := hbc.exchanges
  refine ⟨hbc.router.trans hab.router, first ++ second, hfirst.append hsecond, fun exchange hexchange => ?_⟩
  exact (List.mem_append.mp hexchange).elim (hquiet exchange) (hquiet' exchange)

theorem router_perform (request : Call) (s : Session) : (s.perform request).2.router = s.router := by
  have hdeliver : ∀ sent (s : Session), (s.deliver sent).router = s.router := by
    intro sent s
    unfold deliver
    split <;> rfl
  exact hdeliver _ _

theorem keepsChannels_perform {request : Call} (s : Session) (h : request.isListening = false) :
    KeepsChannels s (s.perform request).2 := by
  refine ⟨router_perform request s, _, made_perform request s, fun exchange hexchange => ?_⟩
  rw [List.mem_singleton.mp hexchange]
  exact h

theorem keepsChannels_expire (moment : Nat) (s : Session) : KeepsChannels s (s.expire moment) := by
  let marked : Session :=
    { s with phase := .rolledBack, notices := s.notices ++ [Notice.timeout moment], alarm := none }
  have hmarked : KeepsChannels s marked := keepsChannels_of_eq rfl rfl
  exact (hmarked.trans (keepsChannels_perform marked rfl)).trans (keepsChannels_perform _ rfl)

theorem keepsChannels_elapse (wake turns : Nat) (s : Session) : KeepsChannels s (s.elapse wake turns) :=
  elapse_induction (fun _ => keepsChannels_of_eq rfl rfl) .trans (fun _ _ _ _ _ => keepsChannels_of_eq rfl rfl)
    (fun moment s _ => keepsChannels_expire moment s) wake turns s

theorem keepsChannels_closing (ending : Ending) (s : Session) : KeepsChannels s ((closing ending).run s).2 := by
  have hrelease : ∀ s : Session, KeepsChannels s ((release ending).run s).2 := by
    intro s
    cases ending with
    | commit | rollback => exact keepsChannels_perform s rfl
    | disconnect => exact keepsChannels_of_eq rfl rfl
  have hsample : ∀ name statement (s : Session), KeepsChannels s (s.sample name statement) :=
    fun name statement s => (sameCourse_sample name statement s).keepsChannels
  rw [run_closing]
  let closed : Session := { s with phase := ending.phase, alarm := none }
  have hclosed : KeepsChannels s closed := keepsChannels_of_eq rfl rfl
  exact (((hclosed.trans (hsample _ _ closed)).trans (hrelease _)).trans (hsample _ _ _)).trans (hsample _ _ _)

theorem keepsChannels_finish (ending : Ending) (s : Session) : KeepsChannels s ((finish ending).run s).2 := by
  cases hrefused : s.phase.isFinal || s.finishing with
  | true =>
      rw [run_finish_refused hrefused]
      exact keepsChannels_of_eq rfl rfl
  | false =>
      rw [Bool.or_eq_false_iff] at hrefused
      have hactive := Phase.eq_active_of_not_isFinal (Bool.eq_false_iff.mp hrefused.1)
      obtain ⟨deadline, alarm, -, -, hrun⟩ := run_finish ending hactive hrefused.2
      let begun : Session := { s with finishing := true }
      let asked : Session := { (begun.perform ending.request).2 with deadline, alarm, finishing := false }
      have hending : ending.request.isListening = false := by cases ending <;> rfl
      have hbegun : KeepsChannels s begun := keepsChannels_of_eq rfl rfl
      have hwaited : KeepsChannels (begun.perform ending.request).2 asked := keepsChannels_of_eq rfl rfl
      have hasked : KeepsChannels s asked := (hbegun.trans (keepsChannels_perform begun hending)).trans hwaited
      rw [hrun]
      split
      · exact hasked.trans (keepsChannels_of_eq rfl rfl)
      · exact hasked.trans (keepsChannels_closing ending asked)

theorem keepsChannels_happen (circumstance : Circumstance) (s : Session) :
    KeepsChannels s (s.happen circumstance) := by
  have hlog : ∀ connection : Connection, connection.log = s.connection.log →
      connection.verdicts = s.connection.verdicts → KeepsChannels s { s with connection } :=
    fun _ hlog hverdicts => ⟨rfl, [], made_nil hlog hverdicts, fun _ h => absurd h List.not_mem_nil⟩
  cases circumstance with
  | answer rows => exact hlog _ rfl rfl
  | fail kind message => exact hlog _ rfl rfl
  | delay duration => exact hlog _ rfl rfl
  | sleep duration =>
      exact (keepsChannels_elapse _ _ s).trans (keepsChannels_of_eq rfl rfl)
  | announce notification =>
      unfold happen deliver
      dsimp only
      split
      · split <;> exact keepsChannels_of_eq rfl rfl
      · exact keepsChannels_of_eq rfl rfl

/-- The end of an operation asks for no channel. -/
theorem keepsChannels_ended (name : String) (statement : Option (String × List Json)) (s : Session) :
    KeepsChannels s (s.sample name statement).watch.touch :=
  ((sameCourse_sample name statement s).keepsChannels.trans (keepsChannels_elapse _ _ _)).trans
    (keepsChannels_of_eq rfl rfl)

theorem keepsChannels_query (operation : Operation) (sql : String) (params : List Json)
    (hactive : s.phase = .active) : KeepsChannels s ((query operation sql params).run s).2 := by
  rw [run_query hactive]
  exact (keepsChannels_perform s rfl).trans (keepsChannels_ended _ _ _)

/-! ### Subscriptions -/

theorem Accords.of_isOpen {router other : Router} {before : List Exchange} (h : Accords channel router before)
    (hopen : other.isOpen channel = router.isOpen channel) : Accords channel other before :=
  ⟨hopen ▸ h.listens, hopen ▸ h.apart⟩

/-- The router has opened a channel, and storage accepts to open it. -/
theorem Accords.listen_accepted {router : Router} {id : EventId} {opened : String} {before : List Exchange}
    (h : Accords channel router before) (hopens : (router.subscribe id).2 = some opened) :
    Accords channel (router.subscribe id).1 (before ++ [⟨.listen opened, true⟩]) := by
  obtain ⟨hopen, -⟩ := Router.isOpen_subscribe router id channel
  rw [hopens] at hopen
  by_cases hchannel : opened = channel
  · subst hchannel
    constructor
    · simp [listens_concat, abandons_concat, Exchange.listening, Exchange.abandoning, hopen]
    · simp [abandons_concat, Exchange.abandoning]
  · have hname : (opened == channel) = false := beq_eq_false_iff_ne.mpr hchannel
    have hsame : (router.subscribe id).1.isOpen channel = router.isOpen channel := by
      simpa [hname] using hopen
    constructor
    · simpa [listens_concat, abandons_concat, Exchange.listening, Exchange.abandoning, bne, hname, hsame]
        using h.listens
    · simpa [abandons_concat, Exchange.abandoning, bne, hname, hsame] using h.apart

/-- The router has opened a channel, which storage refuses: the subscription is taken back. -/
theorem Accords.listen_refused {router : Router} {id : EventId} {opened : String} {before : List Exchange}
    (h : Accords channel router before) (hopens : (router.subscribe id).2 = some opened) :
    Accords channel ((router.subscribe id).1.unsubscribe id).1 (before ++ [⟨.listen opened, false⟩]) := by
  have hsame := h.of_isOpen (Router.isOpen_unsubscribe_subscribe hopens channel)
  constructor
  · rw [listens_concat, abandons_concat]
    exact hsame.listens
  · rw [abandons_concat]
    exact hsame.apart

/-- The router has closed a channel: it is closed in storage as well, or it is abandoned. -/
theorem Accords.unlisten {router : Router} {id : EventId} {closed : String} {before : List Exchange}
    (h : Accords channel router before) (hcloses : (router.unsubscribe id).2 = some closed) (accepted : Bool) :
    Accords channel (router.unsubscribe id).1 (before ++ [⟨.unlisten closed, accepted⟩]) := by
  obtain ⟨hopen, hwas⟩ := Router.isOpen_unsubscribe router id channel
  rw [hcloses] at hopen hwas
  by_cases hchannel : closed = channel
  · subst hchannel
    have hlistens := h.listens
    rw [hwas rfl, h.apart (hwas rfl), Bool.or_false] at hlistens
    constructor
    · cases accepted <;>
        simp [listens_concat, abandons_concat, Exchange.listening, Exchange.abandoning, hopen, hlistens]
    · cases accepted <;> simp [hopen]
  · have hname : (closed == channel) = false := beq_eq_false_iff_ne.mpr hchannel
    have hsame : (router.unsubscribe id).1.isOpen channel = router.isOpen channel := by
      simpa [bne, hname] using hopen
    constructor
    · cases accepted <;>
        simpa [listens_concat, abandons_concat, Exchange.listening, Exchange.abandoning, bne, hname, hsame]
          using h.listens
    · cases accepted <;> simpa [abandons_concat, Exchange.abandoning, bne, hname, hsame] using h.apart

theorem keepsAccord_listen {id : EventId} {opened : String} (hopens : (s.router.subscribe id).2 = some opened) :
    KeepsAccord s ((listen id opened).run { s with router := (s.router.subscribe id).1 }).2 := by
  generalize hentered : ({ s with router := (s.router.subscribe id).1 } : Session) = entered
  have hrouter : (entered.perform (.listen opened)).2.router = (s.router.subscribe id).1 := by
    rw [router_perform, ← hentered]
  have hmade := made_perform (.listen opened) entered
  have hbefore : entered.connection = s.connection := by rw [← hentered]
  rw [hbefore] at hmade
  unfold Session.listen
  rw [run_bind, run_call]
  rcases hverdict : (entered.perform (.listen opened)).1 with cause | rows <;> rw [hverdict] at hmade
  · refine ⟨_, hmade, fun channel before h => ?_⟩
    change Accords channel ((entered.perform (.listen opened)).2.router.unsubscribe id).1 _
    rw [hrouter]
    exact h.listen_refused hopens
  · refine ⟨_, hmade, fun channel before h => ?_⟩
    change Accords channel (entered.perform (.listen opened)).2.router _
    rw [hrouter]
    exact h.listen_accepted hopens

theorem keepsAccord_unlisten {id : EventId} {closed : String}
    (hcloses : (s.router.unsubscribe id).2 = some closed) :
    KeepsAccord s ((unlisten closed).run { s with router := (s.router.unsubscribe id).1 }).2 := by
  generalize hleft : ({ s with router := (s.router.unsubscribe id).1 } : Session) = left
  have hrouter : (left.perform (.unlisten closed)).2.router = (s.router.unsubscribe id).1 := by
    rw [router_perform, ← hleft]
  have hmade := made_perform (.unlisten closed) left
  have hbefore : left.connection = s.connection := by rw [← hleft]
  rw [hbefore] at hmade
  have hrun : ((unlisten closed).run left).2 = (left.perform (.unlisten closed)).2 := by
    unfold Session.unlisten
    rw [run_bind, run_call]
    dsimp only
    split <;> rfl
  rw [hrun]
  refine ⟨_, hmade, fun channel before h => ?_⟩
  rw [hrouter]
  exact h.unlisten hcloses _

/-- A change of the router that opens and closes nothing. -/
theorem keepsAccord_route {router : Router} (h : ∀ channel, router.isOpen channel = s.router.isOpen channel) :
    KeepsAccord s { s with router } :=
  ⟨[], made_nil rfl rfl, fun channel before hbefore => by
    rw [List.append_nil]
    exact hbefore.of_isOpen (h channel)⟩

theorem keepsAccord_subscribe (text : String) (hactive : s.phase = .active) :
    KeepsAccord s ((subscribe text).run s).2 := by
  obtain ⟨asked, hrun, hasked⟩ := subscribe_cases text hactive
  rw [hrun]
  refine .trans ?_ (keepsChannels_ended _ _ _).keepsAccord
  rcases hasked with rfl | ⟨id, ⟨hopens, rfl⟩ | ⟨opened, hopens, rfl⟩⟩
  · exact .refl asked
  · refine keepsAccord_route fun channel => ?_
    rw [(Router.isOpen_subscribe s.router id channel).1, hopens]
    exact Bool.or_false _
  · exact keepsAccord_listen hopens

theorem keepsAccord_unsubscribe (text : String) (hactive : s.phase = .active) :
    KeepsAccord s ((unsubscribe text).run s).2 := by
  obtain ⟨asked, hrun, hasked⟩ := unsubscribe_cases text hactive
  rw [hrun]
  refine .trans ?_ (keepsChannels_ended _ _ _).keepsAccord
  rcases hasked with rfl | ⟨id, ⟨hcloses, rfl⟩ | ⟨closed, hcloses, rfl⟩⟩
  · exact .refl asked
  · refine keepsAccord_route fun channel => ?_
    rw [(Router.isOpen_unsubscribe s.router id channel).1, hcloses]
    exact Bool.and_true _
  · exact keepsAccord_unlisten hcloses

theorem carries_keepsAccord : Carries KeepsAccord where
  refl := .refl
  trans := .trans
  aside h := h.keepsChannels.keepsAccord
  watch s := (keepsChannels_elapse _ _ s).keepsAccord
  query operation sql params _ hactive := (keepsChannels_query operation sql params hactive).keepsAccord
  subscribe text _ hactive := keepsAccord_subscribe text hactive
  unsubscribe text _ hactive := keepsAccord_unsubscribe text hactive
  finish ending s := (keepsChannels_finish ending s).keepsAccord
  happen circumstance s := (keepsChannels_happen circumstance s).keepsAccord

/-! ### Scripts -/

/-- **Storage listens on the open channels and on the abandoned ones.** After any script a channel on which
storage listens is open in the router, or it was abandoned when storage refused to close it; no channel is both.
Refused subscriptions leave storage and router in accord. -/
theorem listens_iff_after_start {settings : Settings} {connection : Connection} {attentive : Bool}
    (hstart : start settings connection attentive = .ok s) (script : List Step) :
    ∃ exchanges, Made connection (s.after script) exchanges ∧ ∀ channel,
      (listens channel exchanges = true ↔
        channel ∈ (s.after script).router.channels ∨ abandons channel exchanges = true) ∧
      (abandons channel exchanges = true →
        channel ∉ (s.after script).router.channels ∧ ⟨.unlisten channel, false⟩ ∈ exchanges) := by
  obtain ⟨begun, hbegun, hmadeBegin⟩ := exists_opened hstart
  change s = _ at hbegun
  have hkeeps : KeepsAccord (opened settings begun attentive) (s.after script) := by
    rw [hbegun]
    exact (keepsChannels_elapse _ _ _).keepsAccord.trans (carries_keepsAccord.after script _)
  obtain ⟨exchanges, hmade, haccords⟩ := hkeeps
  refine ⟨⟨.begin, true⟩ :: exchanges, hmadeBegin.append hmade, fun channel => ?_⟩
  have h := haccords channel [⟨.begin, true⟩] ⟨rfl, fun _ => rfl⟩
  rw [List.singleton_append] at h
  rw [Router.mem_channels_iff, h.listens, Bool.or_eq_true]
  refine ⟨Iff.rfl, fun habandons => ⟨fun hopen => ?_, refused_of_abandons habandons⟩⟩
  rw [h.apart hopen] at habandons
  cases habandons

/-- Storage and router agree where storage refuses to listen, on all channels. -/
theorem listens_iff_after_start_refused_listen :
    let script : List Step := [.circumstance (.fail .listen (some "busy")), .request (.subscribe "Invoice"),
      .circumstance (.fail .listen none), .request (.subscribe "User#")]
    ∃ s, start Settings.default (.ofBackend (.scripted [])) true = .ok s ∧
      "tcnuser" ∈ (s.after script).router.channels ∧
      ∃ exchanges, Made (.ofBackend (.scripted [])) (s.after script) exchanges ∧
        ∀ channel, listens channel exchanges = true ↔ channel ∈ (s.after script).router.channels := by
  intro script
  obtain ⟨exchanges, hmade, hlistens⟩ :=
    @listens_iff_after_start _ Settings.default (.ofBackend (.scripted [])) true rfl script
  refine ⟨_, rfl, Router.mem_channels_iff.mpr rfl, exchanges, hmade, fun channel => ?_⟩
  have hcalls : exchanges.map (·.call) = [.begin, .listen "tcninvoice", .listen "tcnuser"] := hmade.1.symm
  have hkept : ¬abandons channel exchanges = true := by
    intro habandons
    have hcall := List.mem_map_of_mem (f := (·.call)) ((hlistens channel).2 habandons).2
    rw [hcalls] at hcall
    simp at hcall
  rw [(hlistens channel).1, or_iff_left hkept]

/-- Storage still listens on a channel that it refused to close, and the router of the open session has no
such channel. -/
theorem unlisten_refused_abandons :
    let script : List Step := [.request (.subscribe "User"), .circumstance (.fail .unlisten (some "busy")),
      .request (.unsubscribe "User")]
    ∃ s, start Settings.default (.ofBackend (.scripted [])) true = .ok s ∧
      (s.after script).phase = .active ∧ "tcnuser" ∉ (s.after script).router.channels ∧
      ∃ exchanges, Made (.ofBackend (.scripted [])) (s.after script) exchanges ∧
        listens "tcnuser" exchanges = true := by
  intro script
  refine ⟨_, rfl, rfl, fun hmem => ?_, [⟨.begin, true⟩, ⟨.listen "tcnuser", true⟩, ⟨.unlisten "tcnuser", false⟩],
    ⟨rfl, rfl⟩, rfl⟩
  cases Router.mem_channels_iff.mp hmem

end Session

end Dossier
