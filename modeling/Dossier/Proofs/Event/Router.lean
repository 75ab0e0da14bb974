import Dossier.Event.Router
import Mathlib.Data.List.Induction
import Dossier.Proofs.Event.Identifier

/-!
What a router counts. Each identifier is counted under its text, and each channel by the identifiers that
use it; both counts go with the moves that callers made, however they spelled the identifiers. Main statement:
after any moves the counts are the balances of the moves, a channel is open as long as it has a user, and
what is asked of storage for one channel opens and closes it in turn.
-/

namespace Dossier

/-- The text of a sound identifier tells it from every other. -/
theorem EventId.Sound.text_injective {id other : EventId} (hid : id.Sound) (hother : other.Sound)
    (h : id.text = other.text) : id = other := by
  have hparts : (if id.isBareEvent then (⟨id.event, .none, .none⟩ : EventId) else id) =
      if other.isBareEvent then ⟨other.event, .none, .none⟩ else other := by
    rw [← hid.parts_text_eq, ← hother.parts_text_eq, h]
  have hbare : ∀ {id : EventId}, id.isBareEvent = true → id = ⟨.none, .none, id.event⟩ := by
    rintro ⟨typeName, identity, event⟩ hbare
    rw [isBareEvent, Bool.and_eq_true, Bool.and_eq_true, Option.isNone_iff_eq_none,
      Option.isNone_iff_eq_none] at hbare
    obtain ⟨⟨rfl, rfl⟩, -⟩ := hbare
    rfl
  -- a lone event and the type of its name are one text short of the mark behind the type
  have hmark : ∀ {id other : EventId}, id.isBareEvent = true → (⟨id.event, .none, .none⟩ : EventId) = other →
      id.text ≠ other.text := by
    rintro id _ hid rfl htext
    have hevent : ∃ event, id.event = some event := by
      rw [isBareEvent, Bool.and_eq_true] at hid
      cases hevent : id.event with
      | none => simp [hevent] at hid
      | some event => exact ⟨event, rfl⟩
    obtain ⟨event, hevent⟩ := hevent
    rw [hbare hid, hevent] at htext
    have hlength := congrArg String.length htext
    simp [text, String.length_append] at hlength
  cases hone : id.isBareEvent <;> cases htwo : other.isBareEvent <;>
    simp only [hone, htwo, if_true, if_false, Bool.false_eq_true] at hparts
  · exact hparts
  · exact absurd h.symm (hmark htwo hparts.symm)
  · exact absurd h (hmark hone hparts)
  · rw [hbare hone, hbare htwo, (EventId.mk.inj hparts).1]

namespace Router

/-! ### Users of channels -/

section

variable {users : List (String × Nat)} {channel name : String}

theorem lookup_user (key : String) (count : Nat) :
    ((key, count) :: users).lookup name = if name = key then some count else users.lookup name := by
  rw [List.lookup_cons]
  by_cases hname : name = key
  · rw [if_pos hname, beq_iff_eq.mpr hname]
  · rw [if_neg hname, beq_eq_false_iff_ne.mpr hname]

theorem lookup_setUsers (count : Nat) : (setUsers channel count users).lookup name =
    if name = channel then (users.lookup channel).map fun _ => count else users.lookup name := by
  induction users with
  | nil => exact (ite_self _).symm
  | cons user users ih =>
      obtain ⟨key, old⟩ := user
      have hcons : setUsers channel count ((key, old) :: users) =
          (if key = channel then channel else key, if key = channel then count else old) ::
            setUsers channel count users := by
        by_cases hkey : key = channel <;> simp [setUsers, hkey]
      rw [hcons, lookup_user, lookup_user, lookup_user, ih]
      by_cases hkey : key = channel
      · subst hkey
        simp only [if_true, Option.map_some]
        by_cases hname : name = key
        · rw [if_pos hname, if_pos hname]
        · rw [if_neg hname, if_neg hname, if_neg hname, if_neg hname]
      · rw [if_neg hkey, if_neg hkey, if_neg (Ne.symm hkey)]
        by_cases hname : name = key
        · rw [if_pos hname, if_neg (hname ▸ hkey), if_pos hname]
        · rw [if_neg hname, if_neg hname]

theorem lookup_append_user (count : Nat) (h : users.lookup channel = none) :
    (users ++ [(channel, count)]).lookup name =
      if name = channel then some count else users.lookup name := by
  induction users with
  | nil => exact lookup_user channel count
  | cons user users ih =>
      obtain ⟨key, old⟩ := user
      rw [lookup_user] at h
      split at h
      · cases h
      · rename_i hkey
        rw [List.cons_append, lookup_user, lookup_user, ih h]
        by_cases hname : name = key
        · rw [if_pos hname, if_pos hname, if_neg fun h => hkey (h.symm.trans hname)]
        · rw [if_neg hname, if_neg hname]

theorem lookup_filter_user : (users.filter (·.1 != channel)).lookup name =
    if name = channel then none else users.lookup name := by
  induction users with
  | nil => exact (ite_self _).symm
  | cons user users ih =>
      obtain ⟨key, old⟩ := user
      rw [List.filter_cons, lookup_user]
      by_cases hkey : key = channel
      · subst hkey
        rw [if_neg (by simp), ih]
        by_cases hname : name = key
        · rw [if_pos hname, if_pos hname]
        · rw [if_neg hname, if_neg hname, if_neg hname]
      · rw [if_pos (by simpa using hkey), lookup_user, ih]
        by_cases hname : name = key
        · rw [if_pos hname, if_pos hname, if_neg (hname ▸ hkey)]
        · rw [if_neg hname, if_neg hname]

theorem forall_setUsers {P : Nat → Prop} {count : Nat} (hcount : P count) (h : ∀ user ∈ users, P user.2) :
    ∀ user ∈ setUsers channel count users, P user.2 := by
  intro user huser
  obtain ⟨old, hold, rfl⟩ := List.mem_map.mp huser
  dsimp only
  split
  · exact hcount
  · exact h old hold

theorem forall_enter (h : ∀ user ∈ users, 0 < user.2) : ∀ user ∈ (enter channel users).1, 0 < user.2 := by
  unfold enter
  split
  · exact forall_setUsers (Nat.succ_pos _) h
  · intro user huser
    rcases List.mem_append.mp huser with huser | huser
    · exact h user huser
    · rw [List.mem_singleton.mp huser]
      exact Nat.one_pos

theorem forall_leave (h : ∀ user ∈ users, 0 < user.2) : ∀ user ∈ (leave channel users).1, 0 < user.2 := by
  unfold leave
  split
  · split
    · rename_i hmore
      exact forall_setUsers (Nat.sub_pos_of_lt hmore) h
    · exact fun user huser => h user (List.mem_filter.mp huser).1
  · exact h

/-- Entering a channel opens it when it had no user. -/
theorem opens_enter : (enter channel users).2 = (users.lookup channel).isNone := by
  unfold enter
  cases users.lookup channel <;> rfl

theorem lookup_enter : (enter channel users).1.lookup name =
    if name = channel then some ((users.lookup channel).getD 0 + 1) else users.lookup name := by
  unfold enter
  cases hlookup : users.lookup channel with
  | none => exact lookup_append_user 1 hlookup
  | some count =>
      dsimp only
      rw [lookup_setUsers, hlookup]
      rfl

/-- Leaving a channel closes it when nobody else uses it. -/
theorem closes_leave {count : Nat} (hcount : users.lookup channel = some count) :
    (leave channel users).2 = decide (count ≤ 1) := by
  unfold leave
  rw [hcount]
  by_cases hmore : 1 < count <;> simp [hmore, Nat.not_le.mpr, Nat.not_lt.mp]

theorem lookup_leave {count : Nat} (hcount : users.lookup channel = some count) :
    (leave channel users).1.lookup name =
      if name = channel then (if count ≤ 1 then none else some (count - 1)) else users.lookup name := by
  unfold leave
  rw [hcount]
  dsimp only
  by_cases hmore : 1 < count
  · rw [if_pos hmore, if_neg (Nat.not_le.mpr hmore), lookup_setUsers, hcount]
    rfl
  · rw [if_neg hmore, if_pos (Nat.not_lt.mp hmore), lookup_filter_user]

end

/-! ### Listeners -/

variable {router : Router} {id : EventId}

def filters (router : Router) : List EventId := router.listeners.map (·.filter)

/-- The listeners as counts under the texts of their identifiers. -/
def tallies (listeners : List Listener) : List (String × Nat) :=
  listeners.map fun listener => (listener.filter.text, listener.count)

theorem lookup_tallies (router : Router) (id : EventId) :
    (tallies router.listeners).lookup id.text = (router.find? id).map (·.count) := by
  unfold find?
  induction router.listeners with
  | nil => rfl
  | cons listener listeners ih =>
      have hcons : tallies (listener :: listeners) =
          (listener.filter.text, listener.count) :: tallies listeners := rfl
      rw [hcons, lookup_user, List.find?_cons]
      by_cases htext : listener.filter.text = id.text
      · rw [if_pos htext.symm, beq_iff_eq.mpr htext]
        rfl
      · rw [if_neg (Ne.symm htext), beq_eq_false_iff_ne.mpr htext, ih]

theorem count_eq (router : Router) (id : EventId) :
    router.count id = ((tallies router.listeners).lookup id.text).getD 0 := by
  rw [count, lookup_tallies]

theorem tallies_setCount (count : Nat) (listeners : List Listener) :
    tallies (setCount id count listeners) = setUsers id.text count (tallies listeners) := by
  simp only [tallies, setCount, setUsers, List.map_map]
  refine List.map_congr_left fun listener _ => ?_
  by_cases htext : listener.filter.text = id.text <;> simp [htext]

theorem tallies_filter (listeners : List Listener) :
    tallies (listeners.filter (·.filter.text != id.text)) = (tallies listeners).filter (·.1 != id.text) := by
  simp only [tallies, List.filter_map]
  rfl

theorem filters_setCount (count : Nat) (listeners : List Listener) :
    (setCount id count listeners).map (·.filter) = listeners.map (·.filter) := by
  simp only [setCount, List.map_map]
  refine List.map_congr_left fun listener _ => ?_
  by_cases htext : listener.filter.text = id.text <;> simp [htext]

/-- A counter is there as long as it is positive. -/
def counter (users : Nat) : Option Nat := if users = 0 then none else some users

theorem getD_counter (users : Nat) : (counter users).getD 0 = users := by
  unfold counter
  split
  · rename_i hzero
    exact hzero.symm
  · rfl

/-- The counts of a router are these balances: each identifier has its listener as long as its balance is
positive, and each channel as many users as it has such identifiers. -/
structure Tallies (router : Router) (balance : EventId → Nat) : Prop where
  sound : ∀ id ∈ router.filters, id.Sound
  distinct : router.filters.Nodup
  positive : ∀ listener ∈ router.listeners, 0 < listener.count
  count : ∀ {id : EventId}, id.Sound → router.count id = balance id
  inUse : ∀ user ∈ router.users, 0 < user.2
  users : ∀ channel, router.users.lookup channel = counter (router.filters.countP (·.channel == channel))

namespace Tallies

variable {balance : EventId → Nat} (h : Tallies router balance)

include h

theorem find?_isSome (hid : id.Sound) : (router.find? id).isSome ↔ id ∈ router.filters := by
  unfold find? filters
  rw [List.find?_isSome, List.mem_map]
  constructor
  · rintro ⟨listener, hmem, htext⟩
    have hsound := h.sound _ (List.mem_map_of_mem hmem)
    exact ⟨listener, hmem, hsound.text_injective hid (beq_iff_eq.mp htext)⟩
  · rintro ⟨listener, hmem, rfl⟩
    exact ⟨listener, hmem, beq_self_eq_true _⟩

/-- The identifiers with a positive balance are those of the listeners. -/
theorem mem_filters_iff (hid : id.Sound) : id ∈ router.filters ↔ 0 < balance id := by
  rw [← h.find?_isSome hid, ← h.count hid, Router.count]
  cases hfind : router.find? id with
  | none => exact iff_of_false Bool.false_ne_true (Nat.lt_irrefl 0)
  | some listener => exact iff_of_true rfl (h.positive _ (List.mem_of_find?_eq_some hfind))

theorem find?_eq_none (hid : id.Sound) (hfind : router.find? id = none) : id ∉ router.filters := by
  rw [← h.find?_isSome hid, hfind]
  exact Bool.false_ne_true

/-- Another count for a listener that is there; who listens stays as it was. -/
theorem recount (hid : id.Sound) (hmem : id ∈ router.filters) {count : Nat} (hpositive : 0 < count) :
    Tallies { router with listeners := setCount id count router.listeners }
      (Function.update balance id count) := by
  have hfilters : Router.filters { router with listeners := setCount id count router.listeners } = router.filters :=
    filters_setCount count router.listeners
  refine ⟨hfilters ▸ h.sound, hfilters ▸ h.distinct, ?_, ?_, h.inUse, hfilters ▸ h.users⟩
  · intro listener hlistener
    obtain ⟨old, hold, rfl⟩ := List.mem_map.mp hlistener
    split
    · exact hpositive
    · exact h.positive old hold
  · intro other hother
    rw [count_eq, tallies_setCount, lookup_setUsers]
    obtain ⟨listener, hlistener⟩ := Option.isSome_iff_exists.mp ((h.find?_isSome hid).mpr hmem)
    by_cases heq : other = id
    · subst heq
      rw [if_pos rfl, lookup_tallies, hlistener, Function.update_self]
      rfl
    · rw [if_neg fun htext => heq (hother.text_injective hid htext), ← count_eq, h.count hother,
        Function.update_of_ne heq]

theorem subscribe (hid : id.Sound) :
    Tallies (router.subscribe id).1 (Function.update balance id (balance id + 1)) := by
  unfold Router.subscribe
  cases hfind : router.find? id with
  | some listener =>
      have hcount : listener.count = balance id := by
        rw [← h.count hid, Router.count, hfind]
        rfl
      rw [← hcount]
      exact h.recount hid ((h.find?_isSome hid).mp (by rw [hfind]; rfl)) (Nat.succ_pos _)
  | none =>
      have hnew := h.find?_eq_none hid hfind
      have hzero : balance id = 0 := by
        rw [← h.count hid, Router.count, hfind]
        rfl
      have hfilters : ∀ users, Router.filters ⟨router.listeners ++ [⟨id, 1⟩], users⟩ = router.filters ++ [id] :=
        fun users => List.map_append
      dsimp only
      refine ⟨?_, ?_, ?_, ?_, ?_, ?_⟩
      · rw [hfilters]
        intro other hother
        rcases List.mem_append.mp hother with hother | hother
        · exact h.sound other hother
        · rw [List.mem_singleton.mp hother]
          exact hid
      · rw [hfilters, List.nodup_append]
        refine ⟨h.distinct, List.pairwise_singleton _ id, ?_⟩
        rintro other hother _ hself rfl
        exact hnew (List.mem_singleton.mp hself ▸ hother)
      · intro listener hlistener
        rcases List.mem_append.mp hlistener with hlistener | hlistener
        · exact h.positive listener hlistener
        · rw [List.mem_singleton.mp hlistener]
          exact Nat.one_pos
      · intro other hother
        have htallies : tallies (router.listeners ++ [⟨id, 1⟩]) =
            tallies router.listeners ++ [(id.text, 1)] := List.map_append
        have hnone : (tallies router.listeners).lookup id.text = none := by rw [lookup_tallies, hfind]; rfl
        rw [count_eq, htallies, lookup_append_user 1 hnone, hzero]
        by_cases heq : other = id
        · subst heq
          rw [if_pos rfl, Function.update_self]
          rfl
        · rw [if_neg fun htext => heq (hother.text_injective hid htext), ← count_eq, h.count hother,
            Function.update_of_ne heq]
      · exact forall_enter h.inUse
      · intro channel
        rw [hfilters, List.countP_append, List.countP_singleton, lookup_enter, h.users, h.users, getD_counter]
        by_cases hchannel : channel = id.channel
        · subst hchannel
          rw [if_pos rfl, if_pos (beq_self_eq_true _)]
          rfl
        · rw [if_neg hchannel, if_neg (by simpa using Ne.symm hchannel), Nat.add_zero]

theorem unsubscribe (hid : id.Sound) :
    Tallies (router.unsubscribe id).1 (Function.update balance id (balance id - 1)) := by
  unfold Router.unsubscribe
  cases hfind : router.find? id with
  | none =>
      have hzero : balance id = 0 := by
        rw [← h.count hid, Router.count, hfind]
        rfl
      have hsame : Function.update balance id (balance id - 1) = balance := by
        rw [Function.update_eq_self_iff, hzero]
      rw [hsame]
      exact h
  | some listener =>
      have hmem : id ∈ router.filters := (h.find?_isSome hid).mp (by rw [hfind]; rfl)
      have hcount : listener.count = balance id := by
        rw [← h.count hid, Router.count, hfind]
        rfl
      dsimp only
      by_cases hmore : 1 < listener.count
      · rw [if_pos hmore, ← hcount]
        exact h.recount hid hmem (Nat.sub_pos_of_lt hmore)
      · rw [if_neg hmore]
        have hone : balance id = 1 := by
          have hpositive := (h.mem_filters_iff hid).mp hmem
          omega
        -- the last subscription takes its listener along
        have hkept : ∀ listener ∈ router.listeners, (listener.filter.text != id.text) = (listener.filter != id) := by
          intro listener hlistener
          have hsound := h.sound _ (List.mem_map_of_mem hlistener)
          rw [Bool.eq_iff_iff, bne_iff_ne, bne_iff_ne, ne_eq, ne_eq, not_iff_not]
          exact ⟨hsound.text_injective hid, congrArg _⟩
        have hfilters : ∀ users, Router.filters ⟨router.listeners.filter (·.filter.text != id.text), users⟩ =
            router.filters.erase id := by
          intro users
          rw [List.Nodup.erase_eq_filter h.distinct, filters, filters, List.filter_map,
            List.filter_congr hkept]
          rfl
        refine ⟨?_, ?_, ?_, ?_, ?_, ?_⟩
        · rw [hfilters]
          exact fun other hother => h.sound other (List.mem_of_mem_erase hother)
        · rw [hfilters]
          exact h.distinct.erase id
        · exact fun listener hlistener => h.positive listener (List.mem_filter.mp hlistener).1
        · intro other hother
          rw [count_eq, tallies_filter, lookup_filter_user, hone]
          by_cases heq : other = id
          · subst heq
            rw [if_pos rfl, Function.update_self]
            rfl
          · rw [if_neg fun htext => heq (hother.text_injective hid htext), ← count_eq, h.count hother,
              Function.update_of_ne heq]
        · exact forall_leave h.inUse
        · intro channel
          have herase : ∀ channel, router.filters.countP (·.channel == channel) =
              (router.filters.erase id).countP (·.channel == channel) +
                if id.channel == channel then 1 else 0 := fun channel => by
            rw [(List.perm_cons_erase hmem).countP_eq, List.countP_cons]
          have hold : router.users.lookup id.channel =
              some ((router.filters.erase id).countP (·.channel == id.channel) + 1) := by
            rw [h.users, herase, if_pos (beq_self_eq_true _), counter, if_neg (Nat.succ_ne_zero _)]
          rw [hfilters, lookup_leave hold]
          by_cases hchannel : channel = id.channel
          · subst hchannel
            rw [if_pos rfl, counter, Nat.add_sub_cancel]
            exact if_congr (by omega) rfl rfl
          · rw [if_neg hchannel, h.users, herase, if_neg (by simpa using Ne.symm hchannel), Nat.add_zero]

end Tallies

/-! ### Open channels -/

theorem isOpen_subscribe (router : Router) (id : EventId) (channel : String) :
    (router.subscribe id).1.isOpen channel = (router.isOpen channel || (router.subscribe id).2 == some channel) ∧
      ((router.subscribe id).2 = some channel → router.isOpen channel = false) := by
  unfold subscribe isOpen
  cases router.find? id with
  | some listener => exact ⟨(Bool.or_false _).symm, fun h => by cases h⟩
  | none =>
      dsimp only
      rw [opens_enter, lookup_enter]
      by_cases hchannel : channel = id.channel
      · subst hchannel
        cases router.users.lookup id.channel <;> simp
      · rw [if_neg hchannel]
        cases router.users.lookup id.channel <;> simp [Ne.symm hchannel]

theorem isOpen_unsubscribe (router : Router) (id : EventId) (channel : String) :
    (router.unsubscribe id).1.isOpen channel =
        (router.isOpen channel && (router.unsubscribe id).2 != some channel) ∧
      ((router.unsubscribe id).2 = some channel → router.isOpen channel = true) := by
  unfold unsubscribe isOpen
  cases router.find? id with
  | none => exact ⟨(Bool.and_true _).symm, fun h => by cases h⟩
  | some listener =>
      dsimp only
      by_cases hmore : 1 < listener.count
      · rw [if_pos hmore]
        exact ⟨(Bool.and_true _).symm, fun h => by cases h⟩
      · rw [if_neg hmore]
        cases hlookup : router.users.lookup id.channel with
        | none => simp [leave, hlookup]
        | some count =>
            dsimp only
            rw [closes_leave hlookup, lookup_leave hlookup]
            by_cases hchannel : channel = id.channel
            · subst hchannel
              by_cases hlast : count ≤ 1 <;> simp [hlast, hlookup]
            · by_cases hlast : count ≤ 1 <;> simp [hlast, hchannel, Ne.symm hchannel]

/-- A subscription that opens a channel closes it when it is taken back. -/
theorem unsubscribe_subscribe {channel : String} (h : (router.subscribe id).2 = some channel) :
    ((router.subscribe id).1.unsubscribe id).2 = some channel := by
  unfold subscribe at h ⊢
  cases hfind : router.find? id with
  | some listener =>
      rw [hfind] at h
      cases h
  | none =>
      rw [hfind] at h
      dsimp only at h ⊢
      rw [opens_enter] at h
      cases hlookup : router.users.lookup id.channel with
      | some count => simp [hlookup] at h
      | none =>
          have hfound : find? ⟨router.listeners ++ [⟨id, 1⟩], (enter id.channel router.users).1⟩ id =
              some ⟨id, 1⟩ := by
            have hnone : router.listeners.find? (·.filter.text == id.text) = none := hfind
            simp [find?, hnone]
          have hone : (enter id.channel router.users).1.lookup id.channel = some 1 := by
            rw [lookup_enter, if_pos rfl, hlookup]
            rfl
          unfold unsubscribe
          rw [hfound]
          dsimp only
          rw [if_neg (Nat.lt_irrefl 1), closes_leave hone]
          simpa [hlookup] using h

theorem isOpen_unsubscribe_subscribe {channel : String} (h : (router.subscribe id).2 = some channel)
    (other : String) : ((router.subscribe id).1.unsubscribe id).1.isOpen other = router.isOpen other := by
  rw [(isOpen_unsubscribe _ id other).1, (isOpen_subscribe router id other).1, unsubscribe_subscribe h, h]
  by_cases hother : channel = other
  · subst hother
    rw [(isOpen_subscribe router id channel).2 h]
    simp
  · rw [beq_eq_false_iff_ne.mpr (by simpa using hother), Bool.or_false,
      bne_iff_ne.mpr (by simpa using hother), Bool.and_true]

/-! ### Moves -/

/-- What a caller asks of a router, with the identifier as it is written. -/
inductive Move where
  | subscribe (text : String)
  | unsubscribe (text : String)

/-- A channel that storage is asked to open or to close. -/
structure Signal where
  channel : String
  opens : Bool

/-- Makes a move; a malformed identifier is refused, which changes nothing. -/
def make (router : Router) : Move → Router × Option Signal
  | .subscribe text =>
    match EventId.ofText? text with
    | .ok id => ((router.subscribe id).1, (router.subscribe id).2.map (⟨·, true⟩))
    | .error _ => (router, none)
  | .unsubscribe text =>
    match EventId.ofText? text with
    | .ok id => ((router.unsubscribe id).1, (router.unsubscribe id).2.map (⟨·, false⟩))
    | .error _ => (router, none)

def after (router : Router) (moves : List Move) : Router :=
  moves.foldl (fun router move => (router.make move).1) router

def signals : Router → List Move → List Signal
  | _, [] => []
  | router, move :: moves => (router.make move).2.toList ++ (router.make move).1.signals moves

/-- What storage is asked for one channel, in order: to open it, or to close it. -/
def openings (channel : String) (moves : List Move) : List Bool :=
  ((empty.signals moves).filter (·.channel == channel)).map (·.opens)

/-- Whether the text is accepted as the identifier. -/
def spells (text : String) (id : EventId) : Bool := (EventId.ofText? text).toOption == some id

/-- One more for a subscription that spells the identifier, and one less, if there is one, for one taken back. -/
def Move.tally (id : EventId) (count : Nat) : Move → Nat
  | .subscribe text => if spells text id then count + 1 else count
  | .unsubscribe text => if spells text id then count - 1 else count

/-- How many subscriptions of the identifier the moves leave, however they spell it. -/
def balance (id : EventId) (moves : List Move) : Nat := moves.foldl (Move.tally id) 0

theorem spells_iff {text : String} : spells text id = true ↔ EventId.ofText? text = .ok id := by
  unfold spells
  cases EventId.ofText? text <;> simp [Except.toOption]

theorem sound_of_spells {text : String} (h : spells text id = true) : id.Sound :=
  EventId.sound_of_ofText? (spells_iff.mp h)

theorem after_concat (moves : List Move) (move : Move) :
    router.after (moves ++ [move]) = ((router.after moves).make move).1 := List.foldl_concat ..

theorem signals_concat (moves : List Move) (move : Move) :
    router.signals (moves ++ [move]) = router.signals moves ++ ((router.after moves).make move).2.toList := by
  induction moves generalizing router with
  | nil => simp [signals, after]
  | cons first moves ih =>
      rw [List.cons_append, signals, signals, ih, List.append_assoc]
      rfl

theorem tallies_make {balance : EventId → Nat} (h : Tallies router balance) (move : Move) :
    Tallies (router.make move).1 fun id => move.tally id (balance id) := by
  -- a move counts for the one identifier that its text is accepted as
  have haccepted : ∀ {text : String} {id : EventId}, EventId.ofText? text = .ok id → ∀ count : Nat → Nat,
      Function.update balance id (count (balance id)) =
        fun other => if spells text other then count (balance other) else balance other := by
    intro text id hid count
    funext other
    by_cases hother : other = id
    · subst hother
      rw [if_pos (spells_iff.mpr hid), Function.update_self]
    · have hnot : ¬spells text other = true := fun hspells =>
        hother (Except.ok.inj ((spells_iff.mp hspells).symm.trans hid))
      rw [if_neg hnot, Function.update_of_ne hother]
  have hrefused : ∀ {text : String} {fault : EventFault}, EventId.ofText? text = .error fault →
      ∀ count : Nat → Nat,
        balance = fun other => if spells text other then count (balance other) else balance other := by
    intro text fault hfault count
    funext other
    exact (if_neg fun hspells => by cases (spells_iff.mp hspells).symm.trans hfault).symm
  cases move with
  | subscribe text =>
      simp only [make, Move.tally]
      cases hid : EventId.ofText? text with
      | error fault =>
          rw [hrefused hid (· + 1)] at h
          exact h
      | ok id =>
          have hnext := h.subscribe (EventId.sound_of_ofText? hid)
          rw [haccepted hid (· + 1)] at hnext
          exact hnext
  | unsubscribe text =>
      simp only [make, Move.tally]
      cases hid : EventId.ofText? text with
      | error fault =>
          rw [hrefused hid (· - 1)] at h
          exact h
      | ok id =>
          have hnext := h.unsubscribe (EventId.sound_of_ofText? hid)
          rw [haccepted hid (· - 1)] at hnext
          exact hnext

theorem tallies_after (moves : List Move) : Tallies (empty.after moves) (balance · moves) := by
  induction moves using List.reverseRecOn with
  | nil =>
      have hnone : ∀ {α : Type} {P : α → Prop}, ∀ a ∈ ([] : List α), P a := fun a ha => absurd ha List.not_mem_nil
      exact ⟨hnone, List.nodup_nil, hnone, fun _ => rfl, hnone, fun _ => rfl⟩
  | append_singleton moves move ih =>
      have hbalance : (balance · (moves ++ [move])) = fun id => move.tally id (balance id moves) :=
        funext fun id => List.foldl_concat ..
      rw [after_concat, hbalance]
      exact tallies_make ih move

/-- What a move asks of storage for one channel, if anything. -/
def turn (channel : String) (asked : Option Signal) : Option Bool :=
  (asked.filter (·.channel == channel)).map (·.opens)

theorem turn_map (channel : String) (asked : Option String) (opens : Bool) :
    turn channel (asked.map (⟨·, opens⟩)) = if asked == some channel then some opens else none := by
  cases asked with
  | none => rfl
  | some asked => by_cases h : asked = channel <;> simp [turn, h]

/-- A move asks for a channel only to turn it: a closed one to be opened, and an open one to be closed. -/
theorem turn_make (router : Router) (move : Move) (channel : String) :
    (turn channel (router.make move).2 = none ∧
        (router.make move).1.isOpen channel = router.isOpen channel) ∨
      (turn channel (router.make move).2 = some (!router.isOpen channel) ∧
        (router.make move).1.isOpen channel = !router.isOpen channel) := by
  cases move with
  | subscribe text =>
      simp only [make]
      cases EventId.ofText? text with
      | error fault => exact .inl ⟨rfl, rfl⟩
      | ok id =>
          obtain ⟨hopen, hclosed⟩ := isOpen_subscribe router id channel
          dsimp only
          rw [turn_map, hopen]
          cases hasked : (router.subscribe id).2 == some channel with
          | false => exact .inl ⟨rfl, Bool.or_false _⟩
          | true =>
              rw [hclosed (beq_iff_eq.mp hasked)]
              exact .inr ⟨rfl, rfl⟩
  | unsubscribe text =>
      simp only [make]
      cases EventId.ofText? text with
      | error fault => exact .inl ⟨rfl, rfl⟩
      | ok id =>
          obtain ⟨hopen, hclosed⟩ := isOpen_unsubscribe router id channel
          dsimp only
          rw [turn_map, hopen, bne]
          cases hasked : (router.unsubscribe id).2 == some channel with
          | false => exact .inl ⟨rfl, Bool.and_true _⟩
          | true =>
              rw [hclosed (beq_iff_eq.mp hasked)]
              exact .inr ⟨rfl, rfl⟩

theorem openings_concat (channel : String) (moves : List Move) (move : Move) :
    openings channel (moves ++ [move]) =
      openings channel moves ++ (turn channel ((empty.after moves).make move).2).toList := by
  unfold openings
  rw [signals_concat, List.filter_append, List.map_append]
  congr 1
  cases ((empty.after moves).make move).2 with
  | none => rfl
  | some signal => by_cases h : signal.channel = channel <;> simp [turn, Option.filter, h]

/-- The channel is opened and closed in turn, and it is open after every other request. -/
theorem openings_eq (channel : String) (moves : List Move) :
    openings channel moves = (List.range (openings channel moves).length).map (· % 2 == 0) ∧
      (empty.after moves).isOpen channel = ((openings channel moves).length % 2 == 1) := by
  induction moves using List.reverseRecOn with
  | nil => exact ⟨rfl, rfl⟩
  | append_singleton moves move ih =>
      obtain ⟨hturns, hopen⟩ := ih
      rw [openings_concat, after_concat]
      rcases turn_make (empty.after moves) move channel with ⟨hquiet, hkept⟩ | ⟨hasked, hturned⟩
      · rw [hquiet, hkept, Option.toList_none, List.append_nil]
        exact ⟨hturns, hopen⟩
      · rw [hasked, hturned, Option.toList_some, List.length_append, List.length_singleton, List.range_succ,
          List.map_append, ← hturns, hopen]
        have hparity := Nat.mod_two_eq_zero_or_one (openings channel moves).length
        constructor
        · congr 1
          rcases hparity with h | h <;> simp [h]
        · rcases hparity with h | h <;> simp [h, Nat.add_mod]

theorem mem_channels_iff {channel : String} : channel ∈ router.channels ↔ router.isOpen channel = true := by
  rw [channels, List.mem_mergeSort, isOpen, Option.isSome_iff_ne_none, ne_eq, List.lookup_eq_none_iff, List.mem_map]
  constructor
  · rintro ⟨user, huser, rfl⟩ hnone
    exact absurd (hnone user huser) (by simp)
  · intro hsome
    by_contra hnot
    refine hsome fun user huser => bne_iff_ne.mpr ?_
    rintro rfl
    exact hnot ⟨user, huser, rfl⟩

/-- Only identifiers that a text spells have a balance. -/
theorem sound_of_balance {moves : List Move} (h : 0 < balance id moves) : id.Sound := by
  by_contra hnot
  have hkept : ∀ (move : Move) count, move.tally id count = count := by
    intro move count
    cases move <;> exact if_neg fun hspells => hnot (sound_of_spells hspells)
  have hzero : balance id moves = 0 := List.foldlRecOn (motive := (· = 0)) moves _ rfl
    fun count hcount move _ => (hkept move count).trans hcount
  exact absurd h (hzero ▸ Nat.lt_irrefl 0)

/-- **Routers keep the balance of the moves made.** After any moves, an identifier counts as many subscriptions
as its balance, whatever the spelling; a channel is listed while an identifier of its own has some, and counts
such identifiers; what storage is asked for one channel is to open it and to close it in turn; and each counter
that the next move can take from is positive. -/
theorem balanced (moves : List Move) :
    let router := empty.after moves
    (∀ text id, EventId.ofText? text = .ok id → router.count id = balance id moves) ∧
      (∀ channel,
        (channel ∈ router.channels ↔ ∃ id : EventId, id.channel = channel ∧ 0 < balance id moves) ∧
        (∃ ids : List EventId, ids.Nodup ∧
          (∀ id, id ∈ ids ↔ id.channel = channel ∧ 0 < balance id moves) ∧
          (router.users.lookup channel).getD 0 = ids.length) ∧
        ∀ index opens, (openings channel moves)[index]? = some opens → opens = (index % 2 == 0)) ∧
      ∀ listener ∈ router.listeners,
        0 < listener.count ∧ 0 < (router.users.lookup listener.filter.channel).getD 0 := by
  intro router
  have h : Tallies router (balance · moves) := tallies_after moves
  have hmem : ∀ {channel : String} {id : EventId},
      id ∈ router.filters.filter (·.channel == channel) ↔ id.channel = channel ∧ 0 < balance id moves := by
    intro channel id
    rw [List.mem_filter, beq_iff_eq, and_comm, and_congr_right_iff]
    intro _
    constructor
    · exact fun hlistens => (h.mem_filters_iff (h.sound id hlistens)).mp hlistens
    · exact fun hpositive => (h.mem_filters_iff (sound_of_balance hpositive)).mpr hpositive
  have husers : ∀ channel, (router.users.lookup channel).getD 0 =
      (router.filters.filter (·.channel == channel)).length := by
    intro channel
    rw [h.users, getD_counter, List.countP_eq_length_filter]
  refine ⟨fun text id hid => h.count (EventId.sound_of_ofText? hid), fun channel => ⟨?_, ?_, ?_⟩, ?_⟩
  · have hlisted : router.isOpen channel = true ↔ 0 < (router.users.lookup channel).getD 0 := by
      rw [isOpen, h.users, getD_counter, counter, Nat.pos_iff_ne_zero]
      split <;> simp [*]
    rw [mem_channels_iff, hlisted, husers, List.length_pos_iff_exists_mem]
    exact exists_congr fun id => hmem
  · exact ⟨_, h.distinct.filter _, fun id => hmem, husers channel⟩
  · intro index opens hasked
    rw [(openings_eq channel moves).1, List.getElem?_map] at hasked
    obtain ⟨number, hnumber, rfl⟩ := Option.map_eq_some_iff.mp hasked
    rw [List.getElem?_eq_some_iff] at hnumber
    obtain ⟨hindex, rfl⟩ := hnumber
    rw [List.getElem_range]
  · intro listener hlistener
    refine ⟨h.positive listener hlistener, ?_⟩
    rw [husers]
    exact List.length_pos_of_mem (List.mem_filter.mpr ⟨List.mem_map_of_mem hlistener, beq_self_eq_true _⟩)

/-- Two spellings of one type are one identifier, and another case of its letters shares the channel. -/
theorem balanced_spellings :
    let moves : List Move := [.subscribe "User", .subscribe " User# ", .subscribe "user", .unsubscribe "User#",
      .unsubscribe "User", .unsubscribe "User", .subscribe "no name"]
    let router := empty.after moves
    EventId.ofText? "User" = .ok ⟨some "User", none, none⟩ ∧ router.count ⟨some "User", none, none⟩ = 0 ∧
      "tcnuser" ∈ router.channels ∧ openings "tcnuser" moves = [true] ∧
      ∀ listener ∈ router.listeners, 0 < listener.count := by
  intro moves router
  obtain ⟨hcount, hchannel, hpositive⟩ := balanced moves
  refine ⟨rfl, (hcount "User" _ rfl).trans rfl, ?_, rfl, fun listener h => (hpositive listener h).1⟩
  exact (hchannel "tcnuser").1.mpr ⟨⟨some "user", none, none⟩, rfl, Nat.one_pos⟩

end Router

end Dossier
