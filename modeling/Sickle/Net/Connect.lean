/-
  Sickle.Net.Connect — attempts to connect, and their timeouts (`net/connector.rs`).

  A connector registers its stream edge-triggered and oneshot, with `handle_event`, and
  may set a timeout on the loop's timer first. Both are called by the loop's thread: it
  handles the events that `select` reported, then polls its timer. Any number of
  connectors share the timer with the timeouts of others.

  The handle of a timeout may cancel another's once its own is gone
  (`Sickle.Timers.Handles`), and a connector keeps its handle, as others may keep theirs.
  `handle_event` cancels through the current loop of the thread, which may be unset or
  another loop. `Careful` is what the callers do: they connect again only after the last
  attempt has ended, and with a timeout if a handle is left from before; and no event of a
  connector with a timeout is handled under another loop.
  - `ConnectInv`: a connector that waits has its stream, and its timeout unless others
    cancelled it; one that does not wait has no timeout pending.
  - `connects_end_once`: the attempts of a connector end one by one: its job is called
    with the attempt's stream, or an event says that it failed, or it times out.
  - `handlers_come_out`: no unwrap of the two handlers fails; `handle_event` comes out
    exactly when the connector has no timeout or the thread has a current loop, and
    cancels the attempt's own timeout as long as no call of others has cancelled a
    connector's; the timeout's callback cancels nothing.
-/

import Mathlib.Data.List.Forall2
import Sickle.Event
import Sickle.Timers.Arith
import Sickle.Timers.OnTime

namespace Sickle.Net

open Function (update)
open Sickle.Lib Sickle.Timers

/-- What the loop's timer calls. -/
inductive TimerJob (κ : Type) where
  /-- The closure of `connect`. -/
  | connect (i : κ)
  | other
  deriving DecidableEq

inductive ConnectFault where
  | stream
  | timer
  | registration
  /-- `get_current_loop` on a thread that has none. -/
  | noLoop
  | wheel (f : Timers.Fault)

/-- `CURRENT_LOOP` of the loop's thread. -/
inductive CurrentLoop where
  | unset
  /-- The loop that the thread runs. -/
  | own
  | other
  deriving DecidableEq

structure Connector (S : Type) where
  timer : Option Timeout
  tcpStream : Option S

variable {κ S : Type}

/-! ## The handlers -/

/-- `EventLoop::clear_timeout`, with what it cancels. -/
def clearTimeout (timer : Timer (TimerJob κ)) (timeout : Timeout) :
    Except ConnectFault (Timer (TimerJob κ) × Option (TimerJob κ)) :=
  (timer.cancelTimeout timeout).mapError .wheel

namespace Connector

def new : Connector S := ⟨none, none⟩

/-- The stream that `on_conn_job` is called with. -/
def handleOnConnect (c : Connector S) : Except ConnectFault (Connector S × S) :=
  match c.tcpStream with
  | some stream => .ok ({ c with tcpStream := none }, stream)
  | none => .error .stream

/-- The attempt's timeout, if it has one, is cleared in the current loop. In another loop
    that leaves this one's timer alone. -/
def clearTimer (c : Connector S) (timer : Timer (TimerJob κ)) (current : CurrentLoop) :
    Except ConnectFault (Timer (TimerJob κ) × Option (TimerJob κ)) :=
  match c.timer, current with
  | none, _ => .ok (timer, none)
  | some _, .unset => .error .noLoop
  | some timeout, .own => clearTimeout timer timeout
  | some _, .other => .ok (timer, none)

/-- `handle_event`, with what it cancels of this loop's timer and the stream it hands on.
    The stream is unwrapped for the log. -/
def handleEvent (c : Connector S) (timer : Timer (TimerJob κ)) (current : CurrentLoop) (ready : Ready) :
    Except ConnectFault (Connector S × Timer (TimerJob κ) × Option (TimerJob κ) × Option S) := do
  match c.tcpStream with
  | none => .error .stream
  | some _ =>
    let (timer, cleared) ← c.clearTimer timer current
    if ready.isWritable then
      let (c, stream) ← c.handleOnConnect
      .ok (c, timer, cleared, some stream)
    else .ok (c, timer, cleared, none)

/-- The callback of the timeout, with what it cancels and what is left of the stream's
    registration. -/
def onTimeout (c : Connector S) (timer : Timer (TimerJob κ)) (registered : Option Bool) :
    Except ConnectFault (Timer (TimerJob κ) × Option (TimerJob κ) × Option Bool) := do
  match c.timer with
  | none => .error .timer
  | some timeout =>
    let (timer, cleared) ← clearTimeout timer timeout
    match c.tcpStream, registered with
    | none, _ => .error .stream
    | some _, none => .error .registration
    | some _, some _ => .ok (timer, cleared, none)

end Connector

/-! ## The loop -/

/-- Where `run_once` is: `sockets` are the events still to be handled. -/
inductive Turn (κ : Type) where
  | selecting
  | sockets (events : List (κ × Ready))
  | nodes

def Turn.events (t : Turn κ) : List (κ × Ready) :=
  match t with
  | .sockets events => events
  | _ => []

/-- `registered`: whether the connector's stream is registered, and still armed. -/
structure Connecting (κ S : Type) where
  connector : κ → Connector S
  registered : κ → Option Bool
  timer : Timer (TimerJob κ)
  turn : Turn κ
  current : CurrentLoop

inductive ConnectEv (κ S : Type) where
  | connect (i : κ) (stream : S) (timer : Option Timeout)
  | select (events : List (κ × Ready))
  | event (i : κ) (cleared : Option (TimerJob κ)) (stream : Option S)
  | process
  | timeOut (i : κ) (cleared : Option (TimerJob κ))
  | timers (c : TimerCall (TimerJob κ))
  | setCurrentLoop (current : CurrentLoop)
  | again

variable [DecidableEq κ]

namespace Connecting

/-- The connector has a stream that is armed, or whose event is still to be handled. -/
def waits (s : Connecting κ S) (i : κ) : Bool := s.registered i == some true || (s.turn.events.map Prod.fst).contains i

/-- `tcp_stream`, `timer` and the registration, as `connect` writes them. -/
def connect (s : Connecting κ S) (i : κ) (stream : S) (timer : Option Timeout) : Connecting κ S :=
  { s with connector := update s.connector i ⟨timer, some stream⟩, registered := update s.registered i (some true) }

/-- `select` reports these registrations, and disarms them. -/
def report (s : Connecting κ S) (events : List (κ × Ready)) : Connecting κ S :=
  { s with registered := fun i => if i ∈ events.map Prod.fst then some false else s.registered i, turn := .sockets events }

def handled (s : Connecting κ S) (i : κ) (c : Connector S) (t : Timer (TimerJob κ)) (rest : List (κ × Ready)) : Connecting κ S :=
  { s with connector := update s.connector i c, timer := t, turn := .sockets rest }

def expired (s : Connecting κ S) (i : κ) (t : Timer (TimerJob κ)) (r : Option Bool) : Connecting κ S :=
  { s with timer := t, registered := update s.registered i r }

end Connecting

/-- A call of others: they set timeouts of their own, and cancel with any handle. -/
def Foreign (c : TimerCall (TimerJob κ)) : Prop :=
  match c with
  | .setTimeout _ _ state _ => state = .other
  | .cancelTimeout _ _ => True
  | .poll _ _ => False

inductive ConnectingStep : Connecting κ S → ConnectEv κ S → Connecting κ S → Prop
  /-- `connect` without a timeout leaves the `timer` that it finds. -/
  | connect (s : Connecting κ S) (i : κ) (stream : S) :
      ConnectingStep s (.connect i stream none) (s.connect i stream (s.connector i).timer)
  | connectTimeout (s : Connecting κ S) (i : κ) (stream : S) (elapsed delay : Duration) (h : Timeout) (t : Timer (TimerJob κ)) :
      TimerStep s.timer (.setTimeout elapsed delay (.connect i) h) t →
      ConnectingStep s (.connect i stream (some h)) { s.connect i stream (some h) with timer := t }
  | select (s : Connecting κ S) (events : List (κ × Ready)) : s.turn = .selecting → (events.map Prod.fst).Nodup →
      (∀ x ∈ events, s.registered x.1 = some true) → ConnectingStep s (.select events) (s.report events)
  | event (s : Connecting κ S) (i : κ) (ready : Ready) (rest : List (κ × Ready)) (c : Connector S) (t : Timer (TimerJob κ))
      (cleared : Option (TimerJob κ)) (stream : Option S) : s.turn = .sockets ((i, ready) :: rest) →
      (s.connector i).handleEvent s.timer s.current ready = .ok (c, t, cleared, stream) →
      ConnectingStep s (.event i cleared stream) (s.handled i c t rest)
  | process (s : Connecting κ S) : s.turn = .sockets [] → ConnectingStep s .process { s with turn := .nodes }
  | timeOut (s : Connecting κ S) (i : κ) (elapsed : Duration) (key : Token) (e : Entry (TimerJob κ)) (t t' : Timer (TimerJob κ))
      (cleared : Option (TimerJob κ)) (r : Option Bool) : s.turn = .nodes →
      TimerStep s.timer (.poll elapsed (some (key, e))) t → e.state = .connect i →
      (s.connector i).onTimeout t (s.registered i) = .ok (t', cleared, r) →
      ConnectingStep s (.timeOut i cleared) (s.expired i t' r)
  | poll (s : Connecting κ S) (elapsed : Duration) (out : Option (Token × Entry (TimerJob κ))) (t : Timer (TimerJob κ)) :
      s.turn = .nodes → TimerStep s.timer (.poll elapsed out) t → (∀ key e, out = some (key, e) → e.state = .other) →
      ConnectingStep s (.timers (.poll elapsed out)) { s with timer := t }
  | timers (s : Connecting κ S) (c : TimerCall (TimerJob κ)) (t : Timer (TimerJob κ)) : TimerStep s.timer c t → Foreign c →
      ConnectingStep s (.timers c) { s with timer := t }
  | setCurrentLoop (s : Connecting κ S) (current : CurrentLoop) :
      ConnectingStep s (.setCurrentLoop current) { s with current := current }
  | again (s : Connecting κ S) : s.turn = .nodes → ConnectingStep s .again { s with turn := .selecting }

/-- Nobody connects yet, and the thread has some current loop or none. -/
def connecting (κ S : Type) [DecidableEq κ] : Lts (Connecting κ S) (ConnectEv κ S) :=
  ⟨fun s => s.connector = (fun _ => .new) ∧ s.registered = (fun _ => none) ∧ (timers (TimerJob κ)).init s.timer ∧
    s.turn = .selecting, ConnectingStep⟩

/-- One attempt at a time, no handle left from an earlier one, and no timeout to be cleared
    in another loop. -/
def Careful (s : Connecting κ S) (e : ConnectEv κ S) : Prop :=
  match e with
  | .connect i _ timer => s.waits i = false ∧ (timer = none → (s.connector i).timer = none)
  | .event i _ _ => s.current = .other → (s.connector i).timer = none
  | _ => True

/-- No call of others cancels a connector's timeout. -/
def Spares (e : ConnectEv κ S) : Prop := ∀ h i, e ≠ .timers (.cancelTimeout h (some (.connect i)))

def Spared (τ : List (ConnectEv κ S)) : Prop := ∀ e ∈ τ, Spares e

/-! ## Who waits -/

theorem waits_iff {s : Connecting κ S} {i : κ} :
    s.waits i = true ↔ s.registered i = some true ∨ i ∈ s.turn.events.map Prod.fst := by
  unfold Connecting.waits
  rw [Bool.or_eq_true, beq_iff_eq, List.contains_iff_mem]

/-- `b` is the board of the timer, and `spared` says that others have left the connectors'
    timeouts alone. -/
structure ConnectInv (spared : Prop) (s : Connecting κ S) (b : Board (TimerJob κ)) : Prop where
  rep : Rep s.timer b
  stream : ∀ i, s.waits i = true → (s.connector i).tcpStream ≠ none
  timer : spared → ∀ i h, s.waits i = true → (s.connector i).timer = some h → b.due h.token = some (h.tick, .connect i)
  due : ∀ k tick i, b.due k = some (tick, .connect i) → s.waits i = true ∧ (s.connector i).timer = some ⟨k, tick⟩
  disarmed : ∀ i ∈ s.turn.events.map Prod.fst, s.registered i = some false
  nodup : (s.turn.events.map Prod.fst).Nodup

/-! ## The handlers come out -/

section Wheel

omit [DecidableEq κ]

theorem clearTimeout_stale {t : Timer (TimerJob κ)} {b : Board (TimerJob κ)} (hr : Rep t b) {h : Timeout}
    (hd : ∀ job, b.due h.token ≠ some (h.tick, job)) : clearTimeout t h = .ok (t, none) := by
  rw [clearTimeout, cancelTimeout_stale fun e he ht => hd e.state (ht ▸ hr.due_of_entry he)]
  rfl

/-- A handle cancels what is under its key and tick, whosever it is. -/
theorem clearTimeout_board {t : Timer (TimerJob κ)} {b : Board (TimerJob κ)} (hr : Rep t b) (h : Timeout) :
    ∃ t' out b', clearTimeout t h = .ok (t', out) ∧ Rep t' b' ∧
      ((out = none ∧ b' = b ∧ ∀ job, b.due h.token ≠ some (h.tick, job)) ∨
        ∃ job, out = some job ∧ b' = b.remove h.token ∧ b.due h.token = some (h.tick, job)) := by
  by_cases hd : ∃ job, b.due h.token = some (h.tick, job)
  · obtain ⟨job, hd⟩ := hd
    obtain ⟨e, he, ht, hs⟩ := hr.entry_of_due hd
    obtain ⟨t', hc, hr', -⟩ := cancelTimeout_live hr he ht
    refine ⟨t', some job, _, ?_, hr', .inr ⟨job, rfl, rfl, hd⟩⟩
    rw [clearTimeout, hc, hs]
    rfl
  · have hd : ∀ job, b.due h.token ≠ some (h.tick, job) := fun job hk => hd ⟨job, hk⟩
    exact ⟨t, none, b, clearTimeout_stale hr hd, hr, .inl ⟨rfl, rfl, hd⟩⟩

/-- The connector's timeouts are gone, and no others came. -/
def Gone (i : κ) (b b' : Board (TimerJob κ)) : Prop := ∀ k d, b'.due k = some d → b.due k = some d ∧ d.2 ≠ .connect i

/-- The timeouts that are not the connector's are still there. -/
def Kept (i : κ) (b b' : Board (TimerJob κ)) : Prop := ∀ k d, b.due k = some d → d.2 ≠ .connect i → b'.due k = some d

theorem gone_remove {i : κ} {b : Board (TimerJob κ)} {h : Timeout}
    (hone : ∀ k tick, b.due k = some (tick, .connect i) → k = h.token) : Gone i b (b.remove h.token) := by
  intro k d hk
  obtain ⟨hne, hk⟩ := Board.due_of_remove hk
  refine ⟨hk, fun hi => hne (hone k d.1 ?_)⟩
  rw [hk, ← hi]

theorem kept_remove {i : κ} {b : Board (TimerJob κ)} {h : Timeout} (hd : b.due h.token = some (h.tick, .connect i)) :
    Kept i b (b.remove h.token) := by
  intro k d hk hi
  have hne : k ≠ h.token := by
    rintro rfl
    rw [hd] at hk
    cases hk
    exact hi rfl
  exact (Function.update_of_ne hne ..).trans hk

/-- A poll, on the board. -/
theorem poll_board {t t' : Timer (TimerJob κ)} {b : Board (TimerJob κ)} (hr : Rep t b) {elapsed : Duration}
    {out : Option (Token × Entry (TimerJob κ))} (hs : TimerStep t (.poll elapsed out) t') : ∃ b', Rep t' b' ∧
      ((out = none ∧ b'.due = b.due) ∨ ∃ key e, out = some (key, e) ∧ b.due key = some (e.links.tick, e.state) ∧
        b'.due = update b.due key none) := by
  cases hs with
  | poll _ fuel _ _ hp =>
    obtain ⟨target, -, hp⟩ := poll_ok.mp hp
    obtain ⟨b', hr', hm, -⟩ := move_of_call hr (.pollTo _ _ fuel target out hp)
    refine ⟨b', hr', ?_⟩
    cases hm with
    | poll _ _ _ hps =>
      rcases hps.due with ⟨hnone, hd⟩ | ⟨k, d, hsome, hk, hd⟩
      · exact .inl ⟨Option.map_eq_none_iff.mp hnone, hd⟩
      · obtain ⟨⟨key, e⟩, rfl, hf⟩ := Option.map_eq_some_iff.mp hsome
        cases hf
        exact .inr ⟨key, e, rfl, hk, hd⟩

end Wheel

omit [DecidableEq κ] in
theorem handleEvent_eq {c : Connector S} {x : S} (hx : c.tcpStream = some x) (timer : Timer (TimerJob κ)) (current : CurrentLoop)
    (ready : Ready) : c.handleEvent timer current ready = (c.clearTimer timer current).map fun r =>
      (if ready.isWritable then { c with tcpStream := none } else c, r.1, r.2, if ready.isWritable then some x else none) := by
  unfold Connector.handleEvent
  simp only [hx, Connector.handleOnConnect, bind, Except.bind]
  cases c.clearTimer timer current with
  | error f => rfl
  | ok r =>
    simp only [Except.map]
    split <;> rfl

section Handlers

variable {spared : Prop} {s : Connecting κ S} {b : Board (TimerJob κ)} {i : κ}

theorem clearTimer_comes (h : ConnectInv spared s b) (i : κ) :
    (∃ r, (s.connector i).clearTimer s.timer s.current = .ok r) ↔ (s.connector i).timer = none ∨ s.current ≠ .unset := by
  unfold Connector.clearTimer
  cases (s.connector i).timer with
  | none => exact ⟨fun _ => .inl rfl, fun _ => ⟨_, rfl⟩⟩
  | some timeout =>
    cases s.current with
    | unset =>
      constructor
      · rintro ⟨r, hr⟩
        cases hr
      · rintro (hno | hset)
        · cases hno
        · exact absurd rfl hset
    | own =>
      obtain ⟨t', out, -, hclear, -⟩ := clearTimeout_board h.rep timeout
      exact ⟨fun _ => .inr (by decide), fun _ => ⟨_, hclear⟩⟩
    | other => exact ⟨fun _ => .inr (by decide), fun _ => ⟨_, rfl⟩⟩

theorem handleEvent_comes (h : ConnectInv spared s b) (hi : s.waits i = true) (ready : Ready) :
    (∃ r, (s.connector i).handleEvent s.timer s.current ready = .ok r) ↔ (s.connector i).timer = none ∨ s.current ≠ .unset := by
  obtain ⟨x, hx⟩ := Option.ne_none_iff_exists'.mp (h.stream i hi)
  rw [← clearTimer_comes h i, handleEvent_eq hx]
  cases (s.connector i).clearTimer s.timer s.current with
  | error f => exact ⟨fun ⟨_, hr⟩ => (nomatch hr), fun ⟨_, hr⟩ => (nomatch hr)⟩
  | ok r => exact ⟨fun _ => ⟨_, rfl⟩, fun _ => ⟨_, rfl⟩⟩

/-- A connector that waits has no timeout pending when its timer is cleared, and has
    cancelled its own if others have left it alone. -/
theorem clearTimer_ok (h : ConnectInv spared s b) (hi : s.waits i = true) (hcur : s.current = .other → (s.connector i).timer = none)
    {t : Timer (TimerJob κ)} {cleared : Option (TimerJob κ)}
    (hok : (s.connector i).clearTimer s.timer s.current = .ok (t, cleared)) :
    ∃ b', Rep t b' ∧ Gone i b b' ∧ (spared → cleared = ((s.connector i).timer.map fun _ => .connect i) ∧ Kept i b b') := by
  unfold Connector.clearTimer at hok
  cases ht : (s.connector i).timer with
  | none =>
    rw [ht] at hok
    cases hok
    refine ⟨b, h.rep, fun k d hk => ⟨hk, fun hd => ?_⟩, fun _ => ⟨rfl, fun _ _ hk _ => hk⟩⟩
    have := (h.due k d.1 i (by rw [hk, ← hd])).2
    rw [ht] at this
    cases this
  | some timeout =>
    -- what is pending of the connector has this handle
    have hone : ∀ k tick, b.due k = some (tick, .connect i) → k = timeout.token ∧ tick = timeout.tick := fun k tick hk => by
      have := (h.due k tick i hk).2
      rw [ht] at this
      cases this
      exact ⟨rfl, rfl⟩
    rw [ht] at hok hcur
    cases hc : s.current with
    | unset =>
      rw [hc] at hok
      cases hok
    | other => cases hcur hc
    | own =>
      rw [hc] at hok
      obtain ⟨t', out, b', hclear, hr, hb⟩ := clearTimeout_board h.rep timeout
      cases hok.symm.trans hclear
      rcases hb with ⟨rfl, rfl, hnone⟩ | ⟨job, rfl, rfl, hd⟩
      · refine ⟨b', hr, fun k d hk => ⟨hk, fun hd => ?_⟩, fun hs => absurd (h.timer hs i timeout hi ht) (hnone _)⟩
        obtain ⟨rfl, htick⟩ := hone k d.1 (by rw [hk, ← hd])
        exact hnone d.2 (by rw [hk, ← htick])
      · refine ⟨_, hr, gone_remove fun k tick hk => (hone k tick hk).1, fun hs => ?_⟩
        have hown := h.timer hs i timeout hi ht
        cases hd.symm.trans hown
        exact ⟨rfl, kept_remove hown⟩

theorem handleEvent_ok (h : ConnectInv spared s b) (hi : s.waits i = true) (hcur : s.current = .other → (s.connector i).timer = none)
    {ready : Ready} {c : Connector S} {t : Timer (TimerJob κ)} {cleared : Option (TimerJob κ)} {stream : Option S}
    (hok : (s.connector i).handleEvent s.timer s.current ready = .ok (c, t, cleared, stream)) :
    ∃ x b', (s.connector i).tcpStream = some x ∧ stream = (if ready.isWritable then some x else none) ∧ Rep t b' ∧ Gone i b b' ∧
      (spared → cleared = ((s.connector i).timer.map fun _ => .connect i) ∧ Kept i b b') := by
  obtain ⟨x, hx⟩ := Option.ne_none_iff_exists'.mp (h.stream i hi)
  rw [handleEvent_eq hx] at hok
  cases hclear : (s.connector i).clearTimer s.timer s.current with
  | error f =>
    rw [hclear] at hok
    cases hok
  | ok r =>
    rw [hclear] at hok
    cases hok
    obtain ⟨b', hr, hgone, hown⟩ := clearTimer_ok h hi hcur hclear
    exact ⟨x, b', hx, rfl, hr, hgone, hown⟩

theorem onTimeout_ok (h : ConnectInv spared s b) (hn : s.turn = .nodes) {elapsed : Duration} {key : Token}
    {e : Entry (TimerJob κ)} {t : Timer (TimerJob κ)} (hs : TimerStep s.timer (.poll elapsed (some (key, e))) t)
    (he : e.state = .connect i) : s.waits i = true ∧ (s.connector i).onTimeout t (s.registered i) = .ok (t, none, none) ∧
      ∃ b', Rep t b' ∧ Gone i b b' ∧ Kept i b b' := by
  obtain ⟨b', hr', hb⟩ := poll_board h.rep hs
  rcases hb with ⟨ho, -⟩ | ⟨_, _, ho, hd, hb⟩
  · cases ho
  cases ho
  rw [he] at hd
  obtain ⟨hw, ht⟩ := h.due _ _ _ hd
  obtain ⟨stream, hstream⟩ := Option.ne_none_iff_exists'.mp (h.stream i hw)
  have hreg : s.registered i = some true := by
    rcases waits_iff.mp hw with hreg | hev
    · exact hreg
    · rw [hn] at hev
      cases hev
  have hclear : clearTimeout t ⟨key, e.links.tick⟩ = .ok (t, none) :=
    clearTimeout_stale hr' fun job => by rw [hb, Function.update_self]; exact nofun
  have hone : ∀ k tick, b.due k = some (tick, .connect i) → k = key := fun k tick hk => by
    have := (h.due k tick i hk).2
    rw [ht] at this
    cases this
    rfl
  refine ⟨hw, ?_, b', hr', fun k d hk => ?_, fun k d hk hi => ?_⟩
  · unfold Connector.onTimeout
    simp only [ht, hclear, hstream, hreg, bind, Except.bind]
  · exact gone_remove (h := ⟨key, e.links.tick⟩) hone k d (by rw [← hk, hb]; rfl)
  · have hkept := kept_remove (h := ⟨key, e.links.tick⟩) hd k d hk hi
    rw [← hkept, hb]
    rfl

end Handlers

/-! ## Steps -/

/-- How an attempt ended; `failed`: by an event that is not writable. -/
inductive Outcome (S : Type) where
  | called (stream : S)
  | failed
  | timedOut

def attempt (i : κ) (e : ConnectEv κ S) : Option S :=
  match e with
  | .connect j stream _ => if j = i then some stream else none
  | _ => none

def outcome (i : κ) (e : ConnectEv κ S) : Option (Outcome S) :=
  match e with
  | .event j _ (some stream) => if j = i then some (.called stream) else none
  | .event j _ none => if j = i then some .failed else none
  | .timeOut j _ => if j = i then some .timedOut else none
  | _ => none

def attempts (i : κ) (τ : List (ConnectEv κ S)) : List S := τ.filterMap (attempt i)

def outcomes (i : κ) (τ : List (ConnectEv κ S)) : List (Outcome S) := τ.filterMap (outcome i)

/-- How an attempt with this stream may end. -/
def Ends (stream : S) (o : Outcome S) : Prop := ∀ x, o = .called x → x = stream

/-- The attempt that is under way. -/
def Connecting.pending (s : Connecting κ S) (i : κ) : List S := if s.waits i then (s.connector i).tcpStream.toList else []

/-- What a step does to the attempt that is under way. -/
inductive Attempting (i : κ) (e : ConnectEv κ S) : List S → List S → Prop
  | stays (xs : List S) : attempt i e = none → outcome i e = none → Attempting i e xs xs
  | begins (stream : S) : attempt i e = some stream → outcome i e = none → Attempting i e [] [stream]
  | ends (stream : S) (o : Outcome S) : attempt i e = none → outcome i e = some o → Ends stream o → Attempting i e [stream] []

namespace ConnectInv

variable {spared : Prop} {s s' : Connecting κ S} {b b' : Board (TimerJob κ)} {i : κ}

theorem mono (h : ConnectInv spared s b) {spared' : Prop} (hs : spared' → spared) : ConnectInv spared' s b :=
  { h with timer := fun hs' => h.timer (hs hs') }

theorem pending_of_waits (h : ConnectInv spared s b) (hi : s.waits i = true) : ∃ stream, (s.connector i).tcpStream = some stream ∧
    s.pending i = [stream] := by
  obtain ⟨stream, hs⟩ := Option.ne_none_iff_exists'.mp (h.stream i hi)
  refine ⟨stream, hs, ?_⟩
  rw [Connecting.pending, if_pos hi, hs]
  rfl

/-- The loop goes on. -/
theorem turned (h : ConnectInv spared s b) (hc : s'.connector = s.connector) (ht : s'.timer = s.timer)
    (hw : ∀ i, s'.waits i = s.waits i) (hdis : ∀ i ∈ s'.turn.events.map Prod.fst, s'.registered i = some false)
    (hnd : (s'.turn.events.map Prod.fst).Nodup) : ConnectInv spared s' b where
  rep := ht ▸ h.rep
  stream i hi := hc ▸ h.stream i (hw i ▸ hi)
  timer hs i timeout hi ht := h.timer hs i timeout (hw i ▸ hi) (hc ▸ ht)
  due k tick i hk := by
    rw [hw i, hc]
    exact h.due k tick i hk
  disarmed := hdis
  nodup := hnd

/-- Of the connectors' timeouts none came, and none went if they are spared. -/
theorem timers (h : ConnectInv spared s b) {t : Timer (TimerJob κ)} (hr : Rep t b') {spares : Prop}
    (hd : ∀ k tick i, b'.due k = some (tick, .connect i) → b.due k = some (tick, .connect i))
    (hkept : spares → ∀ k tick i, b.due k = some (tick, .connect i) → b'.due k = some (tick, .connect i)) :
    ConnectInv (spared ∧ spares) { s with timer := t } b' where
  rep := hr
  stream := h.stream
  timer hs i handle hi ht := hkept hs.2 _ _ _ (h.timer hs.1 i handle hi ht)
  due k tick i hk := h.due k tick i (hd _ _ _ hk)
  disarmed := h.disarmed
  nodup := h.nodup

/-- An attempt begins. -/
theorem begins (h : ConnectInv spared s b) (hi : s.waits i = false) (stream : S) (timer : Option Timeout) {t : Timer (TimerJob κ)}
    (hr : Rep t b') (hd : ∀ k tick j, b'.due k = some (tick, .connect j) ↔
      b.due k = some (tick, .connect j) ∨ (j = i ∧ timer = some ⟨k, tick⟩)) :
    ConnectInv spared { s.connect i stream timer with timer := t } b' := by
  have hnone : ∀ k tick, b.due k ≠ some (tick, .connect i) := fun k tick hk => by
    rw [(h.due k tick i hk).1] at hi
    cases hi
  have hev : i ∉ s.turn.events.map Prod.fst := fun hev => by
    rw [waits_iff.mpr (.inr hev)] at hi
    cases hi
  have hc : ∀ j, j ≠ i → (s.connect i stream timer).connector j = s.connector j := fun j hj => Function.update_of_ne hj ..
  have hci : (s.connect i stream timer).connector i = ⟨timer, some stream⟩ := Function.update_self ..
  have hreg : ∀ j, j ≠ i → (s.connect i stream timer).registered j = s.registered j := fun j hj => Function.update_of_ne hj ..
  have hregi : (s.connect i stream timer).registered i = some true := Function.update_self ..
  have hw : ∀ j, j ≠ i → ({ s.connect i stream timer with timer := t } : Connecting κ S).waits j = s.waits j := fun j hj => by
    unfold Connecting.waits
    simp only [hreg j hj]
    rfl
  constructor
  · exact hr
  · intro j hj
    by_cases e : j = i
    · subst e
      simp only [hci]
      simp
    · simp only [hc j e]
      exact h.stream j (hw j e ▸ hj)
  · intro hs j handle hj ht
    by_cases e : j = i
    · subst e
      simp only [hci] at ht
      exact (hd _ _ _).mpr (.inr ⟨rfl, ht⟩)
    · simp only [hc j e] at ht
      exact (hd _ _ _).mpr (.inl (h.timer hs j handle (hw j e ▸ hj) ht))
  · intro k tick j hk
    rcases (hd _ _ _).mp hk with hk | ⟨rfl, ht⟩
    · have hne : j ≠ i := fun e => hnone k tick (e ▸ hk)
      simp only [hc j hne]
      rw [hw j hne]
      exact h.due k tick j hk
    · simp only [hci]
      exact ⟨waits_iff.mpr (.inl hregi), ht⟩
  · intro j hj
    have hne : j ≠ i := fun e => hev (e ▸ hj)
    simp only [hreg j hne]
    exact h.disarmed j hj
  · exact h.nodup

/-- An attempt ends. -/
theorem ends (h : ConnectInv spared s b) (hr : Rep s'.timer b') (hgone : Gone i b b') (hkept : spared → Kept i b b')
    (hi : s'.waits i = false)
    (hw : ∀ j, j ≠ i → s'.waits j = s.waits j) (hc : ∀ j, j ≠ i → s'.connector j = s.connector j)
    (hdis : ∀ j ∈ s'.turn.events.map Prod.fst, s'.registered j = some false) (hnd : (s'.turn.events.map Prod.fst).Nodup) :
    ConnectInv spared s' b' := by
  have other : ∀ {j}, s'.waits j = true → j ≠ i := fun hj e => by rw [e, hi] at hj; cases hj
  refine ⟨hr, fun j hj => ?_, fun hs j handle hj ht => ?_, fun k tick j hk => ?_, hdis, hnd⟩
  · rw [hc j (other hj)]
    exact h.stream j (hw j (other hj) ▸ hj)
  · have hne := other hj
    rw [hc j hne] at ht
    exact hkept hs _ _ (h.timer hs j handle (hw j hne ▸ hj) ht) fun e => hne (by cases e; rfl)
  · obtain ⟨hk, hne⟩ := hgone _ _ hk
    have hne : j ≠ i := fun e => hne (by rw [e])
    rw [hw j hne, hc j hne]
    exact h.due k tick j hk

end ConnectInv

theorem pending_of_idle {s : Connecting κ S} {i : κ} (hi : s.waits i = false) : s.pending i = [] := by
  rw [Connecting.pending, hi]
  rfl

theorem pending_same {s s' : Connecting κ S} {i : κ} (hw : s'.waits i = s.waits i) (hc : s'.connector i = s.connector i) :
    s'.pending i = s.pending i := by
  unfold Connecting.pending
  rw [hw, hc]

omit [DecidableEq κ] in
/-- Others set no timeout of a connector, and take one away only by cancelling it. -/
theorem foreign_board {t t' : Timer (TimerJob κ)} {b : Board (TimerJob κ)} (hr : Rep t b) {c : TimerCall (TimerJob κ)}
    (hs : TimerStep t c t') (hf : Foreign c) : ∃ b', Rep t' b' ∧
      (∀ k tick i, b'.due k = some (tick, .connect i) → b.due k = some (tick, .connect i)) ∧
      ((∀ h i, c ≠ .cancelTimeout h (some (.connect i))) →
        ∀ k tick i, b.due k = some (tick, .connect i) → b'.due k = some (tick, .connect i)) := by
  cases hs with
  | setTimeout _ elapsed delay state key h hk hne hset =>
    obtain rfl : state = .other := hf
    obtain ⟨start, h, -, hset, -⟩ := setTimeout_ok.mp hset
    obtain ⟨b', hr', hm, -⟩ := move_of_call hr (.setTimeoutAt _ _ start _ key h hk hne hset)
    refine ⟨b', hr', ?_⟩
    cases hm with
    | set _ _ key' _ hkey _ _ =>
      constructor
      · intro k tick i hd
        rcases Board.due_of_insert hd with ⟨-, hd⟩ | hd
        · cases hd
        · exact hd
      · intro _ k tick i hd
        have hne : k ≠ key' := by
          rintro rfl
          rw [hkey] at hd
          cases hd
        exact (Function.update_of_ne hne ..).trans hd
  | cancelTimeout _ h out hc =>
    obtain ⟨b', hr', hm, -⟩ := move_of_call hr (.cancelTimeout _ _ h out hc)
    refine ⟨b', hr', ?_⟩
    cases hm with
    | cancel _ state hd =>
      constructor
      · exact fun k tick i hk => (Board.due_of_remove hk).2
      · intro hspares k tick i hk
        have hne : k ≠ h.token := by
          rintro rfl
          cases hd.symm.trans hk
          exact hspares h i rfl
        exact (Function.update_of_ne hne ..).trans hk
    | stale => exact ⟨fun _ _ _ hk => hk, fun _ _ _ _ hk => hk⟩
  | poll => cases hf

omit [DecidableEq κ] in
/-- Setting the timeout of `connect`. -/
theorem set_board {t t' : Timer (TimerJob κ)} {b : Board (TimerJob κ)} (hr : Rep t b) {elapsed delay : Duration} {i : κ}
    {h : Timeout} (hs : TimerStep t (.setTimeout elapsed delay (.connect i) h) t') : ∃ b', Rep t' b' ∧
      ∀ k tick j, b'.due k = some (tick, .connect j) ↔ b.due k = some (tick, .connect j) ∨ (j = i ∧ some h = some ⟨k, tick⟩) := by
  cases hs with
  | setTimeout _ _ _ _ key _ hk hne hset =>
    obtain ⟨start, h, -, hset, hr'⟩ := setTimeout_ok.mp hset
    cases hr'
    obtain ⟨b', hr', hm, -⟩ := move_of_call hr (.setTimeoutAt _ _ start _ key h hk hne hset)
    refine ⟨b', hr', fun k tick j => ?_⟩
    cases hm with
    | set _ _ key' tick' hkey _ _ =>
      constructor
      · intro hd
        rcases Board.due_of_insert hd with ⟨rfl, hnew⟩ | hold
        · cases hnew
          exact .inr ⟨rfl, rfl⟩
        · exact .inl hold
      · rintro (hd | ⟨rfl, hd⟩)
        · have hne : k ≠ key' := by
            rintro rfl
            rw [hkey] at hd
            cases hd
          exact (Function.update_of_ne hne ..).trans hd
        · cases hd
          exact Function.update_self ..

/-- An attempt begins, in the ledger. -/
theorem begun (s : Connecting κ S) {i : κ} (stream : S) (timer : Option Timeout) (t : Timer (TimerJob κ)) (hi : s.waits i = false)
    (j : κ) : Attempting j (.connect i stream timer) (s.pending j)
      (({ s.connect i stream timer with timer := t } : Connecting κ S).pending j) := by
  by_cases e : j = i
  · subst e
    have hp : ({ s.connect j stream timer with timer := t } : Connecting κ S).pending j = [stream] := by
      unfold Connecting.pending
      rw [waits_iff.mpr (.inl (Function.update_self ..)), if_pos rfl]
      show ((update s.connector j ⟨timer, some stream⟩ j).tcpStream).toList = _
      rw [Function.update_self]
      rfl
    rw [pending_of_idle hi, hp]
    exact .begins stream (if_pos rfl) rfl
  · have hp : ({ s.connect i stream timer with timer := t } : Connecting κ S).pending j = s.pending j := by
      refine pending_same ?_ (Function.update_of_ne e ..)
      unfold Connecting.waits
      show ((update s.registered i (some true) j == some true) || _) = _
      rw [Function.update_of_ne e]
      rfl
    rw [hp]
    exact .stays _ (if_neg (Ne.symm e)) rfl

/-- An attempt ends, in the ledger. -/
theorem ended {spared : Prop} {s s' : Connecting κ S} {b : Board (TimerJob κ)} (h : ConnectInv spared s b) {i : κ}
    {e : ConnectEv κ S} {o : Outcome S} (hi : s.waits i = true) (hidle : s'.waits i = false) (hw : ∀ j, j ≠ i → s'.waits j = s.waits j)
    (hc : ∀ j, j ≠ i → s'.connector j = s.connector j) (ha : ∀ j, attempt j e = none) (ho : outcome i e = some o)
    (hoj : ∀ j, j ≠ i → outcome j e = none) (hends : ∀ x, (s.connector i).tcpStream = some x → Ends x o) (j : κ) :
    Attempting j e (s.pending j) (s'.pending j) := by
  by_cases hj : j = i
  · subst hj
    obtain ⟨x, hx, hp⟩ := h.pending_of_waits hi
    rw [hp, pending_of_idle hidle]
    exact .ends x o (ha j) ho (hends x hx)
  · rw [pending_same (hw j hj) (hc j hj)]
    exact .stays _ (ha j) (hoj j hj)

theorem report_waits {s : Connecting κ S} {events : List (κ × Ready)} (hturn : s.turn = .selecting)
    (harmed : ∀ x ∈ events, s.registered x.1 = some true) (i : κ) : (s.report events).waits i = s.waits i := by
  rw [Bool.eq_iff_iff, waits_iff, waits_iff, hturn]
  show (if i ∈ events.map Prod.fst then some false else s.registered i) = some true ∨ i ∈ events.map Prod.fst ↔ _ ∨ i ∈ []
  by_cases hi : i ∈ events.map Prod.fst
  · obtain ⟨x, hx, rfl⟩ := List.mem_map.mp hi
    simp [hi, harmed x hx]
  · simp [hi]

/-- What the handler of an event leaves. -/
theorem event_step {spared : Prop} {s : Connecting κ S} {b : Board (TimerJob κ)} (h : ConnectInv spared s b) {i : κ} {ready : Ready}
    {rest : List (κ × Ready)} {c : Connector S} {t : Timer (TimerJob κ)} {cleared : Option (TimerJob κ)} {stream : Option S}
    (hturn : s.turn = .sockets ((i, ready) :: rest)) (hcur : s.current = .other → (s.connector i).timer = none)
    (hev : (s.connector i).handleEvent s.timer s.current ready = .ok (c, t, cleared, stream)) :
    ∃ b', ConnectInv spared (s.handled i c t rest) b' ∧
      ∀ j, Attempting j (.event i cleared stream) (s.pending j) ((s.handled i c t rest).pending j) := by
  have hevents : s.turn.events.map Prod.fst = i :: rest.map Prod.fst := by
    rw [hturn]
    rfl
  obtain ⟨hnew, hnd⟩ := List.nodup_cons.mp (hevents ▸ h.nodup)
  have hdis : ∀ j ∈ i :: rest.map Prod.fst, s.registered j = some false := fun j hj => h.disarmed j (hevents ▸ hj)
  have hi : s.waits i = true := waits_iff.mpr (.inr (hevents ▸ List.mem_cons_self))
  obtain ⟨x, b', hx, rfl, hr, hgone, hown⟩ := handleEvent_ok h hi hcur hev
  have hidle : (s.handled i c t rest).waits i = false := by
    rw [Bool.eq_false_iff, Ne, waits_iff]
    rintro (hreg | hin)
    · have hreg : s.registered i = some true := hreg
      rw [hdis i List.mem_cons_self] at hreg
      cases hreg
    · exact hnew hin
  have hw : ∀ j, j ≠ i → (s.handled i c t rest).waits j = s.waits j := by
    intro j hj
    rw [Bool.eq_iff_iff, waits_iff, waits_iff, hevents, List.mem_cons, or_iff_right hj]
    rfl
  have hcon : ∀ j, j ≠ i → (s.handled i c t rest).connector j = s.connector j := fun j hj => Function.update_of_ne hj ..
  refine ⟨b', h.ends hr hgone (fun hs => (hown hs).2) hidle hw hcon (fun j hj => hdis j (List.mem_cons_of_mem _ hj)) hnd, ?_⟩
  cases ready.isWritable with
  | true =>
    exact ended h hi hidle hw hcon (fun _ => rfl) (if_pos rfl) (fun j hj => if_neg (Ne.symm hj)) fun y hy z hz => by
      cases hz
      exact Option.some.inj (hx.symm.trans hy)
  | false =>
    exact ended h hi hidle hw hcon (fun _ => rfl) (if_pos rfl) (fun j hj => if_neg (Ne.symm hj)) fun y hy z hz => nomatch hz

/-- What the callback of a timeout leaves. -/
theorem timeOut_step {spared : Prop} {s : Connecting κ S} {b : Board (TimerJob κ)} (h : ConnectInv spared s b) {i : κ}
    {elapsed : Duration} {key : Token} {e : Entry (TimerJob κ)} {t t' : Timer (TimerJob κ)} {cleared : Option (TimerJob κ)}
    {r : Option Bool} (hturn : s.turn = .nodes)
    (hp : TimerStep s.timer (.poll elapsed (some (key, e))) t) (he : e.state = .connect i)
    (ht : (s.connector i).onTimeout t (s.registered i) = .ok (t', cleared, r)) :
    ∃ b', ConnectInv spared (s.expired i t' r) b' ∧
      ∀ j, Attempting j (.timeOut i cleared) (s.pending j) ((s.expired i t' r).pending j) := by
  obtain ⟨hi, hcome, b', hr, hgone, hkept⟩ := onTimeout_ok h hturn hp he
  rw [hcome] at ht
  cases ht
  have hevents : (s.expired i t none).turn.events = [] := by
    show s.turn.events = []
    rw [hturn]
    rfl
  have hidle : (s.expired i t none).waits i = false := by
    rw [Bool.eq_false_iff, Ne, waits_iff, hevents]
    rintro (hreg | hin)
    · rw [show (s.expired i t none).registered i = none from Function.update_self ..] at hreg
      cases hreg
    · cases hin
  have hw : ∀ j, j ≠ i → (s.expired i t none).waits j = s.waits j := by
    intro j hj
    unfold Connecting.waits
    rw [show (s.expired i t none).registered j = s.registered j from Function.update_of_ne hj ..]
    rfl
  refine ⟨b', h.ends hr hgone (fun _ => hkept) hidle hw (fun _ _ => rfl) (fun j hj => ?_) h.nodup, ?_⟩
  · rw [hevents] at hj
    cases hj
  · exact ended h hi hidle hw (fun _ _ => rfl) (fun _ => rfl) (if_pos rfl) (fun j hj => if_neg (Ne.symm hj))
      fun _ _ _ hz => nomatch hz

/-- One step: an attempt begins or ends, or everything goes on as it was. -/
theorem connecting_step {spared : Prop} {s s' : Connecting κ S} {e : ConnectEv κ S} {b : Board (TimerJob κ)}
    (h : ConnectInv spared s b) (hs : ConnectingStep s e s') (hc : Careful s e) :
    ∃ b', ConnectInv (spared ∧ Spares e) s' b' ∧ ∀ i, Attempting i e (s.pending i) (s'.pending i) := by
  cases hs with
  | connect i stream =>
    obtain ⟨hi, hno⟩ := hc
    rw [hno rfl]
    exact ⟨b, (h.begins hi stream none h.rep (fun k tick j => by simp)).mono And.left, begun s stream none s.timer hi⟩
  | connectTimeout i stream elapsed delay timeout t ht =>
    obtain ⟨b', hr, hd⟩ := set_board h.rep ht
    exact ⟨b', (h.begins hc.1 stream (some timeout) hr hd).mono And.left, begun s stream (some timeout) t hc.1⟩
  | select events hturn hnd harmed =>
    have hw := report_waits hturn harmed
    have hturned : ConnectInv spared (s.report events) b := h.turned rfl rfl hw (fun i hi => if_pos hi) hnd
    refine ⟨b, hturned.mono And.left, fun i => ?_⟩
    rw [pending_same (hw i) rfl]
    exact .stays _ rfl rfl
  | event i ready rest c t cleared stream hturn hev =>
    obtain ⟨b', hb', ha⟩ := event_step h hturn hc hev
    exact ⟨b', hb'.mono And.left, ha⟩
  | process hturn =>
    have hw : ∀ i, ({ s with turn := .nodes } : Connecting κ S).waits i = s.waits i := fun i => by
      unfold Connecting.waits
      rw [hturn]
      rfl
    have hturned : ConnectInv spared { s with turn := .nodes } b := h.turned rfl rfl hw (fun i hi => nomatch hi) List.nodup_nil
    refine ⟨b, hturned.mono And.left, fun i => ?_⟩
    rw [pending_same (hw i) rfl]
    exact .stays _ rfl rfl
  | timeOut i elapsed key e t t' cleared r hturn hp he ht =>
    obtain ⟨b', hb', ha⟩ := timeOut_step h hturn hp he ht
    exact ⟨b', hb'.mono And.left, ha⟩
  | poll elapsed out t hturn hp ho =>
    obtain ⟨b', hr, hb⟩ := poll_board h.rep hp
    refine ⟨b', h.timers hr (fun k tick i hk => ?_) (fun _ k tick i hk => ?_), fun i => .stays _ rfl rfl⟩
    · rcases hb with ⟨-, hb⟩ | ⟨key, e, hout, hd, hb⟩
      · exact hb ▸ hk
      · rw [hb] at hk
        exact (Board.due_of_update hk).2
    · rcases hb with ⟨-, hb⟩ | ⟨key, e, hout, hd, hb⟩
      · rw [hb]
        exact hk
      · rw [hb, Function.update_of_ne, hk]
        rintro rfl
        rw [hd, ho k e hout] at hk
        cases hk
  | timers c t ht hf =>
    obtain ⟨b', hr, hd, hkept⟩ := foreign_board h.rep ht hf
    exact ⟨b', h.timers hr hd fun hspares => hkept fun handle i e => hspares handle i (congrArg ConnectEv.timers e),
      fun i => .stays _ rfl rfl⟩
  | setCurrentLoop current =>
    have hturned : ConnectInv spared { s with current := current } b := h.turned rfl rfl (fun _ => rfl) h.disarmed h.nodup
    exact ⟨b, hturned.mono And.left, fun i => .stays _ rfl rfl⟩
  | again hturn =>
    have hw : ∀ i, ({ s with turn := .selecting } : Connecting κ S).waits i = s.waits i := fun i => by
      unfold Connecting.waits
      rw [hturn]
      rfl
    have hturned : ConnectInv spared { s with turn := .selecting } b := h.turned rfl rfl hw (fun i hi => nomatch hi) List.nodup_nil
    refine ⟨b, hturned.mono And.left, fun i => ?_⟩
    rw [pending_same (hw i) rfl]
    exact .stays _ rfl rfl

/-! ## Every attempt ends once -/

theorem attempts_snoc (i : κ) (τ : List (ConnectEv κ S)) (e : ConnectEv κ S) :
    attempts i (τ ++ [e]) = attempts i τ ++ (attempt i e).toList := by
  unfold attempts
  rw [List.filterMap_append]
  cases h : attempt i e <;> simp [h]

theorem outcomes_snoc (i : κ) (τ : List (ConnectEv κ S)) (e : ConnectEv κ S) :
    outcomes i (τ ++ [e]) = outcomes i τ ++ (outcome i e).toList := by
  unfold outcomes
  rw [List.filterMap_append]
  cases h : outcome i e <;> simp [h]

/-- The attempts that are over ended so, and the last is under way if there is one. -/
def Ledger (τ : List (ConnectEv κ S)) (s : Connecting κ S) (i : κ) : Prop :=
  ∃ past, attempts i τ = past ++ s.pending i ∧ List.Forall₂ Ends past (outcomes i τ)

theorem Ledger.step {τ : List (ConnectEv κ S)} {s s' : Connecting κ S} {e : ConnectEv κ S} {i : κ} (h : Ledger τ s i)
    (ha : Attempting i e (s.pending i) (s'.pending i)) : Ledger (τ ++ [e]) s' i := by
  obtain ⟨past, hpast, hends⟩ := h
  unfold Ledger
  rw [attempts_snoc, outcomes_snoc, hpast]
  generalize s.pending i = xs at ha ⊢
  generalize s'.pending i = ys at ha ⊢
  cases ha with
  | stays _ ha ho =>
    refine ⟨past, ?_, ?_⟩
    · rw [ha]
      exact List.append_nil _
    · rw [ho]
      exact (List.append_nil _).symm ▸ hends
  | begins stream ha ho =>
    refine ⟨past, ?_, ?_⟩
    · rw [ha, List.append_nil]
      rfl
    · rw [ho]
      exact (List.append_nil _).symm ▸ hends
  | ends stream o ha ho hend =>
    refine ⟨past ++ [stream], ?_, ?_⟩
    · rw [ha]
      rfl
    · rw [ho]
      exact List.rel_append hends (.cons hend .nil)

theorem connecting_run {τ : List (ConnectEv κ S)} {s : Connecting κ S} (h : Run ((connecting κ S).restrict Careful) τ s) :
    ∃ b, ConnectInv (Spared τ) s b ∧ ∀ i, Ledger τ s i := by
  induction h with
  | @init s hi =>
    obtain ⟨connector, registered, timer, turn, current⟩ := s
    obtain ⟨rfl, rfl, ⟨bd, entrySize, hbd⟩, rfl⟩ := hi
    obtain ⟨-, -, -, rfl⟩ := Builder.build_ok.mp hbd
    have hidle : ∀ i, ({ connector := fun _ => .new, registered := fun _ => none, timer := .new (millis bd.tick) bd.numSlots,
                         turn := .selecting, current := current } : Connecting κ S).waits i = false := fun _ => rfl
    refine ⟨_, ⟨new_rep _ _, fun i hi => ?_, fun _ i timeout hi => ?_, (fun k tick i hk => nomatch hk), (fun i hi => nomatch hi),
      List.nodup_nil⟩, fun i => ⟨[], rfl, .nil⟩⟩
    · rw [hidle i] at hi
      cases hi
    · rw [hidle i] at hi
      cases hi
  | @step τ s s' e _ hs ih =>
    obtain ⟨b, hb, hledger⟩ := ih
    obtain ⟨b', hb', ha⟩ := connecting_step hb hs.1 hs.2
    have hspared : Spared (τ ++ [e]) → Spared τ ∧ Spares e := fun h =>
      ⟨fun x hx => h x (List.mem_append_left _ hx), h e List.mem_concat_self⟩
    exact ⟨b', hb'.mono hspared, fun i => (hledger i).step (ha i)⟩

/-- The attempts of a connector end in turn, each in one way: its job is called with the
    stream of that attempt, or an event comes that is not writable, or it times out. All
    have ended but the last, if the connector waits. -/
theorem connects_end_once {τ : List (ConnectEv κ S)} {s : Connecting κ S} (h : Run ((connecting κ S).restrict Careful) τ s)
    (i : κ) :
    ∃ past, attempts i τ = past ++ s.pending i ∧ List.Forall₂ Ends past (outcomes i τ) ∧
      (s.pending i).length = if s.waits i then 1 else 0 := by
  obtain ⟨b, hb, hledger⟩ := connecting_run h
  obtain ⟨past, hpast, hends⟩ := hledger i
  refine ⟨past, hpast, hends, ?_⟩
  cases hi : s.waits i with
  | true =>
    obtain ⟨stream, -, hp⟩ := hb.pending_of_waits hi
    rw [hp]
    rfl
  | false =>
    rw [pending_of_idle hi]
    rfl

theorem run_connecting_hundred : Run ((connecting Nat Nat).restrict Careful) []
    ⟨fun _ => .new, fun _ => none, ⟨100, fun _ => none, fun _ => ⟨TICK_MAX, EMPTY⟩, 0, EMPTY, 7⟩, .selecting, .own⟩ :=
  .init ⟨rfl, rfl, init_hundred, rfl⟩

/-- Connector 0 has timed out, and connector 1 waits. -/
theorem connects_end_once_two : ∃ (τ : List (ConnectEv Nat Nat)) (s : Connecting Nat Nat),
    Run ((connecting Nat Nat).restrict Careful) τ s ∧ s.waits 1 = true ∧
      ∃ past, attempts 0 τ = past ++ s.pending 0 ∧ List.Forall₂ Ends past (outcomes 0 τ) ∧
        (s.pending 0).length = if s.waits 0 then 1 else 0 := by
  have hset : durationToTick (ms 149) 100 = .ok 1 := by decide
  have hpoll : durationToTick (ms 100) 100 = .ok 1 := by decide
  have h1 := run_connecting_hundred.step ⟨.connectTimeout _ 0 10 (ms 0) (ms 149) _ _ (.setTimeout _ _ _ _ _ ⟨0⟩ _ rfl (by decide)
    (setTimeout_ok.mpr ⟨ms 149, _, by decide, (setTimeoutAt_eq _ ⟨0⟩ hset rfl).trans rfl, rfl⟩)), rfl, (fun h => nomatch h)⟩
  have h2 := h1.step ⟨.connect _ 1 11, rfl, fun _ => rfl⟩
  have h3 := h2.step ⟨.select _ [] rfl .nil (by simp), trivial⟩
  have h4 := h3.step ⟨.process _ rfl, trivial⟩
  have h5 := h4.step ⟨.timeOut _ 0 (ms 100) ⟨0⟩ _ _ _ _ _ rfl
    (.poll _ _ 3 (ms 100) (some _) (poll_ok.mpr ⟨1, hpoll, rfl⟩)) rfl rfl, trivial⟩
  exact ⟨_, _, h5, rfl, connects_end_once h5 0⟩

/-- `handle_event` comes out exactly when the connector has no timeout or the thread has a
    current loop. With its own loop, and if no call of others has cancelled a connector's
    timeout, it cancels the timeout of its own attempt. The callback of a timeout comes out
    and cancels nothing, whoever has the keys of the timeouts that are gone. -/
theorem handlers_come_out {τ : List (ConnectEv κ S)} {s : Connecting κ S} (h : Run ((connecting κ S).restrict Careful) τ s)
    (i : κ) :
    (∀ ready rest, s.turn = .sockets ((i, ready) :: rest) →
      ((∃ r, (s.connector i).handleEvent s.timer s.current ready = .ok r) ↔ (s.connector i).timer = none ∨ s.current ≠ .unset) ∧
      (Spared τ → s.current = .own → ∃ c t stream, (s.connector i).handleEvent s.timer s.current ready =
        .ok (c, t, (s.connector i).timer.map fun _ => .connect i, stream))) ∧
      ∀ elapsed key e t, s.turn = .nodes → TimerStep s.timer (.poll elapsed (some (key, e))) t → e.state = .connect i →
        (s.connector i).onTimeout t (s.registered i) = .ok (t, none, none) := by
  obtain ⟨b, hb, -⟩ := connecting_run h
  constructor
  · intro ready rest hturn
    have hi : s.waits i = true := waits_iff.mpr (.inr (by rw [hturn]; exact List.mem_cons_self))
    have hcomes := handleEvent_comes hb hi ready
    refine ⟨hcomes, fun hspared hown => ?_⟩
    obtain ⟨⟨c, t, cleared, stream⟩, hok⟩ := hcomes.mpr (.inr (by rw [hown]; decide))
    obtain ⟨x, b', -, -, -, -, hcleared⟩ := handleEvent_ok hb hi (fun hother => by rw [hown] at hother; cases hother) hok
    rw [(hcleared hspared).1] at hok
    exact ⟨c, t, stream, hok⟩
  · intro elapsed key e t hturn hp he
    exact (onTimeout_ok hb hturn hp he).2.1

/-- The stream of connector 0 is writable, and its timeout has not fired. Others have tried
    to cancel a timeout that is gone. -/
theorem handlers_come_out_one : ∃ (τ : List (ConnectEv Nat Nat)) (s : Connecting Nat Nat) (timeout : Timeout),
    Run ((connecting Nat Nat).restrict Careful) τ s ∧ (s.connector 0).timer = some timeout ∧
      ∃ c t stream, (s.connector 0).handleEvent s.timer s.current .writable = .ok (c, t, some (.connect 0), stream) := by
  have hset : durationToTick (ms 149) 100 = .ok 1 := by decide
  have h1 := run_connecting_hundred.step ⟨.connectTimeout _ 0 10 (ms 0) (ms 149) _ _ (.setTimeout _ _ _ _ _ ⟨0⟩ _ rfl (by decide)
    (setTimeout_ok.mpr ⟨ms 149, _, by decide, (setTimeoutAt_eq _ ⟨0⟩ hset rfl).trans rfl, rfl⟩)), rfl, (fun h => nomatch h)⟩
  have h2 := h1.step ⟨.timers _ (.cancelTimeout ⟨⟨3⟩, 1⟩ none) _ (.cancelTimeout _ _ _ _ rfl) trivial, trivial⟩
  have h3 := h2.step ⟨.select _ [(0, .writable)] rfl (by simp) (by simp [Connecting.connect]), trivial⟩
  exact ⟨_, _, _, h3, rfl, ((handlers_come_out h3 0).1 .writable [] rfl).2 (by simp [Spared, Spares]) rfl⟩

end Sickle.Net
