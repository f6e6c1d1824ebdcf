/-
  Sickle.Net.Acceptor — a server takes its connections (`net/acceptor.rs` and
  `start_internal` of `net/tcp_server.rs`).

  The listener is registered edge-triggered: what the kernel does is a source of
  `Sickle.Lib.Edge`, whose items are the connections in the backlog. `handle_read` calls
  `accept` until it would block; each call of `accept` is a step of its own, so that
  connections arrive in between, and its answer is the kernel's to choose where the
  backlog allows it. The acceptor is behind a mutex: `bind` and `set_accept_job` wait for
  a `handle_read` to end.

  `start_internal` binds first and sets the job after that; what is accepted in between
  goes to the job of `Acceptor::new`, which drops it.
  - `every_connection_once`: the connections that left the backlog, in the order they
    came in, then those that wait, are all that arrived, and each job call is for one of
    them in that order; before `set_accept_job` all go to the default job.
  - `served_once_set`: after it each connection that `accept` returns is one call of the
    session job, and there are no other calls.
  - `no_connection_stranded`: between two `handle_read`s with connections waiting, an
    event is due, unless the last one ended in an error other than WouldBlock.
-/

import Sickle.Lib.Edge
import Sickle.Lib.Simulation

namespace Sickle.Net

open Sickle.Lib

variable {C : Type}

/-- What `accept` answers. -/
inductive AcceptRes (C : Type) where
  | ok (stream : C)
  | interrupted
  | wouldBlock
  | err
  deriving DecidableEq, Repr

inductive AcceptorJob where
  /-- The job of `Acceptor::new`: it prints, and drops the stream. -/
  | default
  /-- `on_accept_connection`. -/
  | session
  deriving DecidableEq, Repr

/-- `calls` records the calls of `acceptor_job`. -/
structure Acceptor (C : Type) where
  isListening : Bool
  acceptorJob : AcceptorJob
  calls : List (AcceptorJob × C)

namespace Acceptor

def new : Acceptor C := ⟨false, .default, []⟩

def setAcceptJob (a : Acceptor C) (job : AcceptorJob) : Acceptor C := { a with acceptorJob := job }

def bind (a : Acceptor C) : Acceptor C := { a with isListening := true }

def runJob (a : Acceptor C) (stream : C) : Acceptor C := { a with calls := a.calls ++ [(a.acceptorJob, stream)] }

/-- One round of the loop of `handle_read`, and whether another follows. -/
def onAccept (a : Acceptor C) (res : AcceptRes C) : Acceptor C × Bool :=
  match res with
  | .ok stream => (a.runJob stream, true)
  | .interrupted => (a, true)
  | .wouldBlock => (a, false)
  | .err => (a, false)

end Acceptor

/-! ## The server and its listener -/

/-- Where `start_internal` is. -/
inductive Boot where
  | start
  | bound
  | done
  deriving DecidableEq, Repr

/-- `arrived` and `left` are records: the connections in the order they came in, and those
    that are no longer in the backlog, each with the job it was handed to, if it was. -/
structure Server (C : Type) where
  acceptor : Acceptor C
  listener : Source C
  watch : Watch
  boot : Boot
  arrived : List C
  left : List (Option AcceptorJob × C)

inductive ServerEv (C : Type) where
  | arrive (stream : C)
  | spurious
  | bind
  | setAcceptJob
  | event
  | accept (res : AcceptRes C)
  deriving DecidableEq, Repr

inductive ServerStep : Server C → ServerEv C → Server C → Prop
  | arrive (s : Server C) (stream : C) (due : Bool) : (s.listener.waiting = [] ∨ s.listener.due = true → due = true) →
      ServerStep s (.arrive stream)
        { s with listener := ⟨s.listener.waiting ++ [stream], due⟩, arrived := s.arrived ++ [stream] }
  | spurious (s : Server C) : ServerStep s .spurious { s with listener := { s.listener with due := true } }
  /-- The registration makes an event due for what is in the backlog. -/
  | bind (s : Server C) : s.boot = .start → s.watch ≠ .draining →
      ServerStep s .bind
        { s with acceptor := s.acceptor.bind, listener := s.listener.attach, watch := .idle, boot := .bound }
  | setAcceptJob (s : Server C) : s.boot = .bound → s.watch ≠ .draining →
      ServerStep s .setAcceptJob { s with acceptor := s.acceptor.setAcceptJob .session, boot := .done }
  /-- The loop is told of an event of the listener, and calls `handle_read`. -/
  | event (s : Server C) : s.boot ≠ .start → s.watch ≠ .draining → s.listener.due = true →
      ServerStep s .event { s with listener := s.listener.notice, watch := .draining }
  | ok (s : Server C) (stream : C) (rest : List C) : s.watch = .draining → s.listener.waiting = stream :: rest →
      ServerStep s (.accept (.ok stream))
        { s with acceptor := (s.acceptor.onAccept (.ok stream)).1, listener := s.listener.take 1,
                 left := s.left ++ [(some s.acceptor.acceptorJob, stream)] }
  | interrupted (s : Server C) : s.watch = .draining →
      ServerStep s (.accept .interrupted) { s with acceptor := (s.acceptor.onAccept .interrupted).1 }
  | wouldBlock (s : Server C) : s.watch = .draining → s.listener.waiting = [] →
      ServerStep s (.accept .wouldBlock) { s with acceptor := (s.acceptor.onAccept .wouldBlock).1, watch := .idle }
  | err (s : Server C) : s.watch = .draining →
      ServerStep s (.accept .err) { s with acceptor := (s.acceptor.onAccept .err).1, watch := .away }
  /-- The error is about the first connection, which is gone: aborted by its peer, or not
      to be made nonblocking. -/
  | aborted (s : Server C) (stream : C) (rest : List C) : s.watch = .draining → s.listener.waiting = stream :: rest →
      ServerStep s (.accept .err)
        { s with acceptor := (s.acceptor.onAccept .err).1, listener := s.listener.take 1, watch := .away,
                 left := s.left ++ [(none, stream)] }

/-- A new server. Its listener listens already, and nobody watches it. -/
def server (C : Type) : Lts (Server C) (ServerEv C) :=
  ⟨fun s => s = ⟨.new, .empty, .away, .start, [], []⟩, ServerStep⟩

/-! ## Each connection once, in its turn -/

/-- The job calls, from the record of the backlog. -/
def handed (left : List (Option AcceptorJob × C)) : List (AcceptorJob × C) :=
  left.filterMap fun x => x.1.map fun j => (j, x.2)

structure Tally (s : Server C) : Prop where
  turn : s.left.map Prod.snd ++ s.listener.waiting = s.arrived
  calls : s.acceptor.calls = handed s.left
  job : s.acceptor.acceptorJob = .session ↔ s.boot = .done
  early : s.boot ≠ .done → ∀ x ∈ s.acceptor.calls, x.1 = .default

namespace Tally

variable {s s' : Server C} {e : ServerEv C}

theorem step (h : Tally s) (hs : ServerStep s e s') : Tally s' := by
  cases hs with
  | arrive stream due _ =>
    refine ⟨?_, h.calls, h.job, h.early⟩
    show s.left.map Prod.snd ++ (s.listener.waiting ++ [stream]) = s.arrived ++ [stream]
    rw [← List.append_assoc, h.turn]
  | spurious => exact ⟨h.turn, h.calls, h.job, h.early⟩
  | bind hb _ =>
    have hj : s.acceptor.acceptorJob ≠ .session := fun hj => by
      rw [h.job, hb] at hj
      cases hj
    exact ⟨h.turn, h.calls, ⟨fun hx => absurd hx hj, fun hx => (nomatch hx)⟩, fun _ => h.early (by rw [hb]; decide)⟩
  | setAcceptJob => exact ⟨h.turn, h.calls, ⟨fun _ => rfl, fun _ => rfl⟩, fun hx => absurd rfl hx⟩
  | event => exact ⟨h.turn, h.calls, h.job, h.early⟩
  | ok stream rest _ hw =>
    refine ⟨?_, ?_, h.job, ?_⟩
    · show (s.left ++ [(some s.acceptor.acceptorJob, stream)]).map Prod.snd ++ s.listener.waiting.drop 1 = s.arrived
      rw [← h.turn, hw, List.map_append, List.append_assoc]
      rfl
    · show s.acceptor.calls ++ [(s.acceptor.acceptorJob, stream)] = _
      rw [h.calls, handed, handed, List.filterMap_append]
      rfl
    · intro hb x hx
      rcases List.mem_append.mp hx with hx | hx
      · exact h.early hb x hx
      · obtain rfl := List.mem_singleton.mp hx
        have hj := mt h.job.mp hb
        cases hjob : s.acceptor.acceptorJob with
        | default => rfl
        | session => exact absurd hjob hj
  | interrupted => exact ⟨h.turn, h.calls, h.job, h.early⟩
  | wouldBlock => exact ⟨h.turn, h.calls, h.job, h.early⟩
  | err => exact ⟨h.turn, h.calls, h.job, h.early⟩
  | aborted stream rest _ hw =>
    refine ⟨?_, ?_, h.job, h.early⟩
    · show (s.left ++ [(none, stream)]).map Prod.snd ++ s.listener.waiting.drop 1 = s.arrived
      rw [← h.turn, hw, List.map_append, List.append_assoc]
      rfl
    · show s.acceptor.calls = _
      rw [h.calls, handed, handed, List.filterMap_append]
      exact (List.append_nil _).symm

theorem of_run {τ : List (ServerEv C)} (h : Run (server C) τ s) : Tally s := by
  refine Run.inv (P := Tally) ?_ (fun _ _ _ ih hs => ih.step hs) h
  rintro s rfl
  exact ⟨rfl, rfl, ⟨fun hx => (nomatch hx), fun hx => (nomatch hx)⟩, fun _ x hx => (nomatch hx)⟩

end Tally

/-- Connections leave the backlog in the order they came in, and each that is not lost to a
    failed `accept` is one call of the job, in that order; up to `set_accept_job` they all go
    to the default job. -/
theorem every_connection_once {τ : List (ServerEv C)} {s : Server C} (h : Run (server C) τ s) :
    s.left.map Prod.snd ++ s.listener.waiting = s.arrived ∧ s.acceptor.calls = handed s.left ∧
      (s.boot ≠ .done → ∀ x ∈ s.acceptor.calls, x.1 = .default) :=
  have ht := Tally.of_run h
  ⟨ht.turn, ht.calls, ht.early⟩

/-- Three connections before the job is set: one is dropped by the default job, one is
    aborted, and one waits. -/
theorem every_connection_once_three : ∃ s : Server Nat, s.left = [(some .default, 7), (none, 8)] ∧
    s.left.map Prod.snd ++ s.listener.waiting = s.arrived ∧ s.acceptor.calls = handed s.left ∧
      (s.boot ≠ .done → ∀ x ∈ s.acceptor.calls, x.1 = .default) := by
  have h0 : Run (server Nat) [] _ := .init rfl
  have h1 := h0.step (.arrive _ 7 true fun _ => rfl)
  have h2 := h1.step (.arrive _ 8 true fun _ => rfl)
  have h3 := h2.step (.arrive _ 9 true fun _ => rfl)
  have h4 := h3.step (.bind _ rfl (by decide))
  have h5 := h4.step (.event _ (by decide) (by decide) rfl)
  have h6 := h5.step (.ok _ 7 [8, 9] rfl rfl)
  have h7 := h6.step (.interrupted _ rfl)
  have h8 := h7.step (.aborted _ 8 [9] rfl rfl)
  exact ⟨_, rfl, every_connection_once h8⟩

/-- The connections that `accept` has returned on the way. -/
def accepted (p : List (ServerEv C × Server C)) : List C :=
  p.filterMap fun x => match x.1 with
    | .accept (.ok stream) => some stream
    | _ => none

theorem accepted_concat (p : List (ServerEv C × Server C)) (e : ServerEv C) (s : Server C) :
    accepted (p ++ [(e, s)]) = accepted p ++ accepted [(e, s)] := List.filterMap_append

/-- From the path `p` on: what it took out of the backlog, and the calls for it. -/
def Served (s : Server C) (p : List (ServerEv C × Server C)) (s' : Server C) : Prop :=
  ∃ new, s'.left = s.left ++ new ∧ s'.acceptor.calls = s.acceptor.calls ++ handed new ∧
    handed new = (accepted p).map fun c => (.session, c)

theorem Served.quiet {s t t' : Server C} {p : List (ServerEv C × Server C)} {e : ServerEv C} (h : Served s p t)
    (hleft : t'.left = t.left) (hcalls : t'.acceptor.calls = t.acceptor.calls) (he : accepted [(e, t')] = []) :
    Served s (p ++ [(e, t')]) t' := by
  obtain ⟨new, hl, hc, hh⟩ := h
  refine ⟨new, hleft.trans hl, hcalls.trans hc, ?_⟩
  rw [accepted_concat, he, List.append_nil]
  exact hh

/-- Once the job is set, every connection that `accept` returns gets a session, in that
    order, and no call is for another connection or another job. -/
theorem served_once_set {τ : List (ServerEv C)} {s s' : Server C} {p : List (ServerEv C × Server C)} (h : Run (server C) τ s)
    (hb : s.boot = .done) (hp : Path (server C) s p s') :
    ∃ new, s'.left = s.left ++ new ∧ s'.acceptor.calls = s.acceptor.calls ++ handed new ∧
      handed new = (accepted p).map fun c => (.session, c) := by
  refine (hp.inv_run h (P := fun p t => t.boot = .done ∧ Served s p t) ⟨hb, [], by simp [handed, accepted]⟩ ?_).2
  rintro p t e t' ht - ⟨hd, hserved⟩ hs
  have hjob := (Tally.of_run ht).job.mpr hd
  cases hs with
  | ok stream rest =>
    obtain ⟨new, hl, hc, hh⟩ := hserved
    have hnew : handed (new ++ [(some t.acceptor.acceptorJob, stream)]) = handed new ++ [(.session, stream)] := by
      rw [handed, List.filterMap_append, hjob]
      rfl
    refine ⟨hd, new ++ [(some t.acceptor.acceptorJob, stream)], ?_, ?_, ?_⟩
    · show t.left ++ [(some t.acceptor.acceptorJob, stream)] = _
      rw [hl, List.append_assoc]
    · show t.acceptor.calls ++ [(t.acceptor.acceptorJob, stream)] = _
      rw [hc, hnew, hjob, List.append_assoc]
    · rw [hnew, hh, accepted_concat, List.map_append]
      rfl
  | aborted stream rest =>
    obtain ⟨new, hl, hc, hh⟩ := hserved
    have hnew : handed (new ++ [(none, stream)]) = handed new := by
      rw [handed, List.filterMap_append]
      exact List.append_nil _
    refine ⟨hd, new ++ [(none, stream)], ?_, ?_, ?_⟩
    · show t.left ++ [(none, stream)] = _
      rw [hl, List.append_assoc]
    · rw [hnew]
      exact hc
    · rw [hnew, hh, accepted_concat, List.map_append]
      exact (List.append_nil _).symm
  | bind hstart => rw [hd] at hstart; cases hstart
  | setAcceptJob => exact ⟨rfl, hserved.quiet rfl rfl rfl⟩
  | arrive => exact ⟨hd, hserved.quiet rfl rfl rfl⟩
  | spurious => exact ⟨hd, hserved.quiet rfl rfl rfl⟩
  | event => exact ⟨hd, hserved.quiet rfl rfl rfl⟩
  | interrupted => exact ⟨hd, hserved.quiet rfl rfl rfl⟩
  | wouldBlock => exact ⟨hd, hserved.quiet rfl rfl rfl⟩
  | err => exact ⟨hd, hserved.quiet rfl rfl rfl⟩

/-- One connection comes before the job is set and is dropped. Of the next three one is
    aborted, and the others get a session. -/
theorem served_once_set_two : ∃ (s s' : Server Nat) (p : List (ServerEv Nat × Server Nat)), s.acceptor.calls = [(.default, 7)] ∧
    accepted p = [8, 10] ∧
    ∃ new, s'.left = s.left ++ new ∧ s'.acceptor.calls = s.acceptor.calls ++ handed new ∧
      handed new = (accepted p).map fun c => (.session, c) := by
  have h0 : Run (server Nat) [] _ := .init rfl
  have h1 := h0.step (.arrive _ 7 true fun _ => rfl)
  have h2 := h1.step (.bind _ rfl (by decide))
  have h3 := h2.step (.event _ (by decide) (by decide) rfl)
  have h4 := h3.step (.ok _ 7 [] rfl rfl)
  have h5 := h4.step (.wouldBlock _ rfl rfl)
  have h6 := h5.step (.setAcceptJob _ rfl (by decide))
  have p0 : Path (server Nat)
      ⟨⟨true, .session, [(.default, 7)]⟩, ⟨[], false⟩, .idle, .done, [7], [(some .default, 7)]⟩ [] _ := .nil
  have p1 := p0.step (.arrive _ 8 true fun _ => rfl)
  have p2 := p1.step (.arrive _ 9 true fun _ => rfl)
  have p3 := p2.step (.arrive _ 10 true fun _ => rfl)
  have p4 := p3.step (.event _ (by decide) (by decide) rfl)
  have p5 := p4.step (.ok _ 8 [9, 10] rfl rfl)
  have p6 := p5.step (.aborted _ 9 [10] rfl rfl)
  have p7 := p6.step (.spurious _)
  have p8 := p7.step (.event _ (by decide) (by decide) rfl)
  have p9 := p8.step (.ok _ 10 [] rfl rfl)
  exact ⟨_, _, _, rfl, rfl, served_once_set h6 rfl p9⟩

/-! ## No connection stranded -/

/-- The listener under the server is a watched source. -/
theorem listener_watched {s s' : Server C} {e : ServerEv C} (h : ServerStep s e s') :
    ∃ p, Path (watched C) (s.listener, s.watch) p (s'.listener, s'.watch) := by
  cases h with
  | arrive stream due hdue => exact ⟨_, Path.nil.step (.stir s.watch (.arrive s.listener stream due hdue))⟩
  | spurious => exact ⟨_, Path.nil.step (.stir s.watch (.spurious s.listener))⟩
  | bind _ hw => exact ⟨_, Path.nil.step (.attach s.listener s.watch hw)⟩
  | setAcceptJob => exact ⟨_, .nil⟩
  | event _ hw hdue => exact ⟨_, Path.nil.step (.notice s.listener s.watch hw hdue)⟩
  | ok stream rest hw _ =>
    rw [hw]
    exact ⟨_, Path.nil.step (.take s.listener .draining 1 (by decide))⟩
  | interrupted => exact ⟨_, .nil⟩
  | wouldBlock hw hnil =>
    rw [hw]
    exact ⟨_, Path.nil.step (.foundNone s.listener hnil)⟩
  | err hw =>
    rw [hw]
    exact ⟨_, Path.nil.step (.leave s.listener .draining)⟩
  | aborted stream rest hw _ =>
    rw [hw]
    have htake : Path (watched C) (s.listener, .draining) _ _ := Path.nil.step (.take s.listener .draining 1 (by decide))
    exact ⟨_, htake.step (.leave _ _)⟩

/-- The last `handle_read` of the history ended in an error other than WouldBlock. -/
def FailedLast (τ : List (ServerEv C)) : Prop := ∃ τ₁ τ₂, τ = τ₁ ++ .accept .err :: τ₂ ∧ ∀ e ∈ τ₂, e ≠ .event

theorem FailedLast.concat {τ : List (ServerEv C)} {e : ServerEv C} (h : FailedLast τ) (he : e ≠ .event) : FailedLast (τ ++ [e]) := by
  obtain ⟨τ₁, τ₂, rfl, hτ⟩ := h
  refine ⟨τ₁, τ₂ ++ [e], by simp, fun x hx => ?_⟩
  rcases List.mem_append.mp hx with hx | hx
  · exact hτ x hx
  · rw [List.mem_singleton.mp hx]
    exact he

/-- Who is away has left with an error. -/
theorem away_failed {τ : List (ServerEv C)} {s : Server C} (h : Run (server C) τ s) :
    (s.boot = .start → s.watch = .away) ∧ (s.boot ≠ .start → s.watch = .away → FailedLast τ) := by
  refine Run.inv_trace
    (P := fun τ s => (s.boot = .start → s.watch = .away) ∧ (s.boot ≠ .start → s.watch = .away → FailedLast τ)) ?_ ?_ h
  · rintro s rfl
    exact ⟨fun _ => rfl, fun hb => absurd rfl hb⟩
  · rintro τ s e s' - ⟨hstart, hfail⟩ hs
    have hlast : FailedLast (τ ++ [.accept .err]) := ⟨τ, [], rfl, fun x hx => nomatch hx⟩
    have hdrain : ∀ {P : Prop}, s.watch = .draining → s.boot = .start → P := fun hw hb => by
      rw [hstart hb] at hw
      cases hw
    cases hs with
    | arrive => exact ⟨hstart, fun hb hw => (hfail hb hw).concat (by simp)⟩
    | spurious => exact ⟨hstart, fun hb hw => (hfail hb hw).concat (by simp)⟩
    | bind => exact ⟨fun hb => (nomatch hb), fun _ hw => (nomatch hw)⟩
    | setAcceptJob hbound => exact ⟨fun hb => (nomatch hb), fun _ hw => (hfail (by rw [hbound]; decide) hw).concat (by simp)⟩
    | event hne => exact ⟨fun hb => absurd hb hne, fun _ hw => (nomatch hw)⟩
    | ok stream rest hw => exact ⟨hdrain hw, fun _ hw' => absurd (hw.symm.trans hw') (by decide)⟩
    | interrupted hw => exact ⟨hdrain hw, fun _ hw' => absurd (hw.symm.trans hw') (by decide)⟩
    | wouldBlock hw => exact ⟨hdrain hw, fun _ hw' => (nomatch hw')⟩
    | err => exact ⟨fun _ => rfl, fun _ _ => hlast⟩
    | aborted => exact ⟨fun _ => rfl, fun _ _ => hlast⟩

/-- Connections that wait while nobody is in `handle_read` have an event due, or the last
    `handle_read` has given up on them. -/
theorem no_connection_stranded {τ : List (ServerEv C)} {s : Server C} (h : Run (server C) τ s) (hb : s.boot ≠ .start)
    (hw : s.watch ≠ .draining) (hne : s.listener.waiting ≠ []) : s.listener.due = true ∨ FailedLast τ := by
  obtain ⟨τ', hr⟩ := h.coarse (T := watched C) (fun s => (s.listener, s.watch)) (by rintro s rfl; exact .inl rfl)
    (fun s e s' hs => listener_watched hs)
  cases hwatch : s.watch with
  | idle => exact .inl (attended hr hwatch hne)
  | draining => exact absurd hwatch hw
  | away => exact .inr ((away_failed h).2 hb hwatch)

/-- Two connections; `accept` takes one and fails on the other. -/
theorem no_connection_stranded_two : ∃ (τ : List (ServerEv Nat)) (s : Server Nat), s.listener.waiting = [8] ∧
    s.listener.due = false ∧ (s.listener.due = true ∨ FailedLast τ) := by
  have h0 : Run (server Nat) [] _ := .init rfl
  have h1 := h0.step (.bind _ rfl (by decide))
  have h2 := h1.step (.arrive _ 7 true fun _ => rfl)
  have h3 := h2.step (.arrive _ 8 true fun _ => rfl)
  have h4 := h3.step (.event _ (by decide) (by decide) rfl)
  have h5 := h4.step (.ok _ 7 [8] rfl rfl)
  have h6 := h5.step (.err _ rfl)
  exact ⟨_, _, rfl, rfl, no_connection_stranded h6 (by decide) (by decide) (by decide)⟩

end Sickle.Net
