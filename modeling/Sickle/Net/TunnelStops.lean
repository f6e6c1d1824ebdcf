/-
  Sickle.Net.TunnelStops — where the thread of a tunnel stops.

  A callback of one connection locks its way to the other. `ServerSession::on_recv` runs
  with the server's connection and the server's session locked, and sends to the client:
  if the client's socket refuses the write, the client's connection is closed there and
  then, and the callback for that, `TunnelServer::on_error`, looks for the server's
  connection through the session that is locked.

  - `reads_open`: the first refused write of the server's event stops it.
  - `called_stops`: what the loop runs stops as `Stops` says, or comes back.
  - `tunnel_stops_iff`: from every reachable state, the thread stops exactly there, or
    where the shutdown of the client's socket fails in the job of
    `ServerSession::on_error`, which unwraps it.
-/

import Sickle.Net.Tunnel

namespace Sickle.Net

open Sickle.Lib Sickle.Lib.Guarded TcpConnection Tunnel

/-- The socket of the client refuses what a read of the server's event brought. -/
def RefusedRelay (s : Tunnel) (word : BitVec 64) (r : Answered) : Prop :=
  Ready.isReadable ⟨word⟩ = true ∧ s.clientGone = false ∧ s.client.writeEnabled = true ∧
    ∃ k < r.chunks.length, s.clientWrites k = .err

/-- The thread stops so when the loop runs what `e` says. -/
def Stops (s : Tunnel) (e : TunnelEv) (x : Stop) : Prop :=
  match e with
  | .server word r => x = .deadlock ∧ RefusedRelay s word r
  | .job ok => x = .panic ∧ ok = false ∧ ∃ rest, s.jobs = .shutdownClient :: rest
  | _ => False

section Stopping

variable {s : Tunnel}

/-- With the sessions free, the callbacks of the client's connection come back. -/
theorem client_free {held : List Mutex} (h1 : .tunnelServer ∉ held) (h2 : .tunnel ∉ held) (h3 : .serverSession ∉ held) :
    Keeps TunnelServer.jobs clientWrite held (fun _ _ _ => True) fun _ => False where
  read r b d s _ := by
    simp only [TunnelServer.jobs, wp_lock, wp_clientOnRecv, h1, h2, h3, List.mem_cons]
    simp
  writ r b s _ := by
    simp only [TunnelServer.jobs, TunnelServer.onWritten, wp_lock, wp_pure, h1]
    simp
  close r b s _ := by
    simp only [TunnelServer.jobs, wp_lock, wp_clientOnError, h1, h2, h3, List.mem_cons]
    simp
  write r b s _ := by
    rw [wp_clientWrite]
    trivial

/-- So do those of the server's that do not read. -/
theorem server_free {held : List Mutex} (h : .serverSession ∉ held) (P : Prop) (hp : P) (stopped : Stop → Prop) :
    KeepsWrites ServerSession.jobs serverWrite held (fun _ _ _ => P) stopped where
  writ r b s _ := by
    simp only [ServerSession.jobs, ServerSession.onWritten, wp_lock, wp_pure, if_neg h]
    exact hp
  close r b s _ := by
    simp only [ServerSession.jobs, wp_lock, wp_serverOnError, if_neg h]
    split <;> exact hp
  write r b s _ := by
    rw [wp_serverWrite]
    exact hp

/-- The client can be sent to, and waits for nothing. -/
structure Open (s : Tunnel) : Prop where
  alive : s.clientGone = false
  enabled : s.client.writeEnabled = true
  closed : s.client.closed = false
  empty : Empty s.client

/-- `send` with the server's session held: the callback for a refused write does not come
    back. -/
theorem clientSend_open {held : List Mutex} (h : Open s) (h1 : .tunnelServer ∉ held) (h2 : .serverSession ∈ held) {bytes : Bytes}
    (hb : bytes ≠ []) : Wp (clientSend bytes) held s
      (fun _ s' => s.clientWrites 0 ≠ .err ∧ Open s' ∧ s'.clientWrites = fun k => s.clientWrites (k + 1))
      fun x => x = .deadlock ∧ s.clientWrites 0 = .err := by
  have hlen : 0 < bytes.length := List.length_pos_iff.mpr hb
  unfold clientSend sendWith writeDataWith
  simp only [h.enabled, h.empty.1, h.empty.2, Bool.true_eq_false, if_false, Nat.pos_iff_ne_zero.mp hlen, List.nil_append,
    List.length_nil, Nat.lt_irrefl, hlen, if_true, wp_bind, wp_get, wp_clientWrite]
  unfold writeChunkWith
  cases hw : s.clientWrites 0 with
  | ok cnt =>
    simp only [tryWriteBuf, mapNonBlock]
    split
    · exact ⟨by simp, ⟨h.alive, rfl, h.closed, rfl, rfl⟩, rfl⟩
    · simp only [TunnelServer.jobs, TunnelServer.onWritten, wp_bind, wp_lock, if_neg h1, wp_pure, Bool.true_eq_false, if_false]
      exact ⟨by simp, ⟨h.alive, rfl, h.closed, rfl, rfl⟩, rfl⟩
  | wouldBlock => exact ⟨by simp, ⟨h.alive, rfl, h.closed, rfl, rfl⟩, rfl⟩
  | err =>
    simp only [tryWriteBuf, mapNonBlock, handleCloseWith, emit, h.closed, Bool.false_eq_true, if_false, TunnelServer.jobs,
      wp_bind, wp_lock, if_neg h1, wp_clientOnError]
    rw [if_pos (.inr (List.mem_cons_of_mem _ h2))]
    exact ⟨trivial, trivial⟩

/-- The reads of the server's event: the first refused write stops them. -/
theorem reads_open (ds : List Bytes) (hds : [] ∉ ds) : ∀ (v : TcpConnection) (s : Tunnel), Open s → v.readBuffer = [] →
    Wp (readsWith ServerSession.jobs v ds) [.serverConn, .job] s
      (fun v' _ => v'.readBuffer = [] ∧ ∀ k < ds.length, s.clientWrites k ≠ .err)
      fun x => x = .deadlock ∧ ∃ k < ds.length, s.clientWrites k = .err := by
  induction ds with
  | nil => exact fun v s _ hv => ⟨hv, fun k hk => absurd hk (Nat.not_lt_zero k)⟩
  | cons d ds ih =>
    intro v s h hv
    rw [List.mem_cons, not_or] at hds
    have hread : Wp (readWith ServerSession.jobs v d) [.serverConn, .job] s
        (fun v' s' => v'.readBuffer = [] ∧ s.clientWrites 0 ≠ .err ∧ Open s' ∧ s'.clientWrites = fun k => s.clientWrites (k + 1))
        fun x => x = .deadlock ∧ s.clientWrites 0 = .err := by
      unfold readWith
      simp only [hv, List.nil_append, ServerSession.jobs, wp_bind, wp_lock, wp_serverOnRecv, h.alive]
      rw [if_neg (by decide), if_neg (by simpa using Ne.symm hds.1), if_neg (by decide)]
      refine (clientSend_open h (by decide) (by decide) (Ne.symm hds.1)).mono ?_ fun _ hx => hx
      exact fun _ s' hs' => ⟨rfl, hs'⟩
    refine Wp.bind (hread.mono (fun _ _ hs' => hs') ?_) ?_
    · exact fun x hx => ⟨hx.1, 0, Nat.zero_lt_succ _, hx.2⟩
    · rintro v' s' ⟨hv', h0, hs', hw⟩
      refine (ih hds.2 v' s' hs' hv').mono ?_ ?_
      · rintro v'' _ ⟨hv'', hk⟩
        refine ⟨hv'', fun k hlt => ?_⟩
        cases k with
        | zero => exact h0
        | succ k =>
          have := hk k (Nat.lt_of_succ_lt_succ hlt)
          rwa [hw] at this
      · rintro x ⟨hx, k, hlt, hk⟩
        rw [hw] at hk
        exact ⟨hx, k + 1, Nat.succ_lt_succ hlt, hk⟩

/-- A client that is gone, or may not be sent to, stops nothing. -/
theorem server_shut : Keeps ServerSession.jobs serverWrite [.serverConn, .job]
    (fun _ _ s => s.clientGone = true ∨ s.client.writeEnabled = false) fun _ => False where
  read r b d s h := by
    simp only [ServerSession.jobs, wp_lock, wp_serverOnRecv]
    rw [if_neg (by decide)]
    split
    · exact h
    next hor =>
      have hoff : s.client.writeEnabled = false := h.resolve_left fun hg => hor (.inl hg)
      rw [if_neg (by decide)]
      simp only [clientSend, sendWith, hoff, if_true, wp_bind, wp_get, wp_pure, wp_modify]
      exact .inr trivial
  writ r b s h := by
    simp only [ServerSession.jobs, ServerSession.onWritten, wp_lock, wp_pure]
    rw [if_neg (by decide)]
    exact h
  close r b s h := by
    simp only [ServerSession.jobs, wp_lock, wp_serverOnError]
    rw [if_neg (by decide)]
    split <;> exact h
  write r b s h := by
    rw [wp_serverWrite]
    exact h

theorem handleReadWith_stops (h : Relay s) {word : BitVec 64} {r : Answered} (hw : Ready.isReadable ⟨word⟩ = true) (hr : [] ∉ r.chunks)
    {v : TcpConnection} (hv : v.readBuffer = s.server.readBuffer) :
    Wp (handleReadWith ServerSession.jobs v r) [.serverConn, .job] s (fun _ _ => ¬ RefusedRelay s word r)
      fun x => x = .deadlock ∧ RefusedRelay s word r := by
  by_cases hopen : s.clientGone = false ∧ s.client.writeEnabled = true
  · obtain ⟨halive, henabled⟩ := hopen
    have hclosed : s.client.closed = false := by
      by_contra hc
      exact Bool.noConfusion ((h.client.rest.tidy.off (by simpa using hc)).symm.trans henabled)
    refine Wp.bind ((reads_open r.chunks hr v s ⟨halive, henabled, hclosed, h.client.rest.empty⟩
      (hv.trans (h.down.first halive))).mono (fun _ _ hs' => hs') ?_) ?_
    · exact fun x hx => ⟨hx.1, hw, halive, henabled, hx.2⟩
    · rintro v' s' ⟨hv', hk⟩
      have hfine : ¬ RefusedRelay s word r := fun hx => by
        obtain ⟨-, -, -, k, hlt, he⟩ := hx
        exact hk k hlt he
      have free := server_free (show Mutex.serverSession ∉ [.serverConn, .job] by decide) _ hfine fun x => x = .deadlock ∧ RefusedRelay s word r
      cases r.last with
      | ok u =>
        refine Wp.bind ?_ fun v'' s'' (_ : True) => free.handleCloseWith _ hfine
        unfold readWith
        simp only [hv', List.nil_append, ServerSession.jobs, wp_bind, wp_lock, wp_serverOnRecv]
        rw [if_neg (by decide), if_pos (.inr trivial)]
        trivial
      | wouldBlock => exact hfine
      | err => exact free.handleCloseWith _ hfine
  · have hoff : s.clientGone = true ∨ s.client.writeEnabled = false := by
      by_cases hg : s.clientGone = true
      · exact .inl hg
      · refine .inr (Bool.eq_false_iff.mpr fun he => hopen ⟨by simpa using hg, he⟩)
    refine (server_shut.handleReadWith v r hoff).mono ?_ fun _ hx => hx.elim
    exact fun _ _ _ hx => hopen ⟨hx.2.1, hx.2.2.1⟩

theorem serverEvent_stops (h : Relay s) (word : BitVec 64) (r : Answered) (hr : [] ∉ r.chunks) :
    Wp (serverEvent word r) [] s (fun _ _ => ¬ RefusedRelay s word r) fun x => x = .deadlock ∧ RefusedRelay s word r := by
  simp only [serverEvent, wp_lock]
  rw [if_neg (by decide), if_neg (by decide)]
  unfold handleEventWith
  simp only [wp_bind, wp_get, wp_modify]
  have hread : Wp (onReady (Ready.isReadable ⟨word⟩)
      (fun c => handleReadWith ServerSession.jobs { c with readTriggered := true } r) s.server) [.serverConn, .job] s
      (fun _ _ => ¬ RefusedRelay s word r) fun x => x = .deadlock ∧ RefusedRelay s word r := by
    unfold onReady
    split
    next hw => exact handleReadWith_stops h hw hr rfl
    next hw => exact fun hx => hw hx.1
  refine hread.mono (fun v s' hfine => ?_) fun _ hx => hx
  have free := server_free (show Mutex.serverSession ∉ [.serverConn, .job] by decide) _ hfine fun x => x = .deadlock ∧ RefusedRelay s word r
  have hwrite : Wp (onReady (Ready.isWritable ⟨word⟩)
      (fun c => handleWriteWith ServerSession.jobs serverWrite { c with writeTriggered := true }) v) [.serverConn, .job] s'
      (fun _ _ => True) fun x => x = .deadlock ∧ RefusedRelay s word r := by
    unfold onReady
    split
    · exact (free.handleWriteWith _ hfine).mono (fun _ _ _ => trivial) fun _ hx => hx
    · trivial
  refine hwrite.mono (fun v' s'' _ => ?_) fun _ hx => hx
  unfold onReady
  split
  · exact free.handleCloseWith _ hfine
  · exact hfine

theorem serverSend_free {held : List Mutex} (h : .serverSession ∉ held) (bytes : Bytes) {P : Prop} (hp : P) {stopped : Stop → Prop} :
    Wp (serverSend bytes) held s (fun _ _ => P) stopped := by
  simp only [serverSend, wp_bind, wp_get, wp_modify]
  exact (server_free h P hp stopped).sendWith _ bytes hp

theorem runJob_stops {j : TunnelJob} {rest : List TunnelJob} {ok : Bool} (hj : s.jobs = j :: rest) :
    Wp (runJob j ok) [] { s with jobs := rest } (fun _ _ => ∀ y, ¬ Stops s (.job ok) y) (Stops s (.job ok)) := by
  have never : j ≠ .shutdownClient → ∀ y, ¬ Stops s (.job ok) y := fun hne y hy => by
    obtain ⟨-, -, rest', hx⟩ := hy
    rw [hj] at hx
    exact hne (List.cons.inj hx).1
  cases j with
  | flush =>
    simp only [runJob, wp_lock, wp_bind, wp_get, wp_ite]
    repeat rw [if_neg (by decide)]
    split
    · exact serverSend_free (by decide) _ (never (by decide))
    · exact never (by decide)
  | shutdownClient =>
    simp only [runJob, wp_lock, wp_bind, wp_modify, wp_ite, wp_pure, wp_stop]
    repeat rw [if_neg (by decide)]
    cases ok with
    | true => exact fun y hy => Bool.noConfusion hy.2.1
    | false => exact ⟨rfl, rfl, rest, hj⟩
  | send bytes =>
    simp only [runJob, wp_lock]
    repeat rw [if_neg (by decide)]
    exact serverSend_free (by decide) _ (never (by simp))
  | shutdownServer =>
    simp only [runJob, wp_lock, wp_modify]
    repeat rw [if_neg (by decide)]
    exact never (by decide)

/-- What the loop runs stops as `Stops` says, or it comes back and `Stops` says nothing. -/
theorem called_stops {e : TunnelEv} {p : TunnelM Unit} (h : Relay s) (hc : LoopRuns s e p) :
    Wp p [] s (fun _ _ => ∀ y, ¬ Stops s e y) (Stops s e) := by
  cases hc with
  | client word r _ _ =>
    simp only [clientEvent, wp_lock, wp_bind, wp_get, wp_modify]
    rw [if_neg (by decide), if_neg (by decide)]
    refine ((client_free (by decide) (by decide) (by decide)).handleEventWith s.client word r trivial).mono ?_ fun _ hx => hx.elim
    exact fun _ _ _ _ hy => hy
  | server word r ha _ hr =>
    refine (serverEvent_stops h word r hr).mono ?_ fun _ hx => hx
    exact fun _ _ hfine y hy => hfine hy.2
  | connected err err' _ =>
    rw [wp_bind, wp_modify]
    cases err with
    | true =>
      simp only [connJob, if_true, wp_lock, wp_serverOnError]
      repeat rw [if_neg (by decide)]
      split <;> exact fun _ hy => hy
    | false =>
      simp only [connJob, Bool.false_eq_true, if_false, wp_lock, wp_bind, wp_modify, ServerSession.onConnect, wp_pure]
      repeat rw [if_neg (by decide)]
      cases err' with
      | true => exact fun _ hy => hy
      | false =>
        simp only [Bool.false_eq_true, if_false, ServerSession.getClientConn, wp_bind, wp_get, wp_pure, wp_ite, wp_modify]
        split <;> exact fun _ hy => hy
  | job j rest ok hj =>
    rw [wp_bind, wp_modify]
    exact runJob_stops hj

end Stopping

theorem stops_unique {s : Tunnel} {e : TunnelEv} {x y : Stop} (hx : Stops s e x) (hy : Stops s e y) : x = y := by
  cases e with
  | server word r => exact hx.1.trans hy.1.symm
  | job ok => exact hx.1.trans hy.1.symm
  | client word r => exact hx.elim
  | connected err err' => exact hx.elim
  | clientGone => exact hx.elim
  | serverGone => exact hx.elim

/-- Whatever the sockets answer, the loop's thread stops exactly there: on the mutex of the
    server's session, which it holds, when the client's socket refuses what the server
    sent; and by a panic when the shutdown of the client's socket fails. -/
theorem tunnel_stops_iff {τ : List TunnelEv} {s : Tunnel} {e : TunnelEv} {p : TunnelM Unit} (h : Run tunnel τ s)
    (cw sw : Nat → IoRes Nat) (hc : LoopRuns { s with clientWrites := cw, serverWrites := sw } e p) (x : Stop) :
    p [] { s with clientWrites := cw, serverWrites := sw } = .error x ↔
      Stops { s with clientWrites := cw, serverWrites := sw } e x := by
  have hwp := called_stops ((relay_run h).answered cw sw) hc
  refine ⟨hwp.of_error, fun hx => ?_⟩
  cases hrun : p [] { s with clientWrites := cw, serverWrites := sw } with
  | ok a =>
    obtain ⟨u, s'⟩ := a
    exact (hwp.of_ok hrun x hx).elim
  | error y => rw [stops_unique hx (hwp.of_error hrun)]

/-- The server answers, and the client has gone away. -/
theorem tunnel_stops_iff_reset : ∃ (s : Tunnel) (e : TunnelEv) (p : TunnelM Unit), LoopRuns s e p ∧
    (p [] s = .error .deadlock ↔ Stops s e .deadlock) ∧ Stops s e .deadlock := by
  obtain ⟨τ, h⟩ := fourBytes_run
  have hc : LoopRuns { fourBytes with clientWrites := fun _ => .err, serverWrites := fun _ => .err }
      (.server Ready.readable.bits ⟨[[5]], .wouldBlock⟩) (serverEvent Ready.readable.bits ⟨[[5]], .wouldBlock⟩) :=
    .server _ _ _ rfl rfl (by decide)
  exact ⟨_, _, _, hc, tunnel_stops_iff h _ _ hc .deadlock, rfl, rfl, rfl, rfl, 0, Nat.zero_lt_one, rfl⟩

end Sickle.Net
