/-
  Sickle.Poll.Awaken — the poller is told of the byte in the pipe.

  The awakener's read end is registered edge-triggered, so a byte in the pipe wakes a
  poller that sleeps in `select` only if an event is due for it. Here the pipe of
  `Sickle.Poll.Sleep` is a source of `Sickle.Lib.Edge`: a `wakeup` that writes into the
  empty pipe makes an event due, one that finds a byte there need not, and `select`
  answers `Ok(true)` only when one is due, and takes it away. `cleanup` reads until the
  pipe is empty.

  - `a_sleeper_is_told`: while the poller is blocked in `select` after `prepare_for_sleep`
    returned true, every node that took its place in the queue has been handed out, or the
    awakener's event is due, or the producer that replaced the sleep marker has still to
    link its node or to write its byte.
-/

import Sickle.Lib.Edge
import Sickle.Lib.Simulation
import Sickle.Poll.Sleep

namespace Sickle.Poll

open Function (update)
open Sickle.Lib

structure Awakened (ι ν : Type) where
  poller : Poller ι ν
  due : Bool

inductive AwakenEv (ι ν : Type) where
  | poll (e : PollEv ι ν)
  | spurious

variable {ι ν : Type} [DecidableEq ι] [DecidableEq ν]

/-- `select` finds the awakener's event, which `Ok(true)` stands for. -/
def Notifies (s s' : Poller ι ν) : Prop := ∃ room, s'.pc = .cleanup room ∧ ∃ b, s.pc = .select b

inductive AwakenStep (more : Nat) : Awakened ι ν → AwakenEv ι ν → Awakened ι ν → Prop
  | spurious (s : Awakened ι ν) : AwakenStep more s .spurious { s with due := true }
  /-- `wakeup` writes its byte. -/
  | wrote (s : Awakened ι ν) (p : Poller ι ν) (e : PollEv ι ν) (due : Bool) : PollStep more s.poller e p →
      p.bytes = s.poller.bytes + 1 → (s.poller.bytes = 0 ∨ s.due = true → due = true) → AwakenStep more s (.poll e) ⟨p, due⟩
  | notified (s : Awakened ι ν) (p : Poller ι ν) (e : PollEv ι ν) : PollStep more s.poller e p → Notifies s.poller p →
      s.due = true → AwakenStep more s (.poll e) ⟨p, false⟩
  /-- Nothing is written: a byte more does not fit into a full pipe. -/
  | other (s : Awakened ι ν) (p : Poller ι ν) (e : PollEv ι ν) : PollStep more s.poller e p → ¬ Notifies s.poller p →
      p.bytes = s.poller.bytes ∨ (∃ n, e = .read n) → AwakenStep more s (.poll e) ⟨p, s.due⟩

/-- A new poller, its awakener registered. -/
def awakened (ι ν : Type) [DecidableEq ι] [DecidableEq ν] (more : Nat) : Lts (Awakened ι ν) (AwakenEv ι ν) :=
  ⟨fun s => s = ⟨⟨Queue.new ι ν, .start, 0, none⟩, false⟩, AwakenStep more⟩

/-! ## The pipe is watched -/

/-- `poll2` is in `cleanup`. -/
def PollPc.watch (pc : PollPc ν) : Watch :=
  match pc with
  | .cleanup _ => .draining
  | _ => .idle

/-- What is in the pipe. -/
def pipe (s : Awakened ι ν) : Source Unit × Watch := (⟨List.replicate s.poller.bytes (), s.due⟩, s.poller.pc.watch)

theorem replicate_succ_end (n : Nat) : List.replicate (n + 1) () = List.replicate n () ++ [()] := List.replicate_succ'

/-- A step of the poller that leaves the pipe as it is, and `select` without an event of
    the awakener, is none of the watch, or the end of `cleanup`. -/
theorem poller_watch {more : Nat} {p p' : Poller ι ν} {e : PollEv ι ν} (hs : PollStep more p e p') (hn : ¬ Notifies p p') :
    (p.pc.watch = p'.pc.watch ∧ ∀ n, e ≠ .read n) ∨ (p.pc.watch = .draining ∧ p'.pc.watch = .idle ∧ p.bytes = 0 ∧ p'.bytes = 0) ∨
      (p.pc.watch = .draining ∧ p'.pc.watch = .draining ∧ ∃ n, p'.bytes = p.bytes - n) := by
  cases hs with
  | queue e q _ _ => exact .inl ⟨rfl, by simp⟩
  | returned i w q _ => exact .inl ⟨rfl, by simp⟩
  | pollZero h => exact .inl ⟨by rw [h]; rfl, by simp⟩
  | pollPrepare q h _ => exact .inl ⟨by rw [h]; rfl, by simp⟩
  | prepared b q h _ => exact .inl ⟨by rw [h]; rfl, by simp⟩
  | selectedNotify b room h => exact absurd ⟨room, rfl, b, h⟩ hn
  | selected b room h => exact .inl ⟨by rw [h]; rfl, by simp⟩
  | selectedFull b q h _ => exact .inl ⟨by rw [h]; rfl, by simp⟩
  | interrupted b h => exact .inl ⟨rfl, by simp⟩
  | failed b h => exact .inl ⟨by rw [h]; rfl, by simp⟩
  | read room h _ => exact .inr (.inr ⟨by rw [h]; rfl, by rw [h]; rfl, _, rfl⟩)
  | readNone room h h0 => exact .inr (.inl ⟨by rw [h]; rfl, rfl, h0, h0⟩)
  | readNoneFull q h h0 _ => exact .inr (.inl ⟨by rw [h]; rfl, rfl, h0, h0⟩)
  | cleared q h _ => exact .inl ⟨by rw [h]; rfl, by simp⟩
  | full u h => exact .inl ⟨by rw [h]; rfl, by simp⟩
  | dequeue room u q h _ => exact .inl ⟨by rw [h]; rfl, by simp⟩
  | empty room u r q h _ _ => exact .inl ⟨by rw [h]; rfl, by simp⟩
  | data room u p q h _ => exact .inl ⟨by rw [h]; rfl, by simp⟩
  | taken p room u event h => exact .inl ⟨by rw [h]; rfl, by simp⟩
  | requeue n room u event q h _ => exact .inl ⟨by rw [h]; rfl, by simp⟩
  | requeued event room u q h _ => exact .inl ⟨by rw [h]; rfl, by simp⟩

/-- Only a producer's `wakeup` adds a byte. -/
theorem written_watch {more : Nat} {p p' : Poller ι ν} {e : PollEv ι ν} (hs : PollStep more p e p') (hb : p'.bytes = p.bytes + 1) :
    p'.pc = p.pc := by
  cases hs with
  | returned i w q _ => rfl
  | read room h hpos =>
    change p.bytes - min READ_BUF p.bytes = p.bytes + 1 at hb
    omega
  | queue e q _ _ => rfl
  | interrupted b h => rfl
  | _ => exact absurd hb (Nat.ne_of_lt (Nat.lt_succ_self _))

theorem pipe_watched {more : Nat} {s s' : Awakened ι ν} {e : AwakenEv ι ν} (h : AwakenStep more s e s') :
    ∃ p, Path (watched Unit) (pipe s) p (pipe s') := by
  cases h with
  | spurious => exact ⟨_, Path.nil.step (.stir _ (.spurious _))⟩
  | wrote p e due hs hb hdue =>
    have hpc := written_watch hs hb
    have hst : Source.Stir (⟨List.replicate s.poller.bytes (), s.due⟩ : Source Unit) ⟨List.replicate s.poller.bytes () ++ [()], due⟩ :=
      .arrive _ () due (by simpa using hdue)
    have hp : pipe ⟨p, due⟩ = (⟨List.replicate s.poller.bytes () ++ [()], due⟩, s.poller.pc.watch) := by
      rw [pipe, hpc, hb, replicate_succ_end]
    rw [hp]
    exact ⟨_, Path.nil.step (.stir s.poller.pc.watch hst)⟩
  | notified p e hs hn hdue =>
    obtain ⟨room, hcl, b, hsel⟩ := hn
    have hidle : pipe s = (⟨List.replicate s.poller.bytes (), s.due⟩, .idle) := by
      rw [pipe, hsel]
      rfl
    have hb : p.bytes = s.poller.bytes := by
      cases hs with
      | selectedNotify => rfl
      | _ => simp_all
    have hp : pipe ⟨p, false⟩ = (⟨List.replicate s.poller.bytes (), false⟩, .draining) := by
      rw [pipe, hcl, hb]
      rfl
    rw [hidle, hp]
    exact ⟨_, Path.nil.step (.notice _ .idle (by decide) hdue)⟩
  | other p e hs hn hb =>
    rcases poller_watch hs hn with ⟨hw, hne⟩ | ⟨hw, hw', h0, h0'⟩ | ⟨hw, hw', n, hn⟩
    · have hb := hb.resolve_right fun hr => hr.elim hne
      have hp : pipe ⟨p, s.due⟩ = pipe s := by rw [pipe, pipe, hb, hw]
      rw [hp]
      exact ⟨_, .nil⟩
    · rw [pipe, pipe, hw, hw', h0, h0']
      exact ⟨_, Path.nil.step (.foundNone _ rfl)⟩
    · rw [pipe, pipe, hw, hw', hn, ← List.drop_replicate]
      exact ⟨_, Path.nil.step (.take _ .draining n (by decide))⟩

/-- The poller's part of a history. -/
def pollEvents (τ : List (AwakenEv ι ν)) : List (PollEv ι ν) :=
  τ.filterMap fun e => match e with
    | .poll e => some e
    | .spurious => none

theorem poller_run {more : Nat} {τ : List (AwakenEv ι ν)} {s : Awakened ι ν} (h : Run (awakened ι ν more) τ s) :
    Run (poller ι ν more) (pollEvents τ) s.poller := by
  have hpoll : ∀ (τ : List (AwakenEv ι ν)) (e : PollEv ι ν), pollEvents (τ ++ [.poll e]) = pollEvents τ ++ [e] := by
    intro τ e
    rw [pollEvents, List.filterMap_append]
    rfl
  induction h with
  | init hi =>
    obtain rfl := hi
    exact .init rfl
  | step _ hs ih =>
    cases hs with
    | spurious =>
      rw [pollEvents, List.filterMap_append]
      exact (List.append_nil _).symm ▸ ih
    | wrote p e due hs _ _ => exact hpoll _ e ▸ ih.step hs
    | notified p e hs _ _ => exact hpoll _ e ▸ ih.step hs
    | other p e hs _ _ => exact hpoll _ e ▸ ih.step hs

/-- While the poller is blocked in `select` with the sleep marker in place, every node that
    took its place in the queue has been handed out, or `select` is about to be told, or the
    producer that replaced the marker has still to link its node or to write its byte. -/
theorem a_sleeper_is_told {more : Nat} {τ : List (AwakenEv ι ν)} {s : Awakened ι ν} (h : Run (awakened ι ν more) τ s)
    (hpc : s.poller.pc = .select true) :
    (swapped (queueEvents (pollEvents τ))).map .node = handedOut (queueEvents (pollEvents τ)) ∨ s.due = true ∨
      ∃ i, s.poller.replacer = some i ∧ Waking s.poller.queue i := by
  obtain ⟨rest, hinv⟩ := poll_inv (poller_run h)
  rcases (hinv.asleep hpc).covered with hn | hb | hw
  · left
    have hh := hinv.holds
    rwa [Holds, hn, List.map_nil, List.append_nil] at hh
  · obtain ⟨τ', hr⟩ := h.coarse (T := watched Unit) pipe (by rintro s rfl; exact .inr rfl) (fun _ _ _ hs => pipe_watched hs)
    have hatt := attended hr
    have hidle : (pipe s).2 = .idle := by
      rw [pipe, hpc]
      rfl
    have hne : (pipe s).1.waiting ≠ [] := by
      show List.replicate s.poller.bytes () ≠ []
      rw [ne_eq, List.replicate_eq_nil_iff]
      omega
    exact .inr (.inl (hatt hidle hne))
  · exact .inr (.inr hw)

/-- A poller goes to sleep, a producer enqueues node 7 behind the sleep marker and writes
    its byte. -/
theorem a_sleeper_is_told_one_node : ∃ (τ : List (AwakenEv Unit Nat)) (s : Awakened Unit Nat), s.poller.bytes = 1 ∧
    ((swapped (queueEvents (pollEvents τ))).map Ptr.node = handedOut (queueEvents (pollEvents τ)) ∨ s.due = true ∨
      ∃ i, s.poller.replacer = some i ∧ Waking s.poller.queue i) := by
  have quiet : ∀ {p p' : Poller Unit Nat}, p.pc.watch = .idle → p'.pc.watch = .idle → ¬ Notifies p p' := by
    rintro p p' - hp' ⟨room, hcl, -⟩
    rw [hcl] at hp'
    cases hp'
  have h0 : Run (awakened Unit Nat 0) [] ⟨⟨Queue.new Unit Nat, .start, 0, none⟩, false⟩ := .init rfl
  have h1 := h0.step (.other _ _ _ (.pollPrepare _ _ rfl (.prepare _ rfl)) (quiet rfl rfl) (.inl rfl))
  have h2 := h1.step (.other _ _ _ (.queue _ _ _ (.prepareStore _ rfl rfl) trivial) (quiet rfl rfl) (.inl rfl))
  have h3 := h2.step (.other _ _ _ (.prepared _ true _ rfl (.prepareSwap _ rfl rfl)) (quiet rfl rfl) (.inl rfl))
  have h4 := h3.step (.other _ _ _ (.queue _ _ _ (.enqueue _ () 7 rfl rfl) trivial) (quiet rfl rfl) (.inl rfl))
  have h5 := h4.step (.other _ _ _ (.queue _ _ _ (.store _ (some ()) (.node 7) rfl) trivial) (quiet rfl rfl) (.inl rfl))
  have h6 := h5.step (.other _ _ _ (.queue _ _ _ (.load _ (some ()) (.node 7) rfl) trivial) (quiet rfl rfl) (.inl rfl))
  have h7 := h6.step (.other _ _ _ (.queue _ _ _ (.swap _ (some ()) (.node 7) .sleepMarker rfl (by decide) rfl) trivial)
    (quiet rfl rfl) (.inl rfl))
  have h8 := h7.step (.other _ _ _ (.queue _ _ _ (.link _ (some ()) (.node 7) .sleepMarker rfl) trivial) (quiet rfl rfl) (.inl rfl))
  have h9 := h8.step (.wrote _ _ _ true (.returned _ () true _ (.returned _ () true rfl)) rfl fun _ => rfl)
  exact ⟨_, _, rfl, a_sleeper_is_told h9 rfl⟩

end Sickle.Poll
