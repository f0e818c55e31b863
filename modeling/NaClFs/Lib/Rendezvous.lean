/-
A rendezvous on one mutex and one condition variable: a caller posts a task to the main thread and
waits; the main thread runs the task, and what the task left pending, until a run is final, and
signals. The wait has no predicate, and the signal wakes any one of the waiting callers.

The service the main thread performs is a parameter.
-/
import NaClFs.Lib.Run
import Mathlib.Logic.Function.Basic
import Mathlib.Data.List.Nodup
import Mathlib.Data.List.Perm.Basic

namespace Rendezvous

variable {W Q R P A I : Type}

/-! ## Services -/

/-- How a run for a call ends: the result it stores, whether it is the last one, and the request it
left pending. -/
structure Ran (R P : Type) where
  result : R
  final : Bool
  pending : Option P

/-- What is served: `enter` is done by the caller before it takes the mutex, `start` is the run a
caller posts, and `resume` the run of a pending request that was answered, if it belongs to a call.
A run depends on what the environment decides about it. -/
structure Service (W Q R P A I : Type) where
  enter : W → Nat → Q → W
  start : I → W → Nat → W × Ran R P
  resume : I → W → P → A → W × Option (Nat × Ran R P)

/-! ## The machine -/

/-- Where a caller is: outside, before the lock, before the post, before the wait, waiting, woken, or
before the unlock. -/
inductive Pc
  | idle
  | entered (c : Nat)
  | holding (c : Nat)
  | posted (c : Nat)
  | waiting (c : Nat)
  | woken (c : Nat)
  | leaving (c : Nat)
  deriving DecidableEq, Repr

/-- Where the main thread is: between runs, or after a final run before the lock, the signal or the
unlock. -/
inductive MainPc
  | idle
  | locking (c : Nat)
  | signalling (c : Nat)
  | unlocking
  deriving DecidableEq, Repr

inductive Holder
  | main
  | thread (t : Nat)
  deriving DecidableEq, Repr

/-- What is in the queue of the main thread. -/
inductive Job (P A : Type)
  | start
  | done (p : P) (a : A)

/-- The state. A task and a pending request are kept with the call whose run they come from. -/
structure Sys (W R P A : Type) where
  world : W
  /-- How many calls were made. -/
  calls : Nat := 0
  threads : Nat → Pc := fun _ => .idle
  /-- Who holds the mutex. -/
  holder : Option Holder := none
  /-- The threads that wait for the condition. -/
  waiters : List Nat := []
  main : MainPc := .idle
  /-- The tasks of the main thread, first in first out. -/
  queue : List (Nat × Job P A) := []
  pending : List (Nat × P) := []
  /-- The result last stored for each call. -/
  results : Nat → Option R := fun _ => none
  /-- The final runs, with the results they stored. -/
  finished : List (Nat × R) := []
  /-- The calls that returned, with what they returned. -/
  returned : List (Nat × Option R) := []
  /-- The runs for a call that had returned. -/
  stale : List Nat := []

/-- The actions of a caller, of the environment and of the main thread. -/
inductive Act (Q A I : Type)
  | enter (t : Nat) (q : Q)
  | lock (t : Nat)
  | post (t : Nat)
  | wait (t : Nat)
  | leave (t : Nat)
  | complete (n : Nat) (a : A)
  | run (i : I)
  | mainLock
  | signal (t : Option Nat)
  | mainUnlock

namespace Sys

def setThread (s : Sys W R P A) (t : Nat) (pc : Pc) : Sys W R P A :=
  { s with threads := Function.update s.threads t pc }

/-- The main thread ran for call `c` and left the world `w`. -/
def ran (s : Sys W R P A) (w : W) (c : Nat) (r : Ran R P) : Sys W R P A :=
  { s with
    world := w
    results := Function.update s.results c (some r.result)
    stale := if c ∈ s.returned.map Prod.fst then s.stale ++ [c] else s.stale
    main := if r.final then .locking c else .idle
    finished := if r.final then s.finished ++ [(c, r.result)] else s.finished
    pending := match r.pending with
      | none => s.pending
      | some p => s.pending ++ [(c, p)] }

@[simp] theorem ran_world (s : Sys W R P A) (w : W) (c : Nat) (r : Ran R P) :
    (s.ran w c r).world = w := rfl

@[simp] theorem ran_calls (s : Sys W R P A) (w : W) (c : Nat) (r : Ran R P) :
    (s.ran w c r).calls = s.calls := rfl

@[simp] theorem ran_finished_final (s : Sys W R P A) (w : W) (c : Nat) (v : R) (p : Option P) :
    (s.ran w c ⟨v, true, p⟩).finished = s.finished ++ [(c, v)] := rfl

@[simp] theorem ran_finished_chained (s : Sys W R P A) (w : W) (c : Nat) (v : R) (p : Option P) :
    (s.ran w c ⟨v, false, p⟩).finished = s.finished := rfl

variable (S : Service W Q R P A I)

/-- One step; none where the action is not enabled. -/
def step (s : Sys W R P A) : Act Q A I → Option (Sys W R P A)
  | .enter t q =>
    match s.threads t with
    | .idle => some ({ s with
        world := S.enter s.world s.calls q
        calls := s.calls + 1 }.setThread t (.entered s.calls))
    | _ => none
  | .lock t =>
    if s.holder = none then
      match s.threads t with
      | .entered c => some ({ s with holder := some (.thread t) }.setThread t (.holding c))
      -- A woken caller takes the mutex again before its wait returns.
      | .woken c => some ({ s with holder := some (.thread t) }.setThread t (.leaving c))
      | _ => none
    else none
  | .post t =>
    match s.threads t with
    | .holding c => some ({ s with queue := s.queue ++ [(c, Job.start)] }.setThread t (.posted c))
    | _ => none
  | .wait t =>
    match s.threads t with
    | .posted c =>
      -- To wait is to give up the mutex, in one step.
      some ({ s with holder := none, waiters := s.waiters ++ [t] }.setThread t (.waiting c))
    | _ => none
  | .leave t =>
    match s.threads t with
    | .leaving c => some ({ s with
        holder := none, returned := s.returned ++ [(c, s.results c)] }.setThread t .idle)
    | _ => none
  | .complete n a =>
    match s.pending[n]? with
    -- Pending requests complete in any order; the queue keeps that order.
    | some (c, p) => some { s with
        pending := s.pending.eraseIdx n, queue := s.queue ++ [(c, Job.done p a)] }
    | none => none
  | .run i =>
    match s.main, s.queue with
    | .idle, (c, .start) :: queue =>
      let (w, r) := S.start i s.world c
      some ({ s with queue := queue }.ran w c r)
    | .idle, (_, .done p a) :: queue =>
      match S.resume i s.world p a with
      | (w, some (c, r)) => some ({ s with queue := queue }.ran w c r)
      | (w, none) => some { s with queue := queue, world := w }
    | _, _ => none
  | .mainLock =>
    match s.main with
    | .locking c =>
      if s.holder = none then some { s with holder := some .main, main := .signalling c } else none
    | _ => none
  | .signal t =>
    match s.main, t with
    -- A signal is lost only when nobody waits for it.
    | .signalling _, none => if s.waiters = [] then some { s with main := .unlocking } else none
    | .signalling _, some t =>
      match s.threads t with
      | .waiting c =>
        if t ∈ s.waiters then
          some ({ s with main := .unlocking, waiters := s.waiters.erase t }.setThread t (.woken c))
        else none
      | _ => none
    | _, _ => none
  | .mainUnlock =>
    match s.main with
    | .unlocking => some { s with holder := none, main := .idle }
    | _ => none

/-- What a step does. -/
inductive Step (s : Sys W R P A) : Act Q A I → Sys W R P A → Prop
  | enter (t : Nat) (q : Q) (ht : s.threads t = .idle) :
      Step s (.enter t q) ({ s with
        world := S.enter s.world s.calls q
        calls := s.calls + 1 }.setThread t (.entered s.calls))
  | hold (t c : Nat) (ht : s.threads t = .entered c) (hh : s.holder = none) :
      Step s (.lock t) ({ s with holder := some (.thread t) }.setThread t (.holding c))
  | relock (t c : Nat) (ht : s.threads t = .woken c) (hh : s.holder = none) :
      Step s (.lock t) ({ s with holder := some (.thread t) }.setThread t (.leaving c))
  | post (t c : Nat) (ht : s.threads t = .holding c) :
      Step s (.post t) ({ s with queue := s.queue ++ [(c, Job.start)] }.setThread t (.posted c))
  | wait (t c : Nat) (ht : s.threads t = .posted c) :
      Step s (.wait t)
        ({ s with holder := none, waiters := s.waiters ++ [t] }.setThread t (.waiting c))
  | leave (t c : Nat) (ht : s.threads t = .leaving c) :
      Step s (.leave t) ({ s with
        holder := none, returned := s.returned ++ [(c, s.results c)] }.setThread t .idle)
  | complete (n : Nat) (a : A) (c : Nat) (p : P) (hp : s.pending[n]? = some (c, p)) :
      Step s (.complete n a) { s with
        pending := s.pending.eraseIdx n, queue := s.queue ++ [(c, .done p a)] }
  | start (i : I) (c : Nat) (queue : List (Nat × Job P A)) (w : W) (r : Ran R P)
      (hm : s.main = .idle) (hq : s.queue = (c, .start) :: queue)
      (hr : S.start i s.world c = (w, r)) : Step s (.run i) ({ s with queue := queue }.ran w c r)
  | resume (i : I) (c c' : Nat) (p : P) (a : A) (queue : List (Nat × Job P A)) (w : W) (r : Ran R P)
      (hm : s.main = .idle) (hq : s.queue = (c, .done p a) :: queue)
      (hr : S.resume i s.world p a = (w, some (c', r))) :
      Step s (.run i) ({ s with queue := queue }.ran w c' r)
  | drop (i : I) (c : Nat) (p : P) (a : A) (queue : List (Nat × Job P A)) (w : W)
      (hm : s.main = .idle) (hq : s.queue = (c, .done p a) :: queue)
      (hr : S.resume i s.world p a = (w, none)) :
      Step s (.run i) { s with queue := queue, world := w, main := .idle }
  | mainLock (c : Nat) (hm : s.main = .locking c) (hh : s.holder = none) :
      Step s .mainLock { s with holder := some .main, main := .signalling c }
  | signalNone (c : Nat) (hm : s.main = .signalling c) (hw : s.waiters = []) :
      Step s (.signal none) { s with main := .unlocking }
  | signal (t c c' : Nat) (hm : s.main = .signalling c) (ht : s.threads t = .waiting c')
      (hw : t ∈ s.waiters) :
      Step s (.signal (some t))
        ({ s with main := .unlocking, waiters := s.waiters.erase t }.setThread t (.woken c'))
  | mainUnlock (hm : s.main = .unlocking) :
      Step s .mainUnlock { s with holder := none, main := .idle }

variable {S}

theorem step_spec {s s' : Sys W R P A} {a : Act Q A I} (h : s.step S a = some s') :
    Step S s a s' := by
  cases a with
  | enter t q =>
    cases ht : s.threads t with
    | idle => simp only [step, ht, Option.some.injEq] at h; subst h; exact .enter t q ht
    | _ => simp [step, ht] at h
  | lock t =>
    simp only [step, Option.ite_none_right_eq_some] at h
    obtain ⟨hh, h⟩ := h
    cases ht : s.threads t with
    | entered c => simp only [ht, Option.some.injEq] at h; subst h; exact .hold t c ht hh
    | woken c => simp only [ht, Option.some.injEq] at h; subst h; exact .relock t c ht hh
    | _ => simp [ht] at h
  | post t =>
    cases ht : s.threads t with
    | holding c => simp only [step, ht, Option.some.injEq] at h; subst h; exact .post t c ht
    | _ => simp [step, ht] at h
  | wait t =>
    cases ht : s.threads t with
    | posted c => simp only [step, ht, Option.some.injEq] at h; subst h; exact .wait t c ht
    | _ => simp [step, ht] at h
  | leave t =>
    cases ht : s.threads t with
    | leaving c => simp only [step, ht, Option.some.injEq] at h; subst h; exact .leave t c ht
    | _ => simp [step, ht] at h
  | complete n a =>
    cases hp : s.pending[n]? with
    | some x => simp only [step, hp, Option.some.injEq] at h; subst h; exact .complete n a x.1 x.2 hp
    | none => simp [step, hp] at h
  | run i =>
    cases hm : s.main with
    | idle =>
      rcases hq : s.queue with _ | ⟨⟨c, j⟩, queue⟩
      · simp [step, hm, hq] at h
      · cases j with
        | start =>
          simp only [step, hm, hq, Option.some.injEq] at h
          subst h
          exact .start i c queue _ _ hm hq rfl
        | done p a =>
          simp only [step, hm, hq] at h
          split at h
          · rename_i w c' r hr
            cases h
            exact .resume i c c' p a queue w r hm hq hr
          · rename_i w hr
            cases h
            exact .drop i c p a queue w hm hq hr
    | _ => simp [step, hm] at h
  | mainLock =>
    cases hm : s.main with
    | locking c =>
      simp only [step, hm, Option.ite_none_right_eq_some, Option.some.injEq] at h
      obtain ⟨hh, rfl⟩ := h
      exact .mainLock c hm hh
    | _ => simp [step, hm] at h
  | signal t =>
    cases hm : s.main with
    | signalling c =>
      cases t with
      | none =>
        simp only [step, hm, Option.ite_none_right_eq_some, Option.some.injEq] at h
        obtain ⟨hw, rfl⟩ := h
        exact .signalNone c hm hw
      | some t =>
        cases ht : s.threads t with
        | waiting c' =>
          simp only [step, hm, ht, Option.ite_none_right_eq_some, Option.some.injEq] at h
          obtain ⟨hw, rfl⟩ := h
          exact .signal t c c' hm ht hw
        | _ => simp [step, hm, ht] at h
    | _ => simp [step, hm] at h
  | mainUnlock =>
    cases hm : s.main with
    | unlocking => simp only [step, hm, Option.some.injEq] at h; subst h; exact .mainUnlock hm
    | _ => simp [step, hm] at h

end Sys

end Rendezvous
