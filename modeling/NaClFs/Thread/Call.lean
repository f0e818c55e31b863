/-
`Delegate::Call` and `NaClFs::PostMessage` over any number of threads: two instances of the
rendezvous. They have a mutex and a condition each. They share the queue of the main thread, which
only rules out some of the interleavings considered here.
-/
import NaClFs.Html5.Calls
import NaClFs.Lib.Returns
import NaClFs.Port.PortFileSystem

namespace NaClFs

open Rendezvous

/-! ## Delegates -/

/-- The call whose `Proxy` a completion is about to run. -/
def Completion.callee (w : World) : Completion → Option Nat
  | .proxy callback | .query _ callback | .read _ callback => callback
  | .listing dirp => (w.dir dirp).bind Html5FileSystemDir.callback

theorem deliver_callee (w : World) (p : Completion) (answer : Answer) :
    (deliver w p answer).2 = p.callee w := by
  cases p with
  | listing dirp =>
    have : (w.record (.delivered (.listing dirp) answer)).dir dirp = w.dir dirp := rfl
    simp only [deliver, Completion.callee, this]
    cases w.dir dirp <;> rfl
  | _ => rfl

/-- A run that does not chain has handed no callback over. -/
theorem switch_completion (imm : Request → Int) (w : World) (d : Nat) (callback : Int) (f : Function)
    (h : (Html5FileSystem.switch imm w d callback f).chaining = false) :
    (Html5FileSystem.switch imm w d callback f).completion = none := by
  cases f <;> simp only [Html5FileSystem.switch] at h ⊢
  case open_ => unfold Html5FileSystem.openCall Html5FileSystem.initialize_ at *; grind
  case stat => unfold Html5FileSystem.statCall Html5FileSystem.initialize_ at *; grind
  case close => rfl
  case fstat => unfold Html5FileSystem.fstatCall at *; grind
  case read => unfold Html5FileSystem.readCall at *; grind
  case write => unfold Html5FileSystem.writeCall at *; grind
  case seek => unfold Html5FileSystem.seekCall at *; grind
  case isatty => rfl
  case fcntl => unfold Html5FileSystem.fcntlCall at *; grind
  case mkdir => unfold Html5FileSystem.mkDirCall Html5FileSystem.initialize_ at *; grind
  case opendir => unfold Html5FileSystem.openDirCall Html5FileSystem.initialize_ at *; grind
  case rewinddir => unfold Html5FileSystem.rewindDirCall at *; grind
  case readdir => unfold Html5FileSystem.readDirCall at *; grind
  case closedir => unfold Html5FileSystem.closeDirCall at *; grind

/-- How a `Proxy` run ends; a request that was accepted stays pending. -/
def Entry.ran (e : Entry) : Ran Result (Request × Completion) where
  result := e.result
  final := !e.chaining
  pending := e.request.bind fun request => e.completion.map (Prod.mk request)

namespace Delegate

/-- `Call` up to the lock, and the runs of `Proxy` up to the signal. The environment decides the
immediate code of each request. -/
def service : Service World Arguments Result (Request × Completion) Answer (Request → Int) where
  enter := World.enter
  start imm w call :=
    let e := proxy imm w call ppOk
    (e.world, e.ran)
  resume imm w p answer :=
    match deliver w p.2 answer with
    | (w, none) => (w, none)
    | (w, some call) =>
      let e := proxy imm w call answer.code
      (e.world, some (call, e.ran))

abbrev State := Sys World Result (Request × Completion) Answer

abbrev Action := Act Arguments Answer (Request → Int)

/-- A step of the worker threads, the main thread and the backend. -/
abbrev step : State → Action → Option State := Sys.step service

/-- The condition a step is taken under. The callback of a completion is that of the call its request
was issued for, so `callback_` was not overwritten in between; and `pthread_cond_signal` wakes the
caller of the call that has just finished. -/
def Undisturbed (s : State) : Action → Prop
  | .run _ => ∀ c p answer queue, s.queue = (c, .done p answer) :: queue →
      ∀ c', p.2.callee s.world = some c' → c' = c
  | .signal (some t) => ∀ c, s.main = .signalling c → s.threads t = .waiting c
  | _ => True

theorem service_lawful : service.Lawful where
  start imm w c h := by
    have : (proxy imm w c ppOk).completion = none :=
      switch_completion imm w _ _ _ (by simpa [service, Entry.ran, proxy] using h)
    simp [service, Entry.ran, this]
  resume imm w p answer w' c r hr h := by
    simp only [service] at hr
    split at hr
    · cases hr
    · next w'' call _ =>
      cases hr
      have : (proxy imm w'' c answer.code).completion = none :=
        switch_completion imm w'' _ _ _ (by simpa [Entry.ran, proxy] using h)
      simp [Entry.ran, this]

theorem Undisturbed.own {s : State} {a : Action} (h : Undisturbed s a) : s.Own service a := by
  cases a with
  | run imm =>
    -- What `deliver` hands to `Proxy` is the callback the condition speaks of.
    intro c p answer queue hq w c' r hr
    refine h c p answer queue hq c' ?_
    rw [← deliver_callee s.world p.2 answer]
    simp only [service] at hr
    split at hr
    · cases hr
    · next hd => cases hr; rw [hd]
  | signal t => cases t with
    | none => trivial
    | some t => exact h
  | _ => trivial

end Delegate

/-! ## Messages -/

/-- The message each call passes, and what was handed to `Instance::PostMessage`, by the call it was
handed over for. -/
structure Messages where
  sent : Nat → Var
  posted : List (Nat × Var) := []

namespace PostMessage

/-- `PostMessage` up to the lock, and `PostMessageFromMainThread` up to the signal. -/
def service : Service Messages Var Unit Empty Unit Unit where
  enter w call message := { w with sent := Function.update w.sent call message }
  start _ w call := ({ w with posted := w.posted ++ [(call, w.sent call)] }, ⟨(), true, none⟩)
  resume _ _ p _ := p.elim

abbrev State := Sys Messages Unit Empty Unit

abbrev Action := Act Var Unit Unit

abbrev step : State → Action → Option State := Sys.step service

/-- The condition a step is taken under: the signal wakes the caller whose message was handed over. -/
def Undisturbed (s : State) : Action → Prop
  | .signal (some t) => ∀ c, s.main = .signalling c → s.threads t = .waiting c
  | _ => True

theorem service_lawful : service.Lawful where
  start _ _ _ _ := rfl
  resume _ _ p := p.elim

theorem Undisturbed.own {s : State} {a : Action} (h : Undisturbed s a) : s.Own service a := by
  cases a with
  | run i => exact fun c p => p.elim
  | signal t => cases t with
    | none => trivial
    | some t => exact h
  | _ => trivial

/-- The message of a call that finished was handed over. -/
def Posted (s : State) : Prop :=
  ∀ c r, (c, r) ∈ s.finished → (c, s.world.sent c) ∈ s.world.posted

theorem Posted.step {s s' : State} {a : Action} (hi : s.Inv) (hp : Posted s)
    (h : step s a = some s') : Posted s' := by
  cases Sys.step_spec h with
  | enter t q ht =>
    -- The message of the new call overwrites none of a finished one.
    intro c r hc
    have hne : c ≠ s.calls := Nat.ne_of_lt (hi.results c r hc).2
    have := hp c r hc
    simpa [Sys.setThread, service, Function.update_of_ne hne] using this
  | start i c queue w r hm hq hr =>
    cases hr
    intro c' r' hc'
    rcases List.mem_append.1 hc' with hc' | hc'
    · exact List.mem_append_left _ (hp c' r' hc')
    · cases List.mem_singleton.1 hc'
      exact List.mem_append_right _ (List.mem_singleton_self _)
  | resume i c c' p => exact p.elim
  | drop i c p => exact p.elim
  | _ => exact hp

theorem run_posted {m : Nat → Var} {as : List Action} {s : State}
    (hg : Run.Guarded step Undisturbed { world := { sent := m } } as)
    (hr : Run.run step { world := { sent := m } } as = some s) : s.Inv ∧ Posted s :=
  Run.invariant (I := fun s => s.Inv ∧ Posted s) (fun _ _ _ hi ho h =>
    ⟨hi.1.step service_lawful ho.own h, hi.2.step hi.1 h⟩) ⟨.init _, nofun⟩ hg hr

end PostMessage

/-! ## What a call returns -/

/-- Wherever a call is about to be signalled while another caller waits, the wrong wake-up is possible
and lets that caller leave with its call unfinished. -/
def Sharp {W Q R P A I : Type} (S : Service W Q R P A I) (s : Sys W R P A) : Prop :=
  ∀ c c' t, s.main = .signalling c → s.threads t = .waiting c' → c' ≠ c →
    ∃ as s', Run.run (Sys.step S) s as = some s' ∧ ¬ s'.Returns

/-- In a run under the condition every `Call`, and every `PostMessage`, returns only after its own
final run, with the result of that run, and no run is made for a call that has returned. -/
theorem call_returns {w : World} {m : Nat → Var} {as : List Delegate.Action}
    {bs : List PostMessage.Action} {s : Delegate.State} {u : PostMessage.State}
    (hg : Run.Guarded Delegate.step Delegate.Undisturbed { world := w } as)
    (hr : Run.run Delegate.step { world := w } as = some s)
    (hg' : Run.Guarded PostMessage.step PostMessage.Undisturbed { world := { sent := m } } bs)
    (hr' : Run.run PostMessage.step { world := { sent := m } } bs = some u) :
    (s.Returns ∧ Sharp Delegate.service s) ∧
      u.Returns ∧ (∀ c r, (c, r) ∈ u.returned → (c, u.world.sent c) ∈ u.world.posted) ∧
      Sharp PostMessage.service u := by
  have hi := Sys.run_inv Delegate.service_lawful (hg.mono fun _ _ => Delegate.Undisturbed.own) hr
  obtain ⟨hi', hp⟩ := PostMessage.run_posted hg' hr'
  refine ⟨⟨hi.returns, ?_⟩, hi'.returns, ?_, ?_⟩
  · intro c c' t hm ht hne
    exact ⟨_, hi.strays hm ht hne⟩
  · intro c r hc
    obtain ⟨v, -, hv⟩ := hi'.returned c r hc
    exact hp c v hv
  · intro c c' t hm ht hne
    exact ⟨_, hi'.strays hm ht hne⟩

/-- Every request is accepted. -/
def pendingAlways : Request → Int := fun _ => ppOkCompletionPending

/-- A worker reads from one file and another seeks in a second one, until both wait and the main
thread has read's request pending and seek's run finished. -/
def readAndSeek : List Delegate.Action :=
  [.enter 0 ⟨0, .read 0 5⟩, .enter 1 ⟨1, .seek 7 seekSet⟩, .lock 0, .post 0, .wait 0, .lock 1, .post 1,
    .wait 1, .run pendingAlways, .run pendingAlways, .mainLock]

/-- Then the seek is signalled, and the read when it has completed. -/
def signalledInTurn : List Delegate.Action :=
  readAndSeek ++ [.signal (some 1), .mainUnlock, .complete 0 ⟨5, none, str "hello", []⟩, .lock 1,
    .leave 1, .run pendingAlways, .mainLock, .signal (some 0), .mainUnlock, .lock 0, .leave 0]

/-- A worker posts a message. -/
def postOne : List PostMessage.Action :=
  [.enter 0 (.string (str "E")), .lock 0, .post 0, .wait 0, .run (), .mainLock, .signal (some 0),
    .mainUnlock, .lock 0, .leave 0]

theorem call_returns_in_turn :
    ∃ s u, Run.run Delegate.step { world := .blank } signalledInTurn = some s ∧
      Run.run PostMessage.step { world := { sent := fun _ => .other } } postOne = some u ∧
      s.returned = [(1, some (.int 7)), (0, some (.int 5))] ∧ s.Returns ∧ u.Returns := by
  have hg : Run.Guarded Delegate.step Delegate.Undisturbed { world := .blank } signalledInTurn := by
    refine .cons trivial rfl <| .cons trivial rfl <| .cons trivial rfl <| .cons trivial rfl <|
      .cons trivial rfl <| .cons trivial rfl <| .cons trivial rfl <| .cons trivial rfl <|
      .cons (fun c p a q h => nomatch h) rfl <| .cons (fun c p a q h => nomatch h) rfl <|
      .cons trivial rfl <| .cons (fun c h => by cases h; rfl) rfl <| .cons trivial rfl <|
      .cons trivial rfl <| .cons trivial rfl <| .cons trivial rfl <|
      .cons (fun c p a q h => by cases h; exact fun c' h => by cases h; rfl) rfl <| .cons trivial rfl <|
      .cons (fun c h => by cases h; rfl) rfl <| .cons trivial rfl <| .cons trivial rfl <|
      .cons trivial rfl trivial
  have hg' : Run.Guarded PostMessage.step PostMessage.Undisturbed
      { world := { sent := fun _ => .other } } postOne := by
    refine .cons trivial rfl <| .cons trivial rfl <| .cons trivial rfl <| .cons trivial rfl <|
      .cons trivial rfl <| .cons trivial rfl <| .cons (fun c h => by cases h; rfl) rfl <|
      .cons trivial rfl <| .cons trivial rfl <| .cons trivial rfl trivial
  have h := call_returns hg rfl hg' rfl
  exact ⟨_, _, rfl, rfl, rfl, h.1.1, h.2.1⟩

/-- The signal for the seek wakes the reader, which leaves with the 0 of its first run; when the read
completes, `Proxy` runs on the `Arguments` of a call that has returned. -/
theorem signal_wakes_reader :
    ∃ s : Delegate.State, Run.run Delegate.step { world := .blank } (readAndSeek ++
        [.signal (some 0), .mainUnlock, .complete 0 ⟨5, none, str "hello", []⟩, .lock 0, .leave 0,
          .run pendingAlways]) = some s ∧
      s.returned = [(0, some (.int 0))] ∧ s.stale = [0] ∧ ¬ s.Returns :=
  ⟨_, rfl, rfl, rfl, fun h => nomatch h.stale⟩

end NaClFs
