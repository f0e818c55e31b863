/-
One worker and what is owed to it: a run that chains leaves one request outstanding that carries the
call's `Arguments`, so a worker that waits has one run to come. Where the backend refuses a request
whose immediate code is not looked at, nothing is to come.
-/
import NaClFs.Thread.Chains
import NaClFs.Thread.Initialize

namespace NaClFs

open Rendezvous

/-! ## One worker -/

namespace Sole

/-- A step when thread 0 is the only one that calls. -/
def step (u : Delegate.State) : Delegate.Action → Option Delegate.State
  | .enter t arguments => if t = 0 then Delegate.step u (.enter t arguments) else none
  | a => Delegate.step u a

theorem delegate_step {u u' : Delegate.State} {a : Delegate.Action} (h : step u a = some u') :
    Delegate.step u a = some u' ∧ ∀ t arguments, a = .enter t arguments → t = 0 := by
  cases a with
  | enter t arguments =>
    simp only [step, Option.ite_none_right_eq_some] at h
    refine ⟨h.2, ?_⟩
    rintro t' arguments' ⟨⟩
    exact h.1
  | _ => exact ⟨h, nofun⟩

/-- What is owed to the worker. -/
structure Owed (u : Delegate.State) : Prop where
  /-- Where the last run for a call chained, one accepted request is outstanding, and its completion
  carries the `Arguments` of that call. -/
  chained : ∀ c v, u.results c = some v → c ∉ u.finished.map Prod.fst →
    ∃ r p, u.flights = [(c, r, p)] ∧ p.callee u.world = some c
  /-- Where no last run did, none is. -/
  settled : (∀ c v, u.results c = some v → c ∈ u.finished.map Prod.fst) → u.flights = []
  /-- While the worker waits one run is to come, until the final one, after which it is signalled. -/
  waits : ∀ c, u.threads 0 = .waiting c →
    (u.labels = [c] ∧ c ∉ u.finished.map Prod.fst) ∨ (u.labels = [] ∧ u.main.call = some c)
  /-- Before it has posted and after it was woken, none is. -/
  released : (u.threads 0).served = none → u.labels = []

/-- The condition a step is taken under: the requests whose immediate code the run does not look at
are accepted. -/
def Answered (u : Delegate.State) : Delegate.Action → Prop
  | .run imm => ∀ c j queue, u.queue = (c, j) :: queue → ∀ c', (Delegate.entry u.world c j).2.1 = some c' →
      Accepts imm (Delegate.entry u.world c j).1 ((Delegate.entry u.world c j).1.arguments c').delegate
        (Delegate.entry u.world c j).2.2 ((Delegate.entry u.world c j).1.arguments c').function
  | _ => True

/-- What holds in every run of one worker. -/
structure Held (u : Delegate.State) : Prop where
  inv : u.Inv
  idle : ∀ t, t ≠ 0 → u.threads t = .idle
  /-- The call about to be signalled is the one the worker is in. -/
  signalled : ∀ c, u.main.call = some c → (u.threads 0).served = some c
  /-- `callback_` of the delegate is the callback of the worker's call. -/
  carries : ∀ c, (u.threads 0).call = some c →
    (u.world.delegates (u.world.arguments c).delegate).callback = some c
  callee : ∀ c r p, (c, r, p) ∈ u.flights → p.callee u.world = some c
  /-- No run was made for a call before its task was posted and taken. -/
  fresh : ∀ c, u.calls ≤ c → u.results c = none
  entered : ∀ c, u.threads 0 = .entered c ∨ u.threads 0 = .holding c → u.results c = none
  posted : ∀ c, (u.threads 0).served = some c → (u.results c = none ↔ (c, Job.start) ∈ u.queue)

variable {u u' : Delegate.State}

theorem Held.init (w : World) : Held { world := w } where
  inv := .init w
  idle _ _ := rfl
  signalled _ h := nomatch h
  carries _ h := nomatch h
  callee _ _ _ h := absurd h List.not_mem_nil
  fresh _ _ := rfl
  entered _ _ := rfl
  posted _ h := nomatch h

/-- A thread that is not idle is the worker. -/
theorem Held.eq_zero (hh : Held u) {t : Nat} (h : u.threads t ≠ .idle) : t = 0 := by
  by_contra hn
  exact h (hh.idle t hn)

/-- What is to come is for the call the worker has posted. -/
theorem Held.served (hh : Held u) {c : Nat} (h : c ∈ u.labels) : (u.threads 0).served = some c := by
  obtain ⟨⟨t, ht⟩, -⟩ := hh.inv.served c h
  obtain rfl : t = 0 := hh.eq_zero fun hi => by rw [hi] at ht; cases ht
  exact ht

/-- One run is to come at most. -/
theorem Held.single (hh : Held u) : (u.queue = [] ∧ u.pending = []) ∨
    (∃ c j, u.queue = [(c, j)] ∧ u.pending = [] ∧ (u.threads 0).served = some c) ∨
    ∃ c p, u.queue = [] ∧ u.pending = [(c, p)] ∧ (u.threads 0).served = some c := by
  have hn := hh.inv.labels
  have hs : ∀ c ∈ u.labels, (u.threads 0).served = some c := fun c => hh.served
  unfold Sys.labels at hn hs
  rcases hq : u.queue with _ | ⟨⟨c, j⟩, queue⟩
  · rcases hp : u.pending with _ | ⟨⟨c, p⟩, pending⟩
    · exact .inl ⟨rfl, rfl⟩
    · right; right
      rw [hq, hp] at hn hs
      have hc := hs c (by simp)
      rcases pending with _ | ⟨⟨c', p'⟩, pending⟩
      · exact ⟨c, p, rfl, rfl, hc⟩
      · have hc' := hs c' (by simp)
        rw [hc] at hc'
        cases hc'
        simp at hn
  · right; left
    rw [hq] at hn hs
    have hc := hs c (by simp)
    rcases queue with _ | ⟨⟨c', j'⟩, queue⟩
    · rcases hp : u.pending with _ | ⟨⟨c', p'⟩, pending⟩
      · exact ⟨c, j, rfl, rfl, hc⟩
      · rw [hp] at hn hs
        have hc' := hs c' (by simp)
        rw [hc] at hc'
        cases hc'
        simp at hn
    · have hc' := hs c' (by simp)
      rw [hc] at hc'
      cases hc'
      simp at hn

/-- A call whose last run chained is the one the worker has posted. -/
theorem Held.chained (hh : Held u) {c : Nat} {v : Result} (hv : u.results c = some v)
    (hc : c ∉ u.finished.map Prod.fst) : (u.threads 0).served = some c := by
  have hlt : c < u.calls := by
    by_contra hn
    rw [hh.fresh c (Nat.le_of_not_lt hn)] at hv
    cases hv
  rcases hh.inv.base.calls c hlt with ⟨t, ht⟩ | hret
  · obtain rfl : t = 0 := hh.eq_zero fun hi => by rw [hi] at ht; cases ht
    have hf := hh.inv.fits 0
    cases hpc : u.threads 0 with
    | idle => rw [hpc] at ht; cases ht
    | entered c' =>
      rw [hpc] at ht
      cases ht
      rw [hh.entered c (.inl hpc)] at hv
      cases hv
    | holding c' =>
      rw [hpc] at ht
      cases ht
      rw [hh.entered c (.inr hpc)] at hv
      cases hv
    | posted c' | waiting c' => rw [hpc] at ht; exact ht
    | woken c' | leaving c' =>
      rw [hpc] at ht hf
      cases ht
      exact absurd hf hc
  · -- A call that returned is finished.
    obtain ⟨⟨c', r⟩, hr, rfl⟩ := List.mem_map.1 hret
    obtain ⟨v', -, hfin⟩ := hh.inv.returned _ _ hr
    exact absurd (List.mem_map_of_mem hfin) hc

/-- All that is owed comes down to the request of a run that chained. -/
theorem Held.owed_iff (hh : Held u) : Owed u ↔
    ∀ c v, u.results c = some v → c ∉ u.finished.map Prod.fst → u.flights ≠ [] := by
  constructor
  · intro ho c v hv hc hnil
    obtain ⟨r, p, hfl, -⟩ := ho.chained c v hv hc
    rw [hfl] at hnil
    cases hnil
  · intro h
    refine ⟨fun c v hv hc => ?_, fun hall => ?_, fun c hw => ?_, fun hn => ?_⟩
    · have hs := hh.chained hv hc
      have hne := h c v hv hc
      rcases hh.single with ⟨hq, hp⟩ | ⟨c', j, hq, hp, hs'⟩ | ⟨c', ⟨r, p⟩, hq, hp, hs'⟩
      · exact absurd (show u.flights = [] by simp [Sys.flights, hq, hp]) hne
      · rw [hs] at hs'
        cases hs'
        cases j with
        | start => exact absurd (show u.flights = [] by simp [Sys.flights, Job.flight, hq, hp]) hne
        | done x answer =>
          obtain ⟨r, p⟩ := x
          have hfl : u.flights = [(c, r, p)] := by simp [Sys.flights, Job.flight, hq, hp]
          exact ⟨r, p, hfl, hh.callee c r p (by rw [hfl]; exact List.mem_singleton_self _)⟩
      · rw [hs] at hs'
        cases hs'
        have hfl : u.flights = [(c, r, p)] := by simp [Sys.flights, hq, hp]
        exact ⟨r, p, hfl, hh.callee c r p (by rw [hfl]; exact List.mem_singleton_self _)⟩
    · -- A request in flight is for a call whose last run chained.
      refine List.eq_nil_iff_forall_not_mem.2 ?_
      rintro ⟨c, r, p⟩ hx
      have hl := Sys.mem_labels_of_flight hx
      have hs := hh.served hl
      cases hv : u.results c with
      | some v => exact (hh.inv.served c hl).2 (hall c v hv)
      | none =>
        have hstart := (hh.posted c hs).1 hv
        rcases hh.single with ⟨hq, -⟩ | ⟨c', j, hq, hp, -⟩ | ⟨c', x, hq, -⟩
        · rw [hq] at hstart
          cases hstart
        · rw [hq] at hstart
          cases List.mem_singleton.1 hstart
          simp [Sys.flights, Job.flight, hq, hp] at hx
        · rw [hq] at hstart
          cases hstart
    · have hs : (u.threads 0).served = some c := by rw [hw]; rfl
      by_cases hc : c ∈ u.finished.map Prod.fst
      · right
        have hf := hh.inv.fits_at hw
        refine ⟨List.eq_nil_iff_forall_not_mem.2 fun c' hl => ?_, hf hc⟩
        have hs' := hh.served hl
        rw [hs] at hs'
        cases hs'
        exact (hh.inv.served c hl).2 hc
      · left
        refine ⟨?_, hc⟩
        rcases hh.single with ⟨hq, hp⟩ | ⟨c', j, hq, hp, hs'⟩ | ⟨c', p, hq, hp, hs'⟩
        · -- Nothing to come: the task was taken, and its last run left no request.
          cases hv : u.results c with
          | none =>
            have hstart := (hh.posted c hs).1 hv
            rw [hq] at hstart
            cases hstart
          | some v => exact absurd (show u.flights = [] by simp [Sys.flights, hq, hp]) (h c v hv hc)
        · rw [hs] at hs'
          cases hs'
          simp [Sys.labels, hq, hp]
        · rw [hs] at hs'
          cases hs'
          simp [Sys.labels, hq, hp]
    · refine List.eq_nil_iff_forall_not_mem.2 fun c hl => ?_
      rw [hh.served hl] at hn
      cases hn

/-! ## Steps -/

/-- A delivery leaves the calls and the callbacks of the delegates. -/
theorem entry_calls (w : World) (c : Nat) (j : Job (Request × Completion) Answer) :
    (Delegate.entry w c j).1.arguments = w.arguments ∧
      ∀ d, ((Delegate.entry w c j).1.delegates d).callback = (w.delegates d).callback := by
  cases j with
  | start => exact ⟨rfl, fun _ => rfl⟩
  | done x answer =>
    obtain ⟨r, p⟩ := x
    cases p with
    | proxy callback | read buf callback => exact ⟨rfl, fun _ => rfl⟩
    | query d callback =>
      cases hi : answer.info with
      | none => simp only [Delegate.entry, deliver, World.setInfo, hi]; exact ⟨rfl, fun _ => rfl⟩
      | some info =>
        simp only [Delegate.entry, deliver, World.setInfo, hi]
        exact ⟨rfl, World.setDelegate_callback (w := w.record (.delivered (.query d callback) answer)) rfl⟩
    | listing dirp =>
      simp only [Delegate.entry, deliver]
      cases (w.record (.delivered (.listing dirp) answer)).dir dirp <;> exact ⟨rfl, fun _ => rfl⟩

/-- What a run of the main thread does: the one thing to come is run, for the call it is for. -/
theorem Held.run_spec (hh : Held u) {imm : Request → Int} (h : Delegate.step u (.run imm) = some u') :
    ∃ c j, u.queue = [(c, j)] ∧ u.pending = [] ∧ u.main = .idle ∧
      (Delegate.entry u.world c j).2.1 = some c ∧
      u' = Sys.ran { u with queue := [] }
        (proxy imm (Delegate.entry u.world c j).1 c (Delegate.entry u.world c j).2.2).world c
        (proxy imm (Delegate.entry u.world c j).1 c (Delegate.entry u.world c j).2.2).ran := by
  -- The queue holds nothing after its head.
  have htail : ∀ {c j queue}, u.queue = (c, j) :: queue → queue = [] ∧ u.pending = [] := by
    intro c j queue hq
    rcases hh.single with ⟨hq', -⟩ | ⟨c', j', hq', hp, -⟩ | ⟨c', p, hq', -⟩
    · rw [hq] at hq'
      cases hq'
    · rw [hq] at hq'
      cases hq'
      exact ⟨rfl, hp⟩
    · rw [hq] at hq'
      cases hq'
  -- A completion carries the call its request was issued for.
  have hdone : ∀ {c p answer queue}, u.queue = (c, .done p answer) :: queue →
      (deliver u.world p.2 answer).2 = some c := by
    intro c p answer queue hq
    rw [deliver_callee]
    refine hh.callee c p.1 p.2 ?_
    rw [Sys.flights_done hq]
    exact List.mem_cons_self
  cases Sys.step_spec h with
  | start imm c queue w r hm hq hr =>
    obtain ⟨rfl, hp⟩ := htail hq
    cases hr
    exact ⟨c, .start, hq, hp, hm, rfl, rfl⟩
  | resume imm c c' p answer queue w r hm hq hr =>
    obtain ⟨rfl, hp⟩ := htail hq
    have hd := hdone hq
    simp only [Delegate.service] at hr
    split at hr
    · cases hr
    · next w' c'' hdel =>
      cases hr
      rw [hdel] at hd
      cases hd
      refine ⟨c, .done p answer, hq, hp, hm, ?_, ?_⟩
      · simp only [Delegate.entry, hdel]
      · simp only [Delegate.entry, hdel]
  | drop imm c p answer queue w hm hq hr =>
    have hd := hdone hq
    simp only [Delegate.service] at hr
    split at hr
    · next hdel =>
      rw [hdel] at hd
      cases hd
    · cases hr

theorem Held.own (hh : Held u) {a : Delegate.Action} (h : Delegate.step u a = some u') :
    u.Own Delegate.service a := by
  refine Delegate.Undisturbed.own ?_
  cases a with
  | run imm =>
    intro c p answer queue hq c' hc'
    have := hh.callee c p.1 p.2 (by rw [Sys.flights_done hq]; exact List.mem_cons_self)
    rw [hc'] at this
    exact Option.some.inj this
  | signal t =>
    cases t with
    | none => trivial
    | some t =>
      intro c hm
      cases Sys.step_spec h with
      | signal t c₁ c' hm' ht =>
        obtain rfl : t = 0 := hh.eq_zero fun hi => by rw [hi] at ht; cases ht
        have hs := hh.signalled c (by rw [hm]; rfl)
        rw [ht] at hs ⊢
        cases hs
        rfl
  | _ => trivial

theorem Held.run (hh : Held u) {imm : Request → Int} (h : Delegate.step u (.run imm) = some u') :
    Held u' := by
  have hinv := hh.inv.step Delegate.service_lawful (hh.own h) h
  obtain ⟨c, j, hq, hp, hm, hc, rfl⟩ := hh.run_spec h
  obtain ⟨harg, hcb⟩ := entry_calls u.world c j
  have hl : c ∈ u.labels := by simp [Sys.labels, hq]
  have hs := hh.served hl
  have hlt := hh.inv.base.lt 0 c (Pc.call_of_served hs)
  generalize hw : (Delegate.entry u.world c j).1 = w at harg hcb hinv ⊢
  generalize (Delegate.entry u.world c j).2.2 = code at hinv ⊢
  have hch := Chains.proxy imm w c code
  refine ⟨hinv, hh.idle, fun c' hc' => ?_, fun c' hc' => ?_, fun c' r p hx => ?_, fun c' hc' => ?_,
    fun c' hc' => ?_, fun c' hc' => ?_⟩
  · -- A final run is about to be signalled, for the call that ran.
    simp only [Sys.ran] at hc'
    split at hc'
    · cases hc'
      exact hs
    · cases hc'
  · have := hh.carries c' hc'
    show (((proxy imm w c code).world.delegates
      ((proxy imm w c code).world.arguments c').delegate).callback) = _
    rw [hch.callback, hch.arguments, hcb, harg]
    exact this
  · rw [Sys.flights_ran] at hx
    simp only [Sys.flights, hp, List.filterMap_nil, List.append_nil, List.nil_append, List.mem_map,
      Option.mem_toList] at hx
    obtain ⟨x, hx, he⟩ := hx
    cases he
    refine hch.callee c ?_ r p hx
    rw [hcb, harg]
    exact hh.carries c (Pc.call_of_served hs)
  · have hne : c' ≠ c := fun he => absurd hc' (by rw [he]; exact Nat.not_le.2 hlt)
    show Function.update u.results c _ c' = none
    rw [Function.update_of_ne hne]
    exact hh.fresh c' hc'
  · rcases hc' with hc' | hc'
    · rw [show u.threads 0 = .entered c' from hc'] at hs
      cases hs
    · rw [show u.threads 0 = .holding c' from hc'] at hs
      cases hs
  · have hs' : (u.threads 0).served = some c' := hc'
    rw [hs] at hs'
    cases hs'
    refine iff_of_false ?_ List.not_mem_nil
    show Function.update u.results c _ c ≠ none
    rw [Function.update_self]
    exact Option.some_ne_none _

/-- The worker begins a call. -/
theorem Held.enter (hh : Held u) {arguments : Arguments} (ht : u.threads 0 = .idle)
    (hinv : Sys.Inv ({ u with
      world := u.world.enter u.calls arguments
      calls := u.calls + 1 }.setThread 0 (.entered u.calls))) :
    Held ({ u with
      world := u.world.enter u.calls arguments
      calls := u.calls + 1 }.setThread 0 (.entered u.calls)) := by
  have hnone : u.labels = [] := by
    refine List.eq_nil_iff_forall_not_mem.2 fun c hl => ?_
    have := hh.served hl
    rw [ht] at this
    cases this
  refine ⟨hinv, fun t hne => ?_, fun c hc => ?_, fun c hc => ?_, fun c r p hx => ?_, fun c hc => ?_,
    fun c hc => ?_, fun c hc => ?_⟩
  · rw [Sys.threads_setThread, if_neg hne]
    exact hh.idle t hne
  · have := hh.signalled c hc
    rw [ht] at this
    cases this
  · rw [Sys.threads_setThread, if_pos rfl] at hc
    cases hc
    simp [Sys.setThread, World.enter]
  · have := Sys.mem_labels_of_flight (s := u) hx
    rw [hnone] at this
    cases this
  · exact hh.fresh c (Nat.le_of_succ_le hc)
  · rw [Sys.threads_setThread, if_pos rfl] at hc
    rcases hc with hc | hc
    · cases hc
      exact hh.fresh u.calls (Nat.le_refl _)
    · cases hc
  · rw [Sys.threads_setThread, if_pos rfl] at hc
    cases hc

/-- The worker goes on within its call, leaves it, or does nothing. -/
theorem Held.move (hh : Held u) {pc : Pc} (hinv : u'.Inv) (hworld : u'.world = u.world)
    (hfl : u'.flights.Perm u.flights) (hres : u'.results = u.results) (hcalls : u'.calls = u.calls)
    (hthreads : u'.threads = Function.update u.threads 0 pc)
    (hcall : ∀ c, pc.call = some c → (u.threads 0).call = some c)
    (hsig : ∀ c, u'.main.call = some c → pc.served = some c)
    (hent : ∀ c, pc = .entered c ∨ pc = .holding c → u.results c = none)
    (hpost : ∀ c, pc.served = some c → (u.results c = none ↔ (c, Job.start) ∈ u'.queue)) : Held u' := by
  have h0 : u'.threads 0 = pc := by rw [hthreads, Function.update_self]
  refine ⟨hinv, fun t hne => ?_, ?_, ?_, fun c r p hx => ?_, ?_, ?_, ?_⟩
  · rw [hthreads, Function.update_of_ne hne]
    exact hh.idle t hne
  · rw [h0]
    exact hsig
  · rw [h0, hworld]
    exact fun c hc => hh.carries c (hcall c hc)
  · rw [hworld]
    exact hh.callee c r p (hfl.mem_iff.1 hx)
  · rw [hres, hcalls]
    exact hh.fresh
  · rw [h0, hres]
    exact hent
  · rw [h0, hres]
    exact hpost

theorem Held.step (hh : Held u) {a : Delegate.Action} (h : step u a = some u') : Held u' := by
  obtain ⟨hd, hz⟩ := delegate_step h
  have hinv := hh.inv.step Delegate.service_lawful (hh.own hd) hd
  have hzero : ∀ {t : Nat} {pc : Pc}, u.threads t = pc → pc ≠ .idle → t = 0 := by
    intro t pc ht hne
    exact hh.eq_zero (by rw [ht]; exact hne)
  have hsig := hh.signalled
  have hpost := hh.posted
  have hself : u.threads = Function.update u.threads 0 (u.threads 0) := by
    rw [Function.update_eq_self]
  cases Sys.step_spec hd with
  | enter t arguments ht =>
    obtain rfl := hz t arguments rfl
    exact hh.enter ht hinv
  | hold t c ht =>
    obtain rfl := hzero ht (by simp)
    rw [ht] at hsig
    refine hh.move hinv rfl (.refl _) rfl rfl rfl (fun c' hc => ?_) (fun c' hc => ?_) (fun c' hc => ?_)
      fun _ hc => by cases hc
    · rw [ht]
      exact hc
    · cases hsig c' hc
    · rcases hc with hc | hc
      · cases hc
      · cases hc
        exact hh.entered c (.inl ht)
  | relock t c ht =>
    obtain rfl := hzero ht (by simp)
    rw [ht] at hsig
    refine hh.move hinv rfl (.refl _) rfl rfl rfl (fun c' hc => ?_) (fun c' hc => ?_) (fun c' hc => ?_)
      fun _ hc => by cases hc
    · rw [ht]
      exact hc
    · cases hsig c' hc
    · rcases hc with hc | hc <;> cases hc
  | post t c ht =>
    obtain rfl := hzero ht (by simp)
    rw [ht] at hsig
    have hfl : (Sys.setThread { u with queue := u.queue ++ [(c, Job.start)] } 0 (.posted c)).flights.Perm
        u.flights := .of_eq (by simp [Sys.flights, Sys.setThread, Job.flight])
    refine hh.move hinv rfl hfl rfl rfl rfl (fun c' hc => ?_) (fun c' hc => ?_) (fun c' hc => ?_)
      (fun c' hc => ?_)
    · rw [ht]
      exact hc
    · cases hsig c' hc
    · rcases hc with hc | hc <;> cases hc
    · cases hc
      refine iff_of_true (hh.entered c (.inr ht)) ?_
      exact List.mem_append_right _ (List.mem_singleton_self _)
  | wait t c ht =>
    obtain rfl := hzero ht (by simp)
    rw [ht] at hsig hpost
    refine hh.move hinv rfl (.refl _) rfl rfl rfl (fun c' hc => ?_) hsig (fun c' hc => ?_) hpost
    · rw [ht]
      exact hc
    · rcases hc with hc | hc <;> cases hc
  | leave t c ht =>
    obtain rfl := hzero ht (by simp)
    rw [ht] at hsig
    refine hh.move hinv rfl (.refl _) rfl rfl rfl (fun _ hc => by cases hc) (fun c' hc => ?_) (fun c' hc => ?_)
      fun _ hc => by cases hc
    · cases hsig c' hc
    · rcases hc with hc | hc <;> cases hc
  | complete n answer c p hp =>
    refine hh.move hinv rfl (Sys.flights_complete answer hp) rfl rfl hself (fun _ => id) hsig hh.entered ?_
    intro c' hc
    simpa using hpost c' hc
  | start imm | resume imm | drop imm => exact hh.run hd
  | mainLock c hm hh' =>
    refine hh.move hinv rfl (.refl _) rfl rfl hself (fun _ => id) ?_ hh.entered hpost
    rw [hm] at hsig
    exact hsig
  | signalNone c hm hw =>
    exact hh.move hinv rfl (.refl _) rfl rfl hself (fun _ => id)
      (fun _ hc => by cases hc) hh.entered hpost
  | signal t c c' hm ht hw =>
    obtain rfl := hzero ht (by simp)
    refine hh.move hinv rfl (.refl _) rfl rfl rfl (fun c'' hc => ?_) (fun _ hc => by cases hc)
      (fun c'' hc => ?_) fun _ hc => by cases hc
    · rw [ht]
      exact hc
    · rcases hc with hc | hc <;> cases hc
  | mainUnlock hm =>
    exact hh.move hinv rfl (.refl _) rfl rfl hself (fun _ => id)
      (fun _ hc => by cases hc) hh.entered hpost

/-- A step other than a run of the main thread leaves what the runs have left. -/
theorem other_results {a : Delegate.Action} (ha : ∀ imm, a ≠ .run imm)
    (h : Delegate.step u a = some u') :
    u'.results = u.results ∧ u'.finished = u.finished ∧ u'.flights.Perm u.flights := by
  obtain ⟨-, -, -, hfl⟩ := Delegate.other_spec ha h
  cases Sys.step_spec h with
  | start imm | resume imm | drop imm => exact absurd rfl (ha imm)
  | _ => exact ⟨rfl, rfl, hfl⟩

/-- A step keeps what is owed exactly where it is answered. -/
theorem owed_step (hh : Held u) (ho : Owed u) {a : Delegate.Action} (h : step u a = some u') :
    Owed u' ↔ Answered u a := by
  rw [(hh.step h).owed_iff]
  have hold := hh.owed_iff.1 ho
  obtain ⟨hd, -⟩ := delegate_step h
  by_cases ha : ∃ imm, a = .run imm
  · obtain ⟨imm, rfl⟩ := ha
    obtain ⟨c, j, hq, hp, hm, hc, rfl⟩ := hh.run_spec hd
    have hl : c ∈ u.labels := by simp [Sys.labels, hq]
    have hs := hh.served hl
    have hfin := (hh.inv.served c hl).2
    have hanswered : Answered u (.run imm) ↔ Accepts imm (Delegate.entry u.world c j).1
        ((Delegate.entry u.world c j).1.arguments c).delegate (Delegate.entry u.world c j).2.2
        ((Delegate.entry u.world c j).1.arguments c).function := by
      constructor
      · intro h
        exact h c j [] hq c hc
      · intro h c₁ j₁ queue₁ hq₁ c' hc'
        rw [hq] at hq₁
        cases hq₁
        rw [hc] at hc'
        cases hc'
        exact h
    rw [hanswered]
    have hch := Chains.proxy imm (Delegate.entry u.world c j).1 c (Delegate.entry u.world c j).2.2
    generalize proxy imm (Delegate.entry u.world c j).1 c (Delegate.entry u.world c j).2.2 = e at hch ⊢
    have hfl : Sys.flights (Sys.ran ({ u with queue := [] } : Delegate.State) e.world c e.ran) =
        e.ran.pending.toList.map (Prod.mk c) := by
      rw [Sys.flights_ran]
      simp [Sys.flights, hp]
    rw [hfl]
    cases hchain : e.chaining with
    | true =>
      have hfinal : e.ran.final = false := by simp [Entry.ran, hchain]
      rw [← hch.outstanding hchain]
      constructor
      · intro h hn
        refine h c e.ran.result (Function.update_self ..) ?_ ?_
        · simp only [Sys.ran, hfinal, Bool.false_eq_true, if_false]
          exact hfin
        · rw [hn]
          rfl
      · intro h c' v _ _ hnil
        cases hpend : e.ran.pending with
        | none => exact h hpend
        | some x =>
          rw [hpend] at hnil
          cases hnil
    | false =>
      refine iff_of_true ?_ (hch.settled hchain).2
      have hfinal : e.ran.final = true := by simp [Entry.ran, hchain]
      intro c' v hv hc'
      -- The call that ran is finished, and no other one has a run.
      simp only [Sys.ran, hfinal, if_true, List.map_append, List.mem_append, List.map_cons,
        List.map_nil, List.mem_singleton, not_or] at hv hc'
      rw [Function.update_of_ne hc'.2] at hv
      have hs' := hh.chained hv hc'.1
      rw [hs] at hs'
      cases hs'
      exact absurd rfl hc'.2
  · obtain ⟨hres, hfin, hfl⟩ := other_results (by simpa using ha) hd
    refine iff_of_true ?_ ?_
    · rw [hres, hfin]
      intro c v hv hc hnil
      rw [hnil] at hfl
      exact hold c v hv hc hfl.symm.eq_nil
    · cases a with
      | run imm => exact absurd ⟨imm, rfl⟩ ha
      | _ => trivial

/-! ## Runs -/

theorem Owed.init (w : World) : Owed { world := w } :=
  (Held.init w).owed_iff.2 nofun

/-- In every run of one worker, with any operations, any answers and any immediate codes: a run that
chains leaves exactly one accepted request outstanding that carries the call's `Arguments`, one that
does not leaves none, a worker that waits has one run to come until it is signalled, and none is to
come once it was woken, all along exactly when every request whose immediate code is not looked at is
accepted. -/
theorem run_owed (w : World) {as : List Delegate.Action}
    (hr : Run.run step { world := w } as = some u) :
    Run.Along step Owed { world := w } as ↔ Run.Guarded step Answered { world := w } as :=
  Run.along_iff_guarded (I := Held) (P := Owed) (fun _ _ _ hh h => hh.step h)
    (fun _ _ _ hh ho h => owed_step hh ho h) (.init w) (.init w) hr

theorem answered_pendingAlways (u : Delegate.State) : Answered u (.run pendingAlways) := by
  intro c j queue _ c' _
  cases ((Delegate.entry u.world c j).1.arguments c').function with
  | open_ | stat => exact ⟨fun _ => rfl, fun _ _ _ => rfl⟩
  | mkdir | opendir => exact fun _ => rfl
  | _ => trivial

/-- The worker opens its first file, up to the run that issues the query. -/
def opening (imm : Request → Int) : List Delegate.Action :=
  [.enter 0 ⟨0, .open_ (str "/a") oRdWr 0⟩, .lock 0, .post 0, .wait 0, .run pendingAlways,
    .complete 0 ⟨ppOk, none, [], []⟩, .run pendingAlways, .complete 0 ⟨ppOk, none, [], []⟩, .run imm]

theorem run_owed_open :
    ∃ u, Run.run step { world := .blank } (opening pendingAlways) = some u ∧ u.labels = [0] ∧
      Run.Along step Owed { world := .blank } (opening pendingAlways) := by
  have hg : Run.Guarded step Answered { world := .blank } (opening pendingAlways) :=
    .cons trivial rfl <| .cons trivial rfl <| .cons trivial rfl <| .cons trivial rfl <|
      .cons (answered_pendingAlways _) rfl <| .cons trivial rfl <| .cons (answered_pendingAlways _) rfl <|
      .cons trivial rfl <| .cons (answered_pendingAlways _) rfl trivial
  exact ⟨_, rfl, rfl, (run_owed .blank rfl).2 hg⟩

/-- Queries are refused at once. -/
def queryRefused : Request → Int
  | .query _ => ppErrorFailed
  | _ => ppOkCompletionPending

/-- `Open` does not look at the code of its query: nothing is to come, and the worker waits in a state
that has no step. -/
theorem refused_query_strands :
    ∃ u, Run.run step { world := .blank } (opening queryRefused) = some u ∧
      u.threads 0 = .waiting 0 ∧ u.labels = [] ∧ (∀ a, step u a = none) ∧ ¬ Owed u := by
  refine ⟨_, rfl, rfl, rfl, fun a => ?_, fun h => ?_⟩
  · cases a with
    | enter t => cases t <;> rfl
    | lock t | post t | wait t | leave t => cases t <;> rfl
    | complete n => cases n <;> rfl
    | signal t => cases t <;> rfl
    | _ => rfl
  · rcases h.waits 0 rfl with ⟨h, -⟩ | ⟨-, h⟩
    · cases h
    · cases h

end Sole

end NaClFs
