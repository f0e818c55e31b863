/-
What a rendezvous gives its callers: when every completion runs the call its request was issued for,
and every signal wakes the caller whose call has just finished, each caller leaves with the result of
the final run of its own call, and no run is made for a call that has returned. Where a signal can
reach another waiting caller, that one can leave with its call unfinished.
-/
import NaClFs.Lib.Rendezvous

namespace Rendezvous

variable {W Q R P A I : Type}

/-! ## Where a call is -/

/-- The call a caller is in. -/
def Pc.call : Pc → Option Nat
  | .idle => none
  | .entered c | .holding c | .posted c | .waiting c | .woken c | .leaving c => some c

/-- The call whose task the caller has posted and not been woken from. -/
def Pc.served : Pc → Option Nat
  | .posted c | .waiting c => some c
  | _ => none

/-- The caller holds the mutex. -/
def Pc.Locked : Pc → Prop
  | .holding _ | .posted _ | .leaving _ => True
  | _ => False

/-- The main thread holds the mutex. -/
def MainPc.Locked : MainPc → Prop
  | .signalling _ | .unlocking => True
  | _ => False

/-- The call that is finished and not signalled. -/
def MainPc.call : MainPc → Option Nat
  | .locking c | .signalling c => some c
  | _ => none

/-- How far a call is when its caller is there: not finished before the post, and finished after the
signal. In between a finished call is about to be signalled. -/
def Pc.Fits (pc : Pc) (finished : List Nat) (main : Option Nat) : Prop :=
  match pc with
  | .idle => True
  | .entered c | .holding c => c ∉ finished
  | .posted c | .waiting c => c ∈ finished → main = some c
  | .woken c | .leaving c => c ∈ finished

theorem Pc.call_of_served {pc : Pc} {c : Nat} (h : pc.served = some c) : pc.call = some c := by
  cases pc <;> first | exact h | cases h

/-- A call that finishes is the only one about to be signalled. -/
theorem Pc.Fits.finish {pc : Pc} {finished finished' : List Nat} {c : Nat}
    (h : pc.Fits finished none) (hc : pc.call = some c → pc.served = some c)
    (hm : ∀ {c'}, c' ∈ finished' ↔ c' ∈ finished ∨ c' = c) : pc.Fits finished' (some c) := by
  cases pc with
  | idle => trivial
  | entered c' | holding c' =>
    intro h'
    rcases hm.1 h' with h' | rfl
    · exact h h'
    · cases hc rfl
  | posted c' | waiting c' =>
    intro h'
    rcases hm.1 h' with h' | rfl
    · cases h h'
    · rfl
  | woken c' | leaving c' => exact hm.2 (.inl h)

theorem Pc.Fits.signalled {pc : Pc} {finished : List Nat} {c : Nat} (h : pc.Fits finished (some c))
    (hc : pc.served ≠ some c) : pc.Fits finished none := by
  cases pc with
  | posted c' | waiting c' =>
    intro h'
    cases h h'
    exact absurd rfl hc
  | _ => exact h

/-- The request whose completion a job runs. -/
def Job.flight : Nat × Job P A → Option (Nat × P)
  | (_, .start) => none
  | (c, .done p _) => some (c, p)

/-- A run that is final leaves nothing pending. -/
structure Service.Lawful (S : Service W Q R P A I) : Prop where
  start : ∀ i w c, (S.start i w c).2.final = true → (S.start i w c).2.pending = none
  resume : ∀ i w p a w' c r, S.resume i w p a = (w', some (c, r)) → r.final = true → r.pending = none

namespace Sys

variable {S : Service W Q R P A I} {s s' : Sys W R P A}

/-! ## Callers, waiters and the mutex -/

/-- What holds in every run, whatever the service does. -/
structure Base (s : Sys W R P A) : Prop where
  lt : ∀ t c, (s.threads t).call = some c → c < s.calls
  inj : ∀ t u c, (s.threads t).call = some c → (s.threads u).call = some c → t = u
  waiters : ∀ t, t ∈ s.waiters ↔ ∃ c, s.threads t = .waiting c
  nodup : s.waiters.Nodup
  thread : ∀ t, (s.threads t).Locked → s.holder = some (.thread t)
  main : s.main.Locked → s.holder = some .main
  gone : ∀ c r, (c, r) ∈ s.returned → c < s.calls ∧ ∀ t, (s.threads t).call ≠ some c
  calls : ∀ c, c < s.calls → (∃ t, (s.threads t).call = some c) ∨ c ∈ s.returned.map Prod.fst

theorem threads_setThread (s : Sys W R P A) (t : Nat) (pc : Pc) (u : Nat) :
    (s.setThread t pc).threads u = if u = t then pc else s.threads u := Function.update_apply ..

/-- What is true of some caller stays true when a caller goes on with it. -/
theorem exists_setThread {f : Pc → Option Nat} {t c : Nat} {pc : Pc}
    (h : f (s.threads t) = some c → f pc = some c) :
    (∃ u, f (s.threads u) = some c) → ∃ u, f ((s.setThread t pc).threads u) = some c := by
  rintro ⟨u, hu⟩
  refine ⟨u, ?_⟩
  rw [threads_setThread]
  split
  · next hut => exact h (hut ▸ hu)
  · exact hu

/-- A call is that of a caller until it returns. -/
theorem Base.step_calls {a : Act Q A I} (hb : Base s) (h : s.step S a = some s') (c : Nat)
    (hc : c < s'.calls) : (∃ t, (s'.threads t).call = some c) ∨ c ∈ s'.returned.map Prod.fst := by
  cases step_spec h with
  | enter t q ht =>
    rcases Nat.lt_succ_iff_lt_or_eq.1 hc with hc | rfl
    · exact (hb.calls c hc).imp_left (exists_setThread (by simp [ht, Pc.call]))
    · exact .inl ⟨t, by simp [threads_setThread, Pc.call]⟩
  | leave t c' ht =>
    by_cases h : c = c'
    · exact .inr (by simp [setThread, h])
    · -- Another call keeps its caller, or had returned before.
      have hcall : (s.threads t).call = some c → Pc.call .idle = some c := by
        intro h'
        rw [ht] at h'
        cases h'
        exact absurd rfl h
      rcases hb.calls c hc with hc | hc
      · exact .inl (exists_setThread hcall hc)
      · refine .inr ?_
        simp only [setThread, List.map_append, List.mem_append]
        exact .inl hc
  | hold t c' ht | relock t c' ht | post t c' ht | wait t c' ht =>
    exact (hb.calls c hc).imp_left (exists_setThread (by simp [ht, Pc.call]))
  | signal t c' c'' hm ht =>
    exact (hb.calls c hc).imp_left (exists_setThread (by simp [ht, Pc.call]))
  | _ => exact hb.calls c hc

theorem Base.step {a : Act Q A I} (hb : Base s) (h : s.step S a = some s') : Base s' := by
  have calls := hb.step_calls h
  obtain ⟨lt, inj, waiters, nodup, thread, main, gone, -⟩ := hb
  cases step_spec h with
  | complete n a c p hp => exact ⟨lt, inj, waiters, nodup, thread, main, gone, calls⟩
  | start i c queue w r hm hq hr =>
    refine ⟨lt, inj, waiters, nodup, thread, ?_, gone, calls⟩
    simp only [ran]
    grind [MainPc.Locked]
  | resume i c c' p a queue w r hm hq hr =>
    refine ⟨lt, inj, waiters, nodup, thread, ?_, gone, calls⟩
    simp only [ran]
    grind [MainPc.Locked]
  | drop i c p a queue w hm hq hr => exact ⟨lt, inj, waiters, nodup, thread, False.elim, gone, calls⟩
  | _ =>
    -- One thread moves, or the main thread takes or gives up the mutex.
    refine ⟨?_, ?_, ?_, ?_, ?_, ?_, ?_, calls⟩ <;>
      grind [Pc.call, Pc.Locked, MainPc.Locked, setThread, threads_setThread]

/-! ## Served calls -/

/-- The calls with a run to come: of a task in the queue or of a pending request. -/
def labels (s : Sys W R P A) : List Nat := s.queue.map Prod.fst ++ s.pending.map Prod.fst

/-- The requests whose completion has not run. -/
def flights (s : Sys W R P A) : List (Nat × P) := s.queue.filterMap Job.flight ++ s.pending

theorem mem_labels_of_flight {c : Nat} {p : P} (h : (c, p) ∈ s.flights) : c ∈ s.labels := by
  rcases List.mem_append.1 h with h | h
  · obtain ⟨⟨c', j⟩, hj, he⟩ := List.mem_filterMap.1 h
    cases j with
    | start => cases he
    | done p' a =>
      cases he
      exact List.mem_append_left _ (List.mem_map_of_mem hj)
  · exact List.mem_append_right _ (List.mem_map_of_mem h)

theorem flights_start {c : Nat} {queue : List (Nat × Job P A)} (hq : s.queue = (c, .start) :: queue) :
    s.flights = queue.filterMap Job.flight ++ s.pending := by
  rw [flights, hq]
  rfl

theorem flights_done {c : Nat} {p : P} {a : A} {queue : List (Nat × Job P A)}
    (hq : s.queue = (c, .done p a) :: queue) :
    s.flights = (c, p) :: (queue.filterMap Job.flight ++ s.pending) := by
  rw [flights, hq]
  rfl

/-- A run adds the request it leaves pending. -/
theorem flights_ran (w : W) (c : Nat) (r : Ran R P) :
    (s.ran w c r).flights = s.flights ++ r.pending.toList.map (Prod.mk c) := by
  obtain ⟨v, f, _ | p⟩ := r
  · exact (List.append_nil _).symm
  · simp [flights, ran]

/-- A request that is completed stays in flight until the completion runs. -/
theorem flights_complete {n c : Nat} {p : P} (a : A) (h : s.pending[n]? = some (c, p)) :
    (flights { s with pending := s.pending.eraseIdx n, queue := s.queue ++ [(c, .done p a)] }).Perm
      s.flights := by
  obtain ⟨hn, hp⟩ := List.getElem?_eq_some_iff.1 h
  have := List.getElem_cons_eraseIdx_perm hn
  rw [hp] at this
  have hj : List.filterMap Job.flight [(c, Job.done p a)] = [(c, p)] := rfl
  simp only [flights, List.filterMap_append, List.append_assoc, hj]
  exact this.append_left _

/-- A completion runs no call but the one its request was issued for, and a signal wakes the caller
whose call has just finished. -/
def Own (S : Service W Q R P A I) (s : Sys W R P A) : Act Q A I → Prop
  | .run i => ∀ c p a queue, s.queue = (c, .done p a) :: queue → ∀ w c' r,
      S.resume i s.world p a = (w, some (c', r)) → c' = c
  | .signal (some t) => ∀ c, s.main = .signalling c → s.threads t = .waiting c
  | _ => True

structure Inv (s : Sys W R P A) : Prop where
  base : Base s
  /-- A call has one run to come at most. -/
  labels : s.labels.Nodup
  served : ∀ c ∈ s.labels, (∃ t, (s.threads t).served = some c) ∧ c ∉ s.finished.map Prod.fst
  fits : ∀ t, (s.threads t).Fits (s.finished.map Prod.fst) s.main.call
  main : ∀ c, s.main.call = some c → c ∈ s.finished.map Prod.fst
  once : (s.finished.map Prod.fst).Nodup
  results : ∀ c r, (c, r) ∈ s.finished → s.results c = some r ∧ c < s.calls
  returned : ∀ c r, (c, r) ∈ s.returned → ∃ v, r = some v ∧ (c, v) ∈ s.finished
  leave : (s.returned.map Prod.fst).Nodup
  stale : s.stale = []

theorem fits_setThread {t : Nat} {pc : Pc} {finished : List Nat} {main : Option Nat}
    (h : pc.Fits finished main) (hf : ∀ u, u ≠ t → (s.threads u).Fits finished main) (u : Nat) :
    ((s.setThread t pc).threads u).Fits finished main := by
  rw [threads_setThread]
  split
  · exact h
  · next hut => exact hf u hut

theorem Inv.init (w : W) : Inv ({ world := w } : Sys W R P A) := by
  refine ⟨⟨?_, ?_, ?_, ?_, ?_, ?_, ?_, ?_⟩, ?_, ?_, ?_, ?_, ?_, ?_, ?_, ?_, ?_⟩ <;>
    simp [Pc.call, Pc.Locked, MainPc.Locked, Sys.labels, Pc.Fits, MainPc.call]

/-- A call that has not returned is that of a caller. -/
theorem Base.not_returned {t c : Nat} (hb : Base s) (h : (s.threads t).call = some c) :
    c ∉ s.returned.map Prod.fst := by
  simp only [List.mem_map, not_exists, not_and]
  rintro ⟨c', x⟩ hx rfl
  exact (hb.gone _ _ hx).2 t h

theorem labels_head {c : Nat} {j : Job P A} {queue : List (Nat × Job P A)}
    (hq : s.queue = (c, j) :: queue) :
    s.labels = c :: (queue.map Prod.fst ++ s.pending.map Prod.fst) := by
  simp [Sys.labels, hq]

theorem Inv.fits_at {t : Nat} {pc : Pc} (hi : Inv s) (ht : s.threads t = pc) :
    pc.Fits (s.finished.map Prod.fst) s.main.call := ht ▸ hi.fits t

theorem Inv.fits_main {m : MainPc} (hi : Inv s) (hm : s.main = m) (t : Nat) :
    (s.threads t).Fits (s.finished.map Prod.fst) m.call := hm ▸ hi.fits t

/-! ## Steps of a caller -/

theorem Inv.enter {t : Nat} {w : W} (hi : Inv s) (ht : s.threads t = .idle)
    (hb : Base ({ s with world := w, calls := s.calls + 1 }.setThread t (.entered s.calls))) :
    Inv ({ s with world := w, calls := s.calls + 1 }.setThread t (.entered s.calls)) := by
  have hfresh : s.calls ∉ s.finished.map Prod.fst := by
    simp only [List.mem_map, not_exists, not_and]
    rintro ⟨c, r⟩ hc rfl
    exact Nat.lt_irrefl _ (hi.results _ _ hc).2
  exact { hi with
    base := hb
    served := fun c hc =>
      ⟨exists_setThread (by simp [ht, Pc.served]) (hi.served c hc).1, (hi.served c hc).2⟩
    fits := fits_setThread hfresh fun u _ => hi.fits u
    results := fun c r hc => ⟨(hi.results c r hc).1, Nat.lt_succ_of_lt (hi.results c r hc).2⟩ }

/-- A caller goes on within a call and takes or gives up the mutex. -/
theorem Inv.move {t : Nat} {pc : Pc} {holder : Option Holder} {waiters : List Nat} (hi : Inv s)
    (hs : (s.threads t).served = pc.served) (hf : pc.Fits (s.finished.map Prod.fst) s.main.call)
    (hb : Base ({ s with holder := holder, waiters := waiters }.setThread t pc)) :
    Inv ({ s with holder := holder, waiters := waiters }.setThread t pc) where
  base := hb
  labels := hi.labels
  served c hc := ⟨exists_setThread (fun h => hs ▸ h) (hi.served c hc).1, (hi.served c hc).2⟩
  fits := fits_setThread hf fun u _ => hi.fits u
  main := hi.main
  once := hi.once
  results := hi.results
  returned := hi.returned
  leave := hi.leave
  stale := hi.stale

theorem Inv.post {t c : Nat} (hi : Inv s) (ht : s.threads t = .holding c)
    (hb : Base ({ s with queue := s.queue ++ [(c, Job.start)] }.setThread t (.posted c))) :
    Inv ({ s with queue := s.queue ++ [(c, Job.start)] }.setThread t (.posted c)) := by
  have hc : c ∉ s.finished.map Prod.fst := hi.fits_at ht
  -- A run to come belongs to a caller that has posted, and only this one is in the call.
  have hn : c ∉ s.labels := by
    intro hc
    obtain ⟨u, hu⟩ := (hi.served c hc).1
    obtain rfl := hi.base.inj u t c (Pc.call_of_served hu) (by rw [ht]; rfl)
    rw [ht] at hu
    cases hu
  have hp : (c :: s.labels).Perm
      (({ s with queue := s.queue ++ [(c, Job.start)] }.setThread t (.posted c)).labels) := by
    simp only [Sys.labels, setThread, List.map_append, List.append_assoc]
    exact List.perm_middle.symm
  refine { hi with
    base := hb
    labels := hp.nodup_iff.1 (List.nodup_cons.2 ⟨hn, hi.labels⟩)
    served := ?_
    fits := fits_setThread (fun h => absurd h hc) fun u _ => hi.fits u }
  intro c' hc'
  rcases List.mem_cons.1 (hp.mem_iff.2 hc') with rfl | hc'
  · exact ⟨⟨t, by simp [threads_setThread, Pc.served]⟩, hc⟩
  · exact ⟨exists_setThread (by simp [ht, Pc.served]) (hi.served c' hc').1, (hi.served c' hc').2⟩

theorem Inv.leaves {t c : Nat} (hi : Inv s) (ht : s.threads t = .leaving c)
    (hb : Base ({ s with
      holder := none, returned := s.returned ++ [(c, s.results c)] }.setThread t .idle)) :
    Inv ({ s with holder := none, returned := s.returned ++ [(c, s.results c)] }.setThread t .idle) := by
  refine { hi with
    base := hb
    served := fun c hc =>
      ⟨exists_setThread (by simp [ht, Pc.served]) (hi.served c hc).1, (hi.served c hc).2⟩
    fits := fits_setThread trivial fun u _ => hi.fits u
    returned := ?_
    leave := ?_ }
  · intro c' x h
    rcases List.mem_append.1 h with h | h
    · exact hi.returned c' x h
    · -- A caller is woken once its call is finished, so the result it takes is the final one.
      cases List.mem_singleton.1 h
      obtain ⟨⟨c, v⟩, hv, rfl⟩ := List.mem_map.1 (hi.fits_at ht)
      exact ⟨v, (hi.results c v hv).1, hv⟩
  · have hl : (s.returned ++ [(c, s.results c)]).map Prod.fst = s.returned.map Prod.fst ++ [c] := by
      simp
    simp only [setThread, hl]
    exact (List.perm_append_singleton c _).nodup_iff.2
      (List.nodup_cons.2 ⟨hi.base.not_returned (by rw [ht]; rfl), hi.leave⟩)

/-! ## Runs of the main thread -/

/-- What is left of the invariant for the call at the head of the queue, and for the others. -/
structure Turn (s : Sys W R P A) (c : Nat) (queue : List (Nat × Job P A)) : Prop where
  fresh : c ∉ queue.map Prod.fst ++ s.pending.map Prod.fst
  labels : (queue.map Prod.fst ++ s.pending.map Prod.fst).Nodup
  served : ∀ c' ∈ queue.map Prod.fst ++ s.pending.map Prod.fst,
    (∃ t, (s.threads t).served = some c') ∧ c' ∉ s.finished.map Prod.fst
  caller : ∃ t, (s.threads t).served = some c
  unfinished : c ∉ s.finished.map Prod.fst
  lt : c < s.calls
  gone : c ∉ s.returned.map Prod.fst
  results : ∀ v c' v', (c', v') ∈ s.finished →
    Function.update s.results c (some v) c' = some v' ∧ c' < s.calls

theorem Inv.turn {c : Nat} {j : Job P A} {queue : List (Nat × Job P A)} (hi : Inv s)
    (hq : s.queue = (c, j) :: queue) : Turn s c queue := by
  have hl := hi.labels
  have hs := hi.served
  rw [labels_head hq] at hl hs
  obtain ⟨hn, hl⟩ := List.nodup_cons.1 hl
  obtain ⟨⟨t, ht⟩, hc⟩ := hs c (List.mem_cons_self ..)
  have hcall := Pc.call_of_served ht
  refine ⟨hn, hl, fun c' h => hs c' (.tail _ h), ⟨t, ht⟩, hc, hi.base.lt t c hcall,
    hi.base.not_returned hcall, ?_⟩
  -- The run overwrites the result of `c` alone, which is not a finished call.
  intro v c' v' h
  have hne : c' ≠ c := fun h' => hc (h' ▸ List.mem_map_of_mem h)
  rw [Function.update_of_ne hne]
  exact hi.results c' v' h

/-- A run that chains. -/
theorem Inv.chained {c : Nat} {j : Job P A} {queue : List (Nat × Job P A)} {w : W} {v : R}
    {p : Option P} (hi : Inv s) (hm : s.main = .idle) (hq : s.queue = (c, j) :: queue)
    (hb : Base ({ s with queue := queue }.ran w c ⟨v, false, p⟩)) :
    Inv ({ s with queue := queue }.ran w c ⟨v, false, p⟩) := by
  have ht := hi.turn hq
  have hsub : ∀ c' ∈ Sys.labels ({ s with queue := queue }.ran w c ⟨v, false, p⟩),
      c' ∈ queue.map Prod.fst ++ s.pending.map Prod.fst ∨ c' = c := by
    cases p with
    | none => exact fun c' h => .inl h
    | some p => simp [Sys.labels, Sys.ran, or_assoc]
  refine ⟨hb, ?_, ?_, ?_, ?_, hi.once, ht.results v, hi.returned, hi.leave, ?_⟩
  · -- A request left pending takes the place of the job that ran.
    cases p with
    | none => exact ht.labels
    | some p =>
      have hl : Sys.labels ({ s with queue := queue }.ran w c ⟨v, false, some p⟩) =
          (queue.map Prod.fst ++ s.pending.map Prod.fst) ++ [c] := by
        simp [Sys.labels, Sys.ran]
      rw [hl]
      exact (List.perm_append_singleton c _).nodup_iff.2 (List.nodup_cons.2 ⟨ht.fresh, ht.labels⟩)
  · intro c' h
    rcases hsub c' h with h | rfl
    · exact ht.served c' h
    · exact ⟨ht.caller, ht.unfinished⟩
  · exact hi.fits_main hm
  · rintro c' ⟨⟩
  · exact (if_neg ht.gone).trans hi.stale

/-- A run that is final. -/
theorem Inv.final {c : Nat} {j : Job P A} {queue : List (Nat × Job P A)} {w : W} {v : R}
    (hi : Inv s) (hm : s.main = .idle) (hq : s.queue = (c, j) :: queue)
    (hb : Base ({ s with queue := queue }.ran w c ⟨v, true, none⟩)) :
    Inv ({ s with queue := queue }.ran w c ⟨v, true, none⟩) := by
  have ht := hi.turn hq
  obtain ⟨t, hc⟩ := ht.caller
  have hcall := Pc.call_of_served hc
  have hl : (s.finished ++ [(c, v)]).map Prod.fst = s.finished.map Prod.fst ++ [c] := by simp
  have hmem {c' : Nat} : c' ∈ (s.finished ++ [(c, v)]).map Prod.fst ↔
      c' ∈ s.finished.map Prod.fst ∨ c' = c := by simp
  refine ⟨hb, ht.labels, ?_, ?_, ?_, ?_, ?_, ?_, hi.leave, ?_⟩
  · intro c' h
    refine ⟨(ht.served c' h).1, ?_⟩
    intro h'
    rcases hmem.1 h' with h' | rfl
    · exact (ht.served c' h).2 h'
    · exact ht.fresh h
  · intro u
    refine (hi.fits_main hm u).finish ?_ hmem
    -- The only thread in the call is the one its task was posted by.
    intro hu
    rwa [hi.base.inj u t c hu hcall]
  · rintro c' ⟨⟩
    exact hmem.2 (.inr rfl)
  · simp only [Sys.ran, if_true, hl]
    exact (List.perm_append_singleton c _).nodup_iff.2 (List.nodup_cons.2 ⟨ht.unfinished, hi.once⟩)
  · intro c' v' h
    rcases List.mem_append.1 h with h | h
    · exact ht.results v c' v' h
    · cases List.mem_singleton.1 h
      exact ⟨Function.update_self .., ht.lt⟩
  · intro c' x h
    obtain ⟨v, rfl, hv⟩ := hi.returned c' x h
    exact ⟨v, rfl, List.mem_append_left _ hv⟩
  · exact (if_neg ht.gone).trans hi.stale

/-- A run for the call at the head of the queue. -/
theorem Inv.ran {c : Nat} {j : Job P A} {queue : List (Nat × Job P A)} {w : W} {r : Ran R P}
    (hi : Inv s) (hm : s.main = .idle) (hq : s.queue = (c, j) :: queue)
    (hr : r.final = true → r.pending = none) (hb : Base ({ s with queue := queue }.ran w c r)) :
    Inv ({ s with queue := queue }.ran w c r) := by
  obtain ⟨v, f, p⟩ := r
  cases f with
  | false => exact hi.chained hm hq hb
  | true =>
    obtain rfl : p = none := hr rfl
    exact hi.final hm hq hb

theorem Inv.drop {c : Nat} {j : Job P A} {queue : List (Nat × Job P A)} {w : W} (hi : Inv s)
    (hm : s.main = .idle) (hq : s.queue = (c, j) :: queue)
    (hb : Base { s with queue := queue, world := w, main := .idle }) :
    Inv { s with queue := queue, world := w, main := .idle } := by
  have ht := hi.turn hq
  exact { hi with
    base := hb
    labels := ht.labels
    served := ht.served
    fits := hi.fits_main hm
    main := fun c h => by cases h }

theorem labels_complete {n c : Nat} {p : P} (a : A) (h : s.pending[n]? = some (c, p)) :
    s.labels.Perm (Sys.labels { s with
      pending := s.pending.eraseIdx n, queue := s.queue ++ [(c, .done p a)] }) := by
  obtain ⟨hn, hp⟩ := List.getElem?_eq_some_iff.1 h
  have := (List.getElem_cons_eraseIdx_perm hn).map Prod.fst
  rw [hp] at this
  simp only [Sys.labels, List.map_append, List.map_cons, List.map_nil, List.append_assoc]
  exact this.symm.append_left _

/-! ## The signal -/

/-- The main thread takes or gives up the mutex. -/
theorem Inv.mainMove {m : MainPc} {holder : Option Holder} (hi : Inv s) (hm : s.main.call = m.call)
    (hb : Base { s with holder := holder, main := m }) : Inv { s with holder := holder, main := m } :=
  { hi with base := hb, fits := hm ▸ hi.fits, main := hm ▸ hi.main }

/-- A signal finds the caller of the finished call waiting: the mutex was released by its wait. -/
theorem Inv.waits {t c : Nat} (hi : Inv s) (hm : s.main = .signalling c)
    (ht : (s.threads t).served = some c) : t ∈ s.waiters := by
  have hholder := hi.base.main (by rw [hm]; trivial)
  cases hpc : s.threads t with
  | posted c' =>
    -- It would still hold the mutex the main thread holds.
    have := hi.base.thread t (by rw [hpc]; trivial)
    rw [hholder] at this
    cases this
  | waiting c' => exact (hi.base.waiters t).2 ⟨c', hpc⟩
  | _ => rw [hpc] at ht; cases ht

theorem Inv.signalNone {c : Nat} (hi : Inv s) (hm : s.main = .signalling c) (hw : s.waiters = [])
    (hb : Base { s with main := .unlocking }) : Inv { s with main := .unlocking } := by
  refine { hi with base := hb, fits := ?_, main := fun c' h => by cases h }
  intro u
  refine (hi.fits_main hm u).signalled ?_
  intro hu
  have := hi.waits hm hu
  rw [hw] at this
  cases this

theorem Inv.signal {t c : Nat} (hi : Inv s) (hm : s.main = .signalling c)
    (ht : s.threads t = .waiting c)
    (hb : Base ({ s with main := .unlocking, waiters := s.waiters.erase t }.setThread t (.woken c))) :
    Inv ({ s with main := .unlocking, waiters := s.waiters.erase t }.setThread t (.woken c)) := by
  have hc := hi.main c (by rw [hm]; rfl)
  refine { hi with
    base := hb
    fits := fits_setThread hc ?_
    main := fun c h => by cases h
    served := fun c' h => ⟨exists_setThread ?_ (hi.served c' h).1, (hi.served c' h).2⟩ }
  · -- The woken caller's call has no run to come: it is finished.
    intro h'
    rw [ht] at h'
    cases h'
    exact absurd hc (hi.served _ h).2
  · intro u hu
    refine (hi.fits_main hm u).signalled ?_
    intro h
    exact hu (hi.base.inj u t c (Pc.call_of_served h) (by rw [ht]; rfl))

theorem Inv.step {a : Act Q A I} (hS : S.Lawful) (hi : Inv s) (ho : s.Own S a)
    (h : s.step S a = some s') : Inv s' := by
  have hb := hi.base.step h
  cases step_spec h with
  | enter t q ht => exact hi.enter ht hb
  | hold t c ht hh =>
    have hf := hi.fits_at ht
    exact hi.move (by rw [ht]; rfl) hf hb
  | relock t c ht hh =>
    have hf := hi.fits_at ht
    exact hi.move (by rw [ht]; rfl) hf hb
  | wait t c ht =>
    have hf := hi.fits_at ht
    exact hi.move (by rw [ht]; rfl) hf hb
  | post t c ht => exact hi.post ht hb
  | leave t c ht => exact hi.leaves ht hb
  | complete n a c p hp =>
    have hl := labels_complete a hp
    exact { hi with
      base := hb
      labels := hl.nodup_iff.1 hi.labels
      served := fun c' h => hi.served c' (hl.mem_iff.2 h) }
  | start i c queue w r hm hq hr =>
    have hf := hS.start i s.world c
    rw [hr] at hf
    exact hi.ran hm hq hf hb
  | resume i c c' p a queue w r hm hq hr =>
    -- The completion runs the call its request was issued for.
    obtain rfl := ho c p a queue hq w c' r hr
    exact hi.ran hm hq (hS.resume _ _ _ _ _ _ _ hr) hb
  | drop i c p a queue w hm hq hr => exact hi.drop hm hq hb
  | mainLock c hm hh => exact hi.mainMove (by rw [hm]; rfl) hb
  | mainUnlock hm => exact hi.mainMove (by rw [hm]; rfl) hb
  | signalNone c hm hw => exact hi.signalNone hm hw hb
  | signal t c c' hm ht hw =>
    obtain rfl : c' = c := by
      have := ho c hm
      rw [ht] at this
      cases this
      rfl
    exact hi.signal hm ht hb

/-! ## Runs -/

/-- Every caller that left had its call finished and left with the result of its final run; no run was
made for a call that had returned. -/
structure Returns (s : Sys W R P A) : Prop where
  own : ∀ c r, (c, r) ∈ s.returned → ∃ v, r = some v ∧ (c, v) ∈ s.finished
  once : (s.finished.map Prod.fst).Nodup
  stale : s.stale = []

theorem run_inv (hS : S.Lawful) {w : W} {as : List (Act Q A I)}
    (hg : Run.Guarded (step S) (Own S) { world := w } as)
    (hr : Run.run (step S) { world := w } as = some s) : Inv s :=
  Run.invariant (fun _ _ _ hi ho h => hi.step hS ho h) (.init w) hg hr

theorem Inv.returns (hi : Inv s) : Returns s := ⟨hi.returned, hi.once, hi.stale⟩

/-- When every caller has left, every call has returned, and what was returned is what the final runs
stored. -/
theorem Inv.returned_perm (hi : Inv s) (hidle : ∀ t, s.threads t = .idle) :
    s.returned.Perm (s.finished.map fun x => (x.1, some x.2)) ∧
      ∀ c, c < s.calls → c ∈ s.finished.map Prod.fst := by
  have hcalls : ∀ c, c < s.calls → ∃ v, (c, some v) ∈ s.returned ∧ (c, v) ∈ s.finished := by
    intro c hc
    rcases hi.base.calls c hc with ⟨t, ht⟩ | h
    · rw [hidle t] at ht
      cases ht
    · obtain ⟨⟨c', r⟩, hr, he⟩ := List.mem_map.1 h
      obtain rfl : c' = c := he
      obtain ⟨v, rfl, hv⟩ := hi.returned c' r hr
      exact ⟨v, hr, hv⟩
  constructor
  · have hn : (s.finished.map fun x => (x.1, some x.2)).Nodup := by
      refine List.Nodup.of_map Prod.fst ?_
      rw [List.map_map]
      exact hi.once
    refine (List.perm_ext_iff_of_nodup hi.leave.of_map hn).2 ?_
    rintro ⟨c, r⟩
    constructor
    · intro h
      obtain ⟨v, rfl, hv⟩ := hi.returned c r h
      exact List.mem_map_of_mem hv
    · intro h
      obtain ⟨⟨c', v⟩, hv, he⟩ := List.mem_map.1 h
      cases he
      obtain ⟨hv', hlt⟩ := hi.results c' v hv
      obtain ⟨v', hr, hf⟩ := hcalls c' hlt
      have := (hi.results c' v' hf).1
      rw [hv'] at this
      cases this
      exact hr
  · intro c hc
    obtain ⟨v, -, hv⟩ := hcalls c hc
    exact List.mem_map_of_mem hv

/-- When every caller has left, no request is in flight. -/
theorem Inv.flights_nil (hi : Inv s) (hidle : ∀ t, s.threads t = .idle) : s.flights = [] := by
  refine List.eq_nil_iff_forall_not_mem.2 fun ⟨c, p⟩ h => ?_
  obtain ⟨t, ht⟩ := (hi.served c (mem_labels_of_flight h)).1
  rw [hidle t] at ht
  cases ht

/-- A signal that wakes another waiting caller lets it leave with its call unfinished. -/
theorem Inv.strays (hi : Inv s) {c c' t : Nat} (hm : s.main = .signalling c)
    (ht : s.threads t = .waiting c') (hne : c' ≠ c) :
    ∃ s', Run.run (Sys.step S) s [.signal (some t), .mainUnlock, .lock t, .leave t] = some s' ∧
      ¬ Returns s' := by
  -- A waiting caller's call is finished only if it is the one about to be signalled.
  have hc : c' ∉ s.finished.map Prod.fst := by
    intro h
    have := hi.fits_at ht
    rw [hm] at this
    cases this h
    exact hne rfl
  have hw := (hi.base.waiters t).2 ⟨c', ht⟩
  refine ⟨{ s with
    threads := Function.update s.threads t .idle
    holder := none
    waiters := s.waiters.erase t
    main := .idle
    returned := s.returned ++ [(c', s.results c')] },
    by simp [Run.run, Sys.step, hm, ht, hw, setThread], fun hret => ?_⟩
  obtain ⟨v, -, hv⟩ := hret.own c' (s.results c') (by simp)
  exact hc (List.mem_map_of_mem hv)

end Sys

end Rendezvous
