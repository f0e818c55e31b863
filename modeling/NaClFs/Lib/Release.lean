/-
Who holds the mutex of a rendezvous, and for how long: a caller that holds it can always take its next
step, and gives the mutex up after two of its own steps at most, whatever the others do.
-/
import NaClFs.Lib.Returns

namespace Rendezvous

variable {W Q R P A I : Type}

/-! ## Callers -/

/-- The caller whose action it is; none for the environment and the main thread. -/
def Act.caller : Act Q A I → Option Nat
  | .enter t _ | .lock t | .post t | .wait t | .leave t => some t
  | _ => none

/-- A step of a caller within its call, of the environment, or of the main thread after its run. -/
def Act.onward : Act Q A I → Bool
  | .enter _ _ | .run _ => false
  | _ => true

theorem Act.ne_run {a : Act Q A I} (h : a.onward = true) (i : I) : a ≠ .run i := by
  rintro rfl
  cases h

theorem Act.ne_enter {a : Act Q A I} (h : a.onward = true) (t : Nat) (q : Q) : a ≠ .enter t q := by
  rintro rfl
  cases h

/-- How many steps a caller takes until it gives the mutex up. -/
def Pc.toRelease : Pc → Nat
  | .holding _ => 2
  | .posted _ | .leaving _ => 1
  | _ => 0

theorem Pc.Locked.toRelease_pos {pc : Pc} (h : pc.Locked) : 0 < pc.toRelease := by
  cases pc with
  | holding c | posted c | leaving c => simp only [Pc.toRelease]; omega
  | _ => exact h.elim

theorem Pc.toRelease_le (pc : Pc) : pc.toRelease ≤ 2 := by
  cases pc <;> simp only [Pc.toRelease] <;> omega

theorem Pc.Locked.ne_idle {pc : Pc} (h : pc.Locked) : pc ≠ .idle := by
  rintro rfl
  exact h

namespace Sys

variable {S : Service W Q R P A I} {s s' : Sys W R P A}

/-! ## The holder -/

/-- The mutex is held by who has locked it, and by nobody else. -/
structure Owned (s : Sys W R P A) : Prop where
  thread : ∀ t, s.holder = some (.thread t) ↔ (s.threads t).Locked
  main : s.holder = some .main ↔ s.main.Locked

theorem Owned.init (w : W) : Owned ({ world := w } : Sys W R P A) where
  thread _ := iff_of_false nofun id
  main := iff_of_false nofun id

/-- The mutex does not depend on the rest of the state. -/
theorem Owned.congr (ho : Owned s) (hh : s'.holder = s.holder) (ht : s'.threads = s.threads)
    (hm : s'.main = s.main) : Owned s' := by
  constructor
  · intro t
    rw [hh, ht]
    exact ho.thread t
  · rw [hh, hm]
    exact ho.main

theorem Owned.step {a : Act Q A I} (ho : Owned s) (h : s.step S a = some s') : Owned s' := by
  obtain ⟨thread, main⟩ := ho
  cases step_spec h with
  | complete => exact ⟨thread, main⟩
  | start i c queue w r hm hq hr | resume i c c' p a queue w r hm hq hr =>
    refine ⟨thread, ?_⟩
    simp only [ran]
    grind [MainPc.Locked]
  | drop i c p a queue w hm hq hr =>
    refine ⟨thread, ?_⟩
    rw [hm] at main
    exact main
  | _ =>
    -- One thread moves, or the main thread takes or gives up the mutex.
    refine ⟨?_, ?_⟩ <;> grind [Pc.Locked, MainPc.Locked, setThread, threads_setThread]

/-- A main thread that is about to lock finds the mutex free or held by a caller. -/
theorem Owned.holder_of_locking {c : Nat} (ho : Owned s) (hm : s.main = .locking c)
    (hh : s.holder ≠ none) : ∃ t, s.holder = some (.thread t) := by
  cases h : s.holder with
  | none => exact absurd h hh
  | some holder =>
    cases holder with
    | thread t => exact ⟨t, rfl⟩
    | main =>
      have := ho.main.1 h
      rw [hm] at this
      exact this.elim

/-- The next step of a caller that holds the mutex needs nobody else. -/
theorem Owned.next {t : Nat} (ho : Owned s) (hh : s.holder = some (.thread t)) :
    ∃ (a : Act Q A I) (s' : Sys W R P A), (a = .post t ∨ a = .wait t ∨ a = .leave t) ∧
      s.step S a = some s' := by
  have hl := (ho.thread t).1 hh
  cases ht : s.threads t with
  | holding c => exact ⟨.post t, _, .inl rfl, by simp only [Sys.step, ht]; rfl⟩
  | posted c => exact ⟨.wait t, _, .inr (.inl rfl), by simp only [Sys.step, ht]; rfl⟩
  | leaving c => exact ⟨.leave t, _, .inr (.inr rfl), by simp only [Sys.step, ht]; rfl⟩
  | _ =>
    rw [ht] at hl
    exact hl.elim

/-- A caller that holds the mutex gives it up or comes closer to it with each of its own steps, and
loses nothing by the steps of others. -/
theorem Owned.held_step {t : Nat} {a : Act Q A I} (ho : Owned s) (hh : s.holder = some (.thread t))
    (h : s.step S a = some s') :
    s'.holder = none ∨ (s'.holder = some (.thread t) ∧
      (s'.threads t).toRelease + (if a.caller = some t then 1 else 0) ≤ (s.threads t).toRelease) := by
  have hl := (ho.thread t).1 hh
  have hm : ¬ s.main.Locked := by
    rw [← ho.main, hh]
    simp
  cases step_spec h with
  | enter u q hu =>
    have hne : u ≠ t := by
      rintro rfl
      rw [hu] at hl
      exact hl
    right
    refine ⟨hh, ?_⟩
    rw [threads_setThread, if_neg (Ne.symm hne), if_neg (by simpa [Act.caller] using hne)]
    exact Nat.le_refl _
  | hold u c hu hn | relock u c hu hn =>
    rw [hh] at hn
    cases hn
  | post u c hu =>
    have hu' : s.holder = some (.thread u) := (ho.thread u).2 (by rw [hu]; trivial)
    rw [hh] at hu'
    cases hu'
    right
    refine ⟨hh, ?_⟩
    rw [threads_setThread, if_pos rfl, hu]
    simp only [Act.caller, Pc.toRelease, if_true]
    omega
  | wait u c hu => exact .inl rfl
  | leave u c hu => exact .inl rfl
  | mainLock c hm' hn =>
    rw [hh] at hn
    cases hn
  | signalNone c hm' =>
    rw [hm'] at hm
    exact absurd trivial hm
  | signal u c c' hm' =>
    rw [hm'] at hm
    exact absurd trivial hm
  | mainUnlock hm' => exact .inl rfl
  | _ =>
    right
    refine ⟨hh, ?_⟩
    simp [Act.caller, ran]

/-- Only a call begins with an idle caller. -/
theorem ne_idle_of_step {a : Act Q A I} (h : s.step S a = some s') (ha : ∀ t q, a ≠ .enter t q) (t : Nat)
    (ht : s'.threads t ≠ .idle) : s.threads t ≠ .idle := by
  cases step_spec h with
  | enter u q => exact absurd rfl (ha u q)
  | leave u c hu =>
    rw [threads_setThread] at ht
    split at ht
    · exact absurd rfl ht
    · exact ht
  | hold u c hu | relock u c hu | post u c hu | wait u c hu | signal u c c' hm hu =>
    rw [threads_setThread] at ht
    split at ht
    · next hut =>
      rw [hut, hu]
      exact nofun
    · exact ht
  | _ => exact ht

theorem threads_enter {t : Nat} {q : Q} (h : s.step S (.enter t q) = some s') {u : Nat} (hu : u ≠ t) :
    s'.threads u = s.threads u := by
  cases step_spec h with
  | enter t q ht => rw [threads_setThread, if_neg hu]

theorem threads_leave {t : Nat} (h : s.step S (.leave t) = some s') :
    s.threads t ≠ .idle ∧ s'.threads t = .idle := by
  cases step_spec h with
  | leave t c ht =>
    rw [ht, threads_setThread, if_pos rfl]
    exact ⟨nofun, rfl⟩

/-- A caller's own step finds it in its call. -/
theorem ne_idle_of_caller {a : Act Q A I} (h : s.step S a = some s') (ha : a.onward = true) {t : Nat}
    (ht : a.caller = some t) : s.threads t ≠ .idle := by
  cases step_spec h with
  | enter u q => cases ha
  | hold u c hu | relock u c hu | post u c hu | wait u c hu | leave u c hu =>
    cases ht
    rw [hu]
    exact nofun
  | _ => cases ht

/-- A caller waits from its wait until it is signalled. -/
theorem waiting_iff {a : Act Q A I} (h : s.step S a = some s') (t : Nat) :
    (∃ c, s'.threads t = .waiting c) ↔
      a = .wait t ∨ ((∃ c, s.threads t = .waiting c) ∧ a ≠ .signal (some t)) := by
  -- A thread that moves does so to `pc`, from where it did not wait.
  have hmove : ∀ (u : Nat) (pc : Pc), (∀ c, pc ≠ .waiting c) → (∀ c, s.threads u ≠ .waiting c) →
      ((∃ c, (s.setThread u pc).threads t = .waiting c) ↔ ∃ c, s.threads t = .waiting c) := by
    intro u pc hpc hu
    rw [threads_setThread]
    split
    · next htu =>
      subst htu
      exact iff_of_false (fun ⟨c, hc⟩ => hpc c hc) fun ⟨c, hc⟩ => hu c hc
    · exact Iff.rfl
  cases step_spec h with
  | enter u q hu =>
    have := hmove u (.entered s.calls) (by simp) (by simp [hu])
    simpa [setThread] using this
  | hold u c hu =>
    have := hmove u (.holding c) (by simp) (by simp [hu])
    simpa [setThread] using this
  | relock u c hu =>
    have := hmove u (.leaving c) (by simp) (by simp [hu])
    simpa [setThread] using this
  | post u c hu =>
    have := hmove u (.posted c) (by simp) (by simp [hu])
    simpa [setThread] using this
  | leave u c hu =>
    have := hmove u .idle (by simp) (by simp [hu])
    simpa [setThread] using this
  | wait u c hu =>
    rw [threads_setThread]
    by_cases htu : t = u
    · subst htu
      rw [if_pos rfl]
      exact iff_of_true ⟨c, rfl⟩ (.inl rfl)
    · rw [if_neg htu]
      simp [Ne.symm htu]
  | signal u c c' hm hu =>
    rw [threads_setThread]
    by_cases htu : t = u
    · subst htu
      rw [if_pos rfl]
      refine iff_of_false ?_ ?_
      · rintro ⟨c, hc⟩
        cases hc
      · rintro (h | ⟨-, h⟩)
        · cases h
        · exact h rfl
    · rw [if_neg htu]
      simp [Ne.symm htu]
  | _ => simp [ran]

/-- Only a main thread that has locked the mutex signals. -/
theorem not_signal_of_idle {a : Act Q A I} (h : s.step S a = some s') (hm : s.main = .idle) (t : Nat) :
    a ≠ .signal (some t) := by
  rintro rfl
  cases step_spec h with
  | signal t c c' hm' =>
    rw [hm] at hm'
    cases hm'

/-- An idle main thread is busy again only with a run. -/
theorem main_idle_of_step {a : Act Q A I} (h : s.step S a = some s') (ha : ∀ i, a ≠ .run i)
    (hm : s.main = .idle) : s'.main = .idle := by
  cases step_spec h with
  | start i | resume i | drop i => exact absurd rfl (ha i)
  | mainLock c hm' | signalNone c hm' | signal t c c' hm' =>
    rw [hm] at hm'
    cases hm'
  | mainUnlock => rfl
  | _ => exact hm

end Sys

end Rendezvous
