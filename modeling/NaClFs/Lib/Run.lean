/-
Runs of a labelled transition system given by a partial step function: what holds along a run
whose steps are all taken where a guard allows them.
-/
import Mathlib.Data.List.Basic

namespace Run

variable {S A : Type*}

/-- The state after the actions, taken in order; none when one of them is not enabled. -/
def run (step : S → A → Option S) : S → List A → Option S
  | s, [] => some s
  | s, a :: as => (step s a).bind fun s' => run step s' as

/-- Every action of the run is taken in a state in which `ok` allows it. -/
def Guarded (step : S → A → Option S) (ok : S → A → Prop) : S → List A → Prop
  | _, [] => True
  | s, a :: as => ok s a ∧ ∀ s', step s a = some s' → Guarded step ok s' as

/-- Every state of the run satisfies `P`, the first and the last included. -/
def Along (step : S → A → Option S) (P : S → Prop) : S → List A → Prop
  | s, [] => P s
  | s, a :: as => P s ∧ ∀ s', step s a = some s' → Along step P s' as

variable {step : S → A → Option S} {ok : S → A → Prop}

@[simp] theorem run_nil (s : S) : run step s [] = some s := rfl

theorem run_cons_some {s t : S} {a : A} {as : List A} :
    run step s (a :: as) = some t ↔ ∃ s', step s a = some s' ∧ run step s' as = some t := by
  simp [run, Option.bind_eq_some_iff]

theorem run_append {s t : S} {as bs : List A} :
    run step s (as ++ bs) = some t ↔ ∃ s', run step s as = some s' ∧ run step s' bs = some t := by
  induction as generalizing s with
  | nil => simp
  | cons a as ih =>
    simp only [List.cons_append, run_cons_some, ih]
    constructor
    · rintro ⟨s', h, u, h1, h2⟩
      exact ⟨u, ⟨s', h, h1⟩, h2⟩
    · rintro ⟨u, ⟨s', h, h1⟩, h2⟩
      exact ⟨s', h, u, h1, h2⟩

theorem Guarded.cons {s t : S} {a : A} {as : List A} (h : ok s a) (hs : step s a = some t)
    (ht : Guarded step ok t as) : Guarded step ok s (a :: as) := by
  refine ⟨h, fun s' hs' => ?_⟩
  rw [hs] at hs'
  cases hs'
  exact ht

theorem Guarded.mono {ok' : S → A → Prop} (himp : ∀ s a, ok s a → ok' s a) :
    ∀ {as : List A} {s : S}, Guarded step ok s as → Guarded step ok' s as
  | [], _, _ => trivial
  | _ :: _, _, h => ⟨himp _ _ h.1, fun s' hs => (h.2 s' hs).mono himp⟩

theorem guarded_true : ∀ (as : List A) (s : S), Guarded step (fun _ _ => True) s as
  | [], _ => trivial
  | _ :: as, _ => ⟨trivial, fun s' _ => guarded_true as s'⟩

/-- What a guarded step preserves, a guarded run preserves. -/
theorem invariant {I : S → Prop} (hstep : ∀ s a s', I s → ok s a → step s a = some s' → I s') :
    ∀ {as : List A} {s t : S}, I s → Guarded step ok s as → run step s as = some t → I t
  | [], _, _, hi, _, hr => by cases hr; exact hi
  | _ :: _, _, _, hi, hg, hr => by
    obtain ⟨s', hs, hr⟩ := run_cons_some.1 hr
    exact invariant hstep (hstep _ _ _ hi hg.1 hs) (hg.2 s' hs) hr

/-- What every step preserves, every run preserves. -/
theorem invariant_all {I : S → Prop} (hstep : ∀ s a s', I s → step s a = some s' → I s')
    {as : List A} {s t : S} (hi : I s) (hr : run step s as = some t) : I t := by
  induction as generalizing s with
  | nil => cases hr; exact hi
  | cons a as ih =>
    obtain ⟨s', hs, hr⟩ := run_cons_some.1 hr
    exact ih (hstep _ _ _ hi hs) hr

theorem Along.head {P : S → Prop} {s : S} {as : List A} (h : Along step P s as) : P s := by
  cases as with
  | nil => exact h
  | cons a as => exact h.1

/-- When a step leaves `P` and meets `ok` exactly where the guard allows it, a run keeps `P` and all its
steps meet `ok` exactly when it is guarded. `I` is an invariant of the guarded runs that gives `P`. -/
theorem along_and_guarded_iff {I P : S → Prop} {ok ok' : S → A → Prop} (hP : ∀ s, I s → P s)
    (hI : ∀ s a s', I s → ok' s a → step s a = some s' → I s')
    (hstep : ∀ s a s', I s → step s a = some s' → (P s' ∧ ok s a ↔ ok' s a)) :
    ∀ {as : List A} {s t : S}, I s → run step s as = some t →
      (Along step P s as ∧ Guarded step ok s as ↔ Guarded step ok' s as)
  | [], s, _, hi, _ => iff_of_true ⟨hP s hi, trivial⟩ trivial
  | a :: as, s, t, hi, hr => by
    obtain ⟨s', hs, hr⟩ := run_cons_some.1 hr
    have hk := hstep s a s' hi hs
    simp only [Along, Guarded, hP s hi, true_and, hs, Option.some.injEq, forall_eq']
    constructor
    · rintro ⟨h, hok, hg⟩
      have hok' := hk.1 ⟨h.head, hok⟩
      exact ⟨hok', (along_and_guarded_iff hP hI hstep (hI s a s' hi hok' hs) hr).1 ⟨h, hg⟩⟩
    · rintro ⟨hok', hg⟩
      obtain ⟨h, hg'⟩ := (along_and_guarded_iff hP hI hstep (hI s a s' hi hok' hs) hr).2 hg
      exact ⟨h, (hk.2 hok').2, hg'⟩

/-- When a step keeps `P` exactly where the guard allows it, a run keeps `P` all along exactly when it
is guarded. `I` is an invariant of all runs the steps may rely on. -/
theorem along_iff_guarded {I P : S → Prop} (hI : ∀ s a s', I s → step s a = some s' → I s')
    (hstep : ∀ s a s', I s → P s → step s a = some s' → (P s' ↔ ok s a)) {as : List A} {s t : S}
    (hi : I s) (hp : P s) (hr : run step s as = some t) :
    Along step P s as ↔ Guarded step ok s as := by
  have h : Along step P s as ∧ Guarded step (fun _ _ => True) s as ↔ Guarded step ok s as := by
    refine along_and_guarded_iff (I := fun s => I s ∧ P s) (fun s h => h.2) ?_ ?_ ⟨hi, hp⟩ hr
    · intro s a s' h hok hs
      exact ⟨hI s a s' h.1 hs, (hstep s a s' h.1 h.2 hs).2 hok⟩
    · intro s a s' h hs
      exact (and_iff_left trivial).trans (hstep s a s' h.1 h.2 hs)
  rw [← h]
  exact ⟨fun h => ⟨h, guarded_true as s⟩, fun h => h.1⟩

/-- When an allowed action keeps `Q`, which gives `P`, and any other leaves a state without `P`, a run
from `Q` keeps `P` all along exactly when all its actions are allowed. -/
theorem along_iff_forall {P Q : S → Prop} {ok : A → Prop} (hP : ∀ s, Q s → P s)
    (hkeep : ∀ s a s', Q s → ok a → step s a = some s' → Q s')
    (hbreak : ∀ s a s', Q s → ¬ ok a → step s a = some s' → ¬ P s') :
    ∀ {as : List A} {s t : S}, Q s → run step s as = some t →
      (Along step P s as ↔ ∀ a ∈ as, ok a)
  | [], s, _, hq, _ => iff_of_true (hP s hq) (by simp)
  | a :: as, s, t, hq, hr => by
    obtain ⟨s', hs, hr⟩ := run_cons_some.1 hr
    simp only [Along, hP s hq, true_and, hs, Option.some.injEq, forall_eq', List.forall_mem_cons]
    by_cases hok : ok a
    · rw [along_iff_forall hP hkeep hbreak (hkeep s a s' hq hok hs) hr]
      exact ⟨fun h => ⟨hok, h⟩, fun h => h.2⟩
    · exact iff_of_false (fun h => hbreak s a s' hq hok hs h.head) fun h => hok h.1

/-- What is held with a positive rank, which the owner's steps lower and nobody raises until it is
released, is released within as many steps of the owner, whatever comes between them. -/
theorem released (I held free : S → Prop) (own : A → Bool) (rank : S → Nat)
    (hI : ∀ s a s', I s → step s a = some s' → I s') (hpos : ∀ s, I s → held s → 0 < rank s)
    (hstep : ∀ s a s', I s → held s → step s a = some s' →
      free s' ∨ (held s' ∧ rank s' + (if own a then 1 else 0) ≤ rank s)) :
    ∀ {as : List A} {s t : S}, I s → held s → run step s as = some t → rank s ≤ as.countP own →
      ∃ bs cs u, as = bs ++ cs ∧ run step s bs = some u ∧ free u
  | [], s, _, hi, hh, _, hn => by
    have := hpos s hi hh
    rw [List.countP_nil] at hn
    omega
  | a :: as, s, _, hi, hh, hr, hn => by
    obtain ⟨s', hs, hr⟩ := run_cons_some.1 hr
    rcases hstep s a s' hi hh hs with hf | ⟨hh', hrank⟩
    · exact ⟨[a], as, s', rfl, run_cons_some.2 ⟨s', hs, rfl⟩, hf⟩
    · rw [List.countP_cons] at hn
      obtain ⟨bs, cs, u, rfl, hb, hu⟩ :=
        released I held free own rank hI hpos hstep (hI _ _ _ hi hs) hh' hr (by omega)
      exact ⟨a :: bs, cs, u, rfl, run_cons_some.2 ⟨s', hs, hb⟩, hu⟩

end Run
