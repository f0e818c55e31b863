/-
Streams: machines that answer each action with an output, the balance between what enters a queue at
its back and what leaves it at its front over a run of such a machine, and a stream of chunks that is
cut into lines as it arrives.
-/
import Mathlib.Data.List.Basic
import Mathlib.Tactic.Common

/-! ## Machines with outputs -/

namespace Stream

variable {S A O E : Type*}

/-- The state after the actions and the output of each of them; none when one is not enabled. -/
def run (step : S → A → Option (S × O)) : S → List A → Option (S × List O)
  | s, [] => some (s, [])
  | s, a :: as => (step s a).bind fun (s', o) => (run step s' as).map fun (t, os) => (t, o :: os)

variable {step : S → A → Option (S × O)}

theorem run_nil {s t : S} {os : List O} : run step s [] = some (t, os) ↔ t = s ∧ os = [] := by
  simp [run, eq_comm]

theorem run_cons {s t : S} {a : A} {as : List A} {os : List O} :
    run step s (a :: as) = some (t, os) ↔ ∃ s' o os', step s a = some (s', o) ∧
      run step s' as = some (t, os') ∧ os = o :: os' := by
  simp only [run, Option.bind_eq_some_iff, Option.map_eq_some_iff, Prod.exists, Prod.mk.injEq]
  constructor
  · rintro ⟨s', o, hs, t', os', hr, rfl, rfl⟩
    exact ⟨s', o, os', hs, hr, rfl⟩
  · rintro ⟨s', o, os', hs, hr, rfl⟩
    exact ⟨s', o, hs, t, os', hr, rfl, rfl⟩

theorem run_append (s : S) (as bs : List A) : run step s (as ++ bs) =
    (run step s as).bind fun (t, os) => (run step t bs).map fun (u, os') => (u, os ++ os') := by
  induction as generalizing s with
  | nil =>
    simp only [List.nil_append, run, Option.bind_some]
    cases run step s bs <;> rfl
  | cons a as ih =>
    simp only [List.cons_append, run]
    cases step s a with
    | none => rfl
    | some x =>
      simp only [Option.bind_some, ih]
      cases run step x.1 as with
      | none => rfl
      | some y =>
        simp only [Option.bind_some, Option.map_some]
        cases run step y.1 bs <;> rfl

/-- When every step moves what leaves the front of the queue and what enters its back, and nothing
else, a run loses, repeats and reorders nothing. -/
theorem run_balance (queue : S → List E) (entered : A → List E) (left : O → List E)
    (hstep : ∀ s a s' o, step s a = some (s', o) →
      left o ++ queue s' = queue s ++ entered a) :
    ∀ {as : List A} {s t : S} {os : List O}, run step s as = some (t, os) →
      os.flatMap left ++ queue t = queue s ++ as.flatMap entered
  | [], _, _, _, h => by
    obtain ⟨rfl, rfl⟩ := run_nil.1 h
    simp
  | a :: as, s, t, os, h => by
    obtain ⟨s', o, os', hs, hr, rfl⟩ := run_cons.1 h
    have ih := run_balance queue entered left hstep hr
    rw [List.flatMap_cons, List.append_assoc, ih, ← List.append_assoc, hstep s a s' o hs,
      List.flatMap_cons, List.append_assoc]

/-- What the output of every step from an invariant state satisfies, every output of a run does. -/
theorem run_outputs {I : S → Prop} {P : O → Prop}
    (hstep : ∀ s a s' o, I s → step s a = some (s', o) → I s' ∧ P o) :
    ∀ {as : List A} {s t : S} {os : List O}, I s → run step s as = some (t, os) → ∀ o ∈ os, P o
  | [], _, _, _, _, h => by
    obtain ⟨-, rfl⟩ := run_nil.1 h
    simp
  | a :: as, s, t, os, hi, h => by
    obtain ⟨s', o, os', hs, hr, rfl⟩ := run_cons.1 h
    obtain ⟨hi', hp⟩ := hstep s a s' o hi hs
    rintro p (_ | ⟨_, hm⟩)
    · exact hp
    · exact run_outputs hstep hi' hr p hm

/-- Every action of the run is taken in a state in which `ok` allows it. -/
def Guarded (step : S → A → Option (S × O)) (ok : S → A → Prop) : S → List A → Prop
  | _, [] => True
  | s, a :: as => ok s a ∧ ∀ s' o, step s a = some (s', o) → Guarded step ok s' as

theorem Guarded.cons {ok : S → A → Prop} {s t : S} {a : A} {o : O} {as : List A} (h : ok s a)
    (hs : step s a = some (t, o)) (ht : Guarded step ok t as) : Guarded step ok s (a :: as) := by
  refine ⟨h, fun s' o' hs' => ?_⟩
  rw [hs] at hs'
  cases hs'
  exact ht

theorem Guarded.mono {ok ok' : S → A → Prop} (h : ∀ s a, ok s a → ok' s a) :
    ∀ {as : List A} {s : S}, Guarded step ok s as → Guarded step ok' s as
  | [], _, _ => trivial
  | _ :: _, s, hg => ⟨h s _ hg.1, fun s' o hs => (hg.2 s' o hs).mono h⟩

theorem guarded_cons_iff {ok : S → A → Prop} {s t : S} {a : A} {o : O} {as : List A}
    (hs : step s a = some (t, o)) :
    Guarded step ok s (a :: as) ↔ ok s a ∧ Guarded step ok t as := by
  constructor
  · intro h
    exact ⟨h.1, h.2 t o hs⟩
  · intro h
    exact .cons h.1 hs h.2

theorem guarded_cons_none {ok : S → A → Prop} {s : S} {a : A} {as : List A}
    (hs : step s a = none) : Guarded step ok s (a :: as) ↔ ok s a := by
  refine ⟨fun h => h.1, fun h => ⟨h, fun s' o hs' => ?_⟩⟩
  rw [hs] at hs'
  cases hs'

/-- What is collected over a run: from each step, its action, its output and the state after it. -/
def collect (step : S → A → Option (S × O)) (out : A → O → S → List E) : S → List A → List E
  | _, [] => []
  | s, a :: as =>
    match step s a with
    | none => []
    | some (s', o) => out a o s' ++ collect step out s' as

/-- What every allowed step keeps of the state and of what was collected so far, a run keeps. -/
theorem Guarded.collects {ok : S → A → Prop} (out : A → O → S → List E) (I : S → List E → Prop)
    (hstep : ∀ s a s' o xs, I s xs → ok s a → step s a = some (s', o) → I s' (xs ++ out a o s')) :
    ∀ {as : List A} {s t : S} {os : List O} {xs : List E}, Guarded step ok s as →
      run step s as = some (t, os) → I s xs → I t (xs ++ collect step out s as)
  | [], s, t, os, xs, _, h, hi => by
    obtain ⟨rfl, rfl⟩ := run_nil.1 h
    rw [collect, List.append_nil]
    exact hi
  | a :: as, s, t, os, xs, hg, h, hi => by
    obtain ⟨s', o, os', hs, hr, rfl⟩ := run_cons.1 h
    have ih := Guarded.collects out I hstep (hg.2 s' o hs) hr (hstep s a s' o xs hi hg.1 hs)
    rw [collect, hs, ← List.append_assoc]
    exact ih

/-- What every allowed step keeps, an allowed run keeps. -/
theorem Guarded.invariant {ok : S → A → Prop} (I : S → Prop)
    (hstep : ∀ s a s' o, I s → ok s a → step s a = some (s', o) → I s') :
    ∀ {as : List A} {s t : S} {os : List O}, Guarded step ok s as → run step s as = some (t, os) → I s → I t
  | [], s, t, os, _, h, hi => by
    obtain ⟨rfl, -⟩ := run_nil.1 h
    exact hi
  | a :: as, s, t, os, hg, h, hi => by
    obtain ⟨s', o, os', hs, hr, -⟩ := run_cons.1 h
    exact Guarded.invariant I hstep (hg.2 s' o hs) hr (hstep s a s' o hi hg.1 hs)

/-- Where every action is allowed in every state, the run is. -/
theorem guarded_of_forall {ok : S → A → Prop} :
    ∀ {as : List A}, (∀ a ∈ as, ∀ s, ok s a) → ∀ s, Guarded step ok s as
  | [], _, _ => trivial
  | a :: _, h, s =>
    ⟨h a (List.mem_cons_self ..) s,
      fun s' _ _ => guarded_of_forall (fun a' ha => h a' (List.mem_cons_of_mem _ ha)) s'⟩

theorem guarded_true (as : List A) (s : S) : Guarded step (fun _ _ => True) s as :=
  guarded_of_forall (fun _ _ _ => trivial) s

/-- What every step keeps, a run keeps. -/
theorem run_invariant {I : S → Prop} (hstep : ∀ s a s' o, I s → step s a = some (s', o) → I s')
    {as : List A} {s t : S} {os : List O} (hi : I s) (h : run step s as = some (t, os)) : I t :=
  (guarded_true as s).invariant I (fun s a s' o hi _ hs => hstep s a s' o hi hs) h hi

/-- The balance of a queue over a run, when what leaves its front shows in the state. -/
theorem collect_balance (queue : S → List E) (entered : A → List E) (out : A → O → S → List E)
    (hstep : ∀ s a s' o, step s a = some (s', o) → out a o s' ++ queue s' = queue s ++ entered a) :
    ∀ {as : List A} {s t : S} {os : List O}, run step s as = some (t, os) →
      collect step out s as ++ queue t = queue s ++ as.flatMap entered
  | [], s, t, os, h => by
    obtain ⟨rfl, rfl⟩ := run_nil.1 h
    simp [collect]
  | a :: as, s, t, os, h => by
    obtain ⟨s', o, os', hs, hr, rfl⟩ := run_cons.1 h
    have ih := collect_balance queue entered out hstep hr
    rw [collect, hs, List.append_assoc, ih, ← List.append_assoc, hstep s a s' o hs, List.flatMap_cons,
      List.append_assoc]

/-- Whether a run is guarded can be computed along it. -/
instance decidableGuarded {ok : S → A → Prop} [∀ s a, Decidable (ok s a)] :
    ∀ (as : List A) (s : S), Decidable (Guarded step ok s as)
  | [], _ => isTrue trivial
  | a :: as, s =>
    match hs : step s a with
    | none => decidable_of_iff (ok s a) (guarded_cons_none hs).symm
    | some (s', _) =>
      have : Decidable (Guarded step ok s' as) := decidableGuarded as s'
      decidable_of_iff (ok s a ∧ Guarded step ok s' as) (guarded_cons_iff hs).symm

/-- Forward simulation: when every allowed step is answered by a step of an abstract machine with the
same output, the actions related by `view`, then every allowed run is. -/
theorem simulation {T A' : Type*} {step : S → A → Option (S × O)} {astep : T → A' → Option (T × O)}
    {R : S → T → Prop} {ok : S → A → Prop} {view : A' → A}
    (hstep : ∀ s t a, R s t → ok s a → ∃ s' t' a' o, step s a = some (s', o) ∧ view a' = a ∧
      astep t a' = some (t', o) ∧ R s' t') :
    ∀ {as : List A} {s : S} {t : T}, R s t → Guarded step ok s as →
      ∃ s' t' as' os, run step s as = some (s', os) ∧ as'.map view = as ∧
        run astep t as' = some (t', os) ∧ R s' t'
  | [], s, t, hr, _ => ⟨s, t, [], [], rfl, rfl, rfl, hr⟩
  | a :: as, s, t, hr, hg => by
    obtain ⟨s₁, t₁, a', o, hs, hv, ht, hr₁⟩ := hstep s t a hr hg.1
    obtain ⟨s', t', as', os, hs', hv', ht', hr'⟩ := simulation hstep hr₁ (hg.2 s₁ o hs)
    refine ⟨s', t', a' :: as', o :: os, ?_, ?_, ?_, hr'⟩
    · exact run_cons.2 ⟨s₁, o, os, hs, hs', rfl⟩
    · rw [List.map_cons, hv, hv']
    · exact run_cons.2 ⟨t₁, o, os, ht, ht', rfl⟩

/-! ## Machines given by a relation -/

/-- Steps of a machine that is given by a relation, each with its action and its output. -/
inductive Steps {T : Type*} (R : T → A → O → T → Prop) : T → List A → List O → T → Prop
  | nil (t : T) : Steps R t [] [] t
  | cons {t t' u : T} {a : A} {o : O} {as : List A} {os : List O} (h : R t a o t')
      (hs : Steps R t' as os u) : Steps R t (a :: as) (o :: os) u

/-- Refinement: when every step from an invariant state is one of the relation, seen through `abs` and
`view`, then every run is. -/
theorem run_steps {T A' : Type*} {step : S → A → Option (S × O)} {R : T → A' → O → T → Prop} {I : S → Prop}
    {abs : S → T} {view : A → A'}
    (hstep : ∀ s a s' o, I s → step s a = some (s', o) → I s' ∧ R (abs s) (view a) o (abs s')) :
    ∀ {as : List A} {s t : S} {os : List O}, I s → run step s as = some (t, os) →
      I t ∧ Steps R (abs s) (as.map view) os (abs t)
  | [], _, _, _, hi, h => by
    obtain ⟨rfl, rfl⟩ := run_nil.1 h
    exact ⟨hi, .nil _⟩
  | a :: as, s, t, os, hi, h => by
    obtain ⟨s', o, os', hs, hr, rfl⟩ := run_cons.1 h
    obtain ⟨hi', hstep'⟩ := hstep s a s' o hi hs
    obtain ⟨hi'', hsteps⟩ := run_steps hstep hi' hr
    exact ⟨hi'', .cons hstep' hsteps⟩

end Stream

/-! ## Lines -/

namespace Lines

variable {α : Type*} [DecidableEq α] (sep : α)

/-- The lines of a stream that a separator ends. -/
def complete (s : List α) : List (List α) := (s.splitOn sep).dropLast

/-- What follows the last separator. -/
def pending (s : List α) : List α := (s.splitOn sep).getLast (List.splitOn_ne_nil _ _)

variable {sep}

/-- A character in front of the first component, which is also the last one or is not. -/
theorem modifyHead_splitOn {c : α} (hc : c ≠ sep) (t : List α) :
    ∀ (xs : List (List α)) (h : xs ≠ []) (h' : xs.modifyHead (List.cons c) ≠ []),
      (xs.modifyHead (List.cons c)).dropLast ++
          ((xs.modifyHead (List.cons c)).getLast h' ++ t).splitOn sep =
        (xs.dropLast ++ (xs.getLast h ++ t).splitOn sep).modifyHead (List.cons c)
  | [], h, _ => absurd rfl h
  | [x], _, _ => by
    have hc' : ¬ (c == sep) = true := by simpa using hc
    simp [List.splitOn_cons_eq_if_modifyHead, hc']
  | x :: y :: xs, _, _ => by simp

/-- A stream may be split at any point: only what was pending there goes on. -/
theorem splitOn_append (s t : List α) :
    (s ++ t).splitOn sep = complete sep s ++ (pending sep s ++ t).splitOn sep := by
  unfold complete pending
  induction s with
  | nil => simp
  | cons c s ih =>
    simp only [List.cons_append, List.splitOn_cons_eq_if_modifyHead]
    by_cases hc : c = sep
    · simp only [hc, beq_self_eq_true, if_true, List.cons_append, ih,
        List.dropLast_cons_of_ne_nil (List.splitOn_ne_nil _ _),
        List.getLast_cons (List.splitOn_ne_nil _ _)]
    · simp only [beq_iff_eq, hc, if_false, ih]
      exact (modifyHead_splitOn hc t _ (List.splitOn_ne_nil _ _) _).symm

theorem complete_append (s t : List α) :
    complete sep (s ++ t) = complete sep s ++ complete sep (pending sep s ++ t) := by
  unfold complete
  rw [splitOn_append, List.dropLast_append_of_ne_nil (List.splitOn_ne_nil _ _)]
  rfl

theorem pending_append (s t : List α) :
    pending sep (s ++ t) = pending sep (pending sep s ++ t) := by
  unfold pending
  simp only [splitOn_append s t]
  rw [List.getLast_append_of_ne_nil]
  rfl

end Lines
