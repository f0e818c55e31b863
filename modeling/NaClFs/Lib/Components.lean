/-
Component lists: joining with a separator and splitting at it, and the fold of a list of
components over a stack on which some components pop.
-/
import Mathlib.Data.List.Basic
import Mathlib.Tactic.Common

namespace Components

variable {α : Type*}

/-! ## Joining -/

theorem intercalate_eq_nil {sep : α} {xs : List (List α)} (h : ∀ x ∈ xs, x ≠ []) :
    [sep].intercalate xs = [] ↔ xs = [] := by
  match xs with
  | [] => simp
  | [x] => simpa using h x (by simp)
  | x :: y :: xs => simp [List.intercalate_cons_cons]

section Join

variable [DecidableEq α] {sep : α}

/-- The components of a joined string: none for the empty string. -/
def split (sep : α) (s : List α) : List (List α) := if s = [] then [] else s.splitOn sep

/-- A component can be read back from a join: not empty and without the separator. -/
def Plain (sep : α) (x : List α) : Prop := x ≠ [] ∧ sep ∉ x

theorem split_intercalate {xs : List (List α)} (h : ∀ x ∈ xs, Plain sep x) :
    split sep ([sep].intercalate xs) = xs := by
  unfold split
  by_cases hx : xs = []
  · subst hx; simp
  · rw [if_neg ((intercalate_eq_nil fun x hm => (h x hm).1).not.2 hx)]
    exact List.splitOn_intercalate sep (fun x hm => (h x hm).2) hx

theorem not_mem_of_mem_splitOn {s x : List α} (h : x ∈ s.splitOn sep) : sep ∉ x := by
  induction s generalizing x with
  | nil => simp only [List.splitOn_nil, List.mem_singleton] at h; subst h; simp
  | cons c s ih =>
    rw [List.splitOn_cons_eq_if_modifyHead] at h
    split at h
    · rcases List.mem_cons.1 h with rfl | h
      · simp
      · exact ih h
    · rename_i hc
      rcases hs : s.splitOn sep with _ | ⟨y, ys⟩
      · exact absurd hs (List.splitOn_ne_nil sep s)
      · rw [hs, List.modifyHead_cons] at h
        rcases List.mem_cons.1 h with rfl | h
        · -- `c` goes in front of the first component, and it is not the separator.
          have := ih (x := y) (by rw [hs]; simp)
          simp only [List.mem_cons, not_or]
          exact ⟨fun e => hc (by simp [e]), this⟩
        · exact ih (by rw [hs]; exact List.mem_cons_of_mem _ h)

/-- Two separators never meet in a join of nonempty components. -/
theorem not_infix_intercalate {xs : List (List α)} (h : ∀ x ∈ xs, Plain sep x) :
    ¬ [sep, sep] <:+: [sep].intercalate xs := by
  -- Between two separators a split finds an empty component, and there is none.
  rintro ⟨a, b, hab⟩
  have hs : split sep ([sep].intercalate xs) = xs := split_intercalate h
  have hne : [sep].intercalate xs ≠ [] := by rw [← hab]; simp
  rw [split, if_neg hne, ← hab] at hs
  rw [show a ++ [sep, sep] ++ b = a ++ sep :: ([] ++ sep :: b) by simp,
    List.splitOn_append_cons_self, List.splitOn_append_cons_self] at hs
  have : ([] : List α) ∈ xs := by rw [← hs]; simp
  exact (h [] this).1 rfl

/-- A join of nonempty components does not end in the separator. -/
theorem getLast?_intercalate {xs : List (List α)} (h : ∀ x ∈ xs, Plain sep x) :
    ([sep].intercalate xs).getLast? ≠ some sep := by
  -- The same behind a last separator.
  intro hl
  obtain ⟨a, ha⟩ := List.getLast?_eq_some_iff.1 hl
  have hs : split sep ([sep].intercalate xs) = xs := split_intercalate h
  rw [split, if_neg (by rw [ha]; simp), ha, List.splitOn_append_cons_self] at hs
  have : ([] : List α) ∈ xs := by rw [← hs]; simp
  exact (h [] this).1 rfl

/-- A join of nonempty components does not start with the separator. -/
theorem head?_intercalate {xs : List (List α)} (h : ∀ x ∈ xs, Plain sep x) :
    ([sep].intercalate xs).head? ≠ some sep := by
  -- The same in front of a first separator.
  intro hl
  obtain ⟨a, ha⟩ := List.head?_eq_some_iff.1 hl
  have hs : split sep ([sep].intercalate xs) = xs := split_intercalate h
  rw [split, if_neg (by rw [ha]; simp), ha,
    show sep :: a = [] ++ sep :: a from rfl, List.splitOn_append_cons_self] at hs
  have : ([] : List α) ∈ xs := by rw [← hs]; simp
  exact (h [] this).1 rfl

end Join

/-! ## The stack fold -/

section Fold

variable (u : α → Prop) [DecidablePred u]

/-- One component onto the stack, whose top is the last element: `u` pops it. -/
def push (st : List α) (x : α) : List α := if u x then st.dropLast else st ++ [x]

/-- The stack after the components, from the left. -/
def fold (st : List α) (xs : List α) : List α := xs.foldl (push u) st

variable {u}

@[simp] theorem fold_nil (st : List α) : fold u st [] = st := rfl

@[simp] theorem fold_cons (st : List α) (x : α) (xs : List α) :
    fold u st (x :: xs) = fold u (push u st x) xs := rfl

theorem fold_append (st xs ys : List α) : fold u st (xs ++ ys) = fold u (fold u st xs) ys :=
  List.foldl_append

theorem push_up {st : List α} {x : α} (h : u x) : push u st x = st.dropLast := if_pos h

theorem push_not_up {st : List α} {x : α} (h : ¬ u x) : push u st x = st ++ [x] := if_neg h

/-- Components that do not pop are all kept. -/
theorem fold_of_not_up {xs : List α} (h : ∀ x ∈ xs, ¬ u x) (st : List α) :
    fold u st xs = st ++ xs := by
  induction xs generalizing st with
  | nil => simp
  | cons x xs ih =>
    rw [fold_cons, push_not_up (h x (by simp)), ih fun y hy => h y (by simp [hy])]
    simp

theorem mem_push {st : List α} {x y : α} (h : y ∈ push u st x) : y ∈ st ∨ (y = x ∧ ¬ u x) := by
  unfold push at h
  split at h
  · exact .inl (List.dropLast_subset st h)
  · rename_i hx
    rcases List.mem_append.1 h with h | h
    · exact .inl h
    · exact .inr ⟨List.mem_singleton.1 h, hx⟩

/-- Nothing reaches the stack but components that do not pop. -/
theorem mem_fold {st xs : List α} {y : α} (h : y ∈ fold u st xs) :
    y ∈ st ∨ (y ∈ xs ∧ ¬ u y) := by
  induction xs generalizing st with
  | nil => exact .inl h
  | cons x xs ih =>
    rcases ih h with h | ⟨h, hy⟩
    · rcases mem_push h with h | ⟨rfl, hy⟩
      · exact .inl h
      · exact .inr ⟨by simp, hy⟩
    · exact .inr ⟨by simp [h], hy⟩

/-- What comes last only among the components is never covered on the stack. -/
theorem not_mem_dropLast_fold {xs : List α} {y : α} (h : y ∉ xs.dropLast) :
    y ∉ (fold u [] xs).dropLast := by
  rcases List.eq_nil_or_concat xs with rfl | ⟨init, x, rfl⟩
  · simp
  rw [List.concat_eq_append, List.dropLast_concat] at h
  rw [List.concat_eq_append, fold_append, fold_cons, fold_nil]
  -- The last component is pushed, or takes something away.
  have hy : y ∉ fold u [] init := by
    intro hm
    rcases mem_fold hm with hm | ⟨hm, -⟩
    · cases hm
    · exact h hm
  by_cases hx : u x
  · rw [push_up hx]
    exact fun hm => hy (List.dropLast_subset _ (List.dropLast_subset _ hm))
  · rw [push_not_up hx, List.dropLast_concat]
    exact hy

/-! ## Below the stack -/

variable (u) in
/-- How many pops of the components reach below a stack of `height` elements. -/
def excess : Nat → List α → Nat
  | _, [] => 0
  | height, x :: xs =>
    if u x then if height = 0 then excess 0 xs + 1 else excess (height - 1) xs
    else excess (height + 1) xs

/-- A stack is a lower part, of which the excess pops take elements, and what lies upon it. -/
theorem fold_append_left (st ys xs : List α) :
    fold u (st ++ ys) xs = st.take (st.length - excess u ys.length xs) ++ fold u ys xs := by
  induction xs generalizing st ys with
  | nil => simp [excess]
  | cons x xs ih =>
    rw [fold_cons, fold_cons, excess]
    by_cases hx : u x
    · rw [push_up hx, push_up hx, if_pos hx]
      rcases List.eq_nil_or_concat ys with rfl | ⟨ys, y, rfl⟩
      · -- The pop takes the last element of the lower part.
        have h := ih st.dropLast []
        simp only [List.append_nil, List.length_nil, List.length_dropLast, List.dropLast_nil,
          if_true] at h ⊢
        rw [h, List.dropLast_eq_take, List.take_take, Nat.min_eq_left (by omega), Nat.sub_sub,
          Nat.add_comm 1]
      · rw [List.concat_eq_append, ← List.append_assoc, List.dropLast_concat, List.dropLast_concat, ih]
        simp
    · rw [push_not_up hx, push_not_up hx, if_neg hx, List.append_assoc, ih]
      simp

/-- Two lower parts of different heights give one stack exactly when nothing is left of them. -/
theorem fold_eq_fold_iff {st st' : List α} (h : st'.length < st.length) (xs : List α) :
    fold u st xs = fold u st' xs ↔ st.length ≤ excess u 0 xs := by
  have hs := fold_append_left (u := u) st [] xs
  have hs' := fold_append_left (u := u) st' [] xs
  simp only [List.append_nil, List.length_nil] at hs hs'
  rw [hs, hs', List.append_cancel_right_eq]
  constructor
  · intro he
    have hl := congrArg List.length he
    simp only [List.length_take] at hl
    omega
  · intro he
    rw [Nat.sub_eq_zero_of_le he, Nat.sub_eq_zero_of_le (by omega), List.take_zero, List.take_zero]

end Fold

end Components
