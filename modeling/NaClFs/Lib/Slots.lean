/-
Tables with holes: a list of optional entries in which an entry is added at the end and a slot is
emptied in place, so that an index, once handed out, is never reused.
-/
import Mathlib.Data.List.Perm.Basic
import Mathlib.Data.List.Nodup

namespace Slots

variable {α : Type*}

/-- The entries of a table, holes left out. -/
def entries (t : List (Option α)) : List α := t.filterMap id

@[simp] theorem entries_nil : entries ([] : List (Option α)) = [] := rfl

@[simp] theorem entries_append_some (t : List (Option α)) (a : α) :
    entries (t ++ [some a]) = entries t ++ [a] := by
  simp [entries]

theorem mem_entries {t : List (Option α)} {a : α} : a ∈ entries t ↔ some a ∈ t := by
  simp [entries, List.mem_filterMap]

/-- Emptying a slot takes its entry, once, out of the entries. -/
theorem perm_entries_set {t : List (Option α)} {i : Nat} {a : α} (h : t[i]? = some (some a)) :
    (entries t).Perm (a :: entries (t.set i none)) := by
  induction t generalizing i with
  | nil => simp at h
  | cons o t ih =>
    cases i with
    | zero =>
      simp only [List.getElem?_cons_zero, Option.some.injEq] at h
      subst h
      simp [entries]
    | succ i =>
      rw [List.getElem?_cons_succ] at h
      have := ih h
      cases o with
      | none => simpa [entries] using this
      | some b =>
        have hp : (entries (some b :: t)).Perm (b :: a :: entries (t.set i none)) := by
          simpa [entries] using this.cons b
        simpa [entries] using hp.trans (List.Perm.swap a b _)

/-- In a table that holds nothing twice an emptied slot leaves the other entries. -/
theorem mem_entries_set {t : List (Option α)} {i : Nat} {a b : α} (hn : (entries t).Nodup)
    (h : t[i]? = some (some a)) : b ∈ entries (t.set i none) ↔ b ∈ entries t ∧ b ≠ a := by
  have hp := perm_entries_set h
  have ha : a ∉ entries (t.set i none) := (List.nodup_cons.1 (hp.nodup_iff.1 hn)).1
  rw [hp.mem_iff, List.mem_cons]
  constructor
  · intro hb
    refine ⟨.inr hb, ?_⟩
    rintro rfl
    exact ha hb
  · rintro ⟨rfl | hb, hne⟩
    · exact absurd rfl hne
    · exact hb

/-- Two slots of such a table do not hold the same. -/
theorem index_unique {t : List (Option α)} {i j : Nat} {a : α} (hn : (entries t).Nodup)
    (hi : t[i]? = some (some a)) (hj : t[j]? = some (some a)) : i = j := by
  by_contra hne
  have hmem : some a ∈ t.set i none := by
    refine List.mem_of_getElem? (i := j) ?_
    rw [List.getElem?_set_ne hne, hj]
  exact ((mem_entries_set hn hi).1 (mem_entries.2 hmem)).2 rfl

/-- A slot that is added at the end leaves the slots before it. -/
theorem getElem?_append_of_some {t u : List (Option α)} {i : Nat} {o : Option α}
    (h : t[i]? = some o) : (t ++ u)[i]? = some o := by
  obtain ⟨hi, -⟩ := List.getElem?_eq_some_iff.1 h
  rw [List.getElem?_append_left hi, h]

/-- In a table that holds nothing twice what is said of one entry changes in one slot. -/
theorem map_set {γ : Type*} {t : List (Option α)} {f g : α → γ} {i : Nat} {a : α} (hn : (entries t).Nodup)
    (h : t[i]? = some (some a)) (hf : ∀ b ∈ entries t, b ≠ a → g b = f b) :
    t.map (Option.map g) = (t.map (Option.map f)).set i (some (g a)) := by
  apply List.ext_getElem?
  intro j
  rw [List.getElem?_map, List.getElem?_set, List.length_map, List.getElem?_map]
  have hi : i < t.length := (List.getElem?_eq_some_iff.1 h).1
  by_cases hj : i = j
  · subst hj
    rw [if_pos rfl, if_pos hi, h]
    rfl
  · rw [if_neg hj]
    cases ho : t[j]? with
    | none => rfl
    | some o =>
      cases o with
      | none => rfl
      | some b =>
        have hb : b ∈ entries t := mem_entries.2 (List.mem_of_getElem? ho)
        have hne : b ≠ a := by
          rintro rfl
          exact hj (index_unique hn h ho)
        simp [hf b hb hne]

/-- What is said of the entries stays when they do. -/
theorem map_congr {γ : Type*} {t : List (Option α)} {f g : α → γ} (h : ∀ a ∈ entries t, g a = f a) :
    t.map (Option.map g) = t.map (Option.map f) := by
  apply List.map_congr_left
  intro o ho
  cases o with
  | none => rfl
  | some a => simp [h a (mem_entries.2 ho)]

end Slots
