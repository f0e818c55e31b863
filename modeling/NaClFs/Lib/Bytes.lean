/-
Byte arrays that are read and written at an offset: a slice, and an array with some bytes laid over it,
which grows when they end past its end. A gap in front of them is filled.
-/
import Mathlib.Data.List.Basic
import Mathlib.Tactic.Common

namespace Bytes

variable {α : Type*}

/-- The `n` bytes at `offset`, or as many as there are. -/
def slice (xs : List α) (offset n : Nat) : List α := (xs.drop offset).take n

/-- `ys` laid over the bytes at `offset`. Nothing is filled when there is nothing to lay. -/
def overlay (fill : α) (xs : List α) (offset : Nat) (ys : List α) : List α :=
  if ys = [] then xs
  else xs.take offset ++ List.replicate (offset - xs.length) fill ++ ys ++ xs.drop (offset + ys.length)

theorem length_slice (xs : List α) (offset n : Nat) :
    (slice xs offset n).length = min n (xs.length - offset) := by
  unfold slice
  rw [List.length_take, List.length_drop]

/-- A slice is asked for no more than there is. -/
theorem slice_min (xs : List α) (offset n : Nat) :
    slice xs offset (min n (xs.length - offset)) = slice xs offset n := by
  unfold slice
  rw [← List.length_drop, ← List.take_eq_take_min]

theorem length_front (fill : α) (xs : List α) (offset : Nat) :
    (xs.take offset ++ List.replicate (offset - xs.length) fill).length = offset := by
  rw [List.length_append, List.length_take, List.length_replicate]
  omega

theorem length_overlay (fill : α) (xs : List α) (offset : Nat) {ys : List α} (h : ys ≠ []) :
    (overlay fill xs offset ys).length = max xs.length (offset + ys.length) := by
  unfold overlay
  rw [if_neg h, List.length_append, List.length_append, length_front, List.length_drop]
  omega

/-- Bytes laid at the end are appended. -/
theorem overlay_end (fill : α) (xs ys : List α) : overlay fill xs xs.length ys = xs ++ ys := by
  unfold overlay
  by_cases h : ys = []
  · rw [if_pos h, h, List.append_nil]
  · rw [if_neg h, List.take_length, Nat.sub_self, List.replicate_zero, List.append_nil,
      List.drop_eq_nil_of_le (by omega), List.append_nil]

/-- Two slices one after the other. -/
theorem slice_append (xs : List α) (offset m n : Nat) :
    slice xs offset m ++ slice xs (offset + m) n = slice xs offset (m + n) := by
  unfold slice
  rw [List.take_add, List.drop_drop]

theorem getElem?_slice (xs : List α) (offset : Nat) {n i : Nat} (h : i < n) :
    (slice xs offset n)[i]? = xs[offset + i]? := by
  unfold slice
  rw [List.getElem?_take_of_lt h, List.getElem?_drop]

/-- Where something was laid. -/
theorem getElem?_overlay (fill : α) (xs ys : List α) {offset i : Nat} (h : offset ≤ i)
    (hi : i < offset + ys.length) : (overlay fill xs offset ys)[i]? = ys[i - offset]? := by
  have hne : ys ≠ [] := by
    rintro rfl
    simp only [List.length_nil] at hi
    omega
  unfold overlay
  rw [if_neg hne, List.append_assoc, List.getElem?_append_right (by rw [length_front]; exact h), length_front]
  apply List.getElem?_append_left
  omega

/-- Where nothing was laid. -/
theorem getElem?_overlay_of_not (fill : α) (xs ys : List α) {offset i : Nat}
    (h : i < offset ∨ offset + ys.length ≤ i) (hi : i < xs.length) :
    (overlay fill xs offset ys)[i]? = xs[i]? := by
  unfold overlay
  by_cases hne : ys = []
  · rw [if_pos hne]
  · rw [if_neg hne]
    have hl := length_front fill xs offset
    rcases h with h | h
    · rw [List.append_assoc, List.getElem?_append_left (by omega),
        List.getElem?_append_left (by rw [List.length_take]; omega), List.getElem?_take_of_lt h]
    · have hf : (xs.take offset ++ List.replicate (offset - xs.length) fill ++ ys).length =
        offset + ys.length := by
        rw [List.length_append, hl]
      rw [List.getElem?_append_right (by omega), hf, List.getElem?_drop]
      congr 1
      omega

/-- What is laid right behind what was laid just before. -/
theorem overlay_append (fill : α) (xs : List α) (offset : Nat) (ys zs : List α) :
    overlay fill (overlay fill xs offset ys) (offset + ys.length) zs = overlay fill xs offset (ys ++ zs) := by
  by_cases hy : ys = []
  · subst hy
    unfold overlay
    simp
  · by_cases hz : zs = []
    · subst hz
      unfold overlay
      simp
    · have hne : ys ++ zs ≠ [] := fun h => hy (List.append_eq_nil_iff.1 h).1
      have hl := length_overlay fill xs offset hy
      have hf : (xs.take offset ++ List.replicate (offset - xs.length) fill ++ ys).length =
          offset + ys.length := by
        rw [List.length_append, length_front]
      unfold overlay at hl ⊢
      rw [if_neg hz, if_neg hne]
      rw [if_neg hy] at hl ⊢
      rw [← List.append_assoc]
      -- Only the length of what is in front matters.
      generalize List.take offset xs ++ List.replicate (offset - xs.length) fill ++ ys = front at hl hf ⊢
      rw [hl, Nat.sub_eq_zero_of_le (by omega), List.replicate_zero, List.append_nil]
      rw [List.take_append_of_le_length (by omega), List.take_of_length_le (by omega),
        List.drop_append, hf, List.drop_eq_nil_of_le (by omega), List.nil_append, List.drop_drop,
        List.length_append, Nat.add_sub_cancel_left, Nat.add_assoc]

end Bytes
