/-
Objects on a heap, at addresses in the order in which they were asked for, over an allocator that may
refuse. A request that is refused takes an address too and leaves a hole there, as a free does; a null
pointer is none. An access to anything but a live object is undefined.
-/
import Mathlib.Data.List.Basic
import Mathlib.Tactic.Common

namespace Heap

variable {O : Type*}

/-! ## Access -/

/-- The live object a pointer points at. -/
def load (h : List (Option O)) (p : Option Nat) : Option O := p.bind fun a => h[a]?.join

/-- Another object in the place of the live one a pointer points at. -/
def put (h : List (Option O)) (p : Option Nat) (o : O) : Option (List (Option O)) :=
  p.bind fun a => (load h (some a)).map fun _ => h.set a (some o)

/-- The live object goes; a null pointer is left alone. -/
def free (h : List (Option O)) : Option Nat → Option (List (Option O))
  | none => some h
  | some a => (load h (some a)).map fun _ => h.set a none

@[simp] theorem load_null (h : List (Option O)) : load h none = none := rfl

theorem load_append (l r : List (Option O)) (c : Option O) :
    load (l ++ c :: r) (some l.length) = c := by
  cases c with
  | none => simp [load]
  | some o => simp [load]

theorem put_append (l r : List (Option O)) (o o' : O) :
    put (l ++ some o :: r) (some l.length) o' = some (l ++ some o' :: r) := by
  unfold put
  rw [Option.bind_some, load_append]
  simp

theorem free_append (l r : List (Option O)) (o : O) :
    free (l ++ some o :: r) (some l.length) = some (l ++ none :: r) := by
  show (load (l ++ some o :: r) (some l.length)).map _ = _
  rw [load_append]
  simp

/-- A heap that agrees with another one on the objects behind `l` has them at the same addresses. -/
theorem exists_append_of_agree {l t m : List (Option O)} (ht : t ≠ [])
    (h : ∀ a, l.length ≤ a → a < (l ++ t).length → m[a]? = (l ++ t)[a]?) :
    ∃ l' r, l'.length = l.length ∧ m = l' ++ (t ++ r) := by
  have hpos := List.length_pos_iff.2 ht
  rw [List.length_append] at h
  have hlen : l.length + t.length ≤ m.length := by
    by_contra hlt
    have he := h (l.length + t.length - 1) (by omega) (by omega)
    rw [List.getElem?_eq_none (by omega)] at he
    have hle := List.getElem?_eq_none_iff.1 he.symm
    rw [List.length_append] at hle
    omega
  have htake : (m.drop l.length).take t.length = t := by
    apply List.ext_getElem?
    intro i
    by_cases hi : i < t.length
    · rw [List.getElem?_take_of_lt hi, List.getElem?_drop, h (l.length + i) (by omega) (by omega),
        List.getElem?_append_right (by omega), Nat.add_sub_cancel_left]
    · rw [List.getElem?_eq_none (by rw [List.length_take]; omega), List.getElem?_eq_none (by omega)]
  refine ⟨m.take l.length, (m.drop l.length).drop t.length, ?_, ?_⟩
  · rw [List.length_take]
    omega
  · calc m = m.take l.length ++ m.drop l.length := (List.take_append_drop ..).symm
      _ = m.take l.length ++ ((m.drop l.length).take t.length ++ (m.drop l.length).drop t.length) := by
        rw [List.take_append_drop t.length]
      _ = _ := by rw [htake]

/-! ## Allocation -/

section Alloc

variable (grants : Nat → Bool)

/-- What the allocator answers to the request for the address. -/
def pointer (a : Nat) : Option Nat := if grants a then some a else none

/-- What the request for the address leaves there. -/
def cell (a : Nat) (o : O) : Option O := if grants a then some o else none

def alloc (h : List (Option O)) (o : O) : Option Nat × List (Option O) :=
  (pointer grants h.length, h ++ [cell grants h.length o])

variable {grants}

theorem load_cell (l r : List (Option O)) (o : O) :
    load (l ++ cell grants l.length o :: r) (pointer grants l.length) = cell grants l.length o := by
  unfold pointer
  split
  · rw [load_append]
  · rename_i hg
    rw [cell, if_neg hg, load_null]

/-- What was asked for is freed through the pointer the request gave, granted or not. -/
theorem free_cell (l r : List (Option O)) (o : O) :
    free (l ++ cell grants l.length o :: r) (pointer grants l.length) = some (l ++ none :: r) := by
  unfold pointer cell
  split
  · rw [free_append]
  · rfl

end Alloc

end Heap
