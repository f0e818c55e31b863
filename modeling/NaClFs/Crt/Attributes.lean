/-
The attributes of the embed element as `NaClFsInstance::Init` reads them: `find_arg`, the number of the
`argc` attribute, and the names of the `argv` attributes.

`int` and `long` have 32 bits.
-/
import Mathlib.Data.List.Basic
import Mathlib.Data.List.TakeWhile
import NaClFs.Base.Types

namespace NaClFs.Crt

/-! ## Definitions -/

/-- `find_arg` on the pairs of `argn` and `argv`. -/
def findArg (key : Str) : List (Str × Str) → Option Str
  | [] => none
  | (argn, argv) :: attributes => if key = argn then some argv else findArg key attributes

def isSpace (c : UInt8) : Bool := c = 32 ∨ (9 ≤ c ∧ c ≤ 13)

def isDigit (c : UInt8) : Bool := 48 ≤ c ∧ c ≤ 57

/-- The value of the digits a string starts with. -/
def leadingDigits (s : Str) : Nat :=
  (s.takeWhile isDigit).foldl (fun value c => 10 * value + (c.toNat - 48)) 0

/-- `atoi`: `strtol` in base 10, with a `long` of 32 bits. -/
def atoi (nptr : Str) : Int :=
  let s := nptr.dropWhile isSpace
  if s.head? = some 45 then max (-2147483648) (-(leadingDigits s.tail : Int))
  else if s.head? = some 43 then min 2147483647 (leadingDigits s.tail : Int)
  else min 2147483647 (leadingDigits s : Int)

/-- `%d`. -/
def decimal (n : Int) : Str :=
  (if n < 0 then [45] else []) ++ (Nat.toDigits 10 n.natAbs).map Char.toUInt8

/-- `snprintf(argname, 64, "argv%d", i)`. -/
def argName (i : Nat) : Str := (str "argv" ++ decimal (BitVec.ofNat 32 i).toInt).take 63

def argNotFound : Str := str "(naclfs argv not found)"

/-- The string the loop copies for `argv_[i]`. -/
def argText (attributes : List (Str × Str)) (i : Nat) : Str :=
  match findArg (argName i) attributes with
  | some argvStr => argvStr
  | none => argNotFound

/-- `new_argc`. -/
def newArgc (attributes : List (Str × Str)) : BitVec 32 :=
  match findArg (str "argc") attributes with
  | some argcStr => BitVec.ofInt 32 (atoi argcStr)
  | none => 0

/-! ## Finding an attribute -/

theorem findArg_eq_find? (key : Str) (attributes : List (Str × Str)) :
    findArg key attributes = (attributes.find? fun a => key = a.1).map Prod.snd := by
  induction attributes with
  | nil => rfl
  | cons a attributes ih =>
    obtain ⟨argn, argv⟩ := a
    by_cases h : key = argn
    · simp [findArg, h]
    · simp [findArg, h, ih]

/-- `find_arg` finds the value of the first attribute of the name. -/
theorem findArg_eq_some_iff {key value : Str} {attributes : List (Str × Str)} :
    findArg key attributes = some value ↔ ∃ before after,
      attributes = before ++ (key, value) :: after ∧ ∀ a ∈ before, a.1 ≠ key := by
  rw [findArg_eq_find?, Option.map_eq_some_iff]
  constructor
  · rintro ⟨⟨argn, argv⟩, h, rfl⟩
    obtain ⟨he, before, after, rfl, hb⟩ := List.find?_eq_some_iff_append.1 h
    obtain rfl : key = argn := of_decide_eq_true he
    refine ⟨before, after, rfl, fun a ha hn => ?_⟩
    simpa [hn] using hb a ha
  · rintro ⟨before, after, rfl, hb⟩
    refine ⟨(key, value), List.find?_eq_some_iff_append.2 ⟨by simp, before, after, rfl, ?_⟩, rfl⟩
    intro a ha
    simpa using fun hn => hb a ha hn.symm

theorem findArg_eq_none_iff {key : Str} {attributes : List (Str × Str)} :
    findArg key attributes = none ↔ ∀ a ∈ attributes, a.1 ≠ key := by
  rw [findArg_eq_find?, Option.map_eq_none_iff, List.find?_eq_none]
  refine forall₂_congr fun a _ => ?_
  rw [decide_eq_true_iff]
  exact ne_comm

/-! ## Numbers -/

/-- `atoi` answers an `int`. -/
theorem atoi_bounds (s : Str) : -2147483648 ≤ atoi s ∧ atoi s ≤ 2147483647 := by
  unfold atoi
  dsimp only
  split
  · omega
  · split <;> omega

theorem isDigit_toUInt8 {c : Char} (h : c.isDigit = true) :
    isDigit c.toUInt8 = true ∧ c.toUInt8.toNat = c.toNat := by
  have hc : 48 ≤ c.toNat ∧ c.toNat ≤ 57 := Char.isDigit_iff_toNat.1 h
  have hn : c.toUInt8.toNat = c.toNat := by
    show c.toNat % 256 = c.toNat
    omega
  refine ⟨?_, hn⟩
  rw [isDigit, decide_eq_true_iff, UInt8.le_iff_toNat_le, UInt8.le_iff_toNat_le, hn]
  exact hc

theorem leadingDigits_map {cs : List Char} (h : ∀ c ∈ cs, c.isDigit = true) :
    leadingDigits (cs.map Char.toUInt8) = Nat.ofDigitChars 10 cs 0 := by
  have hall : (cs.map Char.toUInt8).takeWhile isDigit = cs.map Char.toUInt8 := by
    apply List.takeWhile_eq_self_iff.2
    intro x hx
    obtain ⟨c, hc, rfl⟩ := List.mem_map.1 hx
    exact (isDigit_toUInt8 (h c hc)).1
  rw [leadingDigits, hall, List.foldl_map, Nat.ofDigitChars_eq_foldl]
  apply List.foldl_ext
  intro value c hc
  rw [(isDigit_toUInt8 (h c hc)).2]
  rfl

/-- `atoi` reads back what `%d` prints. -/
theorem atoi_decimal {n : Nat} (h : n < 2147483648) : atoi (decimal n) = n := by
  have hd : ∀ c ∈ Nat.toDigits 10 n, c.isDigit = true := fun c hc =>
    Nat.isDigit_of_mem_toDigits (by omega) (by omega) hc
  have he : decimal n = (Nat.toDigits 10 n).map Char.toUInt8 := by
    rw [decimal, if_neg (by omega), List.nil_append, Int.natAbs_natCast]
  obtain ⟨c, cs, hcs⟩ := List.exists_cons_of_ne_nil (Nat.toDigits_ne_nil (n := n) (b := 10))
  have hc : isDigit c.toUInt8 = true := (isDigit_toUInt8 (hd c (by rw [hcs]; simp))).1
  rw [isDigit, decide_eq_true_iff, UInt8.le_iff_toNat_le, UInt8.le_iff_toNat_le] at hc
  -- A digit is neither a space nor a sign.
  have hspace : isSpace c.toUInt8 = false := by
    rw [isSpace, decide_eq_false_iff_not, UInt8.le_iff_toNat_le, UInt8.le_iff_toNat_le, ← UInt8.toNat_inj]
    simp at hc ⊢
    omega
  have hsign : c.toUInt8 ≠ 45 ∧ c.toUInt8 ≠ 43 := by
    rw [ne_eq, ne_eq, ← UInt8.toNat_inj, ← UInt8.toNat_inj]
    simp at hc ⊢
    omega
  have hdrop : (decimal n).dropWhile isSpace = decimal n := by
    rw [he, hcs, List.map_cons, List.dropWhile_cons_of_neg (by rw [hspace]; simp)]
  unfold atoi
  dsimp only
  rw [hdrop, he, leadingDigits_map hd, Nat.ofDigitChars_ten_toDigits, hcs, List.map_cons, List.head?_cons,
    if_neg (by simpa using hsign.1), if_neg (by simpa using hsign.2)]
  omega

theorem length_decimal_le {i : Nat} (h : i < 10000000000) : (decimal i).length ≤ 10 := by
  unfold decimal
  rw [if_neg (by omega), List.nil_append, List.length_map, Int.natAbs_natCast]
  exact (Nat.length_toDigits_le_iff (by omega) (by omega)).2 h

/-- `argname` has room for the whole name, whose number is `i` below 2^31. -/
theorem argName_eq {i : Nat} (h : i < 2147483648) : argName i = str "argv" ++ decimal i := by
  have hi : (BitVec.ofNat 32 i).toInt = i := by
    rw [BitVec.toInt_eq_toNat_cond, BitVec.toNat_ofNat, Nat.mod_eq_of_lt (by omega)]
    exact if_pos (by omega)
  have hl := length_decimal_le (i := i) (by omega)
  have h4 : (str "argv").length = 4 := by decide
  unfold argName
  rw [hi]
  apply List.take_of_length_le
  rw [List.length_append, h4]
  omega

/-- `argc_` is what `atoi` reads, as a `uint32_t`. -/
theorem toNat_newArgc {attributes : List (Str × Str)} {argcStr : Str}
    (h : findArg (str "argc") attributes = some argcStr) :
    ((newArgc attributes).toNat : Int) = atoi argcStr % 4294967296 := by
  unfold newArgc
  rw [h]
  dsimp only
  rw [BitVec.toNat_ofInt]
  omega

theorem newArgc_of_none {attributes : List (Str × Str)}
    (h : findArg (str "argc") attributes = none) : newArgc attributes = 0 := by
  unfold newArgc
  rw [h]

end NaClFs.Crt
