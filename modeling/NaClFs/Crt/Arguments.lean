/-
`NaClFsInstance::Init` and the destructor, as far as the arguments of `naclfs_main` go: the array the
`argc` branch allocates, what the loop stores in it, and when the loops over it stay inside.

A pointer takes four bytes and a `size_t` 32 bits. An array is its slots, a slot none before its first
store. The allocator is a parameter, which may refuse a request.
-/
import NaClFs.Crt.Attributes
import NaClFs.Lib.Heap

namespace NaClFs.Crt

/-! ## The memory -/

inductive Obj where
  | array (slots : List (Option (Option Nat)))
  | text (s : Str)
  deriving DecidableEq, Repr

abbrev Memory := List (Option Obj)

/-- `sizeof(const char*) * argc`. -/
def arrayBytes (argc : BitVec 32) : BitVec 32 := 4 * argc

/-- `malloc`, for an array of pointers. -/
def malloc (grants : Nat → Bool) (mem : Memory) (bytes : BitVec 32) : Option Nat × Memory :=
  Heap.alloc grants mem (.array (List.replicate (bytes.toNat / 4) none))

def strdup (grants : Nat → Bool) (mem : Memory) (s : Str) : Option Nat × Memory :=
  Heap.alloc grants mem (.text s)

/-- The slots of an array a pointer points at. -/
def slotsOf (mem : Memory) (argv : Option Nat) : Option (List (Option (Option Nat))) :=
  match Heap.load mem argv with
  | some (.array slots) => some slots
  | _ => none

/-- `argv[i] = p`, undefined outside the array. -/
def storeSlot (mem : Memory) (argv : Option Nat) (i : Nat) (p : Option Nat) : Option Memory := do
  let slots ← slotsOf mem argv
  if i < slots.length then Heap.put mem argv (.array (slots.set i (some p))) else none

/-- `argv[i]`, undefined outside the array and before the first store. -/
def loadSlot (mem : Memory) (argv : Option Nat) (i : Nat) : Option (Option Nat) := do
  let slots ← slotsOf mem argv
  slots[i]?.join

def loadText (mem : Memory) (p : Option Nat) : Option Str :=
  match Heap.load mem p with
  | some (.text s) => some s
  | _ => none

/-! ## Init and the destructor -/

/-- `argv_`, which is `default_args` or an array of its own. -/
inductive Argv where
  | defaultArgs
  | allocated (p : Option Nat)
  deriving DecidableEq, Repr

/-- `argc_` and `argv_`. -/
structure Arguments where
  argc : BitVec 32
  argv : Argv
  deriving DecidableEq, Repr

section Init

variable (grants : Nat → Bool) (attributes : List (Str × Str))

/-- A turn of the loop of `Init`. -/
def storeArg (argv : Option Nat) (mem : Memory) (i : Nat) : Option Memory :=
  let (p, mem) := strdup grants mem (argText attributes i)
  storeSlot mem argv i p

/-- The first turns of the loop. -/
def storeArgs (argv : Option Nat) (mem : Memory) : Nat → Option Memory
  | 0 => some mem
  | i + 1 => (storeArgs argv mem i).bind fun mem => storeArg grants attributes argv mem i

/-- `NaClFsInstance::Init`; none when a store is undefined. -/
def init (mem : Memory) : Option (Arguments × Memory) :=
  let newArgc := newArgc attributes
  if newArgc ≠ 0 then do
    let (argv, mem) := malloc grants mem (arrayBytes newArgc)
    let mem ← storeArgs grants attributes argv mem newArgc.toNat
    return ({ argc := newArgc, argv := .allocated argv }, mem)
  else some ({ argc := 1, argv := .defaultArgs }, mem)

end Init

/-- The first turns of the destructor's loop. -/
def freeArgs (argv : Option Nat) (mem : Memory) : Nat → Option Memory
  | 0 => some mem
  | i + 1 => do
    let mem ← freeArgs argv mem i
    let p ← loadSlot mem argv i
    Heap.free mem p

/-- `NaClFsInstance::~NaClFsInstance`; none when a load or a free is undefined. -/
def destroy (args : Arguments) (mem : Memory) : Option Memory :=
  match args.argv with
  | .defaultArgs => some mem
  | .allocated argv => do
    let mem ← freeArgs argv mem args.argc.toNat
    Heap.free mem argv

/-- The string `naclfs_main` finds at `argv[i]`. -/
def argument (args : Arguments) (mem : Memory) (i : Nat) : Option Str :=
  match args.argv with
  | .defaultArgs => if i = 0 then some (str "(naclfs application)") else none
  | .allocated argv => (loadSlot mem argv i).bind (loadText mem)

/-! ## The loops -/

theorem toNat_arrayBytes (argc : BitVec 32) :
    (arrayBytes argc).toNat = 4 * argc.toNat % 4294967296 := by
  unfold arrayBytes
  rw [BitVec.toNat_mul]
  rfl

/-- The allocated bytes hold `argc` pointers exactly when their product does not wrap around. -/
theorem le_arrayBytes_iff (argc : BitVec 32) :
    argc.toNat ≤ (arrayBytes argc).toNat / 4 ↔ argc.toNat < 1073741824 := by
  have := argc.isLt
  rw [toNat_arrayBytes]
  omega

section Loops

variable (grants : Nat → Bool) (attributes : List (Str × Str)) (mem : Memory)

/-- The slots of the array at `base` after the first turns of the loop. -/
def filledSlots (base slots n : Nat) : List (Option (Option Nat)) :=
  (List.range n).map (fun i => some (Heap.pointer grants (base + 1 + i))) ++
    List.replicate (slots - n) none

/-- The strings behind the array after the first turns. -/
def filledTexts (base n : Nat) : List (Option Obj) :=
  (List.range n).map fun i => Heap.cell grants (base + 1 + i) (.text (argText attributes i))

/-- The memory after the first turns of the loop over an array behind `mem`. -/
def filled (slots n : Nat) : Memory :=
  mem ++ some (.array (filledSlots grants mem.length slots n)) ::
    filledTexts grants attributes mem.length n

/-- The array and its strings between `mem` and `rest`, with `front` in the place of the first strings. -/
def emptied (argc : Nat) (front rest : Memory) : Memory :=
  mem ++ (some (.array (filledSlots grants mem.length argc argc)) ::
    (front ++ (filledTexts grants attributes mem.length argc).drop front.length) ++ rest)

variable {grants attributes mem}

theorem length_filledSlots {base slots n : Nat} (h : n ≤ slots) :
    (filledSlots grants base slots n).length = slots := by
  simp [filledSlots]
  omega

theorem getElem?_filledSlots {base argc i : Nat} (h : i < argc) :
    (filledSlots grants base argc argc)[i]?.join = some (Heap.pointer grants (base + 1 + i)) := by
  simp [filledSlots, h]

theorem length_filledTexts (base n : Nat) :
    (filledTexts grants attributes base n).length = n := by
  simp [filledTexts]

theorem length_take_filledTexts (base : Nat) {argc i : Nat} (h : i ≤ argc) :
    ((filledTexts grants attributes base argc).take i).length = i := by
  rw [List.length_take, length_filledTexts]
  omega

theorem drop_filledTexts {base argc i : Nat} (h : i < argc) :
    (filledTexts grants attributes base argc).drop i =
      Heap.cell grants (base + 1 + i) (.text (argText attributes i)) ::
        (filledTexts grants attributes base argc).drop (i + 1) := by
  rw [List.drop_eq_getElem_cons (by rw [length_filledTexts]; exact h)]
  simp [filledTexts]

theorem length_filled (slots n : Nat) :
    (filled grants attributes mem slots n).length = mem.length + 1 + n := by
  rw [filled, List.length_append, List.length_cons, length_filledTexts]
  omega

theorem slotsOf_append (l r : Memory) (slots : List (Option (Option Nat))) :
    slotsOf (l ++ some (.array slots) :: r) (some l.length) = some slots := by
  unfold slotsOf
  rw [Heap.load_append]

theorem set_filledSlots {base slots n : Nat} (h : n < slots) :
    (filledSlots grants base slots n).set n (some (Heap.pointer grants (base + 1 + n))) =
      filledSlots grants base slots (n + 1) := by
  obtain ⟨k, rfl⟩ : ∃ k, slots = n + 1 + k := ⟨slots - (n + 1), by omega⟩
  unfold filledSlots
  rw [List.set_append, if_neg (by simp), List.length_map, List.length_range, Nat.sub_self,
    show n + 1 + k - n = k + 1 by omega, Nat.add_sub_cancel_left, List.replicate_succ,
    List.set_cons_zero, List.range_succ, List.map_append, List.append_assoc]
  rfl

theorem filledTexts_succ (base n : Nat) :
    filledTexts grants attributes base n ++
        [Heap.cell grants (base + 1 + n) (.text (argText attributes n))] =
      filledTexts grants attributes base (n + 1) := by
  unfold filledTexts
  rw [List.range_succ, List.map_append]
  rfl

/-- A turn inside the array stores the pointer to the next string; the turn behind it is undefined. -/
theorem storeArg_filled {slots n : Nat} (h : n ≤ slots) :
    storeArg grants attributes (some mem.length) (filled grants attributes mem slots n) n =
      if n < slots then some (filled grants attributes mem slots (n + 1)) else none := by
  unfold storeArg strdup Heap.alloc storeSlot
  dsimp only
  rw [length_filled, filled, List.append_assoc, List.cons_append, slotsOf_append, filledTexts_succ]
  show (if n < (filledSlots grants mem.length slots n).length then _ else _) = _
  rw [length_filledSlots h]
  by_cases hn : n < slots
  · rw [if_pos hn, if_pos hn, Heap.put_append, set_filledSlots hn]
    rfl
  · rw [if_neg hn, if_neg hn]

/-- The loop fills the array as far as it goes, and no further turn is defined. -/
theorem storeArgs_eq (slots n : Nat) :
    storeArgs grants attributes (some mem.length) (filled grants attributes mem slots 0) n =
      if n ≤ slots then some (filled grants attributes mem slots n) else none := by
  induction n with
  | zero => rfl
  | succ n ih =>
    rw [storeArgs, ih]
    by_cases h : n ≤ slots
    · rw [if_pos h, Option.bind_some, storeArg_filled h]
      rfl
    · rw [if_neg h, if_neg (by omega), Option.bind_none]

/-- Through a null pointer the first turn is undefined. -/
theorem storeArgs_null (mem : Memory) (n : Nat) : storeArgs grants attributes none mem (n + 1) = none := by
  induction n with
  | zero => rfl
  | succ n ih => rw [storeArgs, ih, Option.bind_none]

theorem loadSlot_append (l r : Memory) (slots : List (Option (Option Nat))) (i : Nat) :
    loadSlot (l ++ some (.array slots) :: r) (some l.length) i = slots[i]?.join := by
  unfold loadSlot
  rw [slotsOf_append]
  rfl

variable (grants attributes mem) in
/-- The next string stands behind the array and what is in the place of the strings before it. -/
theorem emptied_eq {argc : Nat} {front : Memory} (h : front.length < argc) (rest : Memory) :
    ∃ l r, l.length = mem.length + 1 + front.length ∧
      emptied grants attributes mem argc front rest =
        l ++ Heap.cell grants l.length (.text (argText attributes front.length)) :: r ∧
      emptied grants attributes mem argc (front ++ [none]) rest = l ++ none :: r := by
  have hl : (mem ++ some (.array (filledSlots grants mem.length argc argc)) :: front).length =
      mem.length + 1 + front.length := by
    rw [List.length_append, List.length_cons]
    omega
  refine ⟨_, (filledTexts grants attributes mem.length argc).drop (front.length + 1) ++ rest, hl, ?_, ?_⟩
  · rw [hl, emptied, drop_filledTexts h]
    simp
  · rw [emptied, List.length_append, List.length_singleton]
    simp

variable (grants attributes mem) in
theorem load_emptied {argc : Nat} {front : Memory} (h : front.length < argc) (rest : Memory) :
    Heap.load (emptied grants attributes mem argc front rest)
        (Heap.pointer grants (mem.length + 1 + front.length)) =
      Heap.cell grants (mem.length + 1 + front.length) (.text (argText attributes front.length)) := by
  obtain ⟨l, r, hl, he, -⟩ := emptied_eq grants attributes mem h rest
  rw [he, ← hl]
  exact Heap.load_cell l r _

variable (grants attributes mem) in
/-- The destructor frees the next string, or leaves a null pointer. -/
theorem free_emptied {argc : Nat} {front : Memory} (h : front.length < argc) (rest : Memory) :
    Heap.free (emptied grants attributes mem argc front rest)
        (Heap.pointer grants (mem.length + 1 + front.length)) =
      some (emptied grants attributes mem argc (front ++ [none]) rest) := by
  obtain ⟨l, r, hl, he, he'⟩ := emptied_eq grants attributes mem h rest
  rw [he, he', ← hl]
  exact Heap.free_cell l r _

theorem loadSlot_emptied {argc i : Nat} (h : i < argc) (front rest : Memory) :
    loadSlot (emptied grants attributes mem argc front rest) (some mem.length) i =
      some (Heap.pointer grants (mem.length + 1 + i)) := by
  unfold emptied
  rw [List.cons_append, loadSlot_append, getElem?_filledSlots h]

/-- The destructor's loop frees the strings one after the other. -/
theorem freeArgs_eq {argc n : Nat} (h : n ≤ argc) (rest : Memory) :
    freeArgs (some mem.length) (emptied grants attributes mem argc [] rest) n =
      some (emptied grants attributes mem argc (List.replicate n none) rest) := by
  induction n with
  | zero => rfl
  | succ n ih =>
    have hn : (List.replicate n (none : Option Obj)).length < argc := by
      rw [List.length_replicate]; exact h
    have hfree := free_emptied grants attributes mem hn rest
    rw [List.length_replicate] at hfree
    rw [freeArgs, ih (by omega)]
    simp only [Option.bind_eq_bind, Option.bind_some]
    rw [loadSlot_emptied (by omega), Option.bind_some, hfree, List.replicate_succ']

end Loops

/-! ## The whole functions -/

section Whole

variable {grants : Nat → Bool} {attributes : List (Str × Str)} {mem : Memory}

theorem filled_eq_emptied {argc i : Nat} (h : i ≤ argc) :
    filled grants attributes mem argc argc =
      emptied grants attributes mem argc ((filledTexts grants attributes mem.length argc).take i) [] := by
  rw [filled, emptied, length_take_filledTexts mem.length h, List.take_append_drop, List.append_nil]

/-- The `argc` branch is defined when the array is granted and its size does not wrap around; the
loop leaves the array otherwise, or stores through a null pointer. -/
theorem init_eq (h : newArgc attributes ≠ 0) :
    init grants attributes mem =
      if grants mem.length = true ∧ (newArgc attributes).toNat < 1073741824 then
        some ({ argc := newArgc attributes, argv := .allocated (some mem.length) },
          filled grants attributes mem (newArgc attributes).toNat (newArgc attributes).toNat)
      else none := by
  have hpos : (newArgc attributes).toNat ≠ 0 := fun h0 => h (BitVec.eq_of_toNat_eq h0)
  unfold init malloc Heap.alloc
  dsimp only
  rw [if_pos h]
  by_cases hg : grants mem.length = true
  · have hfilled : mem ++ [Heap.cell grants mem.length
        (.array (List.replicate ((arrayBytes (newArgc attributes)).toNat / 4) none))] =
          filled grants attributes mem ((arrayBytes (newArgc attributes)).toNat / 4) 0 := by
      rw [Heap.cell, if_pos hg]
      rfl
    rw [Heap.pointer, if_pos hg, hfilled, storeArgs_eq]
    by_cases hlt : (newArgc attributes).toNat < 1073741824
    · have hbytes : (arrayBytes (newArgc attributes)).toNat / 4 = (newArgc attributes).toNat := by
        rw [toNat_arrayBytes]
        omega
      rw [if_pos ((le_arrayBytes_iff _).2 hlt), if_pos ⟨hg, hlt⟩, hbytes]
      rfl
    · rw [if_neg (fun hle => hlt ((le_arrayBytes_iff _).1 hle)), if_neg (fun hc => hlt hc.2)]
      rfl
  · obtain ⟨n, hn⟩ : ∃ n, (newArgc attributes).toNat = n + 1 := ⟨_, (Nat.succ_pred hpos).symm⟩
    rw [Heap.pointer, if_neg hg, if_neg (fun hc => hg hc.1), hn, storeArgs_null]
    rfl

theorem init_eq_some {args : Arguments} {mem' : Memory} (h : newArgc attributes ≠ 0)
    (hi : init grants attributes mem = some (args, mem')) :
    grants mem.length = true ∧ args = { argc := newArgc attributes, argv := .allocated (some mem.length) } ∧
      mem' = filled grants attributes mem (newArgc attributes).toNat (newArgc attributes).toNat := by
  rw [init_eq h] at hi
  split at hi
  · rename_i hc
    cases hi
    exact ⟨hc.1, rfl, rfl⟩
  · cases hi

/-- `argv[i]` is the string of the turn when its copy was granted, and a null pointer otherwise. -/
theorem argument_filled {argc : BitVec 32} {i : Nat} (h : i < argc.toNat) :
    argument { argc := argc, argv := .allocated (some mem.length) }
        (filled grants attributes mem argc.toNat argc.toNat) i =
      if grants (mem.length + 1 + i) = true then some (argText attributes i) else none := by
  have hi : ((filledTexts grants attributes mem.length argc.toNat).take i).length = i :=
    length_take_filledTexts mem.length (Nat.le_of_lt h)
  have hload := load_emptied grants attributes mem (by rw [hi]; exact h) []
  rw [hi] at hload
  unfold argument
  dsimp only
  rw [filled_eq_emptied (Nat.le_of_lt h), loadSlot_emptied h, Option.bind_some, loadText, hload, Heap.cell]
  by_cases hg : grants (mem.length + 1 + i) = true
  · rw [if_pos hg, if_pos hg]
  · rw [if_neg hg, if_neg hg]

example : (init (fun _ => true) [(str "argc", str "2"), (str "argv0", str "ls")] []).map
    (fun r => (argument r.1 r.2 0, argument r.1 r.2 1)) =
      some (some (str "ls"), some argNotFound) := by decide

variable (grants attributes mem) in
/-- The destructor frees the array and each of its strings, and nothing else. -/
theorem destroy_emptied (argc : BitVec 32) (rest : Memory) :
    destroy { argc := argc, argv := .allocated (some mem.length) }
        (emptied grants attributes mem argc.toNat [] rest) =
      some (mem ++ (List.replicate (argc.toNat + 1) none ++ rest)) := by
  have hdrop : (filledTexts grants attributes mem.length argc.toNat).drop argc.toNat = [] :=
    List.drop_eq_nil_of_le (by rw [length_filledTexts])
  unfold destroy
  dsimp only
  rw [freeArgs_eq (Nat.le_refl _)]
  simp only [Option.bind_eq_bind, Option.bind_some]
  rw [emptied, List.length_replicate, hdrop, List.append_nil, List.cons_append, Heap.free_append]
  rfl

/-! ## When the arguments stay inside their array -/

/-- What stands at `argv[i]` by the attributes: the value of the first one named 'argv' and the decimal
of `i`, or the placeholder. -/
inductive IsArg (attributes : List (Str × Str)) (i : Nat) (s : Str) : Prop where
  | found (before after : List (Str × Str)) :
      attributes = before ++ (str "argv" ++ decimal i, s) :: after →
      (∀ a ∈ before, a.1 ≠ str "argv" ++ decimal i) → IsArg attributes i s
  | absent : (∀ a ∈ attributes, a.1 ≠ str "argv" ++ decimal i) → s = argNotFound →
      IsArg attributes i s

theorem isArg_argText {i : Nat} (h : i < 2147483648) :
    IsArg attributes i (argText attributes i) := by
  unfold argText
  rw [argName_eq h]
  cases hf : findArg (str "argv" ++ decimal i) attributes with
  | some argvStr =>
    obtain ⟨before, after, he, hb⟩ := findArg_eq_some_iff.1 hf
    exact .found before after he hb
  | none => exact .absent (findArg_eq_none_iff.1 hf) rfl

/-- What the `argc` branch of `Init` owes: the array has room for `argc` pointers, every store of the
loop is inside it, `argv` holds the strings of the attributes, and the destructor frees them when only
other objects have come and gone since. -/
def ArgvInside (grants : Nat → Bool) (attributes : List (Str × Str)) (mem : Memory) : Prop :=
  newArgc attributes ≠ 0 →
    4 * (newArgc attributes).toNat ≤ (arrayBytes (newArgc attributes)).toNat ∧
    ∃ args mem', init grants attributes mem = some (args, mem') ∧ args.argc = newArgc attributes ∧
      (∀ i < args.argc.toNat, ∃ s, argument args mem' i = some s ∧ IsArg attributes i s) ∧
      ∀ m : Memory, (∀ a, mem.length ≤ a → a < mem'.length → m[a]? = mem'[a]?) →
        ∃ m', destroy args m = some m'

/-- A product that wraps around leaves too few bytes, and a refused request leaves a null pointer. -/
theorem ArgvInside.bounds (h : ArgvInside grants attributes mem) (h0 : newArgc attributes ≠ 0) :
    (newArgc attributes).toNat < 1073741824 ∧
      ∀ k ≤ (newArgc attributes).toNat, grants (mem.length + k) = true := by
  obtain ⟨hbytes, args, mem', hinit, -, hargs, -⟩ := h h0
  obtain ⟨hg, rfl, rfl⟩ := init_eq_some h0 hinit
  constructor
  · rw [← le_arrayBytes_iff]
    omega
  · intro k hk
    cases k with
    | zero => exact hg
    | succ i =>
      obtain ⟨s, hs, -⟩ := hargs i hk
      rw [argument_filled hk] at hs
      split at hs
      · rename_i hgi
        rw [← hgi, Nat.add_assoc, Nat.add_comm 1 i]
      · cases hs

theorem argvInside_of_granted (h0 : newArgc attributes ≠ 0)
    (hlt : (newArgc attributes).toNat < 1073741824)
    (hgrants : ∀ k ≤ (newArgc attributes).toNat, grants (mem.length + k) = true) :
    ArgvInside grants attributes mem := by
  intro _
  have hg : grants mem.length = true := hgrants 0 (Nat.zero_le _)
  refine ⟨?_, _, _, by rw [init_eq h0, if_pos ⟨hg, hlt⟩], rfl, ?_, ?_⟩
  · rw [toNat_arrayBytes]
    omega
  · intro i hi
    have hin : i < (newArgc attributes).toNat := hi
    have hgi : grants (mem.length + 1 + i) = true := by
      rw [Nat.add_assoc, Nat.add_comm 1 i]
      exact hgrants (i + 1) hin
    refine ⟨argText attributes i, ?_, isArg_argText (by omega)⟩
    rw [argument_filled hi, if_pos hgi]
  · intro m hm
    obtain ⟨mem₂, rest, hlen, rfl⟩ := Heap.exists_append_of_agree (List.cons_ne_nil _ _) hm
    have hd := destroy_emptied grants attributes mem₂ (newArgc attributes) rest
    rw [hlen, emptied, hlen] at hd
    exact ⟨_, hd⟩

/-- `Init` keeps inside its array exactly when `atoi` of the first `argc` attribute, if there is one, is
from 0 to 2^30 - 1, and the allocator grants the array and the strings. -/
theorem argvInside_iff (grants : Nat → Bool) (attributes : List (Str × Str)) (mem : Memory) :
    ArgvInside grants attributes mem ↔
      ∀ argcStr, findArg (str "argc") attributes = some argcStr →
        0 ≤ atoi argcStr ∧ atoi argcStr < 1073741824 ∧
          (atoi argcStr ≠ 0 → ∀ k ≤ (atoi argcStr).toNat, grants (mem.length + k) = true) := by
  cases hf : findArg (str "argc") attributes with
  | none => exact iff_of_true (fun h => absurd (newArgc_of_none hf) h) (fun _ h => by cases h)
  | some argcStr =>
    have hn := toNat_newArgc hf
    obtain ⟨hl, hu⟩ := atoi_bounds argcStr
    simp only [Option.some.injEq, forall_eq']
    by_cases h0 : newArgc attributes = 0
    · have hz : atoi argcStr = 0 := by
        rw [h0, show (0 : BitVec 32).toNat = 0 from rfl] at hn
        omega
      exact iff_of_true (fun h => absurd h0 h) ⟨by omega, by omega, fun h => absurd hz h⟩
    have hpos : (newArgc attributes).toNat ≠ 0 := fun h => h0 (BitVec.eq_of_toNat_eq h)
    constructor
    · intro h
      obtain ⟨hlt, hgrants⟩ := h.bounds h0
      have hz : (newArgc attributes).toNat = (atoi argcStr).toNat := by omega
      exact ⟨by omega, by omega, fun _ => hz ▸ hgrants⟩
    · rintro ⟨h1, h2, hgrants⟩
      have hz : (newArgc attributes).toNat = (atoi argcStr).toNat := by omega
      exact argvInside_of_granted h0 (by omega) (hz ▸ hgrants (by omega))

/-- An `argc` of 2^30 asks for no bytes at all, and the first store is behind the array. -/
theorem argvInside_wrap :
    ¬ ArgvInside (fun _ => true) [(str "argc", str "1073741824")] [] ∧
      arrayBytes (newArgc [(str "argc", str "1073741824")]) = 0 ∧
      init (fun _ => true) [(str "argc", str "1073741824")] [] = none := by
  refine ⟨fun h => ?_, by decide, ?_⟩
  · obtain ⟨hbytes, -⟩ := h (by decide)
    exact absurd hbytes (by decide)
  · rw [init_eq (by decide), if_neg (by decide)]

end Whole

end NaClFs.Crt
