/-
`FileSystem::CreateFullpath`: the loop that splits the current directory, the loop that splits
the path argument, the loop that erases '..' in place, and the join; with what each of them
computes, stated on splits and joins of component lists.

A loop carries a bound on its turns, one more than the length it runs over. A pointer into the
path is the suffix it points at, an iterator is an integer position.
-/
import NaClFs.Base.Types
import NaClFs.Lib.Components

namespace NaClFs

open Components

/-! ## Definitions -/

/-- `std::string::find` of one character from an offset on. -/
def find (s : Str) (c : UInt8) (offset : Nat) : Option Nat :=
  ((s.drop offset).findIdx? (· == c)).map (· + offset)

/-- `index`: where a character first stands in a C string. -/
def index (s : Str) (c : UInt8) : Option Nat := s.findIdx? (· == c)

/-- The loop over `cwd_`, from `offset` on. -/
def splitCwdLoop (cwd : Str) : Nat → Nat → List Str
  | 0, _ => []
  | fuel + 1, offset =>
    match find cwd slash offset with
    | none => [cwd.drop offset]
    | some nextOffset =>
      (cwd.drop offset).take (nextOffset - offset) :: splitCwdLoop cwd fuel (nextOffset + 1)

def splitCwd (cwd : Str) : List Str := splitCwdLoop cwd (cwd.length + 1) 0

/-- The loop over the path argument, from `caret` on. -/
def splitPathLoop : Nat → Str → List Str
  | 0, _ => []
  | fuel + 1, caret =>
    if caret = [] then []
    else match index caret slash with
      | none => [caret]
      | some size =>
        -- Trim '' and '.'.
        if size ≠ 0 ∧ ¬ (size = 1 ∧ caret.head? = some 46) then
          caret.take size :: splitPathLoop fuel (caret.drop (size + 1))
        else splitPathLoop fuel (caret.drop (size + 1))

def splitPath (path : Str) : List Str := splitPathLoop (path.length + 1) path

/-- `std::vector::erase`, undefined outside the vector. -/
def erase (paths : List Str) (pos : Int) : Option (List Str) :=
  if 0 ≤ pos ∧ pos < paths.length then some (paths.eraseIdx pos.toNat) else none

/-- `*iter`, undefined outside the vector. -/
def deref (paths : List Str) (iter : Int) : Option Str :=
  if 0 ≤ iter then paths[iter.toNat]? else none

/-- The body of the '..' loop at `iter`: the vector and the iterator before its `++iter`. -/
def normalizeTurn (paths : List Str) (iter : Int) : Option (List Str × Int) := do
  let component ← deref paths iter
  if component ≠ dotdot then
    return (paths, iter)
  let (paths, iter) ←
    if iter ≠ 0 then (erase paths iter).map fun paths => (paths, iter - 1) else pure (paths, iter)
  let paths ← erase paths iter
  return (paths, iter - 1)

/-- The '..' loop; none when its turns run out or a turn leaves the vector. -/
def normalizeLoop : Nat → List Str → Int → Option (List Str)
  | 0, _, _ => none
  | fuel + 1, paths, iter =>
    if iter = paths.length then some paths
    else do
      let (paths, iter) ← normalizeTurn paths iter
      normalizeLoop fuel paths (iter + 1)

/-- One turn with the loop's `++iter`. -/
def normalizeStep (s : List Str × Int) : Option (List Str × Int) :=
  (normalizeTurn s.1 s.2).map fun t => (t.1, t.2 + 1)

/-- The vector and the iterator after the first turns; none when one of them leaves the vector. -/
def normalizeTurns (paths : List Str) : Nat → Option (List Str × Int)
  | 0 => some (paths, 0)
  | n + 1 => (normalizeTurns paths n).bind normalizeStep

def normalize (paths : List Str) : List Str := (normalizeLoop (paths.length + 1) paths 0).getD []

/-- The last loop: `append("/")` and `append(*iter)` for each component. -/
def joinPaths (paths : List Str) : Str :=
  if paths = [] then str "/" else paths.foldl (fun fullpath p => fullpath ++ str "/" ++ p) []

/-- `FileSystem::CreateFullpath` on `cwd_` and the path argument. -/
def createFullpath (cwd path : Str) : Str :=
  let paths := if path.head? ≠ some slash ∧ cwd ≠ [] then splitCwd cwd else []
  joinPaths (normalize (paths ++ splitPath path))

/-! ## The cwd splitter -/

theorem findIdx?_split {s : Str} {n : Nat} (h : s.findIdx? (· == slash) = some n) :
    s = s.take n ++ slash :: s.drop (n + 1) ∧ slash ∉ s.take n ∧ n < s.length := by
  obtain ⟨hn, hs, hb⟩ := List.findIdx?_eq_some_iff_getElem.1 h
  have hs' : s[n] = slash := by simpa using hs
  refine ⟨?_, fun hm => ?_, hn⟩
  · conv => lhs; rw [← List.take_append_drop n s, List.drop_eq_getElem_cons hn, hs']
  · obtain ⟨i, hi, he⟩ := List.getElem_of_mem hm
    rw [List.getElem_take] at he
    have := hb i (by rw [List.length_take] at hi; omega)
    simp [he] at this

theorem splitOn_of_findIdx? {s : Str} {n : Nat} (h : s.findIdx? (· == slash) = some n) :
    s.splitOn slash = s.take n :: (s.drop (n + 1)).splitOn slash := by
  obtain ⟨he, hm, -⟩ := findIdx?_split h
  conv => lhs; rw [he]
  exact List.splitOn_append_cons_self_of_not_mem hm _

theorem splitOn_of_findIdx?_none {s : Str} (h : s.findIdx? (· == slash) = none) :
    s.splitOn slash = [s] := by
  refine List.splitOn_eq_singleton fun hm => ?_
  have := List.findIdx?_eq_none_iff.1 h slash hm
  simp at this

theorem splitCwdLoop_eq (cwd : Str) : ∀ (fuel offset : Nat), offset ≤ cwd.length →
    cwd.length - offset < fuel → splitCwdLoop cwd fuel offset = (cwd.drop offset).splitOn slash
  | 0, _, _, hf => by omega
  | fuel + 1, offset, ho, hf => by
    unfold splitCwdLoop find
    rcases h : (cwd.drop offset).findIdx? (· == slash) with _ | n
    · simp only [Option.map_none]
      rw [splitOn_of_findIdx?_none h]
    · simp only [Option.map_some]
      obtain ⟨-, -, hn⟩ := findIdx?_split h
      rw [List.length_drop] at hn
      rw [splitOn_of_findIdx? h, splitCwdLoop_eq cwd fuel _ (by omega) (by omega), List.drop_drop,
        Nat.add_sub_cancel, show offset + (n + 1) = n + offset + 1 by omega]

/-- The first loop splits `cwd_` at every '/'. -/
theorem splitCwd_eq (cwd : Str) : splitCwd cwd = cwd.splitOn slash := by
  unfold splitCwd
  rw [splitCwdLoop_eq cwd _ 0 (by omega) (by omega), List.drop_zero]

/-! ## The path splitter -/

/-- What the second loop keeps of a segment a '/' follows. -/
def keepSegment (seg : Str) : Bool := seg ≠ [] ∧ seg ≠ dot

/-- What the second loop keeps of the path's segments: all but '' and '.', and of the last one
all but ''. -/
def keptSegments : List Str → List Str
  | [] => []
  | [seg] => if seg = [] then [] else [seg]
  | seg :: segs => if keepSegment seg then seg :: keptSegments segs else keptSegments segs

theorem keptSegments_cons {seg : Str} {segs : List Str} (h : segs ≠ []) :
    keptSegments (seg :: segs) =
      if keepSegment seg then seg :: keptSegments segs else keptSegments segs := by
  cases segs with
  | nil => exact absurd rfl h
  | cons => rfl

theorem mem_keptSegments {segs : List Str} {x : Str} (h : x ∈ keptSegments segs) :
    x ∈ segs ∧ x ≠ [] := by
  induction segs with
  | nil => cases h
  | cons seg segs ih =>
    by_cases hs : segs = []
    · subst hs
      unfold keptSegments at h
      split at h
      · cases h
      · rename_i hn
        rw [List.mem_singleton] at h
        subst h
        exact ⟨by simp, hn⟩
    · rw [keptSegments_cons hs] at h
      split at h
      · rename_i hk
        rcases List.mem_cons.1 h with rfl | h
        · exact ⟨by simp, by simpa [keepSegment] using (of_decide_eq_true hk).1⟩
        · exact ⟨by simp [(ih h).1], (ih h).2⟩
      · exact ⟨by simp [(ih h).1], (ih h).2⟩

theorem keepSegment_take {caret : Str} {size : Nat}
    (h : index caret slash = some size) :
    keepSegment (caret.take size) = true ↔ size ≠ 0 ∧ ¬ (size = 1 ∧ caret.head? = some 46) := by
  obtain ⟨-, -, hn⟩ := findIdx?_split h
  have hd : dot = [46] := by decide
  unfold keepSegment
  rw [decide_eq_true_iff, hd]
  refine and_congr ?_ (not_congr ?_)
  · rw [ne_eq, List.take_eq_nil_iff, not_or]
    exact ⟨fun h => h.1, fun h => ⟨h, by rintro rfl; simp at hn⟩⟩
  · match caret with
    | [] => simp at hn
    | c :: cs =>
      constructor
      · intro he
        have hl := congrArg List.length he
        simp only [List.length_take, List.length_singleton] at hl
        obtain rfl : size = 1 := by omega
        simpa using he
      · rintro ⟨rfl, he⟩
        simpa using he

theorem splitPathLoop_eq : ∀ (fuel : Nat) (caret : Str), caret.length < fuel →
    splitPathLoop fuel caret = keptSegments (caret.splitOn slash)
  | 0, _, hf => by omega
  | fuel + 1, caret, hf => by
    unfold splitPathLoop
    by_cases hc : caret = []
    · subst hc; simp [keptSegments]
    rw [if_neg hc]
    rcases h : index caret slash with _ | size
    · rw [splitOn_of_findIdx?_none h]; simp [keptSegments, hc]
    · obtain ⟨-, -, hn⟩ := findIdx?_split h
      have ih := splitPathLoop_eq fuel (caret.drop (size + 1)) (by rw [List.length_drop]; omega)
      rw [splitOn_of_findIdx? h, keptSegments_cons (List.splitOn_ne_nil _ _)]
      simp only [ih, ← keepSegment_take h]

/-- The second loop keeps the nonempty segments but '.', the last segment also when it is '.'. -/
theorem splitPath_eq (path : Str) : splitPath path = keptSegments (path.splitOn slash) :=
  splitPathLoop_eq _ path (by omega)

/-! ## The '..' loop -/

theorem erase_append {l r : List Str} {x : Str} : erase (l ++ x :: r) l.length = some (l ++ r) := by
  unfold erase
  rw [if_pos (by rw [List.length_append, List.length_cons]; omega)]
  simp [List.eraseIdx_append_of_length_le]

theorem deref_append {l r : List Str} {x : Str} : deref (l ++ x :: r) l.length = some x := by
  simp [deref]

theorem normalizeTurn_other {l r : List Str} {x : Str} (hx : x ≠ dotdot) :
    normalizeTurn (l ++ x :: r) l.length = some (l ++ x :: r, (l.length : Int)) := by
  unfold normalizeTurn
  rw [deref_append]
  simp [hx]

theorem normalizeTurn_front {r : List Str} :
    normalizeTurn (dotdot :: r) 0 = some (r, -1) := by
  have h : erase (dotdot :: r) 0 = some r := erase_append (l := [])
  have hd : deref (dotdot :: r) 0 = some dotdot := deref_append (l := [])
  unfold normalizeTurn
  rw [hd]
  simp [h]

theorem normalizeTurn_pop {l r : List Str} {y : Str} :
    normalizeTurn (l ++ y :: dotdot :: r) (l.length + 1) = some (l ++ r, (l.length : Int) - 1) := by
  have hd : deref (l ++ y :: dotdot :: r) (l.length + 1) = some dotdot := by
    simpa using deref_append (l := l ++ [y]) (r := r) (x := dotdot)
  have h1 : erase (l ++ y :: dotdot :: r) (l.length + 1) = some (l ++ y :: r) := by
    simpa using erase_append (l := l ++ [y]) (r := r) (x := dotdot)
  have h2 : erase (l ++ y :: r) ((l.length : Int) + 1 - 1) = some (l ++ r) := by
    rw [Int.add_sub_cancel, erase_append]
  have hne : (l.length : Int) + 1 ≠ 0 := by omega
  unfold normalizeTurn
  rw [hd]
  simp only [Option.bind_eq_bind, Option.bind_some, ne_eq, not_true_eq_false, if_false, hne,
    not_false_eq_true, if_true, h1, Option.map_some, h2, Option.pure_def]
  rw [Int.add_sub_cancel]

/-- A turn at position `l.length` pushes the component there onto the stack it has passed. -/
theorem normalizeStep_eq (l r : List Str) (x : Str) :
    normalizeStep (l ++ x :: r, l.length) =
      some (push (· = dotdot) l x ++ r, ((push (· = dotdot) l x).length : Int)) := by
  unfold normalizeStep
  by_cases hx : x = dotdot
  · subst hx
    rw [push_up (u := (· = dotdot)) rfl]
    -- At the front '..' is erased alone, elsewhere together with the component before it.
    rcases List.eq_nil_or_concat l with rfl | ⟨l', y, rfl⟩
    · show (normalizeTurn (dotdot :: r) 0).map _ = _
      rw [normalizeTurn_front]
      rfl
    · have ht := normalizeTurn_pop (l := l') (y := y) (r := r)
      simp only [List.concat_eq_append, List.append_assoc, List.singleton_append,
        List.length_append, List.length_singleton, Int.natCast_add, Int.cast_ofNat_Int,
        List.dropLast_concat] at ht ⊢
      rw [ht, Option.map_some, Int.sub_add_cancel]
  · rw [normalizeTurn_other hx, push_not_up (u := (· = dotdot)) hx]
    simp

theorem normalizeLoop_succ (fuel : Nat) {paths : List Str} {iter : Int} (h : iter ≠ paths.length) :
    normalizeLoop (fuel + 1) paths iter =
      (normalizeStep (paths, iter)).bind fun s => normalizeLoop fuel s.1 s.2 := by
  rw [normalizeLoop, if_neg h, normalizeStep]
  cases normalizeTurn paths iter with
  | none => rfl
  | some s => rfl

/-- The loop at position `l.length`: what it passed is the stack so far, and each turn brings
`end() - iter` down by one. -/
theorem normalizeLoop_eq : ∀ (fuel : Nat) (l r : List Str), r.length < fuel →
    normalizeLoop fuel (l ++ r) l.length = some (fold (· = dotdot) l r)
  | 0, _, _, hf => by omega
  | fuel + 1, l, [], _ => by simp [normalizeLoop]
  | fuel + 1, l, x :: r, hf => by
    have hend : (l.length : Int) ≠ ((l ++ x :: r).length : Nat) := by
      rw [List.length_append, List.length_cons]; omega
    rw [List.length_cons] at hf
    rw [normalizeLoop_succ fuel hend, normalizeStep_eq, Option.bind_some, fold_cons]
    exact normalizeLoop_eq fuel _ r (by omega)

/-- After `n` turns the vector is the stack of the first `n` components, which the iterator has
passed, and the components that are left. -/
theorem normalizeTurns_eq {paths : List Str} {n : Nat} (hn : n ≤ paths.length) :
    normalizeTurns paths n =
      some (fold (· = dotdot) [] (paths.take n) ++ paths.drop n,
        ((fold (· = dotdot) [] (paths.take n)).length : Int)) := by
  induction n with
  | zero => rfl
  | succ n ih =>
    have hlt : n < paths.length := by omega
    rw [normalizeTurns, ih (by omega), Option.bind_some, List.drop_eq_getElem_cons hlt,
      normalizeStep_eq, List.take_succ_eq_append_getElem hlt, fold_append, fold_cons, fold_nil]

theorem dotdot_not_mem_fold (paths : List Str) : dotdot ∉ fold (· = dotdot) [] paths := by
  intro hm
  rcases mem_fold hm with hm | ⟨-, hne⟩
  · cases hm
  · exact hne rfl

/-- The third loop folds the components over a stack on which '..' pops. -/
theorem normalize_eq (paths : List Str) : normalize paths = fold (· = dotdot) [] paths := by
  have := normalizeLoop_eq (paths.length + 1) [] paths (by omega)
  unfold normalize
  rw [List.nil_append, List.length_nil, Int.ofNat_zero] at this
  rw [this, Option.getD_some]

/-- For every vector of components the '..' loop takes one turn for each of them, erases and reads only
inside the vector, and has then folded them over the stack: each turn is defined, the part it has passed
is the stack of the consumed prefix and holds no '..', and `iter` is `end()` after the last turn only. -/
theorem dotdot_loop_folds (paths : List Str) :
    (∀ n ≤ paths.length, ∃ passed : List Str,
      passed = fold (· = dotdot) [] (paths.take n) ∧ dotdot ∉ passed ∧
        normalizeTurns paths n = some (passed ++ paths.drop n, (passed.length : Int)) ∧
        ((passed.length : Int) = ((passed ++ paths.drop n).length : Nat) ↔ n = paths.length)) ∧
      ∀ fuel, paths.length < fuel →
        normalizeLoop fuel paths 0 = some (fold (· = dotdot) [] paths) := by
  constructor
  · intro n hn
    refine ⟨_, rfl, dotdot_not_mem_fold _, normalizeTurns_eq hn, ?_⟩
    rw [List.length_append, List.length_drop]
    omega
  · intro fuel hf
    exact normalizeLoop_eq fuel [] paths hf

/-! ## The join -/

theorem foldl_join (paths : List Str) (acc : Str) :
    paths.foldl (fun fullpath p => fullpath ++ str "/" ++ p) acc =
      acc ++ paths.flatMap (fun p => slash :: p) := by
  induction paths generalizing acc with
  | nil => simp
  | cons p ps ih => rw [List.foldl_cons, ih, slash_eq]; simp

theorem flatMap_slash : ∀ {paths : List Str}, paths ≠ [] →
    paths.flatMap (fun p => slash :: p) = slash :: [slash].intercalate paths
  | [], h => absurd rfl h
  | [p], _ => by simp
  | p :: q :: ps, _ => by
    rw [List.flatMap_cons, flatMap_slash (List.cons_ne_nil q ps), List.intercalate_cons_cons]
    simp

/-- The fourth loop joins behind a first '/'. -/
theorem joinPaths_eq (paths : List Str) : joinPaths paths = slash :: [slash].intercalate paths := by
  unfold joinPaths
  split
  · subst paths; decide
  · rename_i h
    rw [foldl_join, List.nil_append, flatMap_slash h]

/-! ## The whole function -/

/-- The components the path is resolved from: those of `cwd_` for a relative path. -/
def startComponents (cwd path : Str) : List Str :=
  if path.head? = some slash then [] else Components.split slash cwd

theorem createFullpath_eq (cwd path : Str) :
    createFullpath cwd path = slash :: [slash].intercalate
      (fold (· = dotdot) [] (startComponents cwd path ++ keptSegments (path.splitOn slash))) := by
  have hs : (if path.head? ≠ some slash ∧ cwd ≠ [] then splitCwd cwd else []) =
      startComponents cwd path := by
    unfold startComponents Components.split
    rw [splitCwd_eq]
    by_cases h1 : path.head? = some slash <;> by_cases h2 : cwd = [] <;> simp [h1, h2]
  unfold createFullpath
  simp only [hs]
  rw [joinPaths_eq, normalize_eq, splitPath_eq]

end NaClFs
