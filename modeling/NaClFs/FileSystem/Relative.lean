/-
Relative and absolute spellings of one path. `CreateFullpath` splits `cwd_` by a loop that keeps every
component and the path argument by one that drops '.', so the two spellings agree as long as no '.'
came into `cwd_`, or none of its components is left.
-/
import NaClFs.FileSystem.Cwd
import NaClFs.Path.Resolve

namespace NaClFs

open Components

/-! ## GetCwd -/

namespace FileSystem

/-- `GetCwd` into a buffer of `size` bytes, or into none: the string it stores and returns. -/
def getCwd (fs : FileSystem) (buf : Bool) (size : Nat) : FileSystem × Option Str :=
  if buf = false ∨ size = 0 then ({ fs with errno := einval }, none)
  else
    let cwdSize := fs.cwd.length + 2
    if size < cwdSize then ({ fs with errno := erange }, none)
    else (fs, some (str "/" ++ fs.cwd))

theorem getCwd_some {fs : FileSystem} {buf : Bool} {size : Nat} {dir : Str}
    (h : (fs.getCwd buf size).2 = some dir) : dir = slash :: fs.cwd := by
  simp only [getCwd] at h
  split at h
  · cases h
  · split at h
    · cases h
    · rw [← Option.some.inj h, slash_eq]
      rfl

end FileSystem

/-! ## The two spellings -/

/-- How many components above its directory the '..' segments of a path reach. -/
def climb (path : Str) : Nat := excess (· = dotdot) 0 (keptSegments (path.splitOn slash))

theorem keptSegments_append {segs segs' : List Str} (h : segs' ≠ []) :
    keptSegments (segs ++ segs') = segs.filter keepSegment ++ keptSegments segs' := by
  induction segs with
  | nil => rfl
  | cons seg segs ih =>
    rw [List.cons_append, keptSegments_cons (by simp [h]), ih]
    by_cases hk : keepSegment seg = true
    · rw [if_pos hk, List.filter_cons_of_pos hk, List.cons_append]
    · rw [if_neg hk, List.filter_cons_of_neg hk]

/-- Of the components of `cwd_` the path splitter drops '.' only. -/
theorem filter_splitOn {cwd : Str} (h : ∀ x ∈ Components.split slash cwd, Plain slash x) :
    (cwd.splitOn slash).filter keepSegment = (Components.split slash cwd).filter (· ≠ dot) := by
  unfold Components.split at h ⊢
  by_cases hc : cwd = []
  · subst hc
    decide
  · rw [if_neg hc] at h ⊢
    refine List.filter_congr fun x hx => ?_
    simp [keepSegment, (h x hx).1]

/-- The components the absolute spelling is folded over. -/
theorem keptSegments_absolute {cwd : Str} (h : ∀ x ∈ Components.split slash cwd, Plain slash x)
    (q : Str) :
    keptSegments ((slash :: cwd ++ slash :: q).splitOn slash) =
      (Components.split slash cwd).filter (· ≠ dot) ++ keptSegments (q.splitOn slash) := by
  have hs : (slash :: cwd ++ slash :: q).splitOn slash =
      ([] :: cwd.splitOn slash) ++ q.splitOn slash := by
    rw [List.splitOn_append_cons_self, show slash :: cwd = [] ++ slash :: cwd from rfl,
      List.splitOn_append_cons_self, List.splitOn_nil, List.singleton_append]
  rw [hs, keptSegments_append (List.splitOn_ne_nil _ _), ← filter_splitOn h,
    List.filter_cons_of_neg (by decide)]

theorem split_plain {cwd : Str} (h : Joined cwd) : ∀ x ∈ Components.split slash cwd, PathComponent x := by
  obtain ⟨comps, hc, rfl⟩ := h
  rw [split_intercalate fun x hx => (hc x hx).plain]
  exact hc

theorem intercalate_inj {xs ys : List Str} (hx : ∀ x ∈ xs, Plain slash x)
    (hy : ∀ y ∈ ys, Plain slash y) :
    [slash].intercalate xs = [slash].intercalate ys ↔ xs = ys := by
  constructor
  · intro h
    rw [← split_intercalate hx, h, split_intercalate hy]
  · rintro rfl
    rfl

/-- What is left of plain components is plain. -/
theorem fold_keptSegments_plain {st : List Str} (h : ∀ x ∈ st, Plain slash x) (q : Str) :
    ∀ x ∈ fold (· = dotdot) st (keptSegments (q.splitOn slash)), Plain slash x := by
  intro x hx
  rcases mem_fold hx with hx | ⟨hx, -⟩
  · exact h x hx
  · exact ⟨(mem_keptSegments hx).2, not_mem_of_mem_splitOn (mem_keptSegments hx).1⟩

/-- A path resolved from `comps`, none of them '..'. -/
theorem fold_components {comps : List Str} (h : ∀ x ∈ comps, PathComponent x) (segs : List Str) :
    fold (· = dotdot) [] (comps ++ segs) = fold (· = dotdot) comps segs := by
  rw [fold_append, fold_of_not_up (fun x hx => (h x hx).2.1), List.nil_append]

theorem createFullpath_relative {cwd : Str} (h : Joined cwd) {q : Str} (hq : q.head? ≠ some slash) :
    createFullpath cwd q = slash :: [slash].intercalate
      (fold (· = dotdot) (Components.split slash cwd) (keptSegments (q.splitOn slash))) := by
  rw [createFullpath_eq, startComponents, if_neg hq, fold_components (split_plain h)]

theorem createFullpath_absolute {cwd : Str} (h : Joined cwd) (cwd' q : Str) :
    createFullpath cwd' (slash :: cwd ++ slash :: q) = slash :: [slash].intercalate
      (fold (· = dotdot) ((Components.split slash cwd).filter (· ≠ dot))
        (keptSegments (q.splitOn slash))) := by
  have hc := split_plain h
  have hs : startComponents cwd' (slash :: cwd ++ slash :: q) = [] := if_pos rfl
  rw [createFullpath_eq, hs, List.nil_append, keptSegments_absolute fun x hx => (hc x hx).plain,
    fold_components fun x hx => hc x (List.mem_of_mem_filter hx)]

/-- A relative path and its absolute spelling are resolved alike exactly when no component of `cwd_` is
'.', or the path climbs above all of them. -/
theorem createFullpath_spelling {cwd : Str} (h : Joined cwd) {q : Str}
    (hq : q.head? ≠ some slash) :
    createFullpath cwd q = createFullpath cwd (slash :: cwd ++ slash :: q) ↔
      dot ∉ Components.split slash cwd ∨ (Components.split slash cwd).length ≤ climb q := by
  have hc := split_plain h
  have hp : ∀ x ∈ Components.split slash cwd, Plain slash x := fun x hx => (hc x hx).plain
  rw [createFullpath_relative h hq, createFullpath_absolute h, List.cons_inj_right,
    intercalate_inj (fold_keptSegments_plain hp q)
      (fold_keptSegments_plain (fun x hx => hp x (List.mem_of_mem_filter hx)) q)]
  by_cases hd : dot ∈ Components.split slash cwd
  · -- A '.' is dropped, so the absolute spelling starts from fewer components.
    have hlt : ((Components.split slash cwd).filter (· ≠ dot)).length <
        (Components.split slash cwd).length := by
      refine List.length_filter_lt_length_iff_exists.2 ⟨dot, hd, by simp⟩
    rw [fold_eq_fold_iff hlt]
    exact ⟨.inr, fun h => h.resolve_left (fun hn => hn hd)⟩
  · refine iff_of_true ?_ (.inl hd)
    rw [List.filter_eq_self.2]
    intro x hx
    simp only [ne_eq, decide_eq_true_eq]
    rintro rfl
    exact hd hx

/-! ## Whole runs -/

namespace FileSystem

/-- A `ChDir` to a path that does not end in '.' brings no '.' into `cwd_`. -/
theorem chDir_dot {fs : FileSystem} {path : Str} (answer : Int) (buf : Stat) (h : Joined fs.cwd)
    (hd : dot ∉ Components.split slash fs.cwd) (hl : lastSegment path ≠ dot) :
    dot ∉ Components.split slash (fs.chDir path answer buf).1.cwd := by
  rcases chDir_cwd fs path answer buf with ⟨-, hc⟩ | ⟨-, -, -, hc⟩
  · rw [hc]
    exact hd
  · have hcan : Canonical fs.cwd := by
      obtain ⟨comps, hcomps, he⟩ := h
      have hs := split_intercalate fun x hx => (hcomps x hx).plain
      refine ⟨comps, fun x hx => ⟨(hcomps x hx).1, ?_, (hcomps x hx).2⟩, he⟩
      rintro rfl
      rw [he, hs] at hd
      exact hd hx
    have hres := resolve_canonical hcan path
    rw [hc, createFullpath_lexical hcan hl, lexicalPath, List.drop_one, List.tail_cons,
      split_intercalate fun x hx => (hres x hx).plain]
    exact fun hm => (hres dot hm).2.1 rfl

/-- No other call changes `cwd_`. -/
theorem call_cwd {fs fs' : FileSystem} {op : Op} {ret : Ret} (h : fs.call op = some (fs', ret)) :
    fs'.cwd = fs.cwd ∨
      ∃ path answer buf, op = .chDir path answer buf ∧ fs' = (fs.chDir path answer buf).1 := by
  cases op with
  | open_ path answer =>
    left
    cases path with
    | none => cases h; rfl
    | some path =>
      simp only [call, open_, Option.some.injEq] at h
      split at h <;> cases h <;> rfl
  | stat path answer => cases h; exact .inl rfl
  | close fildes answer =>
    left
    simp only [call, close, Option.some.injEq] at h
    split at h
    · cases h; rfl
    · split at h <;> cases h
      · rfl
      · exact deleteDescriptor_cwd fs fildes
  | mkDir path answer =>
    left
    cases path <;> cases h <;> rfl
  | openDir dirname answer =>
    left
    cases dirname with
    | none => cases h; rfl
    | some path =>
      simp only [call, openDir, Option.some.injEq] at h
      split at h <;> cases h <;> rfl
  | closeDir dirp answer =>
    left
    simp only [call, closeDir] at h
    split at h
    · cases h
    · split at h <;> cases h <;> rfl
  | chDir path answer buf =>
    refine .inr ⟨path, answer, buf, rfl, ?_⟩
    rw [Option.some.inj h]

/-- A run whose `ChDir`s do not end in '.' leaves no '.' in `cwd_`. -/
theorem run_dot {ops : List Op} {fs fs' : FileSystem} (h : Joined fs.cwd)
    (hd : dot ∉ Components.split slash fs.cwd)
    (hl : ∀ path answer buf, .chDir path answer buf ∈ ops → lastSegment path ≠ dot)
    (hr : Run.run step fs ops = some fs') : dot ∉ Components.split slash fs'.cwd := by
  induction ops generalizing fs with
  | nil => cases hr; exact hd
  | cons op ops ih =>
    obtain ⟨fs₁, hs, hr⟩ := Run.run_cons_some.1 hr
    obtain ⟨ret, hc⟩ := step_some.1 hs
    have hl' : ∀ path answer buf, .chDir path answer buf ∈ ops → lastSegment path ≠ dot :=
      fun path answer buf hm => hl path answer buf (List.mem_cons_of_mem _ hm)
    have hj : Joined fs₁.cwd := by
      rcases (call_pathStep hc).cwd with he | ⟨q, he⟩
      · rw [he]; exact h
      · rw [he]; exact (createFullpath_fullPath h q).drop_one
    rcases call_cwd hc with he | ⟨path, answer, buf, rfl, rfl⟩
    · exact ih hj (by rw [he]; exact hd) hl' hr
    · exact ih hj (chDir_dot answer buf h hd (hl path answer buf (by simp))) hl' hr

/-- After every run of calls, whatever the delegates answered: a path without a first '/' is resolved
as the path `GetCwd` spells in front of it exactly when no component of `cwd_` is '.', or the path
climbs above all of them; and it always is when no `ChDir` of the run had a path that ends in '.'. -/
theorem run_spelling (ops : List Op) (fs : FileSystem) (buf : Bool) (size : Nat) (dir q : Str)
    (h : Run.run step init ops = some fs) (hdir : (fs.getCwd buf size).2 = some dir)
    (hq : q.head? ≠ some slash) :
    (createFullpath fs.cwd q = createFullpath fs.cwd (dir ++ slash :: q) ↔
      dot ∉ Components.split slash fs.cwd ∨ (Components.split slash fs.cwd).length ≤ climb q) ∧
    ((∀ path answer buf, .chDir path answer buf ∈ ops → lastSegment path ≠ dot) →
      createFullpath fs.cwd q = createFullpath fs.cwd (dir ++ slash :: q)) := by
  have hk := createFullpath_spelling (run_pathInv h).cwd hq
  rw [getCwd_some hdir]
  refine ⟨hk, fun hl => hk.2 (.inl ?_)⟩
  exact run_dot joined_nil (by decide) hl h

theorem run_spelling_sibling :
    ∃ fs, Run.run step init [.chDir (str "a/b") 0 ⟨sIfDir, 0, 0, 0, 0, 0, 0⟩] = some fs ∧
      (fs.getCwd true 6).2 = some (str "/a/b") ∧
      (createFullpath fs.cwd (str "../c") = createFullpath fs.cwd (str "/a/b" ++ slash :: str "../c") ↔
        dot ∉ Components.split slash fs.cwd ∨
          (Components.split slash fs.cwd).length ≤ climb (str "../c")) :=
  ⟨_, rfl, by decide, (run_spelling [.chDir (str "a/b") 0 ⟨sIfDir, 0, 0, 0, 0, 0, 0⟩] _ true 6
    (str "/a/b") (str "../c") rfl (by decide) (by decide)).1⟩

/-- After `ChDir("a/.")` the path "b" is resolved to "/a/./b", its absolute spelling to "/a/b". -/
theorem chDir_dot_spelling :
    ∃ fs, Run.run step init [.chDir (str "a/.") 0 ⟨sIfDir, 0, 0, 0, 0, 0, 0⟩] = some fs ∧
      (fs.getCwd true 5).2 = some (str "/a/.") ∧
      createFullpath fs.cwd (str "b") = str "/a/./b" ∧
      createFullpath fs.cwd (str "/a/." ++ slash :: str "b") = str "/a/b" ∧
      str "/a/./b" ≠ str "/a/b" :=
  ⟨_, rfl, by decide, by decide, by decide, by decide⟩

end FileSystem

end NaClFs
