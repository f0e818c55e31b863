/-
The current directory over whole runs: the splitter of `cwd_` filters nothing, so what
`CreateFullpath` may promise for one call rests on the shape of the `cwd_` that every earlier
`ChDir` left behind.
-/
import NaClFs.FileSystem.Table
import NaClFs.Lib.Run

namespace NaClFs

open Components

/-! ## Shapes -/

/-- A component no '..' and no '/' is left in. -/
def PathComponent (x : Str) : Prop := x ≠ [] ∧ x ≠ dotdot ∧ slash ∉ x

/-- A '/'-join of such components; empty for none of them. -/
def Joined (s : Str) : Prop :=
  ∃ comps : List Str, (∀ x ∈ comps, PathComponent x) ∧ s = [slash].intercalate comps

/-- '/' followed by such a join. -/
def FullPath (p : Str) : Prop := ∃ s, Joined s ∧ p = slash :: s

theorem PathComponent.plain {x : Str} (h : PathComponent x) : Plain slash x := ⟨h.1, h.2.2⟩

theorem joined_nil : Joined [] := ⟨[], by simp, rfl⟩

theorem FullPath.drop_one {p : Str} (h : FullPath p) : Joined (p.drop 1) := by
  obtain ⟨s, hs, rfl⟩ := h
  simpa using hs

theorem FullPath.cons_drop_one {p : Str} (h : FullPath p) : slash :: p.drop 1 = p := by
  obtain ⟨s, -, rfl⟩ := h
  simp

/-- No component of a full path is '..'. -/
theorem FullPath.dotdot_not_mem {p : Str} (h : FullPath p) : dotdot ∉ p.splitOn slash := by
  obtain ⟨s, ⟨comps, hc, rfl⟩, rfl⟩ := h
  rw [show slash :: [slash].intercalate comps = [] ++ slash :: [slash].intercalate comps from rfl,
    List.splitOn_append_cons_self, List.splitOn_nil, List.singleton_append, List.mem_cons, not_or]
  refine ⟨dotdot_ne_nil, fun hm => ?_⟩
  have hs := split_intercalate fun x hx => (hc x hx).plain
  unfold Components.split at hs
  split at hs
  · rename_i he
    rw [he, List.splitOn_nil, List.mem_singleton] at hm
    exact dotdot_ne_nil hm
  · rw [hs] at hm
    exact (hc _ hm).2.1 rfl

/-- No two '/' meet in a full path. -/
theorem FullPath.not_infix {p : Str} (h : FullPath p) : ¬ [slash, slash] <:+: p := by
  obtain ⟨s, ⟨comps, hc, rfl⟩, rfl⟩ := h
  have hp : ∀ x ∈ comps, Plain slash x := fun x hx => (hc x hx).plain
  rw [List.infix_cons_iff]
  rintro (h | h)
  · rw [List.prefix_cons_iff] at h
    rcases h with h | ⟨t, ht, h⟩
    · cases h
    · cases ht
      obtain ⟨u, hu⟩ := h
      exact head?_intercalate hp (by rw [← hu]; rfl)
  · exact not_infix_intercalate hp h

/-- Only '/' itself ends in '/'. -/
theorem FullPath.getLast? {p : Str} (h : FullPath p) (hne : p ≠ str "/") :
    p.getLast? ≠ some slash := by
  obtain ⟨s, ⟨comps, hc, rfl⟩, rfl⟩ := h
  rw [slash_eq] at hne
  rw [List.getLast?_cons_of_ne_nil (by intro e; rw [e] at hne; exact hne rfl)]
  exact getLast?_intercalate fun x hx => (hc x hx).plain

theorem startComponents_plain {cwd : Str} (h : Joined cwd) (path : Str) :
    ∀ x ∈ startComponents cwd path, Plain slash x := by
  obtain ⟨comps, hc, rfl⟩ := h
  unfold startComponents
  split
  · simp
  · rw [split_intercalate fun x hx => (hc x hx).plain]
    exact fun x hx => (hc x hx).plain

/-- On a joined `cwd_` every path is resolved to a full path. -/
theorem createFullpath_fullPath {cwd : Str} (h : Joined cwd) (path : Str) :
    FullPath (createFullpath cwd path) := by
  rw [createFullpath_eq]
  refine ⟨_, ⟨_, fun x hx => ?_, rfl⟩, rfl⟩
  rcases mem_fold hx with hx | ⟨hx, hu⟩
  · cases hx
  -- A component of `cwd_` or a kept segment of the path; none of them is left if it is '..'.
  rcases List.mem_append.1 hx with hx | hx
  · have := startComponents_plain h path x hx
    exact ⟨this.1, hu, this.2⟩
  · exact ⟨(mem_keptSegments hx).2, hu, not_mem_of_mem_splitOn (mem_keptSegments hx).1⟩

/-! ## One call -/

namespace FileSystem

/-- What one call does to `cwd_` and to the paths handed out. -/
structure PathStep (fs fs' : FileSystem) : Prop where
  paths : ∃ new, fs'.paths = fs.paths ++ new ∧ ∀ p ∈ new, ∃ q, p = createFullpath fs.cwd q
  cwd : fs'.cwd = fs.cwd ∨ ∃ q, fs'.cwd = (createFullpath fs.cwd q).drop 1

theorem PathStep.refl (fs : FileSystem) : PathStep fs fs :=
  ⟨⟨[], by simp, by simp⟩, .inl rfl⟩

theorem PathStep.of_eq {fs fs' : FileSystem} (h1 : fs'.paths = fs.paths) (h2 : fs'.cwd = fs.cwd) :
    PathStep fs fs' :=
  ⟨⟨[], by simp [h1], by simp⟩, .inl h2⟩

/-- A call that resolves `q` and hands the result to `CreateDelegate` and to the delegate. -/
theorem PathStep.of_hand {fs fs' : FileSystem} (q : Str)
    (h1 : fs'.paths = fs.paths ++ [createFullpath fs.cwd q, createFullpath fs.cwd q])
    (h2 : fs'.cwd = fs.cwd ∨ fs'.cwd = (createFullpath fs.cwd q).drop 1) : PathStep fs fs' :=
  ⟨⟨_, h1, by simp⟩, h2.imp id fun h => ⟨q, h⟩⟩

@[simp] theorem deleteDescriptor_paths (fs : FileSystem) (fildes : Int) :
    (fs.deleteDescriptor fildes).paths = fs.paths := by
  unfold deleteDescriptor; split <;> rfl

@[simp] theorem deleteDescriptor_cwd (fs : FileSystem) (fildes : Int) :
    (fs.deleteDescriptor fildes).cwd = fs.cwd := by
  unfold deleteDescriptor; split <;> rfl

theorem stat_paths (fs : FileSystem) (path : Str) (answer : Int) :
    (fs.stat path answer).1.paths =
      fs.paths ++ [createFullpath fs.cwd path, createFullpath fs.cwd path] := by
  simp [stat, createDelegate, hand, delete]

theorem stat_cwd (fs : FileSystem) (path : Str) (answer : Int) :
    (fs.stat path answer).1.cwd = fs.cwd := rfl

theorem chDir_eq (fs : FileSystem) (path : Str) (answer : Int) (buf : Stat) :
    fs.chDir path answer buf =
      if answer ≠ 0 then ((fs.stat path answer).1, { result := answer })
      else if ¬ sIsDir buf.mode then
        ({ (fs.stat path answer).1 with errno := enotdir }, { result := -1 })
      else
        ({ (fs.stat path answer).1 with cwd := (createFullpath fs.cwd path).drop 1 },
          { result := 0 }) := rfl

theorem chDir_paths (fs : FileSystem) (path : Str) (answer : Int) (buf : Stat) :
    (fs.chDir path answer buf).1.paths =
      fs.paths ++ [createFullpath fs.cwd path, createFullpath fs.cwd path] := by
  have h := stat_paths fs path answer
  rw [chDir_eq]
  split
  · exact h
  · split <;> exact h

/-- `ChDir` answers 0 on a directory and stores its path; otherwise `cwd_` stays. -/
theorem chDir_cwd (fs : FileSystem) (path : Str) (answer : Int) (buf : Stat) :
    ((fs.chDir path answer buf).2.result ≠ 0 ∧ (fs.chDir path answer buf).1.cwd = fs.cwd) ∨
    ((fs.chDir path answer buf).2.result = 0 ∧ answer = 0 ∧ sIsDir buf.mode = true ∧
      (fs.chDir path answer buf).1.cwd = (createFullpath fs.cwd path).drop 1) := by
  rw [chDir_eq]
  by_cases ha : answer = 0
  · by_cases hd : sIsDir buf.mode = true
    · right; simp [ha, hd]
    · left; simp [ha, hd, stat_cwd]
  · left; simp [ha, stat_cwd]

theorem call_pathStep {fs fs' : FileSystem} {op : Op} {ret : Ret}
    (h : fs.call op = some (fs', ret)) : PathStep fs fs' := by
  cases op with
  | open_ path answer =>
    cases path with
    | none => cases h; exact .refl fs
    | some path =>
      simp only [call, open_, Option.some.injEq] at h
      split at h <;> cases h <;>
        exact .of_hand path (by simp [createDelegate, hand, delete, bindToDescriptor]) (.inl rfl)
  | stat path answer =>
    cases h
    exact .of_hand path (stat_paths fs path answer) (.inl rfl)
  | close fildes answer =>
    simp only [call, close, Option.some.injEq] at h
    split at h
    · cases h; exact .refl fs
    · split at h <;> cases h
      · exact .refl fs
      · exact .of_eq (by simp) (by simp)
  | mkDir path answer =>
    cases path with
    | none => cases h; exact .refl fs
    | some path =>
      cases h
      exact .of_hand path (by simp [hand, delete]) (.inl rfl)
  | openDir dirname answer =>
    cases dirname with
    | none => cases h; exact .refl fs
    | some path =>
      simp only [call, openDir, Option.some.injEq] at h
      split at h <;> cases h <;>
        exact .of_hand path (by simp [createDelegate, hand, delete]) (.inl rfl)
  | closeDir dirp answer =>
    simp only [call, closeDir] at h
    split at h
    · cases h
    · split at h <;> cases h
      · exact .of_eq rfl rfl
      · exact .refl fs
  | chDir path answer buf =>
    have he : fs' = (fs.chDir path answer buf).1 := by rw [Option.some.inj h]
    subst he
    refine .of_hand path (chDir_paths fs path answer buf) ?_
    rcases chDir_cwd fs path answer buf with ⟨-, h⟩ | ⟨-, -, -, h⟩
    · exact .inl h
    · exact .inr h

/-! ## Whole runs -/

/-- The invariant: `cwd_` is joined and every path handed out is full. -/
structure PathInv (fs : FileSystem) : Prop where
  cwd : Joined fs.cwd
  paths : ∀ p ∈ fs.paths, FullPath p

theorem init_pathInv : PathInv init := ⟨joined_nil, by simp [init]⟩

theorem step_pathInv {fs fs' : FileSystem} {op : Op} (hi : PathInv fs)
    (h : fs.step op = some fs') : PathInv fs' := by
  obtain ⟨ret, h⟩ := step_some.1 h
  obtain ⟨⟨new, hp, hnew⟩, hcwd⟩ := call_pathStep h
  constructor
  · rcases hcwd with hc | ⟨q, hc⟩
    · rw [hc]; exact hi.cwd
    · rw [hc]; exact (createFullpath_fullPath hi.cwd q).drop_one
  · intro p hm
    rw [hp] at hm
    rcases List.mem_append.1 hm with hm | hm
    · exact hi.paths p hm
    · obtain ⟨q, rfl⟩ := hnew p hm
      exact createFullpath_fullPath hi.cwd q

theorem run_pathInv {ops : List Op} {fs : FileSystem} (h : Run.run step init ops = some fs) :
    PathInv fs :=
  Run.invariant_all (fun _ _ _ => step_pathInv) init_pathInv h

/-- After every run of calls, whatever the delegates answered: `cwd_` is empty or a join of
components other than '..'; every path handed to `CreateDelegate` and to a delegate is '/' followed
by such a join, so it holds no '..', no '//' and, '/' apart, no '/' at its end; and a further
`ChDir` either fails and leaves `cwd_`, or answers 0 and leaves '/' + `cwd_` equal to the path whose
`Stat` reported a directory. -/
theorem run_paths (ops : List Op) (fs : FileSystem) (h : Run.run step init ops = some fs) :
    Joined fs.cwd ∧
    (∀ p ∈ fs.paths, FullPath p ∧ dotdot ∉ p.splitOn slash ∧ ¬ [slash, slash] <:+: p ∧
      (p ≠ str "/" → p.getLast? ≠ some slash)) ∧
    ∀ path answer buf,
      ((fs.chDir path answer buf).2.result ≠ 0 → (fs.chDir path answer buf).1.cwd = fs.cwd) ∧
      ((fs.chDir path answer buf).2.result = 0 → answer = 0 ∧ sIsDir buf.mode = true ∧
        (fs.chDir path answer buf).1.paths = fs.paths ++
          [slash :: (fs.chDir path answer buf).1.cwd, slash :: (fs.chDir path answer buf).1.cwd]) := by
  obtain ⟨hcwd, hpaths⟩ := run_pathInv h
  refine ⟨hcwd, ?_, ?_⟩
  · intro p hp
    have hf := hpaths p hp
    exact ⟨hf, hf.dotdot_not_mem, hf.not_infix, hf.getLast?⟩
  · intro path answer buf
    rcases chDir_cwd fs path answer buf with ⟨hr, hc⟩ | ⟨hr, ha, hd, hc⟩
    · exact ⟨fun _ => hc, fun h => absurd h hr⟩
    · refine ⟨fun h => absurd hr h, fun _ => ⟨ha, hd, ?_⟩⟩
      -- The path was stored without its first '/'.
      have hfull := createFullpath_fullPath hcwd path
      rw [hc, chDir_paths, hfull.cons_drop_one]

theorem run_paths_parent :
    ∃ fs, Run.run step init
        [.chDir (str "a/.") 0 ⟨sIfDir, 0, 0, 0, 0, 0, 0⟩, .open_ (some (str "..//../b")) 0] =
        some fs ∧
      Joined fs.cwd ∧ ∀ p ∈ fs.paths, FullPath p := by
  refine ⟨_, rfl, ?_⟩
  obtain ⟨h1, h2, -⟩ := run_paths
    [.chDir (str "a/.") 0 ⟨sIfDir, 0, 0, 0, 0, 0, 0⟩, .open_ (some (str "..//../b")) 0] _ rfl
  exact ⟨h1, fun p hp => (h2 p hp).1⟩

end FileSystem

end NaClFs
