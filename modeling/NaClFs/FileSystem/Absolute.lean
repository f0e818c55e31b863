/-
Absolute paths. `CreateFullpath` does not look at `cwd_` for them, and a path it made it leaves as it
is: the splitter keeps its components, a '.' at the end included, and the '..' loop finds nothing to
erase. So `ChDir` to what `GetCwd` answers stays where it is.
-/
import NaClFs.FileSystem.Relative

namespace NaClFs

open Components

/-! ## Fixed points -/

/-- The components of a path that needs no more work: plain, and '.' at most at the end. -/
structure Settled (comps : List Str) : Prop where
  component : ∀ x ∈ comps, PathComponent x
  dot : dot ∉ comps.dropLast

theorem keptSegments_dropLast (segs : List Str) : dot ∉ (keptSegments segs).dropLast := by
  induction segs with
  | nil => simp [keptSegments]
  | cons seg segs ih =>
    by_cases hs : segs = []
    · subst hs
      unfold keptSegments
      split <;> simp
    rw [keptSegments_cons hs]
    split
    · rename_i hk
      have hseg : seg ≠ dot := (of_decide_eq_true hk).2
      cases hks : keptSegments segs with
      | nil => simp
      | cons x xs =>
        rw [hks] at ih
        rw [List.dropLast_cons_of_ne_nil (List.cons_ne_nil x xs), List.mem_cons, not_or]
        exact ⟨hseg.symm, ih⟩
    · exact ih

/-- The splitter keeps all of settled components. -/
theorem keptSegments_settled {comps : List Str} (h : ∀ x ∈ comps, x ≠ [])
    (hd : dot ∉ comps.dropLast) : keptSegments comps = comps := by
  induction comps with
  | nil => rfl
  | cons x xs ih =>
    have hx : x ≠ [] := h x (by simp)
    by_cases hs : xs = []
    · subst hs
      rw [keptSegments, if_neg hx]
    rw [List.dropLast_cons_of_ne_nil hs, List.mem_cons, not_or] at hd
    have hk : keepSegment x = true := decide_eq_true ⟨hx, fun e => hd.1 e.symm⟩
    rw [keptSegments_cons hs, if_pos hk, ih (fun y hy => h y (by simp [hy])) hd.2]

/-- What an absolute path is resolved to is settled. -/
theorem settled_fold (path : Str) :
    Settled (fold (· = dotdot) [] (keptSegments (path.splitOn slash))) := by
  constructor
  · intro x hx
    have hnil : ∀ x ∈ ([] : List Str), Plain slash x := fun x hm => by cases hm
    have hp := fold_keptSegments_plain hnil path x hx
    refine ⟨hp.1, ?_, hp.2⟩
    rcases mem_fold hx with hm | ⟨-, hu⟩
    · cases hm
    · exact hu
  · exact not_mem_dropLast_fold (keptSegments_dropLast _)

theorem createFullpath_of_head {path : Str} (h : path.head? = some slash) (cwd : Str) :
    createFullpath cwd path = slash :: [slash].intercalate
      (fold (· = dotdot) [] (keptSegments (path.splitOn slash))) := by
  rw [createFullpath_eq, startComponents, if_pos h, List.nil_append]

/-- The join of settled components resolves to itself, whatever `cwd_` is. -/
theorem createFullpath_settled {comps : List Str} (h : Settled comps) (cwd : Str) :
    createFullpath cwd (slash :: [slash].intercalate comps) = slash :: [slash].intercalate comps := by
  have hp : ∀ x ∈ comps, Plain slash x := fun x hx => (h.component x hx).plain
  have hk : keptSegments ((slash :: [slash].intercalate comps).splitOn slash) = comps := by
    have hs : (slash :: [slash].intercalate comps).splitOn slash =
        [] :: ([slash].intercalate comps).splitOn slash := by
      rw [show slash :: [slash].intercalate comps = [] ++ slash :: [slash].intercalate comps from rfl,
        List.splitOn_append_cons_self, List.splitOn_nil, List.singleton_append]
    -- The empty segment in front of the first '/' is trimmed.
    rw [hs, keptSegments_cons (List.splitOn_ne_nil _ _), if_neg (by decide)]
    by_cases hc : comps = []
    · subst hc
      decide
    · rw [List.splitOn_intercalate slash (fun x hx => (hp x hx).2) hc]
      exact keptSegments_settled (fun x hx => (hp x hx).1) h.dot
  have hu : fold (· = dotdot) [] comps = comps :=
    fold_of_not_up (fun x hx => (h.component x hx).2.1) []
  rw [createFullpath_of_head rfl, hk, hu]

/-- A resolved absolute path resolves to itself. -/
theorem createFullpath_again {path : Str} (h : path.head? = some slash) (cwd cwd' : Str) :
    createFullpath cwd' (createFullpath cwd path) = createFullpath cwd path := by
  rw [createFullpath_of_head h cwd]
  exact createFullpath_settled (settled_fold path) cwd'

theorem createFullpath_cons_drop {path : Str} (h : path.head? = some slash) (cwd : Str) :
    slash :: (createFullpath cwd path).drop 1 = createFullpath cwd path := by
  rw [createFullpath_of_head h cwd]
  rfl

/-! ## ChDir and GetCwd -/

namespace FileSystem

theorem getCwd_large {fs : FileSystem} {size : Nat} (h : fs.cwd.length + 2 ≤ size) :
    fs.getCwd true size = (fs, some (slash :: fs.cwd)) := by
  have hs : ¬ (true = false ∨ size = 0) := by
    rintro (h' | h')
    · cases h'
    · omega
  have hl : ¬ size < fs.cwd.length + 2 := by omega
  rw [getCwd, if_neg hs]
  dsimp only
  rw [if_neg hl, slash_eq]
  rfl

/-- An absolute path resolves to one full path under every current directory, and that path to itself.
After a `ChDir` to it that succeeded, `GetCwd` into a buffer that is large enough answers the full path;
`ChDir` to it hands the delegate's `Stat` the same path again and leaves `cwd_` as it is, whatever the
delegate answers. -/
theorem chDir_getCwd (path : Str) (h : path.head? = some slash) :
    (∀ cwd cwd', createFullpath cwd path = createFullpath cwd' path) ∧
    (∀ cwd cwd', createFullpath cwd' (createFullpath cwd path) = createFullpath cwd path) ∧
    ∀ (fs fs' : FileSystem) (answer : Int) (buf : Stat) (ret : Ret),
      fs.chDir path answer buf = (fs', ret) → ret.result = 0 →
      fs'.paths = fs.paths ++ [createFullpath fs.cwd path, createFullpath fs.cwd path] ∧
      ∀ size, fs'.cwd.length + 2 ≤ size →
        ∃ dir, fs'.getCwd true size = (fs', some dir) ∧ dir = createFullpath fs.cwd path ∧
          ∀ (answer' : Int) (buf' : Stat),
            (fs'.chDir dir answer' buf').1.paths = fs'.paths ++
              [createFullpath fs.cwd path, createFullpath fs.cwd path] ∧
            (fs'.chDir dir answer' buf').1.cwd = fs'.cwd := by
  refine ⟨fun cwd cwd' => ?_, fun cwd cwd' => createFullpath_again h cwd cwd', ?_⟩
  · rw [createFullpath_of_head h, createFullpath_of_head h]
  intro fs fs' answer buf ret hc h0
  have hpaths := chDir_paths fs path answer buf
  have hcwd := chDir_cwd fs path answer buf
  rw [hc] at hpaths hcwd
  have hdir : slash :: fs'.cwd = createFullpath fs.cwd path := by
    rcases hcwd with ⟨hne, -⟩ | ⟨-, -, -, he⟩
    · exact absurd h0 hne
    · have he : fs'.cwd = (createFullpath fs.cwd path).drop 1 := he
      rw [he]
      exact createFullpath_cons_drop h fs.cwd
  have hagain := createFullpath_again h fs.cwd fs'.cwd
  refine ⟨hpaths, fun size hsize => ⟨_, getCwd_large hsize, hdir, fun answer' buf' => ⟨?_, ?_⟩⟩⟩
  · rw [hdir, chDir_paths, hagain]
  · rcases chDir_cwd fs' (slash :: fs'.cwd) answer' buf' with ⟨-, he⟩ | ⟨-, -, -, he⟩
    · exact he
    · rw [he, hdir, hagain, ← hdir]
      rfl

/-- "/a//./../b/." resolves to "/b/.", which stays. -/
theorem chDir_getCwd_dot :
    (str "/a//./../b/.").head? = some slash ∧
    createFullpath (str "c") (str "/a//./../b/.") = str "/b/." ∧
    ∃ dir, (init.chDir (str "/a//./../b/.") 0 ⟨sIfDir, 0, 0, 0, 0, 0, 0⟩).1.getCwd true 5 =
      ((init.chDir (str "/a//./../b/.") 0 ⟨sIfDir, 0, 0, 0, 0, 0, 0⟩).1, some dir) ∧
      dir = createFullpath init.cwd (str "/a//./../b/.") := by
  obtain ⟨-, -, h⟩ := chDir_getCwd (str "/a//./../b/.") (by decide)
  obtain ⟨dir, hd, he, -⟩ := (h init _ 0 ⟨sIfDir, 0, 0, 0, 0, 0, 0⟩ _ rfl rfl).2 5 (by decide)
  exact ⟨by decide, by decide, dir, hd, he⟩

end FileSystem

end NaClFs
