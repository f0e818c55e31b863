/-
Lexical path resolution, written as one fold over the segments of the path, and how
`CreateFullpath` compares with it: on a canonical current directory the two agree, and the result
is canonical again, exactly when the last segment of the path is not '.'. The splitter trims '.'
only in front of a '/', so a last '.' is kept as a component.
-/
import NaClFs.Path.Fullpath

namespace NaClFs

open Components

/-! ## The specification -/

/-- One segment of a path: '' and '.' stay, '..' goes up (and stays at the root), any other goes
down. -/
def resolveSegment (comps : List Str) (seg : Str) : List Str :=
  if seg = [] ∨ seg = dot then comps
  else if seg = dotdot then comps.dropLast
  else comps ++ [seg]

/-- The components reached from `start` along the segments. -/
def resolve (start segs : List Str) : List Str := segs.foldl resolveSegment start

/-- The absolute path a path names when the current directory is '/' + `cwd`. -/
def lexicalPath (cwd path : Str) : Str :=
  slash :: [slash].intercalate (resolve (startComponents cwd path) (path.splitOn slash))

/-- A component of a canonical path. -/
def CanonicalComponent (x : Str) : Prop := x ≠ [] ∧ x ≠ dot ∧ x ≠ dotdot ∧ slash ∉ x

/-- A canonical current directory: empty, or a '/'-join of canonical components. -/
def Canonical (cwd : Str) : Prop :=
  ∃ comps : List Str, (∀ x ∈ comps, CanonicalComponent x) ∧ cwd = [slash].intercalate comps

/-- The segment after the last '/'. -/
def lastSegment (path : Str) : Str := (path.splitOn slash).getLast (List.splitOn_ne_nil _ _)

/-! ## Trimming in front of the fold -/

theorem CanonicalComponent.plain {x : Str} (h : CanonicalComponent x) : Plain slash x :=
  ⟨h.1, h.2.2.2⟩

/-- A segment the splitter drops does nothing, a segment it keeps is pushed or pops. -/
theorem resolveSegment_eq (comps : List Str) (seg : Str) :
    resolveSegment comps seg = if keepSegment seg then push (· = dotdot) comps seg else comps := by
  unfold resolveSegment keepSegment push
  by_cases h1 : seg = [] <;> by_cases h2 : seg = dot <;> simp [h1, h2]

theorem keepSegment_cases {seg : Str} (h : seg ≠ dot) :
    keepSegment seg = true ↔ seg ≠ [] := by
  simp [keepSegment, h]

/-- Folding the kept segments is resolving all of them, unless the last one is '.'. -/
theorem fold_keptSegments {segs : List Str} (hne : segs ≠ []) (hl : segs.getLast hne ≠ dot)
    (comps : List Str) : fold (· = dotdot) comps (keptSegments segs) = resolve comps segs := by
  induction segs generalizing comps with
  | nil => exact absurd rfl hne
  | cons seg segs ih =>
    unfold resolve
    rw [List.foldl_cons, resolveSegment_eq]
    by_cases hs : segs = []
    · -- The last segment is kept unless it is '', which is right for all but '.'.
      subst hs
      simp only [List.getLast_singleton] at hl
      by_cases h : seg = []
      · simp [keptSegments, keepSegment, h]
      · simp [keptSegments, (keepSegment_cases hl).2 h, h]
    · rw [keptSegments_cons hs]
      rw [List.getLast_cons hs] at hl
      by_cases hk : keepSegment seg = true
      · rw [if_pos hk, if_pos hk, fold_cons]
        exact ih hs hl _
      · rw [if_neg hk, if_neg hk]
        exact ih hs hl _

/-- A last '.' is kept, and stays on top of the stack. -/
theorem fold_keptSegments_dot {segs : List Str} (hne : segs ≠ []) (hl : segs.getLast hne = dot)
    (comps : List Str) : dot ∈ fold (· = dotdot) comps (keptSegments segs) := by
  induction segs generalizing comps with
  | nil => exact absurd rfl hne
  | cons seg segs ih =>
    by_cases hs : segs = []
    · subst hs
      simp only [List.getLast_singleton] at hl
      subst hl
      -- '.' is no '..', so it is pushed.
      rw [keptSegments, if_neg dot_ne_nil, fold_cons, push_not_up (by exact dotdot_ne_dot.symm)]
      simp
    · rw [keptSegments_cons hs]
      rw [List.getLast_cons hs] at hl
      split
      · exact ih hs hl _
      · exact ih hs hl _

/-! ## Canonical results -/

theorem mem_resolve {start segs : List Str} {x : Str} (h : x ∈ resolve start segs) :
    x ∈ start ∨ (x ∈ segs ∧ x ≠ [] ∧ x ≠ dot ∧ x ≠ dotdot) := by
  induction segs generalizing start with
  | nil => exact .inl h
  | cons seg segs ih =>
    rcases ih h with h | ⟨h, hx⟩
    · rw [resolveSegment_eq] at h
      split at h
      · rename_i hk
        rcases mem_push h with h | ⟨rfl, hu⟩
        · exact .inl h
        · have := of_decide_eq_true hk
          exact .inr ⟨by simp, this.1, this.2, hu⟩
      · exact .inl h
    · exact .inr ⟨by simp [h], hx⟩

theorem startComponents_canonical {cwd : Str} (hc : Canonical cwd) (path : Str) :
    ∀ x ∈ startComponents cwd path, CanonicalComponent x := by
  obtain ⟨comps, hcomps, rfl⟩ := hc
  unfold startComponents
  split
  · simp
  · rwa [split_intercalate fun x hx => (hcomps x hx).plain]

/-- Resolving from a canonical directory gives canonical components. -/
theorem resolve_canonical {cwd : Str} (hc : Canonical cwd) (path : Str) :
    ∀ x ∈ resolve (startComponents cwd path) (path.splitOn slash), CanonicalComponent x := by
  intro x hx
  rcases mem_resolve hx with h | ⟨h, h1, h2, h3⟩
  · exact startComponents_canonical hc path x h
  · exact ⟨h1, h2, h3, not_mem_of_mem_splitOn h⟩

theorem intercalate_canonical_iff {xs : List Str} (h : ∀ x ∈ xs, Plain slash x) :
    Canonical ([slash].intercalate xs) ↔ ∀ x ∈ xs, CanonicalComponent x := by
  constructor
  · rintro ⟨comps, hc, he⟩
    rw [← split_intercalate h, he, split_intercalate fun x hx => (hc x hx).plain]
    exact hc
  · exact fun hc => ⟨xs, hc, rfl⟩

/-- The components of the result can be read back from it. -/
theorem fold_plain {cwd : Str} (hc : Canonical cwd) (path : Str) :
    ∀ x ∈ fold (· = dotdot) [] (startComponents cwd path ++ keptSegments (path.splitOn slash)),
      Plain slash x := by
  intro x hx
  rcases mem_fold hx with h | ⟨h, -⟩
  · cases h
  · rcases List.mem_append.1 h with h | h
    · exact (startComponents_canonical hc path x h).plain
    · exact ⟨(mem_keptSegments h).2, not_mem_of_mem_splitOn (mem_keptSegments h).1⟩

theorem fold_start {cwd : Str} (hc : Canonical cwd) (path : Str) (segs : List Str) :
    fold (· = dotdot) [] (startComponents cwd path ++ segs) =
      fold (· = dotdot) (startComponents cwd path) segs := by
  have := fold_of_not_up (u := (· = dotdot))
    (fun x hx => (startComponents_canonical hc path x hx).2.2.1) []
  rw [fold_append, this, List.nil_append]

/-- On a path that does not end in '.' the three loops compute lexical resolution. -/
theorem createFullpath_lexical {cwd : Str} (hc : Canonical cwd) {path : Str}
    (hl : lastSegment path ≠ dot) : createFullpath cwd path = lexicalPath cwd path := by
  rw [createFullpath_eq, fold_start hc, fold_keptSegments (List.splitOn_ne_nil _ _) hl]
  rfl

/-- On a path that ends in '.' the result has a '.' component. -/
theorem createFullpath_dot {cwd : Str} (hc : Canonical cwd) {path : Str}
    (hl : lastSegment path = dot) : ¬ Canonical ((createFullpath cwd path).drop 1) := by
  rw [createFullpath_eq, List.drop_one, List.tail_cons,
    intercalate_canonical_iff (fold_plain hc path), fold_start hc]
  intro h
  exact (h dot (fold_keptSegments_dot (List.splitOn_ne_nil _ _) hl _)).2.1 rfl

/-- `CreateFullpath` is lexical resolution and keeps the current directory canonical exactly when
the last segment of the path is not '.'. -/
theorem createFullpath_spec (cwd path : Str) (hc : Canonical cwd) :
    (createFullpath cwd path = lexicalPath cwd path ∧
      Canonical ((createFullpath cwd path).drop 1)) ↔ lastSegment path ≠ dot := by
  constructor
  · rintro ⟨-, h⟩ hl
    exact createFullpath_dot hc hl h
  · intro hl
    refine ⟨createFullpath_lexical hc hl, ?_⟩
    rw [createFullpath_lexical hc hl, lexicalPath, List.drop_one, List.tail_cons]
    exact ⟨_, resolve_canonical hc path, rfl⟩

theorem createFullpath_spec_witness :
    (createFullpath (str "a/b") (str "../c/./d") = lexicalPath (str "a/b") (str "../c/./d") ∧
      Canonical ((createFullpath (str "a/b") (str "../c/./d")).drop 1)) ↔
      lastSegment (str "../c/./d") ≠ dot :=
  createFullpath_spec (str "a/b") (str "../c/./d")
    ⟨[str "a", str "b"], by simp only [CanonicalComponent]; decide, by decide⟩

/-- Resolving '.' at the root: the code answers "/.", lexical resolution "/". -/
theorem createFullpath_dot_at_root :
    Canonical [] ∧ createFullpath [] (str ".") = str "/." ∧ lexicalPath [] (str ".") = str "/" ∧
      ¬ ∀ cwd path, Canonical cwd → createFullpath cwd path = lexicalPath cwd path := by
  have hc : Canonical [] := ⟨[], by simp, rfl⟩
  refine ⟨hc, by decide, by decide, fun h => ?_⟩
  exact absurd (h [] (str ".") hc) (by decide)

end NaClFs
