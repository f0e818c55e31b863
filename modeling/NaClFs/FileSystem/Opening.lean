/-
What `Open` of a file reports when a step of it fails, once the filesystem is open. The codes of the two
completions are mapped to the errno returned; of a file open that is refused at once the code is lost, for
`OpenCall` maps `result.callback`, which is still the 0 that `Call` posted its run with.
-/
import NaClFs.FileSystem.Process

namespace NaClFs

/-! ## The steps -/

/-- The step of an `Open` that failed: the file open was refused, or it completed with an error, or the
query did. -/
inductive OpenFailure
  | refused (code : Int)
  | opened (code : Int)
  | queried (code : Int)
  deriving DecidableEq, Repr

def OpenFailure.code : OpenFailure → Int
  | .refused code | .opened code | .queried code => code

section Steps

variable {β : Type} (B : Backend β) (b : β) (ref : FileRef) (file : Nat) (oflag : BitVec 32)

/-- The first step that failed; none when none did. -/
def firstFailure : Option OpenFailure :=
  match B b (.fileOpen file ref (openFlags oflag)) with
  | (.refused code _, _) => some (.refused code)
  | (.completes opened, b) =>
    if opened.code ≠ 0 then some (.opened opened.code)
    else
      match (B b (.query (some file))).1 with
      | .refused _ _ => none
      | .completes answer => if answer.code ≠ 0 then some (.queried answer.code) else none

/-- The query of the file, once it is open, is accepted. Nobody reads the code of one that is refused. -/
def QueryAccepted : Prop :=
  ∀ opened b', B b (.fileOpen file ref (openFlags oflag)) = (.completes opened, b') → opened.code = 0 →
    ∃ answer, (B b' (.query (some file))).1 = .completes answer

/-- What `OpenCall` answers: the run in which the file open is refused has the code of its call. -/
def openAnswer : Option OpenFailure → Int
  | none => 0
  | some (.refused _) => ppErrorToErrNo ppOk
  | some (.opened code) | some (.queried code) => ppErrorToErrNo code

theorem openAnswer_eq_zero (failure : Option OpenFailure) : openAnswer failure = 0 ↔ failure = none := by
  have hne (code : Int) : ppErrorToErrNo code ≠ 0 := by
    have := ppErrorToErrNo_pos code
    omega
  constructor
  · intro h
    cases failure with
    | none => rfl
    | some f =>
      cases f with
      | refused code => exact absurd h (hne ppOk)
      | opened code => exact absurd h (hne code)
      | queried code => exact absurd h (hne code)
  · rintro rfl
    rfl

variable {oflag}

/-- The program of `Open` on an opened filesystem answers by its first failure. -/
theorem Line.open_answers (st : Store) (d : Nat) {filesystem : Nat} {path : Str}
    (hf : st.filesystem = some filesystem) (hq : QueryAccepted B b ⟨filesystem, path⟩ st.resources oflag) :
    ∃ st' b', Line.open_ B d path oflag st b =
      (some (.int (openAnswer (firstFailure B b ⟨filesystem, path⟩ st.resources oflag))), st', b') := by
  unfold Line.open_ firstFailure
  rw [Line.bind_run, Line.needFileSystem_open hf]
  dsimp only
  rw [Line.openFile_bind]
  rcases hr : B b (.fileOpen st.resources ⟨filesystem, path⟩ (openFlags oflag)) with ⟨reply, b₁⟩
  cases reply with
  | refused code hc => exact ⟨_, _, rfl⟩
  | completes opened =>
    dsimp only [Line.opening]
    by_cases h0 : opened.code = 0
    · rw [if_neg (not_not_intro h0), if_neg (not_not_intro h0)]
      obtain ⟨answer, ha⟩ := hq opened b₁ hr h0
      rw [Line.query_bind_completes (by simpa using ha), ha]
      dsimp only [Line.opened]
      by_cases hcode : answer.code = 0
      · rw [if_neg (not_not_intro hcode), if_neg (not_not_intro hcode)]
        exact ⟨_, _, rfl⟩
      · rw [if_pos hcode, if_pos hcode]
        exact ⟨_, _, rfl⟩
    · rw [if_pos h0, if_pos h0]
      exact ⟨_, _, rfl⟩

end Steps

/-! ## Open -/

section Open

variable {β : Type}

/-- What an `Open` reports of its first failure, and how it unwinds: the descriptors stay, `*newfd` is
not written and the delegate it made is deleted. -/
structure OpenReports (failure : Option OpenFailure) (s : Process β) (ret : Returned) (t : Process β) :
    Prop where
  success : ret.result = 0 ↔ failure = none
  errno : ∀ f, failure = some f → ret.result = ppErrorToErrNo f.code
  descriptors : ret.result ≠ 0 → t.table.descriptors = s.table.descriptors
  newfd : ret.result ≠ 0 → ret.newfd = none
  deleted : ret.result ≠ 0 → t.table.delegates = s.table.delegates ++ [.html5] ∧
    t.table.deleted = s.table.deleted ++ [s.table.delegates.length]

/-- The first failure of the `Open` of a path on an opened filesystem. -/
def Process.openFailure (B : Backend β) (s : Process β) (filesystem : Nat) (path : Str)
    (oflag : BitVec 32) : Option OpenFailure :=
  firstFailure B s.backend ⟨filesystem, createFullpath s.table.cwd path⟩ s.world.resources oflag

/-- `Open` when its delegate answers an error. -/
theorem FileSystem.open_fails (fs : FileSystem) {path : Str} {answer : Int}
    (hk : ¬ (str "/dev/std").isPrefixOf (createFullpath fs.cwd path)) (h : answer ≠ 0) :
    fs.open_ (some path) answer = ({ fs with
      delegates := fs.delegates ++ [.html5]
      paths := fs.paths ++ [createFullpath fs.cwd path] ++ [createFullpath fs.cwd path]
      deleted := fs.deleted ++ [fs.delegates.length] }, { result := answer }) := by
  simp only [open_, createDelegate, hand, delete, if_neg hk, if_pos h]

variable {B : Backend β} {s : Process β} {path : Str} {oflag : BitVec 32}

/-- An `Open` on a worker ends as the table does on what `OpenCall` answers. -/
theorem Process.open_worker (call : Nat) (cmode : BitVec 32) (hq : Quiescent s.world) {filesystem : Nat}
    (hf : s.world.filesystem = some filesystem)
    (hk : ¬ (str "/dev/std").isPrefixOf (createFullpath s.table.cwd path))
    (ha : QueryAccepted B s.backend ⟨filesystem, createFullpath s.table.cwd path⟩ s.world.resources
      oflag) :
    ∃ t, s.open_ B false call (some path) oflag cmode =
        .returns { (s.table.open_ (some path)
          (openAnswer (s.openFailure B filesystem path oflag))).2 with } t ∧
      t.table = (s.table.open_ (some path) (openAnswer (s.openFailure B filesystem path oflag))).1 := by
  have hkind := (create_kind s (createFullpath s.table.cwd path)).trans (if_neg hk)
  obtain ⟨st, b, hl⟩ := Line.open_answers B s.backend
    (s.create (createFullpath s.table.cwd path)).1.world.store s.table.delegates.length hf ha
  obtain ⟨w, hm, -, -⟩ := method_returns call (create_quiescent hq _) hkind
    (f := .open_ (createFullpath s.table.cwd path) oflag cmode) hl
  simp only [open_, onPath, hm, finish]
  exact ⟨_, rfl, rfl⟩

/-- A failed `Open` unwinds as it should, so the errno is the only part of its report it may miss. -/
theorem openReports_failed_iff (hk : ¬ (str "/dev/std").isPrefixOf (createFullpath s.table.cwd path))
    (f : OpenFailure) {t : Process β}
    (ht : t.table = (s.table.open_ (some path) (openAnswer (some f))).1) :
    OpenReports (some f) s { result := openAnswer (some f) } t ↔
      openAnswer (some f) = ppErrorToErrNo f.code := by
  have hzero := openAnswer_eq_zero (some f)
  have hne : openAnswer (some f) ≠ 0 := fun h => absurd (hzero.1 h) (by simp)
  rw [FileSystem.open_fails s.table hk hne] at ht
  constructor
  · intro h
    exact h.errno f rfl
  · intro h
    constructor
    · exact hzero
    · rintro f' hf'
      cases hf'
      exact h
    · intro _
      rw [ht]
    · intro _
      rfl
    · intro _
      rw [ht]
      exact ⟨rfl, rfl⟩

/-- In every state a run of the file system reaches, for every path that is not one of a device, every
`oflag` and every backend whose filesystem is open: an `Open` on a worker returns, and reports its first
failure unless that is a refusal of the file open with a code that maps to another errno than ENOSYS. -/
theorem open_reports_iff (B : Backend β) (s : Process β) (hs : s.Reachable B) (call : Nat) (path : Str)
    (oflag cmode : BitVec 32) (filesystem : Nat) (hf : s.world.filesystem = some filesystem)
    (hk : ¬ (str "/dev/std").isPrefixOf (createFullpath s.table.cwd path))
    (ha : QueryAccepted B s.backend ⟨filesystem, createFullpath s.table.cwd path⟩ s.world.resources
      oflag) :
    ∃ ret t, s.open_ B false call (some path) oflag cmode = .returns ret t ∧
      (OpenReports (s.openFailure B filesystem path oflag) s ret t ↔
        ∀ code, s.openFailure B filesystem path oflag = some (.refused code) →
          ppErrorToErrNo code = enosys) := by
  obtain ⟨t, ht, htable⟩ := Process.open_worker call cmode hs.quiescent hf hk ha
  refine ⟨_, t, ht, ?_⟩
  generalize s.openFailure B filesystem path oflag = failure at htable ⊢
  cases failure with
  | none =>
    have hresult : (s.table.open_ (some path) (openAnswer none)).2.result = 0 := rfl
    apply iff_of_true
    · constructor
      · exact iff_of_true hresult rfl
      · intro f h
        cases h
      · exact fun h => absurd hresult h
      · exact fun h => absurd hresult h
      · exact fun h => absurd hresult h
    · intro code h
      cases h
  | some f =>
    have hne : openAnswer (some f) ≠ 0 := fun h => absurd ((openAnswer_eq_zero (some f)).1 h) (by simp)
    have hreports := openReports_failed_iff hk f htable
    rw [FileSystem.open_fails s.table hk hne]
    refine hreports.trans ?_
    cases f with
    | refused code =>
      constructor
      · intro h code' he
        cases he
        exact h.symm
      · intro h
        exact (h code rfl).symm
    | opened code | queried code =>
      apply iff_of_true
      · rfl
      · intro code' h
        cases h

/-! ## A refusal -/

/-- A backend that replies to every file open in one way, and can query no file. -/
def openingWith (reply : Reply) : Backend Unit := fun b request =>
  match request with
  | .fileOpen _ _ _ => (reply, b)
  | .query _ => (.completes { code := ppErrorNoSpace }, b)
  | _ => (.completes { code := 0 }, b)

/-- Access is refused at once. -/
def accessRefused : Reply := .refused ppErrorNoAccess (by decide)

theorem open_reports_iff_query :
    ∃ s, Run.run (Process.step (openingWith (.completes { code := 0 }))) (Process.blank ())
        [(false, 0, .mkdir (some (str "d")) 0)] = some s ∧
      ∃ ret t, s.open_ (openingWith (.completes { code := 0 })) false 1 (some (str "a")) oRdWr 0 =
          .returns ret t ∧
        (OpenReports (some (.queried ppErrorNoSpace)) s ret t ↔
          ∀ code, some (OpenFailure.queried ppErrorNoSpace) = some (.refused code) →
            ppErrorToErrNo code = enosys) := by
  obtain ⟨s, hs, hf, hk, ha⟩ : ∃ s, Run.run (Process.step (openingWith (.completes { code := 0 })))
        (Process.blank ()) [(false, 0, .mkdir (some (str "d")) 0)] = some s ∧
      s.world.filesystem = some 0 ∧
      ¬ (str "/dev/std").isPrefixOf (createFullpath s.table.cwd (str "a")) ∧
      QueryAccepted (openingWith (.completes { code := 0 })) s.backend
        ⟨0, createFullpath s.table.cwd (str "a")⟩ s.world.resources oRdWr :=
    ⟨_, rfl, rfl, by decide, fun opened b' h h0 => ⟨_, rfl⟩⟩
  have hreach : s.Reachable (openingWith (.completes { code := 0 })) := ⟨_, _, _, _, _, _, _, hs⟩
  exact ⟨s, hs, open_reports_iff _ s hreach 1 (str "a") oRdWr 0 0 hf hk ha⟩

/-- A file open refused for want of access is reported as ENOSYS, and completed so as EACCES. -/
theorem refused_open_loses_code :
    (∃ s t, Run.run (Process.step (openingWith accessRefused)) (Process.blank ())
        [(false, 0, .mkdir (some (str "d")) 0)] = some s ∧
      s.openFailure (openingWith accessRefused) 0 (str "a") oRdWr =
        some (.refused ppErrorNoAccess) ∧
      s.open_ (openingWith accessRefused) false 1 (some (str "a")) oRdWr 0 =
        .returns { result := enosys } t) ∧
    ∃ s t, Run.run (Process.step (openingWith (.completes { code := ppErrorNoAccess }))) (Process.blank ())
        [(false, 0, .mkdir (some (str "d")) 0)] = some s ∧
      s.openFailure (openingWith (.completes { code := ppErrorNoAccess })) 0 (str "a") oRdWr =
        some (.opened ppErrorNoAccess) ∧
      s.open_ (openingWith (.completes { code := ppErrorNoAccess })) false 1 (some (str "a")) oRdWr 0 =
        .returns { result := eacces } t :=
  ⟨⟨_, _, rfl, rfl, rfl⟩, _, _, rfl, rfl, rfl⟩

end Open

end NaClFs
