/-
The libc functions of wrap.cc that return an `int` with errno, and how they report failure: only
`__wrap_access` turns what the layers below answer into -1 and errno, the others pass it on.
-/
import NaClFs.FileSystem.System

namespace NaClFs

namespace Process

variable {β : Type}

/-- The caller's errno is set. -/
def setErrno (s : Process β) (errno : Int) : Process β :=
  { s with table := { s.table with errno := errno } }

end Process

/-! ## The functions -/

namespace Libc

variable {β : Type} (B : Backend β) (main : Bool) (call : Nat)

/-- `mkdir`. -/
def mkdir (s : Process β) (path : Option Str) (mode : BitVec 32) : Ends β :=
  s.mkDir B main call path mode

/-- `chdir`; `buf` is the address of the local of `ChDir`. -/
def chdir (s : Process β) (path : Option Str) (buf : Nat) : Ends β := s.chDir B main call path buf

/-- `closedir`. -/
def closedir (s : Process β) (dirp : Nat) : Ends β := s.closeDir B main call dirp

/-- `__wrap_access`, with the address of its `struct stat`. -/
def wrapAccess (s : Process β) (path : Option Str) (amode : BitVec 32) (buf : Nat) : Ends β :=
  match s.stat B main call path buf with
  | .returns ret s =>
    if ret.result ≠ 0 then .returns { result := -1 } (s.setErrno ret.result)
    else if (s.world.stats buf).mode &&& amode ≠ amode then
      .returns { result := -1 } (s.setErrno eacces)
    else .returns { result := 0 } s
  | ends => ends

/-- `__wrap_fcntl`. -/
def wrapFcntl (s : Process β) (fildes cmd ap : Int) : Ends β := s.fcntl B main call fildes cmd ap

inductive Call
  | mkdir (path : Option Str) (mode : BitVec 32)
  | chdir (path : Option Str) (buf : Nat)
  | closedir (dirp : Nat)
  | access (path : Option Str) (amode : BitVec 32) (buf : Nat)
  | fcntl (fildes cmd ap : Int)
  deriving DecidableEq, Repr

def run (s : Process β) : Call → Ends β
  | .mkdir path mode => mkdir B main call s path mode
  | .chdir path buf => chdir B main call s path buf
  | .closedir dirp => closedir B main call s dirp
  | .access path amode buf => wrapAccess B main call s path amode buf
  | .fcntl fildes cmd ap => wrapFcntl B main call s fildes cmd ap

/-! ## Reporting failure -/

/-- The commands a delegate carries out: a device the file status flags, a file the descriptor flags,
and that not on the main thread. -/
def Supports (main : Bool) (cmd ap : Int) : DelegateKind → Prop
  | .port => cmd = fSetFl ∨ cmd = fGetFl
  | .html5 => main = false ∧ (cmd = fGetFd ∨ cmd = fSetFd ∧ ap = fdCloexec)

/-- The call does what it is asked for: the delegate makes the directory or closes the DIR, `Stat`
succeeds and tells a directory or the permissions, the command is carried out. -/
def Succeeds (s : Process β) : Call → Prop
  | .mkdir path mode => ∃ p s', path = some p ∧
      (s.create (createFullpath s.table.cwd p)).1.method B main call
        (s.create (createFullpath s.table.cwd p)).2 (.mkdir (createFullpath s.table.cwd p) mode) =
          some (.int 0, s')
  | .chdir path buf => ∃ ret s', s.stat B main call path buf = .returns ret s' ∧ ret.result = 0 ∧
      sIsDir (s'.world.stats buf).mode = true
  | .closedir dirp => ∃ d s', s.table.dirs[dirp]?.join = some d ∧
      s.method B main call d (.closedir dirp) = some (.int 0, s')
  | .access path amode buf => ∃ ret s', s.stat B main call path buf = .returns ret s' ∧
      ret.result = 0 ∧ (s'.world.stats buf).mode &&& amode = amode
  | .fcntl fildes cmd ap => ∃ d, s.table.getDelegate fildes = some d ∧
      Supports main cmd ap (s.table.kind d)

/-- What a call that succeeds returns: the flags of a device where they are asked for, and 0. -/
def value (s : Process β) : Call → Int
  | .fcntl fildes cmd _ =>
    if cmd = fGetFl then
      match s.table.getDelegate fildes with
      | some d => (s.ports d).oflag.toInt
      | none => 0
    else 0
  | _ => 0

/-- The call returns; it has succeeded and its result says so, or its result is -1 and errno is positive. A
call that never returns has failed and does not say so. -/
def Reported (s : Process β) (c : Call) : Prop :=
  ∃ ret s', run B main call s c = .returns ret s' ∧
    ((Succeeds B main call s c ∧ ret.result = value s c) ∨ (ret.result = -1 ∧ 0 < s'.table.errno))

/-- Failure is reported whatever errno was before. -/
def Reports (s : Process β) (c : Call) : Prop := ∀ errno, Reported B main call (s.setErrno errno) c

/-! ## The condition -/

/-- The filesystem an operation works on, the number of the next resource and the backend, after
`FileSystem::Open` has completed if it was needed; none when that was refused. -/
def afterInitialize (w : World) (b : β) : Option (Nat × Nat × β) :=
  match w.filesystem with
  | some filesystem => some (filesystem, w.resources, b)
  | none =>
    match B b (.fileSystemOpen w.resources w.filesystemType Html5FileSystem.expectedSize) with
    | (.refused _ _, _) => none
    | (.completes _, b) => some (w.resources, w.resources + 1, b)

/-- The backend answers a `Stat` of the path without a failure: the filesystem opens, and the file open
tells a directory, or is followed by a query that succeeds. -/
def StatOk (w : World) (b : β) (path : Str) : Prop :=
  ∃ filesystem file b', afterInitialize B w b = some (filesystem, file, b') ∧
    ∃ answer, (B b' (.fileOpen file ⟨filesystem, path⟩ 0)).1 = .completes answer ∧
      (answer.code = ppErrorNotAFile ∨ answer.code = 0 ∧
        ∃ answer', (B (B b' (.fileOpen file ⟨filesystem, path⟩ 0)).2 (.query (some file))).1 =
          .completes answer' ∧ answer'.code = 0)

/-- The backend leaves no `Stat` of the path waiting: it opens the filesystem, and does not refuse the query
that follows a file open. -/
def StatReturns (w : World) (b : β) (path : Str) : Prop :=
  ∃ filesystem file b', afterInitialize B w b = some (filesystem, file, b') ∧
    ∀ answer, (B b' (.fileOpen file ⟨filesystem, path⟩ 0)).1 = .completes answer → answer.code = 0 →
      ∃ answer', (B (B b' (.fileOpen file ⟨filesystem, path⟩ 0)).2 (.query (some file))).1 = .completes answer'

/-- The backend makes the directory. -/
def MkDirOk (w : World) (b : β) (path : Str) : Prop :=
  ∃ filesystem file b', afterInitialize B w b = some (filesystem, file, b') ∧
    ∃ answer, (B b' (.makeDirectory ⟨filesystem, path⟩)).1 = .completes answer ∧ answer.code = 0

/-- The class `CreateDelegate` chooses for a path. -/
def kindOf (path : Str) : DelegateKind :=
  if (str "/dev/std").isPrefixOf path then .port else .html5

/-- `Stat` of a full path does not fail. -/
def StatFine (s : Process β) (path : Str) : Prop :=
  match kindOf path with
  | .port => path = PortFileSystem.kStdInPath ∨ path = PortFileSystem.kStdOutPath ∨
      path = PortFileSystem.kStdErrPath
  | .html5 => main = false ∧ StatOk B s.world s.backend path

/-- `Stat` of a full path returns: it is one of a device, or on the main thread, or answered. -/
def StatAnswered (s : Process β) (path : Str) : Prop :=
  kindOf path = .port ∨ main = true ∨ StatReturns B s.world s.backend path

/-- When failure is reported as it should: `mkdir` does not fail; the `Stat` of `chdir` does not fail;
`closedir` gets an open DIR on a worker; `access` gets a path whose `Stat` returns; and `fcntl` an open
descriptor, of a device or, on a worker, with a command that is supported. -/
def ReportsWhen (s : Process β) : Call → Prop
  | .mkdir path _ => ∃ p, path = some p ∧ kindOf (createFullpath s.table.cwd p) = .html5 ∧
      main = false ∧ MkDirOk B s.world s.backend (createFullpath s.table.cwd p)
  | .chdir path _ => ∃ p, path = some p ∧ StatFine B main s (createFullpath s.table.cwd p)
  | .closedir dirp => ∃ d, s.table.dirs[dirp]?.join = some d ∧ s.table.kind d = .html5 ∧
      main = false ∧ (s.world.dir dirp).isSome = true
  | .access path _ _ => ∃ p, path = some p ∧ StatAnswered B main s (createFullpath s.table.cwd p)
  | .fcntl fildes cmd ap => ∃ d, s.table.getDelegate fildes = some d ∧
      (s.table.kind d = .port ∨ Supports main cmd ap .html5)

/-! ## What the backend's replies make of the programs -/

variable {B} {w : World} {b : β}

/-- The filesystem a program goes on with. -/
theorem needFileSystem_eq (w : World) (b : β) :
    (afterInitialize B w b = none ∧ ∃ st b', Line.needFileSystem B w.store b = (none, st, b')) ∨
    ∃ filesystem file b' code st, afterInitialize B w b = some (filesystem, file, b') ∧
      Line.needFileSystem B w.store b = (some (filesystem, code), st, b') ∧ st.resources = file := by
  unfold afterInitialize
  cases hf : w.filesystem with
  | some filesystem =>
    right
    exact ⟨filesystem, w.resources, b, 0, w.store, rfl, Line.needFileSystem_open hf, rfl⟩
  | none =>
    unfold Line.needFileSystem
    rcases hB : B b (.fileSystemOpen w.resources w.filesystemType Html5FileSystem.expectedSize) with
      ⟨reply, b'⟩
    cases reply with
    | refused code hc =>
      left
      refine ⟨rfl, ?_⟩
      simp [Line.bind_run, Line.wait, World.store_filesystem, World.store_resources,
        World.store_filesystemType, hf, hB]
    | completes answer =>
      right
      refine ⟨w.resources, w.resources + 1, b', answer.code,
        { w.store with
          filesystem := some w.resources
          resources := w.resources + 1
          requests := w.store.requests ++ [.fileSystemOpen w.resources w.filesystemType
            Html5FileSystem.expectedSize] }, rfl, ?_, rfl⟩
      simp [Line.bind_run, World.store_filesystem, World.store_resources,
        World.store_filesystemType, hf, hB]

/-- How a method ends: with 0 where it is fine, with a code that is bad where it is not, and not at all
where the backend leaves it waiting. -/
inductive Ended (fine ends : Prop) (bad : Int → Prop) : Option Result → Prop
  | fine (h : fine) (he : ends) : Ended fine ends bad (some (.int 0))
  | fails {code : Int} (h : ¬ fine) (he : ends) (hb : bad code) : Ended fine ends bad (some (.int code))
  | hangs (h : ¬ fine) (he : ¬ ends) : Ended fine ends bad none

theorem Ended.congr {fine ends fine' ends' : Prop} {bad : Int → Prop} {o : Option Result}
    (h : Ended fine ends bad o) (hf : fine ↔ fine') (he : ends ↔ ends') : Ended fine' ends' bad o := by
  rw [← propext hf, ← propext he]
  exact h

/-- What becomes of a `Stat` whose file open completed: a directory is told by the code, any other file
is queried. -/
theorem statting_line (d buf file : Nat) (code : Int) {st : Store} (b : β)
    (hio : (st.files d).fileIo = some file) :
    Ended (code = ppErrorNotAFile ∨ code = 0 ∧
        ∃ answer, (B b (.query (some file))).1 = .completes answer ∧ answer.code = 0)
      (code = 0 → ∃ answer, (B b (.query (some file))).1 = .completes answer) (0 < ·)
      (Line.statting B d buf code st b).1 := by
  unfold Line.statting
  by_cases hna : code = ppErrorNotAFile
  · rw [if_pos hna]
    refine .fine (.inl hna) fun h0 => ?_
    rw [hna] at h0
    cases h0
  rw [if_neg hna]
  by_cases h0 : code = 0
  · rw [if_neg (not_not_intro h0)]
    cases hq : (B b (.query (some file))).1 with
    | refused code' hc =>
      rw [Line.query_bind_refused (by rw [hio]; exact hq)]
      refine .hangs ?_ ?_
      · rintro (h | ⟨-, answer, h, -⟩)
        · exact hna h
        · cases h
      · intro h
        obtain ⟨answer, h⟩ := h h0
        cases h
    | completes answer =>
      rw [Line.query_bind_completes (by rw [hio]; exact hq)]
      unfold Line.queried
      by_cases hc : answer.code = 0
      · rw [if_neg (not_not_intro hc)]
        exact .fine (.inr ⟨h0, answer, rfl, hc⟩) fun _ => ⟨answer, rfl⟩
      · rw [if_pos hc]
        refine .fails ?_ (fun _ => ⟨answer, rfl⟩) (ppErrorToErrNo_pos answer.code)
        rintro (h | ⟨-, answer', h, hc'⟩)
        · exact hna h
        · cases h
          exact hc hc'
  · rw [if_pos h0]
    refine .fails ?_ (fun h => absurd h h0) (ppErrorToErrNo_pos code)
    rintro (h | ⟨h, -⟩)
    · exact hna h
    · exact h0 h

/-- `Stat` of a file. -/
theorem stat_line (d : Nat) (path : Str) (buf : Nat) :
    Ended (StatOk B w b path) (StatReturns B w b path) (0 < ·) (Line.stat B d path buf w.store b).1 := by
  unfold Line.stat
  rw [Line.bind_run]
  rcases needFileSystem_eq (B := B) w b with ⟨ha, st, b', hn⟩ | ⟨filesystem, file, b', code, st, ha, hn, rfl⟩
  · -- The opening of the filesystem is refused.
    rw [hn]
    refine .hangs ?_ ?_
    · rintro ⟨filesystem, file, b', h, -⟩
      rw [ha] at h
      cases h
    · rintro ⟨filesystem, file, b', h, -⟩
      rw [ha] at h
      cases h
  rw [hn]
  simp only [StatOk, StatReturns, ha, Option.some.injEq, Prod.mk.injEq, exists_and_left, and_assoc,
    exists_eq_left', Line.openFile_bind]
  cases hr : (B b' (.fileOpen st.resources ⟨filesystem, path⟩ 0)).1 with
  | refused code' hc =>
    refine .fails ?_ ?_ (ppErrorToErrNo_pos code')
    · rintro ⟨answer, h, -⟩
      cases h
    · intro answer h
      cases h
  | completes answer =>
    have hio : ((st.withFile d ⟨filesystem, path⟩ 0).files d).fileIo = some st.resources := by
      rw [Store.withFile_files]
    have hline := statting_line (B := B) d buf st.resources answer.code
      (B b' (.fileOpen st.resources ⟨filesystem, path⟩ 0)).2 hio
    simp only [Reply.completes.injEq, exists_eq_left', forall_eq']
    exact hline

/-- `MkDir` of a file, which fails with the code of the backend or with -1. -/
theorem mkDir_line (path : Str) :
    Ended (MkDirOk B w b path) ((afterInitialize B w b).isSome = true) (· ≠ 0)
      (Line.mkDir B path w.store b).1 := by
  unfold Line.mkDir
  rw [Line.bind_run]
  rcases needFileSystem_eq (B := B) w b with ⟨ha, st, b', hn⟩ | ⟨filesystem, file, b', code, st, ha, hn, rfl⟩
  · rw [hn, ha]
    refine .hangs ?_ Bool.false_ne_true
    rintro ⟨filesystem, file, b', h, -⟩
    rw [ha] at h
    cases h
  rw [hn]
  simp only [MkDirOk, ha, Option.some.injEq, Prod.mk.injEq, exists_and_left, and_assoc, exists_eq_left',
    Line.makeDirectory, Line.bind_run, Line.ask_run]
  cases hr : (B b' (.makeDirectory ⟨filesystem, path⟩)).1 with
  | refused code' hc =>
    refine .fails ?_ rfl (show (-1 : Int) ≠ 0 by decide)
    rintro ⟨answer, h, -⟩
    cases h
  | completes answer =>
    simp only [Reply.completes.injEq, exists_eq_left', Line.pure_run]
    by_cases h0 : answer.code = 0
    · rw [h0]
      exact .fine rfl rfl
    · exact .fails h0 rfl h0

/-! ## What the delegates answer -/

variable {main call} {s : Process β}

theorem create_kind (s : Process β) (path : Str) :
    (s.create path).1.table.kind (s.create path).2 = kindOf path := s.create_kind path

theorem method_of_fst {d : Nat} {f : Function} {answer : Result}
    (h : (s.method B main call d f).map Prod.fst = some answer) :
    ∃ s', s.method B main call d f = some (answer, s') := by
  obtain ⟨⟨answer', s'⟩, ho, rfl⟩ := Option.map_eq_some_iff.1 h
  exact ⟨s', ho⟩

theorem method_of_fst_none {d : Nat} {f : Function}
    (h : (s.method B main call d f).map Prod.fst = none) : s.method B main call d f = none :=
  Option.map_eq_none_iff.1 h

/-- The method of a file leaves the caller's table and errno. -/
theorem method_table {s s' : Process β} {d : Nat} (hk : s.table.kind d = .html5) {f : Function}
    {answer : Result} (h : s.method B main call d f = some (answer, s')) : s'.table = s.table := by
  simp only [Process.method, hk] at h
  split at h
  · cases h
    rfl
  · split at h
    · cases h
      rfl
    · cases h

variable (B main call)

/-- On a worker the answer of a file is the result of its program. -/
theorem method_worker (hq : Quiescent s.world) {d : Nat} (hk : s.table.kind d = .html5)
    (f : Function) : (s.method B false call d f).map Prod.fst =
      (Line.program B d f s.world.store s.backend).1 := by
  have ha := call_agrees (B := B) (b := s.backend) hq call ⟨d, f⟩
  simp only [Process.method, hk, Bool.false_eq_true, if_false]
  cases ho : Delegate.call B s.world s.backend call ⟨d, f⟩ with
  | returned result w b =>
    rw [ho] at ha
    rw [ha.1]
    rfl
  | blocked w b =>
    rw [ho] at ha
    have ha : Line.program B d f s.world.store s.backend = (none, w.store, b) := ha
    rw [ha]
    rfl
  | spent =>
    rw [ho] at ha
    exact ha.elim

/-- `Stat` of a new delegate. -/
theorem method_stat (hq : Quiescent s.world) (path : Str) (buf : Nat) :
    Ended (StatFine B main s path) (StatAnswered B main s path) (0 < ·)
      (((s.create path).1.method B main call (s.create path).2 (.stat path buf)).map Prod.fst) := by
  have hkind := create_kind s path
  unfold StatFine StatAnswered
  cases hk : kindOf path with
  | port =>
    rw [hk] at hkind
    rw [Process.method_port hkind]
    simp only [Process.port, PortFileSystem.stat, Option.map_some]
    by_cases hp : path ≠ PortFileSystem.kStdInPath ∧ path ≠ PortFileSystem.kStdOutPath ∧
        path ≠ PortFileSystem.kStdErrPath
    · rw [if_pos hp]
      refine .fails ?_ (.inl trivial) (show (0 : Int) < enodev by decide)
      rintro (h | h | h)
      · exact hp.1 h
      · exact hp.2.1 h
      · exact hp.2.2 h
    · rw [if_neg hp]
      refine .fine ?_ (.inl trivial)
      by_contra hn
      rw [not_or, not_or] at hn
      exact hp hn
  | html5 =>
    rw [hk] at hkind
    cases main with
    | true =>
      rw [Process.method_file_main hkind]
      exact .fails (fun h => absurd h.1 (by decide)) (.inr (.inl rfl)) (show (0 : Int) < eio by decide)
    | false =>
      rw [method_worker B call (Process.create_quiescent hq path) hkind]
      refine (stat_line (s.create path).2 path buf).congr ?_ ?_
      · exact ⟨fun h => ⟨rfl, h⟩, fun h => h.2⟩
      · constructor
        · exact fun h => .inr (.inr h)
        · rintro (h | h | h)
          · cases h
          · cases h
          · exact h

/-- `MkDir` of a new delegate. -/
theorem method_mkDir (hq : Quiescent s.world) (path : Str) (mode : BitVec 32) :
    Ended (kindOf path = .html5 ∧ main = false ∧ MkDirOk B s.world s.backend path)
      (kindOf path = .port ∨ main = true ∨ (afterInitialize B s.world s.backend).isSome = true) (· ≠ 0)
      (((s.create path).1.method B main call (s.create path).2 (.mkdir path mode)).map Prod.fst) := by
  have hkind := create_kind s path
  cases hk : kindOf path with
  | port =>
    rw [hk] at hkind
    rw [Process.method_port hkind]
    exact .fails (fun h => absurd h.1 (by decide)) (.inl rfl) (show (-1 : Int) ≠ 0 by decide)
  | html5 =>
    rw [hk] at hkind
    cases main with
    | true =>
      rw [Process.method_file_main hkind]
      exact .fails (fun h => absurd h.2.1 (by decide)) (.inr (.inl rfl)) (show eio ≠ 0 by decide)
    | false =>
      rw [method_worker B call (Process.create_quiescent hq path) hkind]
      refine (mkDir_line path).congr ?_ ?_
      · exact ⟨fun h => ⟨rfl, rfl, h⟩, fun h => h.2.2⟩
      · constructor
        · exact fun h => .inr (.inr h)
        · rintro (h | h | h)
          · cases h
          · cases h
          · exact h

/-- `CloseDir` of a file on a worker answers 0 where the DIR is still there, -1 where it is not. -/
theorem method_closedir (hq : Quiescent s.world) {d : Nat} (hk : s.table.kind d = .html5)
    (dirp : Nat) : ∃ s', s.method B false call d (.closedir dirp) =
      some (.int (if (s.world.dir dirp).isSome then 0 else -1), s') := by
  apply method_of_fst
  rw [method_worker B call hq hk]
  simp only [Line.program, Line.closeDir, Line.bind_run, Line.get_run, World.store_dir]
  cases s.world.dir dirp <;> rfl

/-- `Fcntl` of a file on a worker answers 0 where the command is supported, -1 where it is not; the
errno it sets is the one of the main thread. -/
theorem method_fcntl (hq : Quiescent s.world) {d : Nat} (hk : s.table.kind d = .html5) (cmd ap : Int) :
    ∃ s', s.method B false call d (.fcntl cmd ap) =
      some (.int (if cmd = fGetFd ∨ cmd = fSetFd ∧ ap = fdCloexec then 0 else -1), s') := by
  apply method_of_fst
  rw [method_worker B call hq hk]
  simp only [Line.program, Line.fcntl]
  split <;> rfl

/-! ## When failure is reported -/

/-- The condition decides, where the caller's errno tells of nothing earlier. -/
def Decided (B : Backend β) (main : Bool) (call : Nat) (s : Process β) (c : Call) : Prop :=
  (ReportsWhen B main s c ∧ Reported B main call s c) ∨
  (¬ ReportsWhen B main s c ∧ (s.table.errno ≤ 0 → ¬ Reported B main call s c))

/-- A call that returns. -/
theorem reported_iff {c : Call} {ret : Returned} {s' : Process β} (h : run B main call s c = .returns ret s') :
    Reported B main call s c ↔
      (Succeeds B main call s c ∧ ret.result = value s c) ∨ (ret.result = -1 ∧ 0 < s'.table.errno) := by
  unfold Reported
  rw [h]
  constructor
  · rintro ⟨ret', t, ht, hr⟩
    cases ht
    exact hr
  · intro hr
    exact ⟨ret, s', rfl, hr⟩

/-- One that does not. -/
theorem not_reported {c : Call} (h : ∀ ret s', run B main call s c ≠ .returns ret s') :
    ¬ Reported B main call s c := by
  rintro ⟨ret, s', hr, -⟩
  exact h ret s' hr

/-- A failure whose result is handed on with the errno there was. -/
theorem not_reported_of_failure {c : Call} {ret : Returned} {s' : Process β}
    (h : run B main call s c = .returns ret s') (hs : ¬ Succeeds B main call s c) (he : s'.table.errno ≤ 0) :
    ¬ Reported B main call s c := by
  rw [reported_iff B main call h]
  rintro (⟨h, -⟩ | ⟨-, hpos⟩)
  · exact hs h
  · exact absurd hpos (Int.not_lt.2 he)

/-- `mkdir` passes on every failure: the PP error of the backend, the errno of the main thread, and a
-1 without errno. -/
theorem mkdir_decided (hq : Quiescent s.world) (path : Option Str) (mode : BitVec 32) :
    Decided B main call s (.mkdir path mode) := by
  cases path with
  | none =>
    right
    constructor
    · rintro ⟨p, hp, -⟩
      cases hp
    · have hr : run B main call s (.mkdir none mode) = .returns { result := -1 } s := rfl
      refine not_reported_of_failure B main call hr ?_
      rintro ⟨p, s', hp, -⟩
      cases hp
  | some p =>
    have hrun : run B main call s (.mkdir (some p) mode) =
        Process.finish ((s.create (createFullpath s.table.cwd p)).1.method B main call
          (s.create (createFullpath s.table.cwd p)).2 (.mkdir (createFullpath s.table.cwd p) mode))
          fun answer _ => (((s.table.mkDir (some p) answer.toInt).1),
            { (s.table.mkDir (some p) answer.toInt).2 with }) := rfl
    have hends := method_mkDir B main call hq (createFullpath s.table.cwd p) mode
    have hwhen : ReportsWhen B main s (.mkdir (some p) mode) ↔
        kindOf (createFullpath s.table.cwd p) = .html5 ∧ main = false ∧
          MkDirOk B s.world s.backend (createFullpath s.table.cwd p) := by
      constructor
      · rintro ⟨p', hp, h⟩
        cases hp
        exact h
      · exact fun h => ⟨p, rfl, h⟩
    generalize hm : Option.map Prod.fst _ = o at hends
    cases hends with
    | fine h =>
      left
      obtain ⟨s', ho⟩ := method_of_fst hm
      rw [ho] at hrun
      exact ⟨hwhen.2 h, (reported_iff B main call hrun).2 (.inl ⟨⟨p, s', rfl, ho⟩, rfl⟩)⟩
    | fails h _ hne =>
      right
      obtain ⟨s', ho⟩ := method_of_fst hm
      rw [ho] at hrun
      refine ⟨fun hw => h (hwhen.1 hw), fun he => not_reported_of_failure B main call hrun ?_ he⟩
      rintro ⟨p', t, hp, ht⟩
      cases hp
      rw [ho] at ht
      cases ht
      exact hne rfl
    | hangs h =>
      right
      rw [method_of_fst_none hm] at hrun
      refine ⟨fun hw => h (hwhen.1 hw), fun _ => not_reported B main call fun ret s' hr => ?_⟩
      rw [hrun] at hr
      cases hr

/-- How `Stat` ends for its callers. -/
inductive StatOutcome (B : Backend β) (main : Bool) (s : Process β) (path : Str) : Ends β → Prop
  | fine {s' : Process β} (h : StatFine B main s path) (he : StatAnswered B main s path) :
      StatOutcome B main s path (.returns { result := 0 } s')
  | fails {errno : Int} {s' : Process β} (h : ¬ StatFine B main s path) (he : StatAnswered B main s path)
      (hpos : 0 < errno) : StatOutcome B main s path (.returns { result := errno } s')
  | hangs (h : ¬ StatFine B main s path) (he : ¬ StatAnswered B main s path) : StatOutcome B main s path .waits

theorem stat_outcome (hq : Quiescent s.world) (p : Str) (buf : Nat) :
    StatOutcome B main s (createFullpath s.table.cwd p) (s.stat B main call (some p) buf) := by
  have hstat : s.stat B main call (some p) buf =
      Process.finish ((s.create (createFullpath s.table.cwd p)).1.method B main call
        (s.create (createFullpath s.table.cwd p)).2 (.stat (createFullpath s.table.cwd p) buf))
        fun answer _ => ((s.table.stat p answer.toInt).1,
          { (s.table.stat p answer.toInt).2 with }) := rfl
  rw [hstat]
  have hends := method_stat B main call hq (createFullpath s.table.cwd p) buf
  generalize hm : Option.map Prod.fst _ = o at hends
  cases hends with
  | fine h he =>
    obtain ⟨s', ho⟩ := method_of_fst hm
    rw [ho]
    exact .fine h he
  | fails h he hpos =>
    obtain ⟨s', ho⟩ := method_of_fst hm
    rw [ho]
    exact .fails h he hpos
  | hangs h he =>
    rw [method_of_fst_none hm]
    exact .hangs h he

/-- `__wrap_access` reports every failure, but for the `Stat` that never returns. -/
theorem access_decided (hq : Quiescent s.world) (path : Option Str) (amode : BitVec 32) (buf : Nat) :
    Decided B main call s (.access path amode buf) := by
  cases path with
  | none =>
    right
    constructor
    · rintro ⟨p, hp, -⟩
      cases hp
    · intro _
      apply not_reported
      intro ret s' hr
      cases hr
  | some p =>
    have hwhen : ReportsWhen B main s (.access (some p) amode buf) ↔
        StatAnswered B main s (createFullpath s.table.cwd p) := by
      constructor
      · rintro ⟨p', hp, h⟩
        cases hp
        exact h
      · exact fun h => ⟨p, rfl, h⟩
    have hends := stat_outcome B main call hq p buf
    generalize hs : s.stat B main call (some p) buf = ends at hends
    have hrun : run B main call s (.access (some p) amode buf) =
        wrapAccess B main call s (some p) amode buf := rfl
    rw [wrapAccess, hs] at hrun
    cases hends with
    | @fine s' h he =>
      left
      refine ⟨hwhen.2 he, ?_⟩
      simp only [ne_eq, not_true, if_false] at hrun
      by_cases hm : (s'.world.stats buf).mode &&& amode = amode
      · rw [if_neg (not_not_intro hm)] at hrun
        rw [reported_iff B main call hrun]
        exact .inl ⟨⟨_, s', hs, rfl, hm⟩, rfl⟩
      · rw [if_pos hm] at hrun
        rw [reported_iff B main call hrun]
        exact .inr ⟨rfl, show (0 : Int) < eacces by decide⟩
    | fails h he hpos =>
      left
      refine ⟨hwhen.2 he, ?_⟩
      simp only [ne_eq, Int.ne_of_gt hpos, not_false_eq_true, if_true] at hrun
      rw [reported_iff B main call hrun]
      exact .inr ⟨rfl, hpos⟩
    | hangs h he =>
      right
      refine ⟨fun hw => he (hwhen.1 hw), fun _ => not_reported B main call fun ret s' hr => ?_⟩
      rw [hrun] at hr
      cases hr

/-- `chdir` reports a file that is no directory and passes on what `Stat` fails with. -/
theorem chdir_decided (hq : Quiescent s.world) (path : Option Str) (buf : Nat) :
    Decided B main call s (.chdir path buf) := by
  cases path with
  | none =>
    right
    constructor
    · rintro ⟨p, hp, -⟩
      cases hp
    · intro _
      apply not_reported
      intro ret s' hr
      cases hr
  | some p =>
    have hwhen : ReportsWhen B main s (.chdir (some p) buf) ↔
        StatFine B main s (createFullpath s.table.cwd p) := by
      constructor
      · rintro ⟨p', hp, h⟩
        cases hp
        exact h
      · exact fun h => ⟨p, rfl, h⟩
    have hrun : run B main call s (.chdir (some p) buf) =
        Process.finish ((s.create (createFullpath s.table.cwd p)).1.method B main call
          (s.create (createFullpath s.table.cwd p)).2 (.stat (createFullpath s.table.cwd p) buf))
          fun answer s' => ((s.table.chDir p answer.toInt (s'.world.stats buf)).1,
            { (s.table.chDir p answer.toInt (s'.world.stats buf)).2 with }) := rfl
    have hstat {answer : Result} {s' : Process β}
        (ho : (s.create (createFullpath s.table.cwd p)).1.method B main call
          (s.create (createFullpath s.table.cwd p)).2 (.stat (createFullpath s.table.cwd p) buf) =
            some (answer, s')) : s.stat B main call (some p) buf =
        .returns { result := answer.toInt } { s' with table := (s.table.stat p answer.toInt).1 } := by
      simp only [Process.stat, Process.onPath, ho]
      rfl
    have hends := method_stat B main call hq (createFullpath s.table.cwd p) buf
    generalize hm : Option.map Prod.fst _ = o at hends
    cases hends with
    | fine h =>
      left
      obtain ⟨s', ho⟩ := method_of_fst hm
      rw [ho] at hrun
      refine ⟨hwhen.2 h, (reported_iff B main call hrun).2 ?_⟩
      by_cases hd : sIsDir (s'.world.stats buf).mode = true
      · left
        refine ⟨⟨_, _, hstat ho, rfl, hd⟩, ?_⟩
        show (s.table.chDir p 0 (s'.world.stats buf)).2.result = 0
        simp [FileSystem.chDir, FileSystem.stat, hd]
      · right
        have hc : s.table.chDir p 0 (s'.world.stats buf) =
            ({ (s.table.stat p 0).1 with errno := enotdir }, { result := -1 }) := by
          simp [FileSystem.chDir, FileSystem.stat, hd]
        show (s.table.chDir p 0 (s'.world.stats buf)).2.result = -1 ∧
          0 < (s.table.chDir p 0 (s'.world.stats buf)).1.errno
        rw [hc]
        exact ⟨rfl, show (0 : Int) < enotdir by decide⟩
    | @fails errno h _ hpos =>
      right
      obtain ⟨s', ho⟩ := method_of_fst hm
      rw [ho] at hrun
      refine ⟨fun hw => h (hwhen.1 hw), fun _ => ?_⟩
      rw [reported_iff B main call hrun]
      have hresult : (s.table.chDir p errno (s'.world.stats buf)).2.result = errno := by
        simp [FileSystem.chDir, FileSystem.stat, Int.ne_of_gt hpos]
      rintro (⟨⟨ret, t, ht, h0, -⟩, -⟩ | ⟨hminus, -⟩)
      · rw [hstat ho] at ht
        cases ht
        exact absurd h0 (Int.ne_of_gt hpos)
      · have hminus : (s.table.chDir p errno (s'.world.stats buf)).2.result = -1 := hminus
        omega
    | hangs h =>
      right
      rw [method_of_fst_none hm] at hrun
      refine ⟨fun hw => h (hwhen.1 hw), fun _ => not_reported B main call fun ret s' hr => ?_⟩
      rw [hrun] at hr
      cases hr

/-- `closedir` passes on every failure. -/
theorem closedir_decided (hq : Quiescent s.world) (dirp : Nat) :
    Decided B main call s (.closedir dirp) := by
  cases hd : s.table.dirs[dirp]?.join with
  | none =>
    right
    constructor
    · rintro ⟨d, h, -⟩
      rw [hd] at h
      cases h
    · intro _
      apply not_reported
      intro ret s' hr
      simp only [run, closedir, Process.closeDir, Process.onDir, hd] at hr
      cases hr
  | some d =>
    -- An answer other than 0 is handed on, with the errno there was.
    have hfail : ∀ code s', code ≠ 0 → s.method B main call d (.closedir dirp) = some (.int code, s') →
        s.table.errno ≤ 0 → ¬ Reported B main call s (.closedir dirp) := by
      intro code s' hne ho he
      have hrun : run B main call s (.closedir dirp) =
          .returns { result := code } { s' with table := s.table } := by
        simp only [run, closedir, Process.closeDir, Process.onDir_some hd, ho, Process.finish,
          FileSystem.closeDir, hd, Result.toInt, hne, if_false]
      refine not_reported_of_failure B main call hrun ?_ he
      rintro ⟨d', t, hd', ht⟩
      rw [hd] at hd'
      cases hd'
      rw [ho] at ht
      cases ht
      exact hne rfl
    cases hk : s.table.kind d with
    | port =>
      right
      constructor
      · rintro ⟨d', hd', hk', -⟩
        rw [hd] at hd'
        cases hd'
        rw [hk] at hk'
        cases hk'
      · exact hfail (-1) s (by decide) (Process.method_port hk _)
    | html5 =>
      cases main with
      | true =>
        right
        constructor
        · rintro ⟨d', -, -, hm, -⟩
          cases hm
        · exact hfail eio s (by decide) (Process.method_file_main hk _)
      | false =>
        obtain ⟨s', ho⟩ := method_closedir B call hq hk dirp
        by_cases hw : (s.world.dir dirp).isSome = true
        · left
          rw [if_pos hw] at ho
          refine ⟨⟨d, hd, hk, rfl, hw⟩, ?_⟩
          obtain ⟨table, ht⟩ : ∃ table, FileSystem.closeDir s.table dirp 0 = some (table, { result := 0 }) := by
            simp only [FileSystem.closeDir, hd, if_true]
            exact ⟨_, rfl⟩
          have hrun : run B false call s (.closedir dirp) =
              .returns { result := 0 } { s' with table := table } := by
            simp only [run, closedir, Process.closeDir, Process.onDir_some hd, ho, Process.finish,
              Result.toInt, ht]
          rw [reported_iff B false call hrun]
          exact .inl ⟨⟨d, s', hd, ho⟩, rfl⟩
        · right
          rw [if_neg hw] at ho
          constructor
          · rintro ⟨d', -, -, -, hw'⟩
            exact hw hw'
          · exact hfail (-1) s' (by decide) ho

theorem fcntl_run {d : Nat} {fildes : Int} (hd : s.table.getDelegate fildes = some d) (cmd ap : Int) :
    run B main call s (.fcntl fildes cmd ap) =
      Process.finish (s.method B main call d (.fcntl cmd ap)) Process.pass := by
  simp only [run, wrapFcntl, Process.fcntl, Process.onDescriptor, hd]

/-- A device carries out the command or fails with errno. -/
theorem fcntl_port {d : Nat} {fildes : Int} (hd : s.table.getDelegate fildes = some d)
    (hk : s.table.kind d = .port) (cmd ap : Int) : Reported B main call s (.fcntl fildes cmd ap) := by
  have hsupports : Supports main cmd ap .port → Succeeds B main call s (.fcntl fildes cmd ap) := by
    intro h
    refine ⟨d, hd, ?_⟩
    rw [hk]
    exact h
  have hrun := fcntl_run B main call hd cmd ap
  simp only [Process.method, hk, Process.port, Process.finish, Process.pass, PortFileSystem.fcntl] at hrun
  rw [reported_iff B main call hrun]
  by_cases hs : cmd = fSetFl
  · left
    refine ⟨hsupports (.inl hs), ?_⟩
    have hne : cmd ≠ fGetFl := by
      rw [hs]
      decide
    simp only [value, if_pos hs, if_neg hne, Result.toInt]
  by_cases hg : cmd = fGetFl
  · left
    refine ⟨hsupports (.inr hg), ?_⟩
    simp only [value, if_neg hs, if_pos hg, hd, Result.toInt]
  · right
    simp only [hs, hg, if_false]
    exact ⟨rfl, show (0 : Int) < enosys by decide⟩

/-- What a file answers to a command that is not supported is handed on, with the errno there was. -/
theorem fcntl_unsupported {d : Nat} {fildes cmd ap code : Int} {s' : Process β}
    (hd : s.table.getDelegate fildes = some d) (hk : s.table.kind d = .html5)
    (hn : ¬ Supports main cmd ap .html5) (he : s.table.errno ≤ 0)
    (ho : s.method B main call d (.fcntl cmd ap) = some (.int code, s')) :
    ¬ Reported B main call s (.fcntl fildes cmd ap) := by
  have ht := method_table hk ho
  have hrun := fcntl_run B main call hd cmd ap
  rw [ho] at hrun
  refine not_reported_of_failure B main call hrun ?_ (by rw [← ht] at he; exact he)
  rintro ⟨d', hd', h⟩
  rw [hd] at hd'
  cases hd'
  rw [hk] at h
  exact hn h

theorem fcntl_html5 (hq : Quiescent s.world) {d : Nat} {fildes : Int}
    (hd : s.table.getDelegate fildes = some d) (hk : s.table.kind d = .html5) (cmd ap : Int) :
    Decided B main call s (.fcntl fildes cmd ap) := by
  have hnot : ¬ Supports main cmd ap .html5 → ¬ ReportsWhen B main s (.fcntl fildes cmd ap) := by
    rintro hn ⟨d', hd', h⟩
    rw [hd] at hd'
    cases hd'
    rw [hk] at h
    rcases h with h | h
    · cases h
    · exact hn h
  cases main with
  | true =>
    have hn : ¬ Supports true cmd ap .html5 := fun h => absurd h.1 (by decide)
    right
    exact ⟨hnot hn, fun he => fcntl_unsupported B true call hd hk hn he (Process.method_file_main hk _)⟩
  | false =>
    obtain ⟨s', ho⟩ := method_fcntl B call hq hk cmd ap
    by_cases hs : Supports false cmd ap .html5
    · left
      rw [if_pos hs.2] at ho
      have hrun := fcntl_run B false call hd cmd ap
      rw [ho] at hrun
      refine ⟨⟨d, hd, .inr hs⟩, (reported_iff B false call hrun).2 (.inl ⟨⟨d, hd, ?_⟩, ?_⟩)⟩
      · rw [hk]
        exact hs
      · -- What a file supports is no F_GETFL.
        have hne : cmd ≠ fGetFl := by
          rcases hs.2 with h | ⟨h, -⟩
          · rw [h]
            decide
          · rw [h]
            decide
        simp only [value, if_neg hne, Process.pass, Result.toInt]
    · right
      exact ⟨hnot hs, fun he => fcntl_unsupported B false call hd hk hs he ho⟩

/-- `__wrap_fcntl` passes on EBADF and EIO, and the -1 of a file without errno. -/
theorem fcntl_decided (hq : Quiescent s.world) (fildes cmd ap : Int) :
    Decided B main call s (.fcntl fildes cmd ap) := by
  cases hd : s.table.getDelegate fildes with
  | none =>
    have hrun : run B main call s (.fcntl fildes cmd ap) = .returns { result := ebadf } s := by
      simp only [run, wrapFcntl, Process.fcntl, Process.onDescriptor, hd]
    right
    constructor
    · rintro ⟨d, h, -⟩
      rw [hd] at h
      cases h
    · refine not_reported_of_failure B main call hrun ?_
      rintro ⟨d, h, -⟩
      rw [hd] at h
      cases h
  | some d =>
    cases hk : s.table.kind d with
    | port =>
      left
      exact ⟨⟨d, hd, .inl hk⟩, fcntl_port B main call hd hk cmd ap⟩
    | html5 => exact fcntl_html5 B main call hq hd hk cmd ap

theorem decided (hq : Quiescent s.world) (c : Call) : Decided B main call s c := by
  cases c with
  | mkdir path mode => exact mkdir_decided B main call hq path mode
  | chdir path buf => exact chdir_decided B main call hq path buf
  | closedir dirp => exact closedir_decided B main call hq dirp
  | access path amode buf => exact access_decided B main call hq path amode buf
  | fcntl fildes cmd ap => exact fcntl_decided B main call hq fildes cmd ap

/-- The condition does not ask for errno. -/
theorem reportsWhen_setErrno (s : Process β) (errno : Int) (c : Call) :
    ReportsWhen B main (s.setErrno errno) c ↔ ReportsWhen B main s c := by
  cases c <;> exact Iff.rfl

/-- Between calls, failure is reported as -1 with errno exactly where `ReportsWhen` says. -/
theorem reports_of_quiescent (hq : Quiescent s.world) (c : Call) :
    Reports B main call s c ↔ ReportsWhen B main s c := by
  constructor
  · intro h
    rcases decided B main call (s := s.setErrno 0) hq c with ⟨hw, -⟩ | ⟨-, hn⟩
    · exact (reportsWhen_setErrno B main s 0 c).1 hw
    · exact absurd (h 0) (hn (Int.le_refl 0))
  · intro h errno
    rcases decided B main call (s := s.setErrno errno) hq c with
      ⟨-, hr⟩ | ⟨hn, -⟩
    · exact hr
    · exact absurd ((reportsWhen_setErrno B main s errno c).2 h) hn

/-- In every state a run of operations and messages reaches, on the main thread or on a worker, for all
arguments and any backend: `mkdir`, `chdir`, `closedir`, `__wrap_access` and `__wrap_fcntl` return what a
success returns or report failure as -1 with a positive errno exactly where `ReportsWhen` says. Of the five
only `__wrap_access` does so whatever fails, but for the `Stat` of a path that the backend leaves waiting. -/
theorem reports_iff (B : Backend β) {type : FileSystemType} {info : Nat → FileInfo}
    {arguments : Nat → Arguments} {stats : Nat → Stat} {buffers : Nat → Str} {b : β}
    {acts : List System.Act} {s : System β} {os : List (Option Returned)}
    (h : Stream.run (System.step B) (.init type info arguments stats buffers b) acts = some (s, os))
    (main : Bool) (call : Nat) (c : Call) :
    Reports B main call s.process c ↔ ReportsWhen B main s.process c :=
  reports_of_quiescent B main call (System.run_quiescent h) c

/-- A process whose memory is blank. -/
def blank : Process Unit :=
  .init .localTemporary (fun _ => ⟨0, .regular, 0, 0, 0⟩) (fun _ => ⟨0, .close⟩) (fun _ => .zero)
    (fun _ => []) ()

/-- The standard input is opened as 0, and a key is sent. -/
def openStdIn (oflag : BitVec 32) : List System.Act :=
  [.op false 0 (.open_ (some (str "/dev/stdin")) oflag 0), .message (.string (str "S0x"))]

/-- With the standard input open as 0, a command on it is reported and one on 1 is not; and with a backend
that refuses to open the filesystem, neither is the `Stat` of `access`, which never returns. -/
theorem reports_iff_stdin :
    ∃ s os, Stream.run (System.step Process.refusing) ⟨blank, []⟩ (openStdIn oRdOnly) = some (s, os) ∧
      Reports Process.refusing false 1 s.process (.fcntl 0 fGetFl 0) ∧
      ¬ Reports Process.refusing false 1 s.process (.fcntl 1 fGetFl 0) ∧
      ¬ Reports Process.refusing false 1 s.process (.access (some (str "a")) 0 0) := by
  obtain ⟨s, os, hs, h0, hk, h1, hcwd, hw⟩ : ∃ s os,
      Stream.run (System.step Process.refusing) ⟨blank, []⟩ (openStdIn oRdOnly) = some (s, os) ∧
      s.process.table.getDelegate 0 = some 0 ∧ s.process.table.kind 0 = .port ∧
      s.process.table.getDelegate 1 = none ∧ s.process.table.cwd = [] ∧ s.process.world.filesystem = none :=
    ⟨_, _, rfl, rfl, rfl, rfl, rfl, rfl⟩
  refine ⟨s, os, hs, ?_, fun h => ?_, fun h => ?_⟩
  · exact (reports_iff Process.refusing hs false 1 (.fcntl 0 fGetFl 0)).2 ⟨0, h0, .inl hk⟩
  · obtain ⟨d, hd, -⟩ := (reports_iff Process.refusing hs false 1 (.fcntl 1 fGetFl 0)).1 h
    rw [h1] at hd
    cases hd
  · obtain ⟨p, hp, hends⟩ := (reports_iff Process.refusing hs false 1 (.access (some (str "a")) 0 0)).1 h
    cases hp
    rcases hends with hport | hmain | ⟨filesystem, file, b', hinit, -⟩
    · rw [hcwd] at hport
      exact absurd hport (by decide)
    · cases hmain
    · rw [afterInitialize, hw] at hinit
      cases hinit

/-- `F_GETFL` of a descriptor that is not open returns 9 and leaves errno, as it does for the standard
input opened with the flags 9. -/
theorem fcntl_bad_descriptor :
    ∃ s os t, Stream.run (System.step Process.refusing) ⟨blank, []⟩ (openStdIn 9) = some (s, os) ∧
      run Process.refusing false 1 s.process (.fcntl 0 fGetFl 0) = .returns { result := 9 } t ∧
      run Process.refusing false 1 s.process (.fcntl 1 fGetFl 0) = .returns { result := 9 } s.process ∧
      ¬ Reported Process.refusing false 1 s.process (.fcntl 1 fGetFl 0) := by
  refine ⟨_, _, _, rfl, rfl, rfl, ?_⟩
  apply not_reported_of_failure Process.refusing false 1 rfl
  · rintro ⟨d, hd, -⟩
    cases hd
  · exact Int.le_refl 0

end Libc

end NaClFs
