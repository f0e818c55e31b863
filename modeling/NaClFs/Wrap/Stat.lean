/-
`Stat` of a path, over what the backend answers, and how `Fstat` differs from it: `FstatCall` goes on
after a query that failed, and it gives the owner permissions only.
-/
import NaClFs.Html5.Session
import NaClFs.Wrap.Libc

namespace NaClFs

open Libc

/-! ## Stat of a file -/

/-- The permission bits `StatCall` gives a file. -/
def allPermissions : BitVec 32 := sIRwxU ||| sIRwxG ||| sIRwxO

section Line

variable {β : Type} (B : Backend β) (w : World) (b : β)

/-- What `Stat` of a file answers and what it fills the buffer with; none when it never answers. The
delegate's information is used when a query that succeeds brings none. -/
def statAnswer (d : Nat) (path : Str) : Option (Int × Option Stat) :=
  match afterInitialize B w b with
  | none => none
  | some (filesystem, file, b') =>
    match B b' (.fileOpen file ⟨filesystem, path⟩ 0) with
    | (.refused code _, _) => some (ppErrorToErrNo code, none)
    | (.completes opened, b'') =>
      if opened.code = ppErrorNotAFile then some (0, some directoryStat)
      else if opened.code ≠ 0 then some (ppErrorToErrNo opened.code, none)
      else
        match (B b'' (.query (some file))).1 with
        | .refused _ _ => none
        | .completes answer =>
          if answer.code ≠ 0 then some (ppErrorToErrNo answer.code, none)
          else some (0, some ((answer.info.getD (w.delegates d).fileInfo).toStat allPermissions))

/-- The backend opens the file for a `Stat` of the path and completes its query with `answer`. -/
def StatQueried (path : Str) (answer : Answer) : Prop :=
  ∃ filesystem file b' opened, afterInitialize B w b = some (filesystem, file, b') ∧
    (B b' (.fileOpen file ⟨filesystem, path⟩ 0)).1 = .completes opened ∧ opened.code = 0 ∧
    (B (B b' (.fileOpen file ⟨filesystem, path⟩ 0)).2 (.query (some file))).1 = .completes answer

/-- What is stored of `Stat` in the callers' buffers. -/
def filled (stats : Nat → Stat) (buf : Nat) : Option Stat → Nat → Stat
  | none => stats
  | some st => Function.update stats buf st

variable {B w b}

theorem statAnswer_queried {path : Str} {answer : Answer} (h : StatQueried B w b path answer)
    (d : Nat) : statAnswer B w b d path =
      if answer.code ≠ 0 then some (ppErrorToErrNo answer.code, none)
      else some (0, some ((answer.info.getD (w.delegates d).fileInfo).toStat allPermissions)) := by
  obtain ⟨filesystem, file, b', opened, ha, ho, h0, hq⟩ := h
  have hne : opened.code ≠ ppErrorNotAFile := by
    rw [h0]
    decide
  rcases hr : B b' (.fileOpen file ⟨filesystem, path⟩ 0) with ⟨reply, b''⟩
  rw [hr] at ho hq
  subst ho
  simp only [statAnswer, ha, hr, if_neg hne, if_neg (not_not_intro h0), hq]

/-- The program of `Stat` answers what `statAnswer` says. -/
theorem stat_line_eq (d : Nat) (path : Str) (buf : Nat) :
    ∃ st b', Line.stat B d path buf w.store b =
        ((statAnswer B w b d path).map fun a => .int a.1, st, b') ∧
      ∀ a, statAnswer B w b d path = some a → st.stats = filled w.stats buf a.2 := by
  have hframe := Line.needFileSystem_frame (B := B) (b := b) w.store
  unfold Line.stat statAnswer
  rw [Line.bind_run]
  rcases needFileSystem_eq (B := B) w b with ⟨ha, st, b', hn⟩ | ⟨filesystem, file, b', code, st, ha, hn, rfl⟩
  · -- The opening of the filesystem is refused.
    rw [ha, hn]
    exact ⟨st, b', rfl, fun a h => by cases h⟩
  rw [hn] at hframe
  obtain ⟨hfiles, hstats⟩ := hframe
  rw [hn, ha]
  dsimp only at hfiles hstats ⊢
  rw [Line.openFile_bind]
  rcases hr : B b' (.fileOpen st.resources ⟨filesystem, path⟩ 0) with ⟨reply, b₂⟩
  cases reply with
  | refused code' hc => exact ⟨_, _, rfl, fun a h => by cases h; exact hstats⟩
  | completes opened =>
    dsimp only [Line.statting]
    by_cases hna : opened.code = ppErrorNotAFile
    · rw [if_pos hna, if_pos hna]
      refine ⟨_, _, rfl, fun a h => ?_⟩
      cases h
      exact congrArg (fun stats => Function.update stats buf directoryStat) hstats
    rw [if_neg hna, if_neg hna]
    by_cases h0 : opened.code = 0
    · rw [if_neg (not_not_intro h0), if_neg (not_not_intro h0)]
      have hio : ((st.withFile d ⟨filesystem, path⟩ 0).files d).fileIo = some st.resources := by
        rw [Store.withFile_files]
      rcases hq : (B b₂ (.query (some st.resources))).1 with ⟨code', hc⟩ | ⟨answer⟩
      · rw [Line.query_bind_refused (by rw [hio]; exact hq)]
        exact ⟨_, _, rfl, fun a h => by cases h⟩
      · rw [Line.query_bind_completes (by rw [hio]; exact hq)]
        dsimp only [Line.queried]
        by_cases hcode : answer.code = 0
        · rw [if_neg (not_not_intro hcode), if_neg (not_not_intro hcode)]
          refine ⟨_, _, rfl, fun a h => ?_⟩
          cases h
          have hstats' : st.stats = w.stats := hstats
          simp [filled, Store.withFile, Store.withInfo, hstats', hfiles, allPermissions]
        · rw [if_pos hcode, if_pos hcode]
          exact ⟨_, _, rfl, fun a h => by cases h; exact hstats⟩
    · rw [if_pos h0, if_pos h0]
      exact ⟨_, _, rfl, fun a h => by cases h; exact hstats⟩

/-- The program of `Fstat`, where the query completes. -/
theorem fstat_line_eq (st : Store) {d : Nat} {answer : Answer}
    (h : (B b (.query (st.files d).fileIo)).1 = .completes answer) (buf : Nat) :
    ∃ st' b', Line.fstat B d buf st b = (some (.int 0), st', b') ∧
      st'.stats = Function.update st.stats buf
        ((answer.info.getD (st.files d).fileInfo).toStat sIRwxU) := by
  simp only [Line.fstat, Line.bind_run, Line.get_run, Line.ask_run, h, Line.storeInfo, Line.modifyFile,
    Line.modify_run, Line.fillStat, Line.pure_run, Function.update_self]
  exact ⟨_, _, rfl, rfl⟩

end Line

/-! ## The calls -/

section Calls

variable {β : Type} {B : Backend β} {s : Process β}

/-- A new delegate finds the world it is created in. -/
theorem statAnswer_create (s : Process β) (path : Str) (d : Nat) :
    statAnswer B (s.create path).1.world (s.create path).1.backend d path =
      statAnswer B s.world s.backend d path := by
  have hinfo : ((s.create path).1.world.delegates d).fileInfo = (s.world.delegates d).fileInfo := by
    simp only [Process.create, FileSystem.createDelegate]
    by_cases hd : d = s.table.delegates.length
    · subst hd
      rw [World.setDelegate_self]
    · rw [World.setDelegate_of_ne _ hd]
  have hinit : afterInitialize B (s.create path).1.world (s.create path).1.backend =
      afterInitialize B s.world s.backend := rfl
  unfold statAnswer
  rw [hinit, hinfo]

/-- `Stat` of a file on a worker. -/
theorem stat_worker (call : Nat) (hq : Quiescent s.world) {path : Str}
    (hk : kindOf (createFullpath s.table.cwd path) = .html5) (buf : Nat) :
    match statAnswer B s.world s.backend s.table.delegates.length (createFullpath s.table.cwd path) with
    | none => s.stat B false call (some path) buf = .waits
    | some a => ∃ t, s.stat B false call (some path) buf = .returns { result := a.1 } t ∧
        t.world.stats = filled s.world.stats buf a.2 := by
  generalize hf : createFullpath s.table.cwd path = fullpath at hk
  have hkind := (create_kind s fullpath).trans hk
  have hd : (s.create fullpath).2 = s.table.delegates.length := rfl
  have hrun : s.stat B false call (some path) buf = Process.finish
      ((s.create fullpath).1.method B false call (s.create fullpath).2 (.stat fullpath buf))
      fun answer _ => ((s.table.stat path answer.toInt).1, { (s.table.stat path answer.toInt).2 with }) := by
    simp only [Process.stat, Process.onPath, hf]
  obtain ⟨st, b', hp, hstats⟩ := stat_line_eq (B := B) (w := (s.create fullpath).1.world)
    (b := (s.create fullpath).1.backend) (s.create fullpath).2 fullpath buf
  rw [statAnswer_create, hd] at hp hstats
  have hq' := Process.create_quiescent hq fullpath
  cases ha : statAnswer B s.world s.backend s.table.delegates.length fullpath with
  | none =>
    rw [ha] at hp
    have hm := Process.method_waits call hq' hkind (f := .stat fullpath buf)
      (congrArg Prod.fst hp)
    dsimp only
    rw [hrun, hm]
    rfl
  | some a =>
    rw [ha] at hp
    obtain ⟨w', hm, hw, -⟩ := Process.method_returns call hq' hkind (f := .stat fullpath buf) hp
    dsimp only
    rw [hrun, hm]
    refine ⟨_, rfl, ?_⟩
    have hst := hstats a ha
    rw [← hw] at hst
    exact hst

/-- `Fstat` of a file on a worker, where the query completes. -/
theorem fstat_worker (call : Nat) (hq : Quiescent s.world) {fildes : Int} {d : Nat} {answer : Answer}
    (hd : s.table.getDelegate fildes = some d) (hk : s.table.kind d = .html5)
    (h : (B s.backend (.query (s.world.delegates d).fileIo)).1 = .completes answer) (buf : Nat) :
    ∃ t, s.fstat B false call fildes buf = .returns { result := 0 } t ∧
      t.world.stats = Function.update s.world.stats buf
        ((answer.info.getD (s.world.delegates d).fileInfo).toStat sIRwxU) := by
  obtain ⟨st, b', hp, hstats⟩ := fstat_line_eq (B := B) (b := s.backend) s.world.store h buf
  obtain ⟨w, hm, hw, -⟩ := Process.method_returns call hq hk (f := .fstat buf) hp
  refine ⟨_, Process.onDescriptor_pass hd hm ebadf, ?_⟩
  rw [← hw] at hstats
  exact hstats

end Calls

/-! ## Stat and Fstat -/

/-- A `Stat` and an `Fstat` whose queries get the same answer agree: on the result; on success on what
they fill the buffers with; and after a query that failed both leave their buffers. -/
structure StatAgrees (answer : Answer) (errno errno' : Int) (before after before' after' : Stat) :
    Prop where
  result : errno = errno'
  content : errno = 0 → after = after'
  kept : answer.code ≠ 0 → after = before ∧ after' = before'

/-- The permission bits tell the two apart, whatever the type of the file. -/
theorem permissions_ne (t t' : FileType) : allPermissions ||| t.mode ≠ sIRwxU ||| t'.mode := by
  cases t <;> cases t' <;> decide

/-- `Stat` of a file and `Fstat` of a descriptor open on it never agree when both queries get the same
answer. When it is a success, both return 0 and fill their buffers alike but for the permission bits;
when it is a failure, `Stat` returns its errno and leaves the buffer, `Fstat` returns 0 and fills it. -/
theorem stat_fstat_disagree {β : Type} (B : Backend β) (s s' : Process β) (hs : s.Reachable B)
    (hs' : s'.Reachable B) (call call' : Nat) (path : Str) (buf buf' : Nat) (fildes : Int) (d : Nat)
    (answer : Answer) (hk : kindOf (createFullpath s.table.cwd path) = .html5)
    (hquery : StatQueried B s.world s.backend (createFullpath s.table.cwd path) answer)
    (hd : s'.table.getDelegate fildes = some d) (hk' : s'.table.kind d = .html5)
    (hquery' : (B s'.backend (.query (s'.world.delegates d).fileIo)).1 = .completes answer) :
    ∃ result t t', s.stat B false call (some path) buf = .returns { result := result } t ∧
      s'.fstat B false call' fildes buf' = .returns { result := 0 } t' ∧
      ¬ StatAgrees answer result 0 (s.world.stats buf) (t.world.stats buf) (s'.world.stats buf')
        (t'.world.stats buf') ∧
      (answer.code = 0 → result = 0 ∧ ∀ info, answer.info = some info →
        t.world.stats buf = info.toStat allPermissions ∧ t'.world.stats buf' = info.toStat sIRwxU) ∧
      (answer.code ≠ 0 → result = ppErrorToErrNo answer.code ∧ t.world.stats = s.world.stats) := by
  have hstat := stat_worker (B := B) call hs.quiescent hk buf
  obtain ⟨t', ht', hstats'⟩ := fstat_worker call' hs'.quiescent hd hk' hquery' buf'
  have hbuf' : t'.world.stats buf' = (answer.info.getD (s'.world.delegates d).fileInfo).toStat sIRwxU := by
    rw [hstats', Function.update_self]
  rw [statAnswer_queried hquery] at hstat
  by_cases h0 : answer.code = 0
  · rw [if_neg (not_not_intro h0)] at hstat
    obtain ⟨t, ht, hstats⟩ := hstat
    have hbuf := congrFun hstats buf
    simp only [filled, Function.update_self] at hbuf
    refine ⟨0, t, t', ht, ht', fun h => ?_, fun _ => ⟨rfl, fun info hi => ?_⟩, fun hne => absurd h0 hne⟩
    · have hmode := congrArg Stat.mode (h.content rfl)
      rw [hbuf, hbuf'] at hmode
      exact permissions_ne _ _ hmode
    · rw [hbuf, hbuf', hi]
      exact ⟨rfl, rfl⟩
  · rw [if_pos h0] at hstat
    obtain ⟨t, ht, hstats⟩ := hstat
    refine ⟨_, t, t', ht, ht', fun h => ?_, fun he => absurd he h0, fun _ => ⟨rfl, hstats⟩⟩
    have hpos := ppErrorToErrNo_pos answer.code
    have hr := h.result
    omega

/-- A backend with one file of three bytes, in which everything succeeds. -/
def threeBytes : Backend Unit := fun b request =>
  match request with
  | .query _ => (.completes { code := 0, info := some ⟨3, .regular, 1, 2, 3⟩ }, b)
  | _ => (.completes { code := 0 }, b)

/-- A backend in which every query but the first fails. -/
def failsLater : Backend Bool := fun failed request =>
  match request with
  | .query _ =>
    if failed then (.completes { code := ppErrorNoAccess }, true)
    else (.completes { code := 0, info := some ⟨3, .regular, 1, 2, 3⟩ }, true)
  | _ => (.completes { code := 0 }, failed)

theorem stat_fstat_disagree_open :
    ∃ s, Run.run (Process.step threeBytes) (Process.blank ()) [(false, 0, .open_ (some (str "a")) oRdOnly 0)] =
        some s ∧
      ∃ result t t', s.stat threeBytes false 1 (some (str "a")) 0 = .returns { result := result } t ∧
        s.fstat threeBytes false 2 0 0 = .returns { result := 0 } t' ∧
        ¬ StatAgrees { code := 0, info := some ⟨3, .regular, 1, 2, 3⟩ } result 0 (s.world.stats 0)
          (t.world.stats 0) (s.world.stats 0) (t'.world.stats 0) := by
  obtain ⟨s, hs, hk, hquery, hd, hk'⟩ : ∃ s, Run.run (Process.step threeBytes) (Process.blank ())
      [(false, 0, .open_ (some (str "a")) oRdOnly 0)] = some s ∧
      kindOf (createFullpath s.table.cwd (str "a")) = .html5 ∧
      StatQueried threeBytes s.world s.backend (createFullpath s.table.cwd (str "a"))
        { code := 0, info := some ⟨3, .regular, 1, 2, 3⟩ } ∧
      s.table.getDelegate 0 = some 0 ∧ s.table.kind 0 = .html5 :=
    ⟨_, rfl, by decide, ⟨0, 2, (), { code := 0 }, rfl, rfl, rfl, rfl⟩, rfl, rfl⟩
  have hreach : s.Reachable threeBytes := ⟨_, _, _, _, _, _, _, hs⟩
  obtain ⟨result, t, t', h1, h2, h3, -⟩ := stat_fstat_disagree threeBytes s s hreach hreach 1 2 (str "a")
    0 0 0 0 _ hk hquery hd hk' rfl
  exact ⟨s, hs, result, t, t', h1, h2, h3⟩

/-- `Stat` and `Fstat` of one open file with the same answer: modes 0100777 and 0100700; and with a
query that fails EACCES and an untouched buffer, and 0 and a filled one. -/
theorem fstat_differs :
    (∃ s t t', Run.run (Process.step threeBytes) (Process.blank ())
        [(false, 0, .open_ (some (str "a")) oRdOnly 0)] = some s ∧
      s.stat threeBytes false 1 (some (str "a")) 0 = .returns { result := 0 } t ∧
      s.fstat threeBytes false 2 0 0 = .returns { result := 0 } t' ∧
      (t.world.stats 0).mode = 0o100777 ∧ (t'.world.stats 0).mode = 0o100700) ∧
    ∃ s t t', Run.run (Process.step failsLater) (Process.blank false)
        [(false, 0, .open_ (some (str "a")) oRdOnly 0)] = some s ∧
      s.stat failsLater false 1 (some (str "a")) 0 = .returns { result := eacces } t ∧
      s.fstat failsLater false 2 0 0 = .returns { result := 0 } t' ∧
      t.world.stats 0 = .zero ∧ (t'.world.stats 0).mode = 0o100700 :=
  ⟨⟨_, _, _, rfl, rfl, rfl, by decide, by decide⟩, _, _, _, rfl, rfl, rfl, by decide, by decide⟩

end NaClFs
