/-
What the main thread may do: operations on it are carried out on the devices only. Files, DIRs, the
current directory and the backend are left as they were, whatever is called.
-/
import NaClFs.FileSystem.Resources
import NaClFs.FileSystem.System

namespace NaClFs

namespace Process

variable {β : Type} {B : Backend β} {call : Nat} {s s' t u : Process β} {d : Nat} {f : Function}
  {answer : Result} {ret : Returned}

/-! ## What is kept -/

/-- The backend, the filesystem and the DIRs, the files of the delegates there were, the current
directory, and which descriptors are open on files. -/
structure Kept (s t : Process β) : Prop where
  backend : t.backend = s.backend
  store : ∃ files stats buffers,
    t.world.store = { s.world.store with files := files, stats := stats, buffers := buffers }
  files : ∀ d < s.table.delegates.length, t.world.delegates d = s.world.delegates d
  delegates : ∃ made, t.table.delegates = s.table.delegates ++ made
  cwd : t.table.cwd = s.table.cwd
  dirs : t.table.dirs = s.table.dirs
  descriptors : ∀ fildes d, t.table.kind d = .html5 →
    (t.table.getDelegate fildes = some d ↔ s.table.getDelegate fildes = some d)

namespace Kept

theorem refl (s : Process β) : Kept s s :=
  ⟨rfl, ⟨_, _, _, rfl⟩, fun _ _ => rfl, ⟨[], (List.append_nil _).symm⟩, rfl, rfl, fun _ _ _ => Iff.rfl⟩

/-- A delegate of a file was one before. -/
theorem kind (h : Kept s t) (hk : t.table.kind d = .html5) : s.table.kind d = .html5 := by
  obtain ⟨made, hd⟩ := h.delegates
  by_cases hlt : d < s.table.delegates.length
  · rw [← hk]
    simp only [FileSystem.kind, hd, List.getD_eq_getElem?_getD]
    rw [List.getElem?_append_left hlt]
  · simp only [FileSystem.kind, List.getD_eq_getElem?_getD]
    rw [List.getElem?_eq_none (Nat.le_of_not_lt hlt)]
    rfl

theorem trans (h : Kept s t) (h' : Kept t u) : Kept s u := by
  obtain ⟨files, stats, buffers, hs⟩ := h.store
  obtain ⟨files', stats', buffers', hs'⟩ := h'.store
  obtain ⟨made, hd⟩ := h.delegates
  obtain ⟨made', hd'⟩ := h'.delegates
  refine ⟨h'.backend.trans h.backend, ⟨files', stats', buffers', by rw [hs', hs]⟩, fun d hlt => ?_,
    ⟨made ++ made', by rw [hd', hd, List.append_assoc]⟩, h'.cwd.trans h.cwd, h'.dirs.trans h.dirs, ?_⟩
  · rw [h'.files d (by rw [hd, List.length_append]; exact Nat.lt_add_right _ hlt), h.files d hlt]
  · intro fildes d hk
    rw [h'.descriptors fildes d hk, h.descriptors fildes d (h'.kind hk)]

end Kept

/-! ## Methods -/

/-- On the main thread a method is one of a device, or does nothing. -/
theorem method_onMainThread (h : s.method B true call d f = some (answer, s')) :
    (s.table.kind d = .port ∧ (s.port d f).1 = answer ∧ (s.port d f).2 = s') ∨
      s.table.kind d = .html5 ∧ onMainThread f = answer ∧ s' = s := by
  unfold method at h
  split at h
  · rename_i hk
    have h := Option.some.inj h
    exact .inl ⟨hk, congrArg Prod.fst h, congrArg Prod.snd h⟩
  · rename_i hk
    rw [if_pos rfl] at h
    cases h
    exact .inr ⟨hk, rfl, rfl⟩

/-- A method on the main thread leaves the table, the backend and the files. -/
structure Idle (s s' : Process β) : Prop where
  table : ∃ errno, s'.table = { s.table with errno := errno }
  backend : s'.backend = s.backend
  store : ∃ stats buffers, s'.world.store = { s.world.store with stats := stats, buffers := buffers }
  delegates : s'.world.delegates = s.world.delegates

theorem method_idle (h : s.method B true call d f = some (answer, s')) : Idle s s' := by
  rcases method_onMainThread h with ⟨hk, -, rfl⟩ | ⟨-, -, rfl⟩
  · obtain ⟨stats, buffers, hs, hb⟩ := port_store s d f
    have hdid : Did B true s d f (s.port d f).1 (s.port d f).2 := .port hk
    exact ⟨hdid.table, hb, ⟨stats, buffers, hs⟩, port_delegates s d f⟩
  · exact ⟨⟨_, rfl⟩, rfl, ⟨_, _, rfl⟩, rfl⟩

/-- Only a device is opened or closed on the main thread. -/
theorem port_of_zero (h : s.method B true call d f = some (answer, s')) (h0 : answer.toInt = 0)
    (hf : f = .close ∨ ∃ path oflag cmode, f = .open_ path oflag cmode) : s.table.kind d = .port := by
  rcases method_onMainThread h with ⟨hk, -, -⟩ | ⟨-, rfl, -⟩
  · exact hk
  · rcases hf with rfl | ⟨path, oflag, cmode, rfl⟩
    · exact absurd h0 (show eio ≠ 0 by decide)
    · exact absurd h0 (show eio ≠ 0 by decide)

/-- No DIR is made or closed there. -/
theorem opendir_main {dirname : Str} (h : s.method B true call d (.opendir dirname) = some (answer, s')) :
    answer.isDir = false := by
  rcases method_onMainThread h with ⟨-, rfl, -⟩ | ⟨-, rfl, -⟩ <;> rfl

theorem closedir_main {dirp : Nat} (h : s.method B true call d (.closedir dirp) = some (answer, s')) :
    answer.toInt ≠ 0 := by
  rcases method_onMainThread h with ⟨-, rfl, -⟩ | ⟨-, rfl, -⟩
  · exact show (-1 : Int) ≠ 0 by decide
  · exact show eio ≠ 0 by decide

/-- And nothing is a directory. -/
theorem stat_main {path : Str} {buf : Nat} (h : s.method B true call d (.stat path buf) = some (answer, s'))
    (h0 : answer.toInt = 0) : sIsDir (s'.world.stats buf).mode = false := by
  rcases method_onMainThread h with ⟨-, rfl, rfl⟩ | ⟨-, rfl, -⟩
  · have hstat : PortFileSystem.stat path = (enodev, none) ∨
        PortFileSystem.stat path = (0, some PortFileSystem.deviceStat) := by
      unfold PortFileSystem.stat
      split
      · exact .inl rfl
      · exact .inr rfl
    rcases hstat with hstat | hstat
    · simp only [port, hstat] at h0
      exact absurd h0 (show enodev ≠ 0 by decide)
    · have hbuf : (s.world.setStat buf PortFileSystem.deviceStat).stats buf = PortFileSystem.deviceStat :=
        Function.update_self ..
      simp only [port, hstat, hbuf]
      decide
  · exact absurd h0 (show eio ≠ 0 by decide)

/-! ## Operations -/

/-- Nothing but errno changes in the table. -/
theorem Idle.kept (h : Idle s s') : Kept s s' := by
  obtain ⟨errno, ht⟩ := h.table
  obtain ⟨stats, buffers, hs⟩ := h.store
  refine ⟨h.backend, ⟨_, stats, buffers, hs⟩, fun d _ => by rw [h.delegates], ⟨[], ?_⟩, ?_, ?_, ?_⟩
  · rw [ht]
    exact (List.append_nil _).symm
  · rw [ht]
  · rw [ht]
  · intro fildes d _
    rw [ht]
    exact Iff.rfl

theorem kept_path {path : Str} {op : FileSystem.Op} {table : FileSystem} {ret : FileSystem.Ret}
    (hc : PathCall s.table.cwd path s'.world.stats f answer op)
    (hm : (s.create (createFullpath s.table.cwd path)).1.method B true call s.table.delegates.length f =
      some (answer, s')) (ht : s.table.call op = some (table, ret)) : Kept s { s' with table := table } := by
  have hidle := method_idle hm
  have hdel := FileSystem.delegates_of_pathCall hc ht
  obtain ⟨stats, buffers, hs⟩ := hidle.store
  refine ⟨hidle.backend, ⟨_, stats, buffers, hs⟩, fun d hd => ?_, ⟨_, hdel⟩, ?_, ?_, ?_⟩
  · show s'.world.delegates d = s.world.delegates d
    rw [hidle.delegates, create_delegates s _ (Nat.ne_of_lt hd)]
  · cases hc with
    | open_ oflag cmode =>
      simp only [FileSystem.call, FileSystem.open_, Option.some.injEq] at ht
      split at ht <;> cases ht <;> rfl
    | stat buf | mkdir mode =>
      cases ht
      rfl
    | opendir =>
      simp only [FileSystem.call, FileSystem.openDir, Option.some.injEq] at ht
      split at ht <;> cases ht <;> rfl
    | chdir buf =>
      simp only [FileSystem.call, FileSystem.chDir, Option.some.injEq] at ht
      split at ht
      · cases ht
        rfl
      · rename_i h0
        have hdir := stat_main hm (not_not.1 h0)
        split at ht
        · cases ht
          rfl
        · rename_i hd
          exact absurd hdir (by simpa using hd)
  · cases hc with
    | open_ oflag cmode =>
      simp only [FileSystem.call, FileSystem.open_, Option.some.injEq] at ht
      split at ht <;> cases ht <;> rfl
    | stat buf | mkdir mode =>
      cases ht
      rfl
    | opendir =>
      simp only [FileSystem.call, FileSystem.openDir, opendir_main hm, Option.some.injEq, Bool.false_eq_true,
        if_false] at ht
      cases ht
      rfl
    | chdir buf =>
      simp only [FileSystem.call, FileSystem.chDir, Option.some.injEq] at ht
      split at ht
      · cases ht
        rfl
      · split at ht <;> cases ht <;> rfl
  · intro fildes d hk
    rcases FileSystem.descriptors_of_pathCall hc ht with hdesc | ⟨⟨oflag, cmode, hf⟩, h0, hdesc⟩
    · simp only [FileSystem.getDelegate_some, hdesc]
    · -- The new descriptor is one of a device.
      have hne : d ≠ s.table.delegates.length := by
        rintro rfl
        have hport := port_of_zero hm h0 (.inr ⟨_, oflag, cmode, hf⟩)
        have hkind : table.kind s.table.delegates.length =
            (s.create (createFullpath s.table.cwd path)).1.table.kind s.table.delegates.length :=
          FileSystem.kind_of_delegates hdel _
        have hhtml5 : table.kind s.table.delegates.length = .html5 := hk
        rw [hkind, hport] at hhtml5
        cases hhtml5
      simp only [FileSystem.getDelegate_some, hdesc, List.getElem?_append]
      grind

theorem kept_close {fildes : Int} (hd : s.table.getDelegate fildes = some d)
    (hm : s.method B true call d .close = some (answer, s')) :
    Kept s { s' with table := (s.table.close fildes answer.toInt).1 } := by
  have hidle := method_idle hm
  have hkept := hidle.kept
  by_cases h0 : answer.toInt = 0
  · have hport := port_of_zero hm h0 (.inl rfl)
    rw [h0, FileSystem.close_zero hd]
    refine ⟨hkept.backend, hkept.store, hkept.files, ⟨[], (List.append_nil _).symm⟩, rfl, rfl, ?_⟩
    intro fildes' d' hk
    have hne : d' ≠ d := by
      rintro rfl
      rw [show s.table.kind d' = .html5 from hk] at hport
      cases hport
    obtain ⟨hpos, hs⟩ := FileSystem.getDelegate_some.1 hd
    simp only [FileSystem.getDelegate_some, List.getElem?_set]
    grind
  · rw [FileSystem.close_of_ne hd h0]
    exact ⟨hkept.backend, hkept.store, hkept.files, ⟨[], (List.append_nil _).symm⟩, rfl, rfl,
      fun _ _ _ => Iff.rfl⟩

/-- One operation. -/
theorem kept_performed (h : Performed B true call s ret t) : Kept s t := by
  induction h with
  | answered s ret => exact .refl s
  | path hc hm ht => exact kept_path hc hm ht
  | descriptor hu hc hd hm => exact (method_idle hm).kept
  | @again s s' t fildes d buf nbytes ret hd hm rest ih =>
    have hkept := (method_idle hm).kept
    have hlocked : Kept s { s' with locked := true } :=
      ⟨hkept.backend, hkept.store, hkept.files, hkept.delegates, hkept.cwd, hkept.dirs, hkept.descriptors⟩
    exact hlocked.trans ih
  | close hd hm => exact kept_close hd hm
  | dir hu hc hd hm => exact (method_idle hm).kept
  | @closedir s s' dirp d answer table ret hd hm ht =>
    obtain rfl : table = s.table := by
      simp only [FileSystem.closeDir, hd, if_neg (closedir_main hm)] at ht
      cases ht
      rfl
    have hkept := (method_idle hm).kept
    exact ⟨hkept.backend, hkept.store, hkept.files, ⟨[], (List.append_nil _).symm⟩, rfl, rfl,
      fun _ _ _ => Iff.rfl⟩

end Process

/-! ## Runs -/

namespace System

variable {β : Type} {B : Backend β} {s t : System β}

/-- An operation on the main thread, or a message, which is handled there. -/
def Act.OnMainThread : Act → Prop
  | .op main _ _ => main = true
  | .message _ => True

theorem step_kept {a : Act} {o : Option Returned} (ha : a.OnMainThread) (h : step B s a = some (t, o)) :
    Process.Kept s.process t.process := by
  cases a with
  | op main call op =>
    obtain rfl : main = true := ha
    obtain ⟨ret, hp, -⟩ := step_op h
    exact Process.kept_performed (Process.perform_performed hp)
  | message message =>
    cases h
    exact ⟨rfl, ⟨_, _, _, rfl⟩, fun _ _ => rfl, ⟨[], (List.append_nil _).symm⟩, rfl, rfl, fun _ _ _ => Iff.rfl⟩

/-- From any state, operations on the main thread and messages, in any number and any order: no request
is made of the backend and nothing of it changes; no filesystem is opened, no DIR made, read or closed,
and no file touched; the current directory stays; and the descriptors that are open on files are those
that were, so the main thread opens and closes nothing but devices. -/
theorem run_onMainThread {as : List Act} {os : List (Option Returned)} (ha : ∀ a ∈ as, a.OnMainThread)
    (h : Stream.run (step B) s as = some (t, os)) : Process.Kept s.process t.process := by
  have hg : Stream.Guarded (step B) (fun _ a => a.OnMainThread) s as :=
    Stream.guarded_of_forall (fun a hmem _ => ha a hmem) s
  refine hg.invariant (fun u => Process.Kept s.process u.process) ?_ h (.refl _)
  intro u a u' o hi hok hs
  exact hi.trans (step_kept hok hs)

/-- A worker opened a file and a DIR; the main thread then tries to use and to close them, opens a device
and changes the directory. -/
def filesFirst : List Act :=
  [.op false 0 (.open_ (some (str "a")) oRdWr 0), .op false 1 (.opendir (some (str "/")))]

def onMain : List Act :=
  [.op true 2 (.write 0 (str "x")), .op true 3 (.close 0), .op true 4 (.closedir 0),
    .op true 5 (.open_ (some (str "/dev/stdout")) oWrOnly 0), .op true 6 (.chdir (some (str "/dev")) 0),
    .op true 7 (.close 1), .op true 8 (.open_ (some (str "b")) oRdWr 0)]

theorem run_onMainThread_onMain :
    ∃ s os t os', Stream.run (step failingReads) ⟨Process.blank (), []⟩ filesFirst = some (s, os) ∧
      Stream.run (step failingReads) s onMain = some (t, os') ∧ Process.Kept s.process t.process := by
  have hs : ((Stream.run (step failingReads) ⟨Process.blank (), []⟩ filesFirst).bind fun x =>
      Stream.run (step failingReads) x.1 onMain).isSome = true := by
    decide +kernel
  obtain ⟨⟨t, os'⟩, h⟩ := Option.isSome_iff_exists.1 hs
  obtain ⟨⟨s, os⟩, h₁, h₂⟩ := Option.bind_eq_some_iff.1 h
  exact ⟨s, os, t, os', h₁, h₂, run_onMainThread (by simp [onMain, Act.OnMainThread]) h₂⟩

end System

end NaClFs
