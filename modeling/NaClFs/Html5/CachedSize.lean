/-
The size an HTML5 delegate keeps of its file. A query sets it, a write that completes grows it up to the
offset, whatever the write counted; so it is the file's own size as long as no write past the end
completes without writing.
-/
import NaClFs.Html5.Session
import NaClFs.Lib.Run

namespace NaClFs

/-! ## The backend -/

/-- A backend in which `size` is the size of the file behind the resource `io`: queries complete with
it, a write of `k` bytes extends it to where the bytes end if `k` is positive, and nothing else changes
it. A write may also be refused. -/
structure TracksSize {β : Type} (B : Backend β) (size : β → Int) (io : Option Nat) : Prop where
  query : ∀ b, ∃ answer info, (B b (.query io)).1 = .completes answer ∧ answer.code = 0 ∧
    answer.info = some info ∧ info.size = size b ∧ size (B b (.query io)).2 = size b
  read : ∀ b offset buf n, size (B b (.read io offset buf n)).2 = size b
  refused : ∀ b offset buf n code h, (B b (.write io offset buf n)).1 = .refused code h →
    size (B b (.write io offset buf n)).2 = size b
  error : ∀ b offset buf n answer, (B b (.write io offset buf n)).1 = .completes answer →
    answer.code ≤ 0 → size (B b (.write io offset buf n)).2 = size b
  write : ∀ b offset buf n answer, (B b (.write io offset buf n)).1 = .completes answer →
    0 < answer.code →
      size (B b (.write io offset buf n)).2 = max (size b) (offset + answer.code)

/-! ## Runs -/

/-- The calls of a run, on one delegate. -/
inductive FileCall
  | read (buf nbytes : Nat)
  | write (buf : Str)
  | seek (offset whence : Int)
  | fstat (buf : Nat)
  deriving DecidableEq, Repr

def FileCall.function : FileCall → Function
  | .read buf nbytes => .read buf nbytes
  | .write buf => .write buf
  | .seek offset whence => .seek offset whence
  | .fstat buf => .fstat buf

namespace Session

variable {β : Type} {B : Backend β} {size : β → Int} {io : Option Nat} {d : Nat}

/-- One call on the delegate. -/
def fileStep (B : Backend β) (d : Nat) (s : Session β) (f : FileCall) : Option (Session β) :=
  (s.step B ⟨d, f.function⟩).map (·.1)

/-- The delegate knows the size of its file, and `SEEK_END` counts from it. -/
structure Synced (B : Backend β) (size : β → Int) (d : Nat) (s : Session β) : Prop where
  known : (s.world.delegates d).fileInfo.size = size s.backend
  seekEnd : ∀ offset, ∃ s', s.step B ⟨d, .seek offset seekEnd⟩ =
    some (s', .int (size s.backend + offset))

/-- The condition on a call: a write that completes without writing starts in or at the end of the
file. -/
def WriteInside (B : Backend β) (d : Nat) (s : Session β) : FileCall → Prop
  | .write buf => ∀ answer, (B s.backend (Line.writeRequest s.world.store d buf)).1 = .completes answer →
      answer.code ≤ 0 → (s.world.delegates d).offset ≤ (s.world.delegates d).fileInfo.size
  | _ => True

/-- `SEEK_END` counts from the size the delegate keeps. -/
theorem synced_iff {s : Session β} (hq : Quiescent s.world) :
    Synced B size d s ↔ (s.world.delegates d).fileInfo.size = size s.backend := by
  constructor
  · intro h
    exact h.known
  · intro h
    refine ⟨h, fun offset => ?_⟩
    have hes : seekEnd ≠ seekSet := by decide
    have hec : seekEnd ≠ seekCur := by decide
    have ht : Line.target (s.world.store.files d) offset seekEnd =
        some (size s.backend + offset) := by
      unfold Line.target
      rw [if_neg hes, if_neg hec, if_pos rfl]
      exact congrArg (fun n => some (n + offset)) h
    have hp : Line.program B d (.seek offset seekEnd) s.world.store s.backend = _ :=
      Line.seek_eq offset seekEnd
    rw [ht] at hp
    obtain ⟨w, hw, -, -⟩ := step_of_program hq hp
    exact ⟨_, hw⟩

/-! ## One call -/

theorem OpenFile.grow_size (f : OpenFile) : f.grow.fileInfo.size = max f.fileInfo.size f.offset := by
  unfold OpenFile.grow
  dsimp only
  split <;> omega

theorem fileStep_some {s s' : Session β} {f : FileCall} (h : fileStep B d s f = some s') :
    ∃ result, s.step B ⟨d, f.function⟩ = some (s', result) := by
  obtain ⟨⟨s'', result⟩, hs, rfl⟩ := Option.map_eq_some_iff.1 h
  exact ⟨result, hs⟩

/-- The delegate is open on `io`, and no call on it is under way. -/
structure OpenOn (io : Option Nat) (d : Nat) (s : Session β) : Prop where
  quiescent : Quiescent s.world
  fileIo : (s.world.delegates d).fileIo = io

/-- Two states of the store and the backend between which the file stays open, and the known size exact
if it was and `ok`. -/
structure Tracks (size : β → Int) (io : Option Nat) (d : Nat) (st : Store) (b : β) (st' : Store) (b' : β)
    (ok : Prop) : Prop where
  fileIo : (st'.files d).fileIo = io
  size : (st.files d).fileInfo.size = size b → ((st'.files d).fileInfo.size = size b' ↔ ok)

variable {st st' : Store} {b b' : β} {result : Option Result}

theorem read_tracks (hB : TracksSize B size io) (hio : (st.files d).fileIo = io) {buf nbytes : Nat}
    (hp : Line.read B d buf nbytes st b = (result, st', b')) : Tracks size io d st b st' b' True := by
  have hsize : size (B b (Line.readRequest st d buf nbytes)).2 = size b := by
    rw [Line.readRequest, hio]
    exact hB.read ..
  obtain ⟨st₁, hrun, hfiles, -⟩ := Line.read_run (B := B) st b d buf nbytes
  rw [hrun] at hp
  simp only [Prod.mk.injEq] at hp
  obtain ⟨-, rfl, rfl⟩ := hp
  have hfile : st₁.files d = Line.afterRead (st.files d) (B b (Line.readRequest st d buf nbytes)).1 := by
    rw [hfiles, Function.update_self]
  constructor
  · rw [hfile, Line.afterRead_fileIo]
    exact hio
  · intro hk
    rw [hfile, Line.afterRead_fileInfo, hsize]
    exact iff_of_true hk trivial

theorem write_tracks (hB : TracksSize B size io) (hio : (st.files d).fileIo = io) {buf : Str}
    (hp : Line.write B d buf st b = (result, st', b')) :
    Tracks size io d st b st' b' (∀ answer, (B b (Line.writeRequest st d buf)).1 = .completes answer →
      answer.code ≤ 0 → (st.files d).offset ≤ (st.files d).fileInfo.size) := by
  have hreq : Line.writeRequest st d buf = .write io (st.files d).offset buf (toInt buf.length) := by
    rw [Line.writeRequest, hio]
  obtain ⟨st₁, hrun, hfiles, -⟩ := Line.write_run (B := B) st b d buf
  rw [hrun] at hp
  simp only [Prod.mk.injEq] at hp
  obtain ⟨-, rfl, rfl⟩ := hp
  have hfile : st₁.files d = Line.afterWrite (st.files d) (B b (Line.writeRequest st d buf)).1 := by
    rw [hfiles, Function.update_self]
  constructor
  · rw [hfile, Line.afterWrite_fileIo]
    exact hio
  intro hk
  rw [hfile, hreq]
  cases hr : (B b (.write io (st.files d).offset buf (toInt buf.length))).1 with
  | refused code hc =>
    rw [hB.refused _ _ _ _ _ _ hr]
    refine iff_of_true hk ?_
    intro answer ha
    cases ha
  | completes answer =>
    simp only [Reply.completes.injEq, forall_eq', Line.afterWrite]
    rw [OpenFile.grow_size]
    by_cases hcode : 0 < answer.code
    · -- The file and the known size both grow to where the bytes end.
      rw [hB.write _ _ _ _ _ hr hcode]
      refine iff_of_true ?_ fun hle => absurd hcode (by omega)
      simp only [OpenFile.advance, if_pos hcode, hk]
    · rw [hB.error _ _ _ _ _ hr (by omega)]
      simp only [OpenFile.advance, if_neg hcode]
      constructor
      · intro hm _
        omega
      · intro hle
        have := hle (by omega)
        omega

theorem seek_tracks (hio : (st.files d).fileIo = io) {offset whence : Int}
    (hp : (Line.seek d offset whence : Line β Result) st b = (result, st', b')) :
    Tracks size io d st b st' b' True := by
  rw [Line.seek_eq] at hp
  split at hp
  · simp only [Prod.mk.injEq] at hp
    obtain ⟨-, rfl, rfl⟩ := hp
    exact ⟨hio, fun hk => iff_of_true hk trivial⟩
  · simp only [Prod.mk.injEq] at hp
    obtain ⟨-, rfl, rfl⟩ := hp
    refine ⟨?_, fun hk => iff_of_true ?_ trivial⟩
    · simp only [Function.update_self]
      exact hio
    · simp only [Function.update_self]
      exact hk

/-- `Fstat` asks for the size, whatever was known. -/
theorem fstat_tracks (hB : TracksSize B size io) (hio : (st.files d).fileIo = io) {buf : Nat}
    (hp : Line.fstat B d buf st b = (result, st', b')) : Tracks size io d st b st' b' True := by
  obtain ⟨answer, info, ha, -, hinfo, hsize, hkeep⟩ := hB.query b
  simp only [Line.fstat, Line.bind_run, Line.get_run, Line.ask_run, hio, ha, Line.storeInfo,
    Line.modifyFile, Line.modify_run, Line.fillStat, Line.pure_run, Prod.mk.injEq] at hp
  obtain ⟨-, rfl, rfl⟩ := hp
  refine ⟨?_, fun _ => iff_of_true ?_ trivial⟩
  · simp only [Function.update_self]
  · simp only [Function.update_self, hinfo, Option.getD_some, hkeep]
    exact hsize

/-- One call of the run: it keeps the file open, and the known size exact if it was and exactly when
the call meets the condition. -/
theorem fileStep_spec (hB : TracksSize B size io) {s s' : Session β} {f : FileCall}
    (hI : OpenOn io d s) (h : fileStep B d s f = some s') :
    OpenOn io d s' ∧ ((s.world.delegates d).fileInfo.size = size s.backend →
      ((s'.world.delegates d).fileInfo.size = size s'.backend ↔ WriteInside B d s f)) := by
  obtain ⟨result, hs⟩ := fileStep_some h
  obtain ⟨hp, hq⟩ := step_program hI.quiescent hs
  have hio : (s.world.store.files d).fileIo = io := hI.fileIo
  -- What is said of the delegate is said of its file in the store.
  have ht : Tracks size io d s.world.store s.backend s'.world.store s'.backend
      (WriteInside B d s f) := by
    cases f with
    | read buf nbytes => exact read_tracks hB hio hp
    | write buf => exact write_tracks hB hio hp
    | seek offset whence => exact seek_tracks hio hp
    | fstat buf => exact fstat_tracks hB hio hp
  exact ⟨⟨hq, ht.fileIo⟩, ht.size⟩

/-- Every call of the run returns. -/
theorem exists_fileStep (B : Backend β) (d : Nat) {s : Session β} (hq : Quiescent s.world)
    (f : FileCall) : ∃ s', fileStep B d s f = some s' := by
  obtain ⟨⟨result, st, b⟩, hp⟩ : ∃ p : Result × Store × β,
      Line.program B d f.function s.world.store s.backend = (some p.1, p.2) := by
    cases f with
    | read buf nbytes =>
      obtain ⟨st, hrun, -⟩ := Line.read_run (B := B) s.world.store s.backend d buf nbytes
      exact ⟨(_, _), hrun⟩
    | write buf =>
      obtain ⟨st, hrun, -⟩ := Line.write_run (B := B) s.world.store s.backend d buf
      exact ⟨(_, _), hrun⟩
    | seek offset whence =>
      have hp : Line.program B d (.seek offset whence) s.world.store s.backend = _ :=
        Line.seek_eq offset whence
      cases ht : Line.target (s.world.store.files d) offset whence with
      | none =>
        rw [ht] at hp
        exact ⟨(_, _), hp⟩
      | some p =>
        rw [ht] at hp
        exact ⟨(_, _), hp⟩
    | fstat buf =>
      simp only [FileCall.function, Line.program, Line.fstat, Line.bind_run, Line.get_run,
        Line.ask_run]
      cases (B s.backend (.query (s.world.store.files d).fileIo)).1 with
      | refused code hc => exact ⟨(_, _), rfl⟩
      | completes answer => exact ⟨(_, _), rfl⟩
  obtain ⟨w, hw, -, -⟩ := step_of_program hq hp
  exact ⟨_, by rw [fileStep, hw]; rfl⟩

/-! ## Opening -/

/-- An `Open` that returned 0 queried the size. -/
theorem open_known {path : Str} {oflag : BitVec 32} {st st' : Store} {b b' : β}
    (hB : TracksSize B size io)
    (h : Line.open_ B d path oflag st b = (some (.int 0), st', b'))
    (hio : (st'.files d).fileIo = io) : (st'.files d).fileInfo.size = size b' := by
  obtain ⟨b₂, answer, hq, -, hinfo⟩ := (Line.open_opened h).query
  obtain ⟨answer', info, ha, -, hinfo', hsize, hkeep⟩ := hB.query b₂
  rw [hio] at hq
  rw [hq] at ha hkeep
  cases ha
  rw [hinfo, hinfo', hkeep]
  exact hsize

/-! ## Whole runs -/

/-- Every run goes through. -/
theorem exists_run (B : Backend β) (d : Nat) {s : Session β} (hq : Quiescent s.world)
    (calls : List FileCall) : ∃ t, Run.run (fileStep B d) s calls = some t := by
  induction calls generalizing s with
  | nil => exact ⟨s, rfl⟩
  | cons f calls ih =>
    obtain ⟨s', hs⟩ := exists_fileStep B d hq f
    obtain ⟨result, hstep⟩ := fileStep_some hs
    obtain ⟨t, ht⟩ := ih (step_program hq hstep).2
    exact ⟨t, Run.run_cons_some.2 ⟨s', hs, ht⟩⟩

/-- After a successful `Open`, every run of reads, writes, seeks and `Fstat`s on the descriptor goes
through, and after each of its calls the delegate knows the size of its file, and counts `SEEK_END`
from it, exactly when every write of the run that completes without writing starts in or at the end of
the file. -/
theorem run_synced_iff (B : Backend β) (size : β → Int) (io : Option Nat)
    (hB : TracksSize B size io) (d : Nat) (s₀ s : Session β) (path : Str) (oflag mode : BitVec 32)
    (hq : Quiescent s₀.world) (ho : s₀.step B ⟨d, .open_ path oflag mode⟩ = some (s, .int 0))
    (hio : (s.world.delegates d).fileIo = io) (calls : List FileCall) :
    (∃ t, Run.run (fileStep B d) s calls = some t) ∧
    (Run.Along (fileStep B d) (Synced B size d) s calls ↔
      Run.Guarded (fileStep B d) (WriteInside B d) s calls) := by
  obtain ⟨hp, hq'⟩ := step_program hq ho
  have hI : OpenOn io d s := ⟨hq', hio⟩
  have h0 : Synced B size d s := (synced_iff hq').2 (open_known hB hp hio)
  obtain ⟨t, ht⟩ := exists_run B d hq' calls
  refine ⟨⟨t, ht⟩, Run.along_iff_guarded (I := OpenOn io d) ?_ ?_ hI h0 ht⟩
  · intro s f s' hI hs
    exact (fileStep_spec hB hI hs).1
  · intro s f s' hI hP hs
    obtain ⟨hI', hk⟩ := fileStep_spec hB hI hs
    rw [synced_iff hI'.quiescent]
    exact hk hP.known

end Session

/-! ## Two backends -/

/-- A file that is only its size, and takes all that is written to it. -/
def growing : Backend Int := fun size request =>
  match request with
  | .query _ => (.completes { code := 0, info := some ⟨size, .regular, 0, 0, 0⟩ }, size)
  | .write _ offset _ n =>
    (.completes { code := n }, if 0 < n then max size (offset + n) else size)
  | _ => (.completes { code := 0 }, size)

theorem growing_tracks (io : Option Nat) : TracksSize growing id io := by
  constructor
  · intro size
    exact ⟨_, _, rfl, rfl, rfl, rfl, rfl⟩
  · intros
    rfl
  · intro size offset buf n code h hr
    cases hr
  · intro size offset buf n answer hr hcode
    cases hr
    exact if_neg (by dsimp only at hcode; omega)
  · intro size offset buf n answer hr hcode
    cases hr
    exact if_pos hcode

/-- An empty file on a full disk. -/
def fullDisk : Backend Unit := fun b request =>
  match request with
  | .query _ => (.completes { code := 0, info := some ⟨0, .regular, 0, 0, 0⟩ }, b)
  | .write _ _ _ _ => (.completes { code := ppErrorNoSpace }, b)
  | _ => (.completes { code := 0 }, b)

theorem fullDisk_tracks (io : Option Nat) : TracksSize fullDisk (fun _ => 0) io := by
  constructor
  · intro b
    exact ⟨_, _, rfl, rfl, rfl, rfl, rfl⟩
  · intros
    rfl
  · intro b offset buf n code h hr
    cases hr
  · intros
    rfl
  · intro b offset buf n answer hr hcode
    cases hr
    exact absurd hcode (by decide)

namespace Session

theorem run_synced_growing :
    ∃ s, Session.step growing ⟨World.blank, 0, 0⟩ ⟨0, .open_ (str "/a") oRdWr 0⟩ = some (s, .int 0) ∧
      (Run.Along (fileStep growing 0) (Synced growing id 0) s
          [.write (str "ab"), .seek 1 seekEnd, .write []] ↔
        Run.Guarded (fileStep growing 0) (WriteInside growing 0) s
          [.write (str "ab"), .seek 1 seekEnd, .write []]) :=
  ⟨_, rfl, (run_synced_iff growing id _ (growing_tracks _) 0 ⟨World.blank, 0, 0⟩ _ (str "/a") oRdWr 0
    blank_quiescent rfl rfl _).2⟩

/-- A seek past the end and a write that fails there: the delegate takes the offset for the size. -/
theorem failed_write_grows :
    ∃ s t, Session.step fullDisk ⟨World.blank, (), 0⟩ ⟨0, .open_ (str "/a") oRdWr 0⟩ =
        some (s, .int 0) ∧
      TracksSize fullDisk (fun _ => 0) (s.world.delegates 0).fileIo ∧
      Run.run (fileStep fullDisk 0) s [.seek 10 seekSet, .write (str "a")] = some t ∧
      (t.world.delegates 0).fileInfo.size = 10 ∧ ¬ Synced fullDisk (fun _ => 0) 0 t := by
  refine ⟨_, _, rfl, fullDisk_tracks _, rfl, by decide, fun h => ?_⟩
  exact absurd h.known (by decide)

end Session

end NaClFs
