/-
The offset of an HTML5 delegate over runs of seeks and transfers. `Seek` stores whatever sum it comes to,
so the offset stays a place in a file, and no sum overflows, exactly as long as every seek that moves it
goes to such a place and no transfer counts past the last one.
-/
import NaClFs.Html5.CachedSize

namespace NaClFs

namespace Session

variable {β : Type}

/-! ## Places and sums -/

/-- What a signed 64-bit word holds. -/
def Fits (n : Int) : Prop := -9223372036854775808 ≤ n ∧ n < 9223372036854775808

/-- A place in a file. -/
def Place (n : Int) : Prop := 0 ≤ n ∧ n < 9223372036854775808

theorem place_iff {n : Int} : Place n ↔ 0 ≤ n ∧ Fits n := by
  unfold Place Fits
  omega

/-- A backend whose queries that complete with 0 tell a size that is a place. -/
structure AnswersSizes (B : Backend β) : Prop where
  query : ∀ b io answer, (B b (.query io)).1 = .completes answer → answer.code = 0 →
    ∃ info, answer.info = some info ∧ Place info.size

/-- What `whence` counts from; none for one that is not known. -/
def base (file : OpenFile) (whence : Int) : Option Int :=
  if whence = seekSet then some 0
  else if whence = seekCur then some file.offset
  else if whence = seekEnd then some file.fileInfo.size
  else none

theorem target_eq (file : OpenFile) (offset whence : Int) :
    Line.target file offset whence = (base file whence).map (· + offset) := by
  unfold Line.target base
  by_cases h1 : whence = seekSet
  · rw [if_pos h1, if_pos h1, Option.map_some, Int.zero_add]
  rw [if_neg h1, if_neg h1]
  by_cases h2 : whence = seekCur
  · rw [if_pos h2, if_pos h2, Option.map_some]
  rw [if_neg h2, if_neg h2]
  by_cases h3 : whence = seekEnd
  · rw [if_pos h3, if_pos h3, Option.map_some]
  · rw [if_neg h3, if_neg h3, Option.map_none]

/-- Where a transfer leaves an offset. -/
def moved (offset : Int) : Reply → Int
  | .refused _ _ => offset
  | .completes answer => if 0 < answer.code then offset + answer.code else offset

/-! ## Calls -/

section Calls

variable (B : Backend β) (d : Nat) (s : Session β)

/-- The file of the delegate. -/
def fileOf : OpenFile := s.world.store.files d

/-- The offset is not negative. -/
def OffsetNonneg : Prop := 0 ≤ (s.fileOf d).offset

/-- The offset after a read or a write: the sum with what was counted. -/
def readSum (buf nbytes : Nat) : Int :=
  moved (s.fileOf d).offset (B s.backend (Line.readRequest s.world.store d buf nbytes)).1

def writeSum (buf : Str) : Int :=
  moved (s.fileOf d).offset (B s.backend (Line.writeRequest s.world.store d buf)).1

/-- No sum the call computes of an offset overflows. -/
def NoOverflow : FileCall → Prop
  | .read buf nbytes => Fits (s.readSum B d buf nbytes)
  | .write buf => Fits (s.writeSum B d buf)
  | .seek offset whence => ∀ b, base (s.fileOf d) whence = some b → Fits (b + offset)
  | .fstat _ => True

/-- A seek answers the base selected by `whence` plus the given offset, which is the new offset, or it
answers -1 and leaves the offset. -/
def SeekAnswers : FileCall → Prop
  | .seek offset whence => ∀ s' result, s.step B ⟨d, .seek offset whence⟩ = some (s', result) →
      (∃ b, base (s.fileOf d) whence = some b ∧ result = .int (b + offset) ∧
        (s'.fileOf d).offset = b + offset) ∨
      (result = .int (-1) ∧ (s'.fileOf d).offset = (s.fileOf d).offset)
  | _ => True

/-- The condition on a call: a seek with a known `whence` goes to a place, and what a transfer counts
leaves the offset at one. -/
def MovesWithin : FileCall → Prop
  | .read buf nbytes => Place (s.readSum B d buf nbytes)
  | .write buf => Place (s.writeSum B d buf)
  | .seek offset whence => ∀ b, base (s.fileOf d) whence = some b → Place (b + offset)
  | .fstat _ => True

end Calls

/-! ## One call -/

variable {B : Backend β} {d : Nat} {s s' : Session β} {result : Result}

/-- A seek stores the sum and answers it, or it answers -1; it asks nothing. -/
theorem seek_step {offset whence : Int} (hq : Quiescent s.world)
    (h : s.step B ⟨d, .seek offset whence⟩ = some (s', result)) :
    s'.backend = s.backend ∧ match base (s.fileOf d) whence with
      | none => result = .int (-1) ∧ (s'.fileOf d).offset = (s.fileOf d).offset
      | some b => result = .int (b + offset) ∧ (s'.fileOf d).offset = b + offset := by
  obtain ⟨hp, -⟩ := step_program hq h
  have hs : Line.program B d (.seek offset whence) s.world.store s.backend = _ :=
    Line.seek_eq offset whence
  rw [target_eq] at hs
  have he := hs.symm.trans hp
  unfold fileOf
  cases hb : base (s.world.store.files d) whence with
  | none =>
    rw [hb] at he
    simp only [Option.map_none, Prod.mk.injEq, Option.some.injEq] at he
    obtain ⟨rfl, hst, hbackend⟩ := he
    rw [← hst]
    exact ⟨hbackend.symm, rfl, rfl⟩
  | some b =>
    rw [hb] at he
    simp only [Option.map_some, Prod.mk.injEq, Option.some.injEq] at he
    obtain ⟨rfl, hst, hbackend⟩ := he
    rw [← hst]
    dsimp only
    rw [Function.update_self]
    exact ⟨hbackend.symm, rfl, rfl⟩

theorem afterRead_offset (file : OpenFile) (reply : Reply) :
    (Line.afterRead file reply).offset = moved file.offset reply := by
  cases reply <;> rfl

theorem afterWrite_offset (file : OpenFile) (reply : Reply) :
    (Line.afterWrite file reply).offset = moved file.offset reply := by
  cases reply <;> rfl

/-- A read asks for the bytes at the offset, and moves it by what was counted. -/
theorem read_step {buf nbytes : Nat} (hq : Quiescent s.world)
    (h : s.step B ⟨d, .read buf nbytes⟩ = some (s', result)) :
    s'.backend = (B s.backend (Line.readRequest s.world.store d buf nbytes)).2 ∧
      (s'.fileOf d).offset = s.readSum B d buf nbytes := by
  obtain ⟨hp, -⟩ := step_program hq h
  obtain ⟨st, hrun, hfiles, -⟩ := Line.read_run (B := B) s.world.store s.backend d buf nbytes
  have he := hrun.symm.trans hp
  simp only [Prod.mk.injEq] at he
  obtain ⟨-, hst, hbackend⟩ := he
  unfold fileOf readSum
  rw [← hst, hfiles, Function.update_self, afterRead_offset]
  exact ⟨hbackend.symm, rfl⟩

/-- A write hands over its bytes for the offset, and moves it by what was counted. -/
theorem write_step {buf : Str} (hq : Quiescent s.world)
    (h : s.step B ⟨d, .write buf⟩ = some (s', result)) :
    s'.backend = (B s.backend (Line.writeRequest s.world.store d buf)).2 ∧
      (s'.fileOf d).offset = s.writeSum B d buf ∧
      s'.world.store.requests = s.world.store.requests ++ [Line.writeRequest s.world.store d buf] := by
  obtain ⟨hp, -⟩ := step_program hq h
  obtain ⟨st, hrun, hfiles, hreq⟩ := Line.write_run (B := B) s.world.store s.backend d buf
  have he := hrun.symm.trans hp
  simp only [Prod.mk.injEq] at he
  obtain ⟨-, hst, hbackend⟩ := he
  unfold fileOf writeSum
  rw [← hst, hfiles, Function.update_self, afterWrite_offset]
  exact ⟨hbackend.symm, rfl, hreq⟩

/-- `Fstat` queries the file and moves nothing. -/
theorem fstat_step {buf : Nat} (hq : Quiescent s.world)
    (h : s.step B ⟨d, .fstat buf⟩ = some (s', result)) :
    s'.backend = (B s.backend (.query (s.fileOf d).fileIo)).2 ∧
      (s'.fileOf d).offset = (s.fileOf d).offset := by
  obtain ⟨hp, -⟩ := step_program hq h
  unfold fileOf
  simp only [Line.program, Line.fstat, Line.bind_run, Line.get_run, Line.ask_run] at hp
  cases hr : (B s.backend (.query (s.world.store.files d).fileIo)).1 with
  | refused code hc =>
    rw [hr] at hp
    simp only [Line.pure_run, Prod.mk.injEq] at hp
    rw [← hp.2.1]
    exact ⟨hp.2.2.symm, rfl⟩
  | completes answer =>
    rw [hr] at hp
    simp only [Line.bind_run, Line.get_run, Line.storeInfo, Line.modifyFile, Line.modify_run,
      Line.fillStat, Line.pure_run, Prod.mk.injEq] at hp
    rw [← hp.2.1]
    refine ⟨hp.2.2.symm, ?_⟩
    simp only [Function.update_self]

/-- Between calls the delegate is idle and its offset a place. -/
structure AtPlace (d : Nat) (s : Session β) : Prop where
  quiescent : Quiescent s.world
  offset : Place (s.fileOf d).offset

/-- A call that leaves its offset at a sum, the only one it computes. -/
theorem moved_iff {n : Int} (h : (s'.fileOf d).offset = n) :
    OffsetNonneg d s' ∧ Fits n ↔ Place n := by
  unfold OffsetNonneg
  rw [h]
  exact place_iff.symm

/-- One call of the run: the offset it leaves is not negative, no sum overflows and a seek answers, if
and only if the call moves within. -/
theorem fileStep_offset {f : FileCall} (hI : AtPlace d s) (h : fileStep B d s f = some s') :
    (OffsetNonneg d s' ∧ NoOverflow B d s f ∧ SeekAnswers B d s f ↔ MovesWithin B d s f) ∧
      (MovesWithin B d s f → AtPlace d s') := by
  obtain ⟨result, hs⟩ := fileStep_some h
  obtain ⟨-, hq'⟩ := step_program hI.quiescent hs
  cases f with
  | read buf nbytes =>
    have hoff := (read_step hI.quiescent hs).2
    constructor
    · rw [← and_assoc]
      exact (and_iff_left trivial).trans (moved_iff hoff)
    · intro hm
      refine ⟨hq', ?_⟩
      rw [hoff]
      exact hm
  | write buf =>
    have hoff := (write_step hI.quiescent hs).2.1
    constructor
    · rw [← and_assoc]
      exact (and_iff_left trivial).trans (moved_iff hoff)
    · intro hm
      refine ⟨hq', ?_⟩
      rw [hoff]
      exact hm
  | fstat buf =>
    have hplace : Place (s'.fileOf d).offset := by
      rw [(fstat_step hI.quiescent hs).2]
      exact hI.offset
    exact ⟨iff_of_true ⟨hplace.1, trivial, trivial⟩ trivial, fun _ => ⟨hq', hplace⟩⟩
  | seek offset whence =>
    have hs : s.step B ⟨d, .seek offset whence⟩ = some (s', result) := hs
    have hseek := (seek_step hI.quiescent hs).2
    unfold NoOverflow SeekAnswers MovesWithin
    simp only [hs, Option.some.injEq, Prod.mk.injEq, and_imp, forall_apply_eq_imp_iff, forall_eq']
    cases hb : base (s.fileOf d) whence with
    | none =>
      rw [hb] at hseek
      obtain ⟨rfl, hoff⟩ := hseek
      have hplace : Place (s'.fileOf d).offset := by
        rw [hoff]
        exact hI.offset
      constructor
      · apply iff_of_true
        · refine ⟨hplace.1, ?_, .inr ⟨rfl, hoff⟩⟩
          rintro b ⟨⟩
        · rintro b ⟨⟩
      · intro _
        exact ⟨hq', hplace⟩
    | some b =>
      rw [hb] at hseek
      obtain ⟨rfl, hoff⟩ := hseek
      simp only [Option.some.injEq, forall_eq']
      constructor
      · rw [← and_assoc, moved_iff hoff]
        exact and_iff_left (.inl ⟨b, rfl, rfl, hoff⟩)
      · intro hm
        refine ⟨hq', ?_⟩
        rw [hoff]
        exact hm

/-! ## Whole runs -/

/-- A new delegate that was opened is at the start of its file, or with `O_APPEND` at the queried
size. -/
theorem open_atPlace (hB : AnswersSizes B) {path : Str} {oflag mode : BitVec 32}
    (hq : Quiescent s.world) (h0 : (s.fileOf d).offset = 0)
    (ho : s.step B ⟨d, .open_ path oflag mode⟩ = some (s', .int 0)) : AtPlace d s' := by
  obtain ⟨hp, hq'⟩ := step_program hq ho
  have hopen := Line.open_opened hp
  refine ⟨hq', ?_⟩
  show Place (s'.world.store.files d).offset
  rw [hopen.offset]
  split
  · obtain ⟨b, answer, ha, hcode, hinfo⟩ := hopen.query
    obtain ⟨info, hi, hplace⟩ := hB.query b _ answer (congrArg Prod.fst ha) hcode
    rw [hinfo, hi]
    exact hplace
  · rw [show (s.world.store.files d).offset = 0 from h0]
    exact ⟨by decide, by decide⟩

/-- After a successful `Open` of a new delegate every run of reads, writes, seeks and `Fstat`s on it goes
through; and in all its states the offset is not negative, none of its sums overflows and each of its
seeks answers the new position or leaves the old one, if and only if every call of it moves within. -/
theorem run_offsets_iff (B : Backend β) (hB : AnswersSizes B) (d : Nat) (s₀ s : Session β) (path : Str)
    (oflag mode : BitVec 32) (hq : Quiescent s₀.world) (h0 : (s₀.fileOf d).offset = 0)
    (ho : s₀.step B ⟨d, .open_ path oflag mode⟩ = some (s, .int 0)) (calls : List FileCall) :
    (∃ t, Run.run (fileStep B d) s calls = some t) ∧
    (Run.Along (fileStep B d) (OffsetNonneg d) s calls ∧
        Run.Guarded (fileStep B d) (fun s f => NoOverflow B d s f ∧ SeekAnswers B d s f) s calls ↔
      Run.Guarded (fileStep B d) (MovesWithin B d) s calls) := by
  have hI : AtPlace d s := open_atPlace hB hq h0 ho
  obtain ⟨t, ht⟩ := exists_run B d hI.quiescent calls
  refine ⟨⟨t, ht⟩, Run.along_and_guarded_iff (I := AtPlace d) ?_ ?_ ?_ hI ht⟩
  · intro s hI
    exact hI.offset.1
  · intro s f s' hI hok hs
    exact (fileStep_offset hI hs).2 hok
  · intro s f s' hI hs
    exact (fileStep_offset hI hs).1

theorem fullDisk_sizes : AnswersSizes fullDisk := by
  constructor
  rintro b io answer ⟨⟩ -
  exact ⟨_, rfl, by decide, by decide⟩

theorem run_offsets_fullDisk :
    ∃ s, Session.step fullDisk ⟨World.blank, (), 0⟩ ⟨0, .open_ (str "/a") oAppend 0⟩ =
        some (s, .int 0) ∧
      (Run.Along (fileStep fullDisk 0) (OffsetNonneg 0) s [.seek 5 seekEnd, .write (str "a")] ∧
          Run.Guarded (fileStep fullDisk 0) (fun s f => NoOverflow fullDisk 0 s f ∧
            SeekAnswers fullDisk 0 s f) s [.seek 5 seekEnd, .write (str "a")] ↔
        Run.Guarded (fileStep fullDisk 0) (MovesWithin fullDisk 0) s
          [.seek 5 seekEnd, .write (str "a")]) :=
  ⟨_, rfl, (run_offsets_iff fullDisk fullDisk_sizes 0 ⟨World.blank, (), 0⟩ _ (str "/a") oAppend 0
    blank_quiescent rfl rfl _).2⟩

/-- A seek to -1 answers -1 and moves; and the sum of a seek from the last place overflows. -/
theorem seek_moves_below :
    (∃ s t, Session.step fullDisk ⟨World.blank, (), 0⟩ ⟨0, .open_ (str "/a") oRdWr 0⟩ =
        some (s, .int 0) ∧ (s.fileOf 0).offset = 0 ∧
      s.step fullDisk ⟨0, .seek (-1) seekSet⟩ = some (t, .int (-1)) ∧ (t.fileOf 0).offset = -1) ∧
    ∃ s t, Session.step fullDisk ⟨World.blank, (), 0⟩ ⟨0, .open_ (str "/a") oRdWr 0⟩ =
        some (s, .int 0) ∧
      s.step fullDisk ⟨0, .seek 9223372036854775807 seekSet⟩ =
        some (t, .int 9223372036854775807) ∧
      ¬ NoOverflow fullDisk 0 t (.seek 1 seekCur) := by
  refine ⟨⟨_, _, rfl, rfl, rfl, rfl⟩, _, _, rfl, rfl, fun h => ?_⟩
  exact absurd (h 9223372036854775807 (by decide)).2 (by decide)

end Session

end NaClFs
