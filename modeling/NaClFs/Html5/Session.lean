/-
The calls of one worker as a machine: a step is one call on one delegate, from before its `Call` to its
return. Every step is a run of the call's program, so the programs say what the operations of an open
file do to the store.
-/
import NaClFs.Html5.Refine
import NaClFs.Lib.Stream

namespace NaClFs

/-- A worker between two of its calls. -/
structure Session (β : Type) where
  world : World
  backend : β
  /-- The number of the next call. -/
  call : Nat := 0

namespace Session

variable {β : Type} {B : Backend β}

/-- One call; none when it never returns. -/
def step (B : Backend β) (s : Session β) (arguments : Arguments) : Option (Session β × Result) :=
  match Delegate.call B s.world s.backend s.call arguments with
  | .returned result w b => some (⟨w, b, s.call + 1⟩, result)
  | _ => none

/-- A call whose program returns is a step with its result, its store and its backend. -/
theorem step_of_program {s : Session β} {d : Nat} {f : Function} {result : Result} {store : Store}
    {b : β} (hq : Quiescent s.world)
    (h : Line.program B d f s.world.store s.backend = (some result, store, b)) :
    ∃ w, step B s ⟨d, f⟩ = some (⟨w, b, s.call + 1⟩, result) ∧ w.store = store ∧ Quiescent w := by
  have ha := call_agrees (B := B) (b := s.backend) hq s.call ⟨d, f⟩
  rw [h] at ha
  unfold step
  cases ho : Delegate.call B s.world s.backend s.call ⟨d, f⟩ with
  | returned result' w b' =>
    rw [ho] at ha
    obtain ⟨hl, hq'⟩ := ha
    cases hl
    exact ⟨w, rfl, rfl, hq'⟩
  | blocked w b' =>
    rw [ho] at ha
    cases ha
  | spent =>
    rw [ho] at ha
    exact ha.elim

/-- And every step is one. -/
theorem step_program {s s' : Session β} {arguments : Arguments} {result : Result}
    (hq : Quiescent s.world) (h : step B s arguments = some (s', result)) :
    Line.program B arguments.delegate arguments.function s.world.store s.backend =
      (some result, s'.world.store, s'.backend) ∧ Quiescent s'.world := by
  have ha := call_agrees (B := B) (b := s.backend) hq s.call arguments
  unfold step at h
  cases ho : Delegate.call B s.world s.backend s.call arguments with
  | returned result' w b' =>
    rw [ho] at h ha
    cases h
    exact ha
  | blocked w b' =>
    rw [ho] at h
    cases h
  | spent =>
    rw [ho] at h
    cases h

end Session

/-! ## The programs of an open file -/

namespace Line

variable {β : Type} {B : Backend β} {b : β} {s : Store} {d : Nat}

/-- The store after a request and a change to the delegate's file. -/
def asked (s : Store) (d : Nat) (request : Request) (file : OpenFile) : Store :=
  { s with requests := s.requests ++ [request], files := Function.update s.files d file }

/-- The request of a read at the offset. -/
def readRequest (s : Store) (d buf nbytes : Nat) : Request :=
  .read (s.files d).fileIo (s.files d).offset buf (toInt nbytes)

/-- The request of a write at the offset. -/
def writeRequest (s : Store) (d : Nat) (buf : Str) : Request :=
  .write (s.files d).fileIo (s.files d).offset buf (toInt buf.length)

theorem read_refused {buf nbytes : Nat} {code : Int} {h : code ≠ ppOkCompletionPending}
    (hB : (B b (readRequest s d buf nbytes)).1 = .refused code h) :
    read B d buf nbytes s b = (some (.int (-1)), asked s d (readRequest s d buf nbytes) (s.files d),
      (B b (readRequest s d buf nbytes)).2) := by
  unfold readRequest at hB
  simp [read, bind_run, hB, asked, readRequest]

theorem read_completes {buf nbytes : Nat} {answer : Answer}
    (hB : (B b (readRequest s d buf nbytes)).1 = .completes answer) :
    read B d buf nbytes s b = (some (.int answer.code),
      { asked s d (readRequest s d buf nbytes) ((s.files d).advance answer.code) with
        buffers := Function.update s.buffers buf
          (answer.data ++ (s.buffers buf).drop answer.data.length) },
      (B b (readRequest s d buf nbytes)).2) := by
  unfold readRequest at hB
  simp [read, bind_run, hB, asked, readRequest, modifyFile]

theorem write_refused {buf : Str} {code : Int} {h : code ≠ ppOkCompletionPending}
    (hB : (B b (writeRequest s d buf)).1 = .refused code h) :
    write B d buf s b = (some (.int (-1)), asked s d (writeRequest s d buf) (s.files d),
      (B b (writeRequest s d buf)).2) := by
  unfold writeRequest at hB
  simp [write, bind_run, hB, asked, writeRequest]

theorem write_completes {buf : Str} {answer : Answer}
    (hB : (B b (writeRequest s d buf)).1 = .completes answer) :
    write B d buf s b = (some (.int answer.code),
      asked s d (writeRequest s d buf) ((s.files d).advance answer.code).grow,
      (B b (writeRequest s d buf)).2) := by
  unfold writeRequest at hB
  simp [write, bind_run, hB, asked, writeRequest, modifyFile]

/-- The code of a transfer. -/
def count : Reply → Int
  | .refused _ _ => -1
  | .completes answer => answer.code

/-- What a read makes of the file. -/
def afterRead (file : OpenFile) : Reply → OpenFile
  | .refused _ _ => file
  | .completes answer => file.advance answer.code

/-- What a write makes of the file. -/
def afterWrite (file : OpenFile) : Reply → OpenFile
  | .refused _ _ => file
  | .completes answer => (file.advance answer.code).grow

theorem afterRead_fileIo (file : OpenFile) (reply : Reply) :
    (afterRead file reply).fileIo = file.fileIo := by
  cases reply <;> rfl

theorem afterRead_fileInfo (file : OpenFile) (reply : Reply) :
    (afterRead file reply).fileInfo = file.fileInfo := by
  cases reply <;> rfl

theorem afterWrite_fileIo (file : OpenFile) (reply : Reply) :
    (afterWrite file reply).fileIo = file.fileIo := by
  cases reply <;> rfl

/-- A read is one request; it changes its delegate's file. -/
theorem read_run (s : Store) (b : β) (d buf nbytes : Nat) :
    ∃ s', read B d buf nbytes s b =
        (some (.int (count (B b (readRequest s d buf nbytes)).1)), s',
          (B b (readRequest s d buf nbytes)).2) ∧
      s'.files = Function.update s.files d (afterRead (s.files d) (B b (readRequest s d buf nbytes)).1) ∧
      s'.requests = s.requests ++ [readRequest s d buf nbytes] := by
  cases hr : (B b (readRequest s d buf nbytes)).1 with
  | refused code hc => exact ⟨_, read_refused hr, rfl, rfl⟩
  | completes answer => exact ⟨_, read_completes hr, rfl, rfl⟩

/-- So is a write. -/
theorem write_run (s : Store) (b : β) (d : Nat) (buf : Str) :
    ∃ s', write B d buf s b =
        (some (.int (count (B b (writeRequest s d buf)).1)), s', (B b (writeRequest s d buf)).2) ∧
      s'.files = Function.update s.files d (afterWrite (s.files d) (B b (writeRequest s d buf)).1) ∧
      s'.requests = s.requests ++ [writeRequest s d buf] := by
  cases hr : (B b (writeRequest s d buf)).1 with
  | refused code hc => exact ⟨_, write_refused hr, rfl, rfl⟩
  | completes answer => exact ⟨_, write_completes hr, rfl, rfl⟩

/-- Where `Seek` goes; none for a `whence` it does not know. -/
def target (file : OpenFile) (offset whence : Int) : Option Int :=
  if whence = seekSet then some offset
  else if whence = seekCur then some (file.offset + offset)
  else if whence = seekEnd then some (file.fileInfo.size + offset)
  else none

theorem seek_eq (offset whence : Int) : (seek d offset whence : Line β Result) s b =
    match target (s.files d) offset whence with
    | none => (some (.int (-1)), s, b)
    | some offset => (some (.int offset),
        { s with files := Function.update s.files d { s.files d with offset := offset } }, b) := by
  have hcs : seekCur ≠ seekSet := by decide
  have hes : seekEnd ≠ seekSet := by decide
  have hec : seekEnd ≠ seekCur := by decide
  unfold seek target
  by_cases h1 : whence = seekSet
  · simp [bind_run, h1, moveTo, modifyFile]
  · by_cases h2 : whence = seekCur
    · simp [bind_run, h2, hcs, moveTo, modifyFile]
    · by_cases h3 : whence = seekEnd
      · simp [bind_run, h3, hes, hec, moveTo, modifyFile]
      · simp [bind_run, h1, h2, h3]

/-! ## Opening -/

/-- The opening of the filesystem leaves the files and the callers' buffers. -/
theorem needFileSystem_frame (st : Store) :
    (needFileSystem B st b).2.1.files = st.files ∧ (needFileSystem B st b).2.1.stats = st.stats := by
  cases hf : st.filesystem with
  | some filesystem =>
    rw [needFileSystem_open hf]
    exact ⟨rfl, rfl⟩
  | none =>
    simp only [needFileSystem, bind_run, get_run, hf, modify_run, ask_run]
    cases (B b (.fileSystemOpen st.resources st.filesystemType Html5FileSystem.expectedSize)).1 with
    | refused code hc => exact ⟨rfl, rfl⟩
    | completes answer => exact ⟨rfl, rfl⟩

/-- What an `Open` that returned 0 leaves: its last request was a query of the file it opened, which
completed with 0, and the offset is the queried size with `O_APPEND` and unmoved without. -/
structure Opened (B : Backend β) (d : Nat) (oflag : BitVec 32) (st st' : Store) (b' : β) : Prop where
  query : ∃ b answer, B b (.query (st'.files d).fileIo) = (.completes answer, b') ∧ answer.code = 0 ∧
    (st'.files d).fileInfo = answer.info.getD (st.files d).fileInfo
  offset : (st'.files d).offset =
    if oflag &&& oAppend ≠ 0 then (st'.files d).fileInfo.size else (st.files d).offset

theorem open_opened {path : Str} {oflag : BitVec 32} {st st' : Store} {b b' : β}
    (h : open_ B d path oflag st b = (some (.int 0), st', b')) : Opened B d oflag st st' b' := by
  have hpos (code : Int) : ppErrorToErrNo code ≠ 0 := by
    have := ppErrorToErrNo_pos code
    omega
  have hframe := (needFileSystem_frame (B := B) (b := b) st).1
  unfold open_ at h
  rw [bind_run] at h
  rcases hn : needFileSystem B st b with ⟨_ | ⟨filesystem, code⟩, st₁, b₁⟩
  · rw [hn] at h
    cases h
  rw [hn] at h hframe
  dsimp only at h hframe
  rw [openFile_bind] at h
  cases hr : (B b₁ (.fileOpen st₁.resources ⟨filesystem, path⟩ (openFlags oflag))).1 with
  | refused code' hc =>
    rw [hr] at h
    simp [hpos] at h
  | completes answer =>
    rw [hr] at h
    generalize (B b₁ (.fileOpen st₁.resources ⟨filesystem, path⟩ (openFlags oflag))).2 = b₂ at h
    dsimp only [opening] at h
    split at h
    · simp [hpos] at h
    -- The file is open; its query is the last request.
    cases hq : (B b₂ (.query ((st₁.withFile d ⟨filesystem, path⟩ (openFlags oflag)).files d).fileIo)).1 with
    | refused code' hc =>
      rw [query_bind_refused hq] at h
      cases h
    | completes answer' =>
      rw [query_bind_completes hq] at h
      unfold opened at h
      split at h
      · simp [hpos] at h
      · rename_i h0
        simp only [modifyFile, bind_run, modify_run, pure_run, Prod.mk.injEq, true_and] at h
        obtain ⟨rfl, rfl⟩ := h
        have hfile : st₁.files d = st.files d := by rw [hframe]
        constructor
        · refine ⟨b₂, answer', Prod.ext ?_ ?_, not_not.1 h0, ?_⟩
          · simpa [OpenFile.start] using hq
          · simp [OpenFile.start]
          · simp [OpenFile.start, hfile]
        · simp [OpenFile.start, hfile]

/-! ## What a program leaves -/

/-- A relation of stores that holds of no change, of a request and of two changes in a row. -/
structure Frame (R : Store → Store → Prop) : Prop where
  refl : ∀ s, R s s
  trans : ∀ s s' s'', R s s' → R s' s'' → R s s''
  ask : ∀ (s : Store) request, R s { s with requests := s.requests ++ [request] }

/-- The program relates every store to the one it leaves. -/
def Respects {α : Type} (R : Store → Store → Prop) (m : Line β α) : Prop := ∀ s b, R s (m s b).2.1

section Respects

variable {α γ : Type} {R : Store → Store → Prop} (hR : Frame R)

include hR

theorem Frame.pure (a : α) : Respects R (Pure.pure a : Line β α) := fun s _ => hR.refl s

theorem Frame.wait : Respects R (wait : Line β α) := fun s _ => hR.refl s

theorem Frame.bind {m : Line β α} {k : α → Line β γ} (hm : Respects R m)
    (hk : ∀ a, Respects R (k a)) : Respects R (m >>= k) := by
  intro s b
  have h := hm s b
  rw [bind_run]
  rcases hr : m s b with ⟨_ | a, s', b'⟩
  · rw [hr] at h
    exact h
  · rw [hr] at h
    exact hR.trans _ _ _ h (hk a s' b')

theorem Frame.asks (request : Request) : Respects R (Line.ask B request) :=
  fun s _ => hR.ask s request

omit hR

theorem Respects.get {k : Store → Line β α} (hk : ∀ s, Respects R (k s)) :
    Respects R (Line.get >>= k) := fun s b => hk s s b

theorem Respects.ite {c : Prop} [Decidable c] {m m' : Line β α} (h : Respects R m)
    (h' : Respects R m') : Respects R (if c then m else m') := by
  split
  · exact h
  · exact h'

theorem Respects.modify {f : Store → Store} (hf : ∀ s, R s (f s)) :
    Respects R (Line.modify f : Line β Unit) := fun s _ => hf s

end Respects

/-- No offset moves. -/
def SameOffsets (s s' : Store) : Prop := ∀ d, (s'.files d).offset = (s.files d).offset

theorem sameOffsets_frame : Frame SameOffsets where
  refl _ _ := rfl
  trans _ _ _ h h' d := (h' d).trans (h d)
  ask _ _ _ := rfl

theorem SameOffsets.modifyFile {f : OpenFile → OpenFile} (hf : ∀ file, (f file).offset = file.offset) :
    Respects SameOffsets (modifyFile d f : Line β Unit) := by
  refine .modify fun s d' => ?_
  by_cases h : d' = d
  · subst h
    simp [hf]
  · simp [Function.update_of_ne h]

/-- What an `Open` respects: the opening of the filesystem, and the three changes to the file. -/
theorem open_respects {R : Store → Store → Prop} (hR : Frame R) {path : Str} {oflag : BitVec 32}
    (hsystem : ∀ (s : Store) filesystem resources,
      R s { s with filesystem := filesystem, resources := resources })
    (href : ∀ ref io, Respects R (modifyFile d fun file =>
      { file with fileRef := ref, fileIo := io } : Line β Unit))
    (hinfo : ∀ info : Option FileInfo, Respects R (modifyFile d fun file =>
      { file with fileInfo := info.getD file.fileInfo } : Line β Unit))
    (hstart : Respects R (modifyFile d fun file => file.start oflag : Line β Unit)) :
    Respects R (open_ B d path oflag) := by
  have hneed : Respects R (needFileSystem B) := by
    refine .get fun s => ?_
    cases s.filesystem with
    | some filesystem => exact hR.pure _
    | none =>
      refine hR.bind (.modify fun _ => hsystem _ _ _) fun _ => hR.bind (hR.asks _) fun r => ?_
      cases r with
      | refused code hc => exact hR.wait
      | completes answer => exact hR.pure _
  have hquery : Respects R (query B d) := by
    refine .get fun s => hR.bind (hR.asks _) fun r => ?_
    cases r with
    | refused code hc => exact hR.wait
    | completes answer => exact hR.bind (hinfo _) fun _ => hR.pure _
  refine hR.bind hneed fun p => hR.bind ?_ fun r => ?_
  · refine .get fun s => hR.bind (.modify fun _ => hsystem _ _ _) fun _ => ?_
    exact hR.bind (href _ _) fun _ => hR.asks _
  · cases r with
    | refused code hc => exact hR.pure _
    | completes answer =>
      refine .ite (hR.pure _) (hR.bind hquery fun code => .ite (hR.pure _) ?_)
      exact hR.bind hstart fun _ => hR.pure _

/-- An `Open` without `O_APPEND` moves no offset, whatever becomes of its requests. -/
theorem open_sameOffsets {path : Str} {oflag : BitVec 32} (h : oflag &&& oAppend = 0) :
    Respects SameOffsets (open_ B d path oflag) := by
  refine open_respects sameOffsets_frame (fun _ _ _ _ => rfl) ?_ ?_ ?_
  · exact fun _ _ => SameOffsets.modifyFile fun _ => rfl
  · exact fun _ => SameOffsets.modifyFile fun _ => rfl
  · refine SameOffsets.modifyFile fun file => ?_
    unfold OpenFile.start
    exact if_neg (not_not_intro h)

/-- Only the file of one delegate changes. -/
def SameOthers (d : Nat) (s s' : Store) : Prop := ∀ d', d' ≠ d → s'.files d' = s.files d'

theorem sameOthers_frame (d : Nat) : Frame (SameOthers d) where
  refl _ _ _ := rfl
  trans _ _ _ h h' d' hd := (h' d' hd).trans (h d' hd)
  ask _ _ _ _ := rfl

theorem SameOthers.modifyFile (f : OpenFile → OpenFile) :
    Respects (SameOthers d) (modifyFile d f : Line β Unit) :=
  .modify fun _ _ hd => Function.update_of_ne hd ..

/-- An `Open` leaves the files of the other delegates. -/
theorem open_sameOthers (d : Nat) (path : Str) (oflag : BitVec 32) :
    Respects (SameOthers d) (open_ B d path oflag) := by
  refine open_respects (sameOthers_frame d) (fun _ _ _ _ _ => rfl) ?_ ?_ ?_
  · exact fun _ _ => SameOthers.modifyFile _
  · exact fun _ => SameOthers.modifyFile _
  · exact SameOthers.modifyFile _

end Line

end NaClFs
