/-
The programs of the HTML5 delegates over a disk: what each of them does to the files, to the delegate it
is called on and to the callers' memory is an act of the machine.
-/
import NaClFs.Html5.SharedFile
import NaClFs.Unix.Machine

namespace NaClFs

open Bytes

namespace Unix

variable {β : Type} {B : Backend β}

/-! ## What every program keeps -/

/-- A program leaves the files of the other delegates, the handles there were, and removes no file. -/
structure Kept (disk : Disk B) (d : Nat) (s : Store) (b : β) (s' : Store) (b' : β) : Prop where
  others : Line.SameOthers d s s'
  resources : s.resources ≤ s'.resources
  handle : ∀ r < s.resources, disk.handle b' r = disk.handle b r
  files : disk.Keeps b b'

variable {disk : Disk B} {d : Nat} {s s' s'' : Store} {b b' b'' : β}

theorem Kept.refl (disk : Disk B) (d : Nat) (s : Store) (b : β) : Kept disk d s b s b :=
  ⟨(Line.sameOthers_frame d).refl s, Nat.le_refl _, fun _ _ => rfl, fun _ h => h⟩

theorem Kept.trans (h : Kept disk d s b s' b') (h' : Kept disk d s' b' s'' b'') :
    Kept disk d s b s'' b'' := by
  refine ⟨(Line.sameOthers_frame d).trans _ _ _ h.others h'.others, Nat.le_trans h.resources h'.resources,
    fun r hr => ?_, fun path hp => h'.files path (h.files path hp)⟩
  rw [h'.handle r (Nat.lt_of_lt_of_le hr h.resources), h.handle r hr]

/-- A change to the store alone. -/
theorem Kept.of_store (ho : Line.SameOthers d s s') (hr : s'.resources = s.resources) :
    Kept disk d s b s' b :=
  ⟨ho, Nat.le_of_eq hr.symm, fun _ _ => rfl, fun _ h => h⟩

/-- A request that opens no file, with a change to the delegate. -/
theorem Kept.of_asked {request : Request} (hn : ∀ r ref flags, request ≠ .fileOpen r ref flags)
    (hk : disk.Keeps b (B b request).2) (ho : Line.SameOthers d s s') (hr : s.resources ≤ s'.resources) :
    Kept disk d s b s' (B b request).2 :=
  ⟨ho, hr, fun r _ => disk.handle_same b request r fun ref flags => hn r ref flags, hk⟩

/-- A request that changes no file, likewise. -/
theorem Kept.of_same {request : Request} (hc : request.mayChange = false)
    (ho : Line.SameOthers d s s') (hr : s.resources ≤ s'.resources) : Kept disk d s b s' (B b request).2 := by
  refine .of_asked ?_ (.of_eq (disk.files_same b request hc)) ho hr
  rintro r ref flags rfl
  cases hc

/-! ## Open files -/

/-- The machine with the files and the callers' memory a program finds or leaves. -/
def Machine.over (m : Machine) (disk : Disk B) (s : Store) (b : β) : Machine :=
  { m with files := disk.files b, buffers := s.buffers, stats := s.stats }

/-- What a delegate is open on. -/
def Description.of (h : Handle) (file : OpenFile) : Description := .file h file.offset file.fileInfo

/-- What a program through a descriptor comes to. -/
structure Acted (disk : Disk B) (m : Machine) (h : Handle) (d : Nat) (f : Function) (s : Store) (b : β)
    (answer : Result) (s' : Store) (b' : β) : Prop where
  kept : Kept disk d s b s' b'
  fileIo : (s'.files d).fileIo = (s.files d).fileIo
  dirs : s'.dirs = s.dirs
  acts : Acts false (m.over disk s b) (.of h (s.files d)) f answer.toInt (.of h (s'.files d))
    (m.over disk s' b')

/-- The delegate is open on the file. -/
structure OpenOnFile (disk : Disk B) (s : Store) (b : β) (d r : Nat) (h : Handle) (content : Str) : Prop where
  fileIo : (s.files d).fileIo = some r
  handle : disk.handle b r = some h
  file : disk.files b h.path = some content

section Programs

variable {m : Machine} {r : Nat} {h : Handle} {content : Str}

theorem sameOthers_update (d : Nat) (s : Store) (file : OpenFile)
    (hf : s'.files = Function.update s.files d file) : Line.SameOthers d s s' := by
  intro d' hd
  rw [hf, Function.update_of_ne hd]

/-- Nothing is stored at the front of a buffer. -/
theorem Machine.setBuffer_nil (m : Machine) (buf : Nat) : m.setBuffer buf [] = m := by
  simp [Machine.setBuffer]

theorem read_acts (m : Machine) (ho : OpenOnFile disk s b d r h content) (buf nbytes : Nat) :
    Line.wp (Line.read B d buf nbytes) (Acted disk m h d (.read buf nbytes) s b) s b := by
  have hlaw := disk.reads b r h content (s.files d).offset buf (toInt nbytes) ho.handle ho.file
  rw [← ho.fileIo] at hlaw
  have hfiles := disk.files_same b (Line.readRequest s d buf nbytes) rfl
  have hkept {s' : Store} (hf : ∃ file, s'.files = Function.update s.files d file)
      (hr : s'.resources = s.resources) : Kept disk d s b s' (B b (Line.readRequest s d buf nbytes)).2 := by
    obtain ⟨file, hf⟩ := hf
    exact .of_same rfl (sameOthers_update d s file hf) (Nat.le_of_eq hr.symm)
  unfold Line.wp
  cases hB : (B b (Line.readRequest s d buf nbytes)).1 with
  | refused code hc =>
    rw [Line.read_refused hB]
    refine ⟨hkept ⟨_, rfl⟩ rfl, by simp [Line.asked], rfl, ?_⟩
    have hm : m.over disk (Line.asked s d (Line.readRequest s d buf nbytes) (s.files d))
        (B b (Line.readRequest s d buf nbytes)).2 = (m.over disk s b).setBuffer buf [] := by
      rw [Machine.setBuffer_nil]
      simp only [Machine.over, hfiles]
      rfl
    rw [hm]
    simp only [Line.asked, Function.update_eq_self]
    exact .readFails [] rfl (show (-1 : Int) < 0 by decide)
  | completes answer =>
    have hm : m.over disk { Line.asked s d (Line.readRequest s d buf nbytes)
        ((s.files d).advance answer.code) with
          buffers := Function.update s.buffers buf (answer.data ++ (s.buffers buf).drop answer.data.length) }
        (B b (Line.readRequest s d buf nbytes)).2 = (m.over disk s b).setBuffer buf answer.data := by
      simp only [Machine.over, hfiles]
      rfl
    change Reads h content _ _ (B b (Line.readRequest s d buf nbytes)).1 at hlaw
    rw [hB] at hlaw
    rw [Line.read_completes hB]
    refine ⟨hkept ⟨_, rfl⟩ rfl, by simp [Line.asked, NaClFs.OpenFile.advance], rfl, ?_⟩
    rw [hm]
    simp only [Line.asked, Function.update_self, Description.of]
    cases hlaw with
    | failed hc =>
      rw [OpenFile.advance_error _ hc]
      exact .readFails answer.data rfl hc
    | count hc h0 hr hn hk hd he =>
      rw [hc, OpenFile.advance_count, hd]
      exact .read rfl ho.file h0 hr hn hk he

theorem OpenFile.grow_known (file : OpenFile) :
    file.grow.offset = file.offset ∧ file.grow.fileInfo = known file.fileInfo file.offset := by
  refine ⟨rfl, ?_⟩
  unfold OpenFile.grow known
  dsimp only
  rw [FileInfo.mk.injEq]
  refine ⟨?_, rfl, rfl, rfl, rfl⟩
  split <;> omega

theorem write_acts (m : Machine) (ho : OpenOnFile disk s b d r h content) (buf : Str) :
    Line.wp (Line.write B d buf) (Acted disk m h d (.write buf) s b) s b := by
  obtain ⟨content', hlaw, hfiles⟩ :=
    disk.writes b r h content (s.files d).offset buf (toInt buf.length) ho.handle ho.file
  rw [← ho.fileIo] at hlaw hfiles
  change Writes h content _ _ _ (B b (Line.writeRequest s d buf)).1 content' at hlaw
  change disk.files (B b (Line.writeRequest s d buf)).2 = _ at hfiles
  have hkept {s' : Store} (hf : ∃ file, s'.files = Function.update s.files d file)
      (hr : s'.resources = s.resources) : Kept disk d s b s' (B b (Line.writeRequest s d buf)).2 := by
    obtain ⟨file, hf⟩ := hf
    refine .of_asked ?_ (.of_update hfiles) (sameOthers_update d s file hf) (Nat.le_of_eq hr.symm)
    intro r ref flags he
    cases he
  have hm (file : OpenFile) : m.over disk (Line.asked s d (Line.writeRequest s d buf) file)
      (B b (Line.writeRequest s d buf)).2 = (m.over disk s b).setFile h.path content' := by
    simp only [Machine.over, hfiles]
    rfl
  -- What fails leaves the file as it was.
  have hsame : content' = content → (m.over disk s b).setFile h.path content' = m.over disk s b := by
    rintro rfl
    have hf : Function.update (disk.files b) h.path (some content') = disk.files b := by
      rw [← ho.file, Function.update_eq_self]
    simp only [Machine.over, Machine.setFile, hf]
  unfold Line.wp
  cases hB : (B b (Line.writeRequest s d buf)).1 with
  | refused code hc =>
    rw [hB] at hlaw
    rw [Line.write_refused hB]
    refine ⟨hkept ⟨_, rfl⟩ rfl, by simp [Line.asked], rfl, ?_⟩
    cases hlaw
    rw [hm, hsame rfl]
    simp only [Line.asked, Function.update_eq_self]
    exact .writeFails rfl (show (-1 : Int) < 0 by decide) (.inl rfl)
  | completes answer =>
    rw [hB] at hlaw
    rw [Line.write_completes hB]
    refine ⟨hkept ⟨_, rfl⟩ rfl, ?_, rfl, ?_⟩
    · simp [Line.asked, NaClFs.OpenFile.advance, NaClFs.OpenFile.grow]
    obtain ⟨hoff, hinfo⟩ := OpenFile.grow_known ((s.files d).advance answer.code)
    rw [hm]
    simp only [Line.asked, Function.update_self, Description.of, hoff, hinfo]
    cases hlaw with
    | failed hc =>
      rw [hsame rfl, OpenFile.advance_error _ hc]
      exact .writeFails rfl hc (.inr rfl)
    | count hc h0 hw hn =>
      rw [hc, OpenFile.advance_count]
      exact .write rfl ho.file h0 hw hn

theorem seek_acts (m : Machine) (h : Handle) (offset whence : Int) :
    Line.wp (Line.seek d offset whence) (Acted disk m h d (.seek offset whence) s b) s b := by
  have ht : Line.target (s.files d) offset whence =
      target (s.files d).offset (s.files d).fileInfo offset whence := rfl
  unfold Line.wp
  rw [Line.seek_eq, ht]
  cases hg : target (s.files d).offset (s.files d).fileInfo offset whence with
  | none => exact ⟨.refl disk d s b, rfl, rfl, .seekNowhere rfl hg⟩
  | some position =>
    refine ⟨.of_store (sameOthers_update d s _ rfl) rfl, by simp, rfl, ?_⟩
    simp only [Function.update_self, Description.of]
    exact .seek rfl hg

theorem fstat_acts (m : Machine) (ho : OpenOnFile disk s b d r h content) (buf : Nat) :
    Line.wp (Line.fstat B d buf) (Acted disk m h d (.fstat buf) s b) s b := by
  have hlaw := disk.queries b r h content ho.handle ho.file
  have hfiles := disk.files_same b (.query (s.files d).fileIo) rfl
  rw [← ho.fileIo] at hlaw
  unfold Line.fstat
  rw [Line.wp_bind, Line.wp_get, Line.wp_bind, Line.wp_ask]
  cases hB : (B b (.query (s.files d).fileIo)).1 with
  | refused code hc =>
    refine ⟨.of_same rfl (fun _ _ => rfl) (Nat.le_refl _), rfl, rfl, ?_⟩
    have hm : m.over disk { s with requests := s.requests ++ [.query (s.files d).fileIo] }
        (B b (.query (s.files d).fileIo)).2 = m.over disk s b := by
      simp only [Machine.over, hfiles]
    rw [hm]
    exact .fstatRefused rfl (ppErrorToErrNo_pos code)
  | completes answer =>
    rw [hB] at hlaw
    refine ⟨.of_same rfl (fun d' hd => Function.update_of_ne hd ..) (Nat.le_refl _), by simp, rfl, ?_⟩
    have hi : (answer.info.getD (s.files d).fileInfo) = (s.files d).fileInfo ∨
        ∃ content, (m.over disk s b).files h.path = some content ∧
          (answer.info.getD (s.files d).fileInfo).Describes content := by
      cases hlaw with
      | failed _ hi =>
        rw [hi]
        exact .inl rfl
      | known hi hd =>
        rw [hi]
        exact .inr ⟨content, ho.file, hd⟩
    have hacts : Acts false (m.over disk s b) (.of h (s.files d)) (.fstat buf) 0
        (.file h (s.files d).offset (answer.info.getD (s.files d).fileInfo))
        ((m.over disk s b).setStat buf ((answer.info.getD (s.files d).fileInfo).toStat sIRwxU)) := .fstat rfl hi
    simp only [Machine.over, hfiles, Description.of, Function.update_self] at hacts ⊢
    exact hacts

/-- A program through a descriptor that is open on a file, other than a `Close`. -/
theorem program_acts (m : Machine) (ho : OpenOnFile disk s b d r h content) {f : Function}
    (hu : f.use = .descriptor) (hc : f ≠ .close) :
    Line.wp (Line.program B d f) (Acted disk m h d f s b) s b := by
  cases f with
  | read buf nbytes => exact read_acts m ho buf nbytes
  | write buf => exact write_acts m ho buf
  | seek offset whence => exact seek_acts m h offset whence
  | fstat buf => exact fstat_acts m ho buf
  | isatty => exact ⟨.refl disk d s b, rfl, rfl, .isatty rfl⟩
  | fcntl cmd ap =>
    have hacts : Acts false (m.over disk s b) (.of h (s.files d)) (.fcntl cmd ap)
        (if cmd = fGetFd ∨ cmd = fSetFd ∧ ap = fdCloexec then 0 else -1) (.of h (s.files d))
        (m.over disk s b) := .fcntl cmd ap rfl
    change Line.wp (Line.fcntl cmd ap) _ _ _
    unfold Line.fcntl
    by_cases hk : cmd = fGetFd ∨ cmd = fSetFd ∧ ap = fdCloexec
    · rw [if_pos hk] at hacts ⊢
      exact ⟨.refl disk d s b, rfl, rfl, hacts⟩
    · rw [if_neg hk] at hacts ⊢
      exact ⟨.of_store (fun _ _ => rfl) rfl, rfl, rfl, hacts⟩
  | close => exact absurd rfl hc
  | _ => cases hu

end Programs

/-! ## Paths -/

/-- The DIRs and the callers' memory stay. -/
def SameAside (s s' : Store) : Prop := s'.dirs = s.dirs ∧ s'.stats = s.stats ∧ s'.buffers = s.buffers

theorem SameAside.trans (h : SameAside s s') (h' : SameAside s' s'') : SameAside s s'' :=
  ⟨h'.1.trans h.1, h'.2.1.trans h.2.1, h'.2.2.trans h.2.2⟩

theorem needFileSystem_kept (disk : Disk B) (d : Nat) (s : Store) (b : β) :
    Line.wp (Line.needFileSystem B) (fun _ s' b' => Kept disk d s b s' b' ∧
      disk.files b' = disk.files b ∧ SameAside s s' ∧ s'.files = s.files) s b := by
  apply Line.wp_needFileSystem
  · intro filesystem _
    exact ⟨.refl disk d s b, rfl, ⟨rfl, rfl, rfl⟩, rfl⟩
  · rintro _ request answer rfl _
    exact ⟨.of_same rfl (fun _ _ => rfl) (Nat.le_succ _), disk.files_same b _ rfl, ⟨rfl, rfl, rfl⟩, rfl⟩

/-- A new file of the delegate leaves the handles there were. -/
theorem openFile_kept (disk : Disk B) (d : Nat) (s : Store) (b : β) (ref : FileRef) (flags : BitVec 32)
    (hk : disk.Keeps b (B b (.fileOpen s.resources ref flags)).2) :
    Kept disk d s b (s.withFile d ref flags) (B b (.fileOpen s.resources ref flags)).2 := by
  refine ⟨fun d' hd => Function.update_of_ne hd .., Nat.le_succ _, fun r hr => ?_, hk⟩
  refine disk.handle_same b _ r fun ref' flags' he => ?_
  cases he
  omega

theorem query_kept (disk : Disk B) (d : Nat) (s : Store) (b : β) :
    Line.wp (Line.query B d) (fun code s' b' => Kept disk d s b s' b' ∧ disk.files b' = disk.files b ∧
      SameAside s s' ∧ (∀ r, disk.handle b' r = disk.handle b r) ∧
      ∃ answer, (B b (.query (s.files d).fileIo)).1 = .completes answer ∧ code = answer.code ∧
        s'.files d = { s.files d with fileInfo := answer.info.getD (s.files d).fileInfo }) s b := by
  apply Line.wp_query
  intro answer hB
  refine ⟨.of_same rfl (fun d' hd => Function.update_of_ne hd ..) (Nat.le_refl _), disk.files_same b _ rfl,
    ⟨rfl, rfl, rfl⟩, fun r => ?_, answer, hB, rfl, by rw [Store.withInfo_files]⟩
  exact disk.handle_same b _ r fun ref flags he => by cases he

/-- How an `Open` of a path ends. -/
inductive OpenEnds (disk : Disk B) (d : Nat) (path : Str) (oflag : BitVec 32) (s : Store) (b : β) (s' : Store)
    (b' : β) : Result → Prop
  | fails {errno : Int} (he : 0 < errno) (hf : disk.files b' = disk.files b) :
      OpenEnds disk d path oflag s b s' b' (.int errno)
  | late {errno : Int} {content : Str} (he : 0 < errno)
      (ho : Opens (openFlags oflag) (disk.files b path) content)
      (hf : disk.files b' = Function.update (disk.files b) path (some content)) :
      OpenEnds disk d path oflag s b s' b' (.int errno)
  | opened {r : Nat} {content : Str} (ho : Opens (openFlags oflag) (disk.files b path) content)
      (hf : disk.files b' = Function.update (disk.files b) path (some content))
      (hopen : OpenOnFile disk s' b' d r ⟨path, openFlags oflag⟩ content) (hr : r < s'.resources)
      (hi : (s'.files d).fileInfo.Describes content)
      (hoff : (s'.files d).offset =
        if oflag &&& oAppend ≠ 0 then (s'.files d).fileInfo.size else (s.files d).offset) :
      OpenEnds disk d path oflag s b s' b' (.int 0)

/-- An opening of a new file, from before it. -/
theorem open_ends (disk : Disk B) (d : Nat) (path : Str) (oflag : BitVec 32) (s : Store) (b : β) :
    Line.wp (Line.open_ B d path oflag) (fun answer s' b' => Kept disk d s b s' b' ∧ SameAside s s' ∧
      OpenEnds disk d path oflag s b s' b' answer) s b := by
  unfold Line.open_
  rw [Line.wp_bind]
  refine (needFileSystem_kept disk d s b).mono ?_
  rintro ⟨filesystem, code⟩ s₁ b₁ ⟨hk₁, hf₁, ha₁, hs₁⟩
  dsimp only
  rw [Line.wp_bind, Line.wp_openFile]
  have hmade := openFile_kept disk d s₁ b₁ ⟨filesystem, path⟩ (openFlags oflag)
  have hside : SameAside s (s₁.withFile d ⟨filesystem, path⟩ (openFlags oflag)) :=
    ha₁.trans ⟨rfl, rfl, rfl⟩
  cases hok : (B b₁ (.fileOpen s₁.resources ⟨filesystem, path⟩ (openFlags oflag))).1.ok with
  | false =>
    have hf := (disk.openFails b₁ s₁.resources ⟨filesystem, path⟩ (openFlags oflag) hok).1
    have hk := hk₁.trans (hmade (.of_eq hf))
    have hfail (code : Int) : OpenEnds disk d path oflag s b
        (s₁.withFile d ⟨filesystem, path⟩ (openFlags oflag))
        (B b₁ (.fileOpen s₁.resources ⟨filesystem, path⟩ (openFlags oflag))).2 (.int (ppErrorToErrNo code)) :=
      .fails (ppErrorToErrNo_pos code) (hf.trans hf₁)
    cases hB : (B b₁ (.fileOpen s₁.resources ⟨filesystem, path⟩ (openFlags oflag))).1 with
    | refused code' hc => exact ⟨hk, hside, hfail code⟩
    | completes answer =>
      have hne : answer.code ≠ 0 := by
        rw [hB] at hok
        simpa [Reply.ok] using hok
      dsimp only [Line.opening]
      rw [if_pos hne]
      exact ⟨hk, hside, hfail answer.code⟩
  | true =>
    obtain ⟨hh, content, ho, hf⟩ :=
      disk.opens b₁ s₁.resources ⟨filesystem, path⟩ (openFlags oflag) hok
    have hk := hk₁.trans (hmade (.of_update hf))
    dsimp only at ho hf hh
    rw [hf₁] at ho hf
    cases hB : (B b₁ (.fileOpen s₁.resources ⟨filesystem, path⟩ (openFlags oflag))).1 with
    | refused code' hc =>
      rw [hB] at hok
      cases hok
    | completes answer =>
      have h0 : answer.code = 0 := by
        rw [hB] at hok
        simpa [Reply.ok] using hok
      dsimp only [Line.opening]
      rw [if_neg (not_not_intro h0), Line.wp_bind]
      generalize (B b₁ (.fileOpen s₁.resources ⟨filesystem, path⟩ (openFlags oflag))).2 = b₂ at hf hh hk
      refine (query_kept disk d _ b₂).mono ?_
      rintro code' s₃ b₃ ⟨hk₃, hf₃, ha₃, hh₃, answer', hB', rfl, hs₃⟩
      have hf' := hf₃.trans hf
      dsimp only [Line.opened]
      by_cases hc : answer'.code = 0
      · -- The file is open and known.
        have hlaw := disk.queries b₂ s₁.resources ⟨path, openFlags oflag⟩ content hh (by
          rw [hf, Function.update_self])
        rw [Store.withFile_files] at hB' hs₃
        rw [hB'] at hlaw
        have hinfo : (s₃.files d).fileInfo.Describes content := by
          rw [hs₃]
          cases hlaw with
          | failed hn => exact absurd hc hn
          | known hi hd =>
            rw [hi]
            exact hd
        have hio : (s₃.files d).fileIo = some s₁.resources := by rw [hs₃]
        have hlt : s₁.resources < s₃.resources := hk₃.resources
        have hoff : (s₃.files d).offset = (s.files d).offset := by rw [hs₃, hs₁]
        rw [if_neg (not_not_intro hc), Line.wp_bind, Line.wp_modifyFile, Line.wp_pure]
        refine ⟨?_, ?_, .opened ho hf' ⟨?_, ?_, ?_⟩ hlt ?_ ?_⟩
        · exact (hk.trans hk₃).trans (.of_store (fun d' hd => Function.update_of_ne hd ..) rfl)
        · exact (hside.trans ha₃).trans ⟨rfl, rfl, rfl⟩
        · dsimp only
          rw [Function.update_self]
          exact hio
        · rw [hh₃, hh]
        · rw [hf', Function.update_self]
        · dsimp only
          rw [Function.update_self]
          exact hinfo
        · dsimp only
          rw [Function.update_self]
          unfold NaClFs.OpenFile.start
          dsimp only
          rw [hoff]
      · rw [if_pos hc, Line.wp_pure]
        exact ⟨hk.trans hk₃, hside.trans ha₃, .late (ppErrorToErrNo_pos _) ho hf'⟩

/-- An opening without flags leaves the files. -/
theorem files_of_opens_zero {path content : Str} (ho : Opens 0 (disk.files b path) content)
    (hf : disk.files b' = Function.update (disk.files b) path (some content)) :
    disk.files b path = some content ∧ disk.files b' = disk.files b := by
  have hsame := ho.same (by decide) (by decide)
  refine ⟨hsame, ?_⟩
  rw [hf, ← hsame, Function.update_eq_self]

/-- What a `Stat` leaves: the DIRs stay, and it looks at the file. -/
structure Looked (disk : Disk B) (m : Machine) (d : Nat) (path : Str) (buf : Nat) (s : Store) (b : β)
    (answer : Result) (s' : Store) (b' : β) : Prop where
  kept : Kept disk d s b s' b'
  dirs : s'.dirs = s.dirs
  looks : Looks false (m.over disk s b) path buf answer.toInt (m.over disk s' b')

variable (disk) in
theorem stat_looks (m : Machine) {path : Str} (hd : ¬ (str "/dev/std").isPrefixOf path) (d buf : Nat)
    (s : Store) (b : β) :
    Line.wp (Line.stat B d path buf) (Looked disk m d path buf s b) s b := by
  -- The three ways a look ends.
  have hfail {s' : Store} {b' : β} (code : Int) (hk : Kept disk d s b s' b') (ha : SameAside s s')
      (hf : disk.files b' = disk.files b) :
      Looked disk m d path buf s b (.int (ppErrorToErrNo code)) s' b' := by
    refine ⟨hk, ha.1, ?_⟩
    have hm : m.over disk s' b' = m.over disk s b := by simp only [Machine.over, hf, ha.2.1, ha.2.2]
    rw [hm]
    exact .fails hd (ppErrorToErrNo_pos code)
  have hfill {s' : Store} {b' : β} {st : Stat} (hk : Kept disk d s b s' b') (ha : SameAside s s')
      (hf : disk.files b' = disk.files b)
      (hl : Looks false (m.over disk s b) path buf 0 ((m.over disk s b).setStat buf st)) :
      Looked disk m d path buf s b (.int 0)
        { s' with stats := Function.update s'.stats buf st } b' := by
    refine ⟨hk.trans (.of_store (fun _ _ => rfl) rfl), ha.1, ?_⟩
    simp only [Machine.over, Machine.setStat, hf, ha.2.1, ha.2.2] at hl ⊢
    exact hl
  unfold Line.stat
  rw [Line.wp_bind]
  refine (needFileSystem_kept disk d s b).mono ?_
  rintro ⟨filesystem, code⟩ s₁ b₁ ⟨hk₁, hf₁, ha₁, hs₁⟩
  dsimp only
  rw [Line.wp_bind, Line.wp_openFile]
  have hmade := openFile_kept disk d s₁ b₁ ⟨filesystem, path⟩ 0
  have hside : SameAside s (s₁.withFile d ⟨filesystem, path⟩ 0) := ha₁.trans ⟨rfl, rfl, rfl⟩
  cases hok : (B b₁ (.fileOpen s₁.resources ⟨filesystem, path⟩ 0)).1.ok with
  | false =>
    obtain ⟨hf, hnone⟩ := disk.openFails b₁ s₁.resources ⟨filesystem, path⟩ 0 hok
    have hk := hk₁.trans (hmade (.of_eq hf))
    cases hB : (B b₁ (.fileOpen s₁.resources ⟨filesystem, path⟩ 0)).1 with
    | refused code' hc => exact hfail code' hk hside (hf.trans hf₁)
    | completes answer =>
      have hne : answer.code ≠ 0 := by
        rw [hB] at hok
        simpa [Reply.ok] using hok
      dsimp only [Line.statting]
      by_cases hna : answer.code = ppErrorNotAFile
      · -- What is no file counts as a directory.
        rw [if_pos hna]
        refine hfill hk hside (hf.trans hf₁) (.directory hd rfl ?_)
        have := hnone answer hB hna
        rw [hf₁] at this
        exact this
      · rw [if_neg hna, if_pos hne]
        exact hfail answer.code hk hside (hf.trans hf₁)
  | true =>
    obtain ⟨hh, content, ho, hf⟩ := disk.opens b₁ s₁.resources ⟨filesystem, path⟩ 0 hok
    obtain ⟨hcontent, hsame⟩ := files_of_opens_zero ho hf
    have hk := hk₁.trans (hmade (.of_eq hsame))
    dsimp only at hcontent hh
    cases hB : (B b₁ (.fileOpen s₁.resources ⟨filesystem, path⟩ 0)).1 with
    | refused code' hc =>
      rw [hB] at hok
      cases hok
    | completes answer =>
      have h0 : answer.code = 0 := by
        rw [hB] at hok
        simpa [Reply.ok] using hok
      dsimp only [Line.statting]
      rw [h0, if_neg (by decide), if_neg (by decide), Line.wp_bind]
      generalize (B b₁ (.fileOpen s₁.resources ⟨filesystem, path⟩ 0)).2 = b₂ at hsame hh hk
      refine (query_kept disk d _ b₂).mono ?_
      rintro code' s₃ b₃ ⟨hk₃, hf₃, ha₃, -, answer', hB', rfl, hs₃⟩
      have hf' := (hf₃.trans hsame).trans hf₁
      dsimp only [Line.queried]
      by_cases hc : answer'.code = 0
      · have hlaw := disk.queries b₂ s₁.resources ⟨path, 0⟩ content hh (by rw [hsame]; exact hcontent)
        rw [Store.withFile_files] at hB' hs₃
        rw [hB'] at hlaw
        have hinfo : (s₃.files d).fileInfo.Describes content := by
          rw [hs₃]
          cases hlaw with
          | failed hn => exact absurd hc hn
          | known hi hd =>
            rw [hi]
            exact hd
        rw [if_neg (not_not_intro hc)]
        refine hfill (hk.trans hk₃) (hside.trans ha₃) hf' (.file hd rfl ?_ hinfo)
        rw [hf₁] at hcontent
        exact hcontent
      · rw [if_pos hc]
        exact hfail answer'.code (hk.trans hk₃) (hside.trans ha₃) hf'

theorem mkDir_kept (disk : Disk B) (d : Nat) (path : Str) (s : Store) (b : β) :
    Line.wp (Line.mkDir B path) (fun _ s' b' => Kept disk d s b s' b' ∧ SameAside s s' ∧
      disk.files b' = disk.files b) s b := by
  unfold Line.mkDir
  rw [Line.wp_bind]
  refine (needFileSystem_kept disk d s b).mono ?_
  rintro ⟨filesystem, code⟩ s₁ b₁ ⟨hk₁, hf₁, ha₁, -⟩
  have hf := disk.files_same b₁ (.makeDirectory ⟨filesystem, path⟩) rfl
  have hk : Kept disk d s b { s₁ with requests := s₁.requests ++ [.makeDirectory ⟨filesystem, path⟩] }
      (B b₁ (.makeDirectory ⟨filesystem, path⟩)).2 :=
    hk₁.trans (.of_same rfl (fun _ _ => rfl) (Nat.le_refl _))
  dsimp only [Line.makeDirectory]
  rw [Line.wp_bind, Line.wp_ask]
  split
  · exact ⟨hk, ha₁, hf.trans hf₁⟩
  · exact ⟨hk, ha₁, hf.trans hf₁⟩

theorem openDir_kept (disk : Disk B) (d : Nat) (dirname : Str) (s : Store) (b : β) :
    Line.wp (Line.openDir B d dirname) (fun answer s' b' => Kept disk d s b s' b' ∧
      disk.files b' = disk.files b ∧ s'.stats = s.stats ∧ s'.buffers = s.buffers ∧
      answer = .dir (some s.dirs.length) ∧ ∃ filesystem, s'.dirs = s.dirs ++
        [some { delegate := d, directoryRef := ⟨filesystem, dirname⟩ }]) s b := by
  unfold Line.openDir
  rw [Line.wp_bind]
  refine (needFileSystem_kept disk d s b).mono ?_
  rintro ⟨filesystem, code⟩ s₁ b₁ ⟨hk₁, hf₁, ha₁, -⟩
  dsimp only [Line.newDir]
  rw [Line.wp_bind, Line.wp_get, Line.wp_bind, Line.wp_modify, Line.wp_pure]
  refine ⟨hk₁.trans (.of_store (fun _ _ => rfl) rfl), hf₁, ha₁.2.1, ha₁.2.2, ?_, filesystem, ?_⟩
  · rw [ha₁.1]
  · dsimp only
    rw [ha₁.1]

/-- A program through a path leaves the other delegates. -/
theorem path_kept (disk : Disk B) (d : Nat) (s : Store) (b : β) {f : Function} (hu : f.use = .path)
    (hd : ∀ path buf, f = .stat path buf → ¬ (str "/dev/std").isPrefixOf path) :
    Line.wp (Line.program B d f) (fun _ s' b' => Kept disk d s b s' b') s b := by
  cases f with
  | open_ path oflag cmode => exact (open_ends disk d path oflag s b).mono fun _ _ _ h => h.1
  | stat path buf =>
    have m : Machine := ⟨fun _ => none, [], [], [], [], [], fun _ => [], fun _ => .zero⟩
    exact (stat_looks disk m (hd path buf rfl) d buf s b).mono fun _ _ _ h => h.kept
  | mkdir path mode => exact (mkDir_kept disk d path s b).mono fun _ _ _ h => h.1
  | opendir dirname => exact (openDir_kept disk d dirname s b).mono fun _ _ _ h => h.1
  | _ => cases hu

/-! ## DIRs -/

/-- What a DIR shows. -/
def Cursor.of (dir : Listing) : Cursor :=
  ⟨dir.directoryRef.path, if dir.read then some dir.entries else none, dir.offset⟩

/-- A DIR that was not listed has nothing to read. -/
def Listing.Unread (dir : Listing) : Prop := dir.read = false → dir.entries = [] ∧ dir.offset = 0

theorem Listing.Unread.of_read {dir : Listing} (hr : dir.read = true) : Listing.Unread dir := by
  intro h
  rw [hr] at h
  cases h

/-- A DIR that is rewound without being listed is as before. -/
theorem Listing.Unread.rewind {dir : Listing} (hu : Listing.Unread dir) (hr : dir.read = false) :
    dir.rewind = dir := by
  have := (hu hr).2
  cases dir
  simp_all [NaClFs.Listing.rewind]

/-- The place behind the next name of a listing. -/
def placeAfter (names : List Str) (next : Nat) : Nat := if next < names.length then next + 1 else next

/-- A read of a DIR, with the reply to the request it makes where the DIR was not listed. -/
inductive Cursor.Reads (x : Cursor) : Option Reply → Option Str → Cursor → Prop
  | listed {names : List Str} (hl : x.names = some names) :
      Reads x none (names[x.next]?.map dName) { x with next := placeAfter names x.next }
  | lists {answer : Answer} (hl : x.names = none) (hc : answer.code = ppOk) :
      Reads x (some (.completes answer)) (answer.entries[x.next]?.map dName)
        { x with names := some answer.entries, next := placeAfter answer.entries x.next }
  | fails {reply : Reply} (hl : x.names = none) (hr : reply.ok = false) : Reads x (some reply) none x

/-- The next name of a listing the DIR has or gets. -/
theorem Cursor.readsNext_names {x : Cursor} {names : List Str} (hl : x.names = some names ∨ x.names = none) :
    x.ReadsNext (names[x.next]?.map dName) { x with names := some names, next := placeAfter names x.next } := by
  unfold placeAfter
  by_cases hlt : x.next < names.length
  · rw [if_pos hlt, List.getElem?_eq_getElem hlt]
    exact .name hl (List.getElem?_eq_getElem hlt)
  · have hn : names[x.next]? = none := List.getElem?_eq_none (Nat.le_of_not_lt hlt)
    rw [if_neg hlt, hn]
    exact .atEnd hl hn

theorem Cursor.Reads.readsNext {x x' : Cursor} {asked : Option Reply} {name : Option Str}
    (h : x.Reads asked name x') : x.ReadsNext name x' := by
  cases h with
  | listed hl =>
    have hx := Cursor.readsNext_names (.inl hl)
    rw [← hl] at hx
    exact hx
  | lists hl => exact Cursor.readsNext_names (.inr hl)
  | fails hl => exact .fails hl

/-- The next entry of a DIR that was listed. -/
theorem readDirNext_cursor (dir : Listing) (hr : dir.read = true) :
    Listing.Unread dir.readDirNext.1 ∧ dir.readDirNext.2 = dir.entries[dir.offset]?.map dName ∧
      Cursor.of dir.readDirNext.1 =
        ⟨dir.directoryRef.path, some dir.entries, placeAfter dir.entries dir.offset⟩ := by
  unfold Listing.readDirNext placeAfter
  cases ho : dir.entries[dir.offset]? with
  | none =>
    refine ⟨.of_read hr, rfl, ?_⟩
    rw [if_neg (Nat.not_lt.2 (List.getElem?_eq_none_iff.1 ho))]
    simp only [Cursor.of, hr, if_true]
  | some name =>
    refine ⟨.of_read hr, rfl, ?_⟩
    rw [if_pos (List.getElem?_eq_some_iff.1 ho).1]
    simp only [Cursor.of, hr, if_true]

/-- What a program leaves that touches one DIR at most. -/
structure OnDir (disk : Disk B) (d : Nat) (s : Store) (b : β) (s' : Store) (b' : β) : Prop where
  kept : Kept disk d s b s' b'
  files : s'.files = s.files
  same : disk.files b' = disk.files b
  stats : s'.stats = s.stats
  buffers : s'.buffers = s.buffers

theorem OnDir.of_store (disk : Disk B) (d : Nat) (b : β) (hf : s'.files = s.files)
    (hr : s'.resources = s.resources) (hs : s'.stats = s.stats) (hb : s'.buffers = s.buffers) :
    OnDir disk d s b s' b :=
  ⟨.of_store (fun d' _ => by rw [hf]) hr, hf, rfl, hs, hb⟩

theorem OnDir.of_listing (disk : Disk B) (d : Nat) (b : β) (ref : FileRef) (hf : s'.files = s.files)
    (hr : s'.resources = s.resources) (hs : s'.stats = s.stats) (hb : s'.buffers = s.buffers) :
    OnDir disk d s b s' (B b (.readDirectoryEntries ref)).2 :=
  ⟨.of_same rfl (fun d' _ => by rw [hf]) (Nat.le_of_eq hr.symm), hf, disk.files_same b _ rfl, hs, hb⟩

/-- What became of the backend: nothing, or the request for the listing. -/
def Listed (B : Backend β) (ref : FileRef) (b : β) (asked : Option Reply) (b' : β) : Prop :=
  asked = none ∧ b' = b ∨
    asked = some (B b (.readDirectoryEntries ref)).1 ∧ b' = (B b (.readDirectoryEntries ref)).2

theorem readDir_reads {dirp : Nat} {dir : Listing} (disk : Disk B) (d : Nat)
    (hd : s.dirs[dirp]?.join = some dir) (hu : Listing.Unread dir) :
    Line.wp (Line.readDir B dirp) (fun answer s' b' => OnDir disk d s b s' b' ∧ ∃ asked name dir',
      answer = .dirent name ∧ s'.dirs = s.dirs.set dirp (some dir') ∧ Listing.Unread dir' ∧
      (Cursor.of dir).Reads asked name (.of dir') ∧ Listed B dir.directoryRef b asked b') s b := by
  unfold Line.readDir
  rw [Line.wp_bind, Line.wp_get]
  split
  · rename_i hn
    rw [hd] at hn
    cases hn
  rename_i dir' hd'
  rw [hd] at hd'
  cases hd'
  by_cases hr : dir.read = true
  · rw [if_pos hr]
    obtain ⟨hu', hn, hx⟩ := readDirNext_cursor dir hr
    have hl : (Cursor.of dir).names = some dir.entries := if_pos hr
    refine ⟨.of_store disk d b rfl rfl rfl rfl, none, _, _, rfl, rfl, hu', ?_, .inl ⟨rfl, rfl⟩⟩
    rw [hn, hx, ← hl]
    exact .listed hl
  · rw [if_neg hr, Line.wp_bind, Line.wp_ask]
    have hr' : dir.read = false := by simpa using hr
    have hrw := hu.rewind hr'
    have hl : (Cursor.of dir).names = none := if_neg hr
    have hset (dir' : Listing) : OnDir disk d s b
        { s with
          requests := s.requests ++ [.readDirectoryEntries dir.directoryRef]
          dirs := s.dirs.set dirp (some dir') } (B b (.readDirectoryEntries dir.directoryRef)).2 :=
      .of_listing disk d b dir.directoryRef rfl rfl rfl rfl
    have hasked : Listed B dir.directoryRef b (some (B b (.readDirectoryEntries dir.directoryRef)).1)
        (B b (.readDirectoryEntries dir.directoryRef)).2 := .inr ⟨rfl, rfl⟩
    cases hB : (B b (.readDirectoryEntries dir.directoryRef)).1 with
    | refused code hc =>
      rw [hB] at hasked
      dsimp only
      rw [hrw]
      have hnext : dir.readDirNext = (dir, none) := by
        unfold Listing.readDirNext
        rw [(hu hr').1]
        rfl
      split
      · refine ⟨hset _, _, none, dir, ?_, ?_, hu, .fails hl rfl, hasked⟩
        · rw [hnext]
        · dsimp only
          rw [hnext]
      · exact ⟨hset _, _, none, dir, rfl, rfl, hu, .fails hl rfl, hasked⟩
    | completes answer =>
      rw [hB] at hasked
      dsimp only
      rw [hrw]
      by_cases h0 : answer.code = 0
      · rw [if_neg (not_not_intro h0)]
        have hlist : dir.onReadDirectoryEntries answer.code answer.entries =
            { dir with entries := answer.entries, read := true } := by
          rw [Listing.onReadDirectoryEntries, if_pos (show answer.code = ppOk from h0), (hu hr').1,
            List.nil_append]
        obtain ⟨hu', hn, hx⟩ := readDirNext_cursor { dir with entries := answer.entries, read := true } rfl
        rw [hlist]
        refine ⟨hset _, _, _, _, rfl, rfl, hu', ?_, hasked⟩
        rw [hn, hx]
        exact .lists hl h0
      · rw [if_pos h0]
        have hlist : dir.onReadDirectoryEntries answer.code answer.entries = dir := if_neg h0
        rw [hlist]
        exact ⟨hset _, _, none, dir, rfl, rfl, hu, .fails hl (by simpa [Reply.ok] using h0), hasked⟩

end Unix

end NaClFs
