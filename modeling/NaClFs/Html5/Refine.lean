/-
The chained runs of the main thread are the straight-line program: each operation, entered in each
phase its flags can be in, against the rest of its program from there.
-/
import NaClFs.Html5.Phase

namespace NaClFs

variable {w : World} {call d : Nat} {f : Function} {β : Type} {B : Backend β} {b : β} {n : Nat}
  {result : Int}

/-! ## Transfers -/

theorem serve_read_waiting {buf nbytes : Nat} (hp : Phase w call d (.read buf nbytes) true false) :
    Agrees (serve B 1 w b call result) (some (.int result),
      { w.store with files := Function.update w.store.files d ((w.store.files d).advance result) },
      b) := by
  refine .done hp.arguments (e := {
      world := w.setDelegate d
        { w.delegates d with waiting := false, toOpenFile := (w.delegates d).advance result }
      result := .int result })
    (by simp [Html5FileSystem.switch, Html5FileSystem.readCall, hp.waiting]) rfl
    (hp.set rfl hp.querying).quiescent ?_
  simp [World.issue, Backend.after]

theorem serve_read {buf nbytes : Nat} (hp : Phase w call d (.read buf nbytes) false false) :
    Agrees (serve B 2 w b call 0) (Line.read B d buf nbytes w.store b) := by
  cases hB : (B b (.read (w.delegates d).fileIo (w.delegates d).offset buf (toInt nbytes))).1 with
  | refused code hc =>
    refine .done hp.arguments (e := {
        world := w
        result := .int (-1)
        request := some (.read (w.delegates d).fileIo (w.delegates d).offset buf (toInt nbytes)) })
      (by simp [Html5FileSystem.switch, Html5FileSystem.readCall, hp.waiting, imm_refused hB, hc])
      rfl hp.quiescent ?_
    simp [Line.read, Line.bind_run, hB, World.issue, Backend.after]
  | completes answer =>
    refine .chains hp.arguments (e := {
        world := w.setDelegate d { w.delegates d with waiting := true }
        result := .int 0
        chaining := true
        request := some (.read (w.delegates d).fileIo (w.delegates d).offset buf (toInt nbytes))
        completion := some (.read buf (w.delegates d).callback) })
      (by simp [Html5FileSystem.switch, Html5FileSystem.readCall, hp.waiting, imm_completes hB])
      rfl rfl rfl hB hp.callback fun w' hw => ?_
    have hp' : Phase w' call d (.read buf nbytes) true false := by
      rw [← hw]
      exact (hp.set rfl hp.querying).of_eq rfl rfl
    refine .of_eq (serve_read_waiting hp') ?_
    simp [← hw, deliver, Line.read, Line.bind_run, hB, Line.modifyFile]

theorem serve_write_waiting {buf : Str} (hp : Phase w call d (.write buf) true false) :
    Agrees (serve B 1 w b call result) (some (.int result),
      { w.store with
        files := Function.update w.store.files d ((w.store.files d).advance result).grow }, b) := by
  refine .done hp.arguments (e := {
      world := w.setDelegate d
        { w.delegates d with waiting := false, toOpenFile := ((w.delegates d).advance result).grow }
      result := .int result })
    (by simp [Html5FileSystem.switch, Html5FileSystem.writeCall, hp.waiting]) rfl
    (hp.set rfl hp.querying).quiescent ?_
  simp [World.issue, Backend.after]

theorem serve_write {buf : Str} (hp : Phase w call d (.write buf) false false) :
    Agrees (serve B 2 w b call 0) (Line.write B d buf w.store b) := by
  cases hB : (B b (.write (w.delegates d).fileIo (w.delegates d).offset buf (toInt buf.length))).1 with
  | refused code hc =>
    refine .done hp.arguments (e := {
        world := w
        result := .int (-1)
        request := some (.write (w.delegates d).fileIo (w.delegates d).offset buf (toInt buf.length)) })
      (by simp [Html5FileSystem.switch, Html5FileSystem.writeCall, hp.waiting, imm_refused hB, hc])
      rfl hp.quiescent ?_
    simp [Line.write, Line.bind_run, hB, World.issue, Backend.after]
  | completes answer =>
    refine .chains hp.arguments (e := {
        world := w.setDelegate d { w.delegates d with waiting := true }
        result := .int 0
        chaining := true
        request := some (.write (w.delegates d).fileIo (w.delegates d).offset buf (toInt buf.length))
        completion := some (.proxy (w.delegates d).callback) })
      (by simp [Html5FileSystem.switch, Html5FileSystem.writeCall, hp.waiting, imm_completes hB])
      rfl rfl rfl hB hp.callback fun w' hw => ?_
    have hp' : Phase w' call d (.write buf) true false := by
      rw [← hw]
      exact (hp.set rfl hp.querying).of_eq rfl rfl
    refine .of_eq (serve_write_waiting hp') ?_
    simp [← hw, deliver, Line.write, Line.bind_run, hB, Line.modifyFile]

theorem serve_close (hp : Phase w call d .close false false) :
    Agrees (serve B 1 w b call 0) (Line.close B d w.store b) :=
  .done hp.arguments rfl rfl hp.quiescent
    (by simp [Html5FileSystem.switch, Html5FileSystem.closeCall, Line.close, Line.bind_run,
      World.issue, Backend.after])

theorem serve_move {pos : Int} (hp : Phase w call d f false false)
    (he : Html5FileSystem.switch (B.imm b) w d 0 f =
      { world := w.setDelegate d { w.delegates d with offset := pos }, result := .int pos }) :
    Agrees (serve B 1 w b call 0) (Line.moveTo d pos w.store b) := by
  refine .done hp.arguments he rfl ?_ ?_
  · exact (hp.set hp.waiting hp.querying).quiescent
  · simp [Line.moveTo, Line.modifyFile, Line.bind_run, World.issue, Backend.after]

theorem serve_seek {offset whence : Int} (hp : Phase w call d (.seek offset whence) false false) :
    Agrees (serve B 1 w b call 0) (Line.seek d offset whence w.store b) := by
  rw [Line.seek, Line.bind_run, Line.get_run]
  simp only
  split_ifs with h0 h1 h2
  · exact serve_move hp (by simp [Html5FileSystem.switch, Html5FileSystem.seekCall, h0])
  · exact serve_move hp (by
      rw [Html5FileSystem.switch, Html5FileSystem.seekCall, if_neg h0, if_pos h1]; rfl)
  · exact serve_move hp (by
      rw [Html5FileSystem.switch, Html5FileSystem.seekCall, if_neg h0, if_neg h1, if_pos h2]; rfl)
  · refine .done hp.arguments (e := { world := w, result := .int (-1) }) ?_ rfl hp.quiescent rfl
    rw [Html5FileSystem.switch, Html5FileSystem.seekCall, if_neg h0, if_neg h1, if_neg h2]

theorem serve_isatty (hp : Phase w call d .isatty false false) :
    Agrees (serve B 1 w b call 0) ((pure (.int (-1)) : Line β Result) w.store b) :=
  .done hp.arguments rfl rfl hp.quiescent rfl

theorem serve_fcntl {cmd ap : Int} (hp : Phase w call d (.fcntl cmd ap) false false) :
    Agrees (serve B 1 w b call 0) (Line.fcntl cmd ap w.store b) := by
  by_cases h : cmd = fGetFd ∨ cmd = fSetFd ∧ ap = fdCloexec
  · refine .done hp.arguments (e := { world := w, result := .int 0 }) ?_ rfl hp.quiescent
      (by simp [Line.fcntl, h, World.issue, Backend.after])
    rcases h with h | h <;> simp [Html5FileSystem.switch, Html5FileSystem.fcntlCall, h]
  · refine .done hp.arguments (e := { world := { w with errno := enosys }, result := .int (-1) })
      ?_ rfl (hp.of_eq rfl rfl).quiescent
      (by simp [Line.fcntl, h, Line.bind_run, World.issue, Backend.after, World.store])
    rw [not_or] at h
    simp [Html5FileSystem.switch, Html5FileSystem.fcntlCall, h]

/-! ### The filesystem -/

/-- A call that needs the filesystem goes on from it, opened by another call or by this one. -/
theorem serve_need {k : Nat × Int → Line β Result} (hp : Phase w call d f false false)
    (hi : ∀ w, w.filesystem = none → ∃ r, Html5FileSystem.switch (B.imm b) w d 0 f =
      { Html5FileSystem.initialize_ (B.imm b) w d with result := r })
    (h : ∀ w b result filesystem, Phase w call d f false false → w.filesystem = some filesystem →
      Agrees (serve B n w b call result) (k (filesystem, result) w.store b)) :
    Agrees (serve B (n + 1) w b call 0) ((Line.needFileSystem B >>= k) w.store b) := by
  cases hfs : w.filesystem with
  | some filesystem =>
    refine .of_eq (h w b 0 filesystem hp hfs).succ ?_
    simp [Line.needFileSystem, Line.bind_run, hfs, World.store_filesystem]
  | none =>
    obtain ⟨r, hi⟩ := hi w hfs
    cases hB : (B b (.fileSystemOpen w.resources w.filesystemType Html5FileSystem.expectedSize)).1 with
    | refused code hc =>
      refine .hangs hp.arguments hi rfl ?_ ?_
      · simp [Html5FileSystem.initialize_, accepted, imm_refused hB, hc]
      · simp [Html5FileSystem.initialize_, World.issue, Backend.after, Line.needFileSystem,
          Line.bind_run, hB, hfs, World.store_filesystem, World.store_resources,
          World.store_filesystemType]
    | completes answer =>
      refine .chains hp.arguments hi rfl rfl
        (p := .proxy (w.delegates d).callback)
        (by simp [Html5FileSystem.initialize_, accepted, imm_completes hB]) hB hp.callback
        fun w' hw => ?_
      have hp' : Phase w' call d f false false := by
        rw [← hw]; exact hp.of_eq rfl rfl
      refine .of_eq (h w' _ answer.code w.resources hp' (by rw [← hw]; rfl)) ?_
      simp [← hw, deliver, Html5FileSystem.initialize_, Line.needFileSystem, Line.bind_run, hB, hfs,
        World.store_filesystem, World.store_resources, World.store_filesystemType]

theorem serve_mkDir_waiting {path : Str} {mode : BitVec 32} {filesystem : Nat}
    (hp : Phase w call d (.mkdir path mode) true false) (hfs : w.filesystem = some filesystem) :
    Agrees (serve B 1 w b call result) (some (.int result), w.store, b) := by
  refine .done hp.arguments (e := {
      world := w.setDelegate d { w.delegates d with waiting := false }, result := .int result })
    (by simp [Html5FileSystem.switch, Html5FileSystem.mkDirCall, hfs, hp.waiting]) rfl
    (hp.set rfl hp.querying).quiescent ?_
  simp [World.issue, Backend.after]

theorem serve_mkDir_ready {path : Str} {mode : BitVec 32} {filesystem : Nat}
    (hp : Phase w call d (.mkdir path mode) false false) (hfs : w.filesystem = some filesystem) :
    Agrees (serve B 2 w b call result) (Line.makeDirectory B ⟨filesystem, path⟩ w.store b) := by
  cases hB : (B b (.makeDirectory ⟨filesystem, path⟩)).1 with
  | refused code hc =>
    refine .done hp.arguments (e := {
        world := w, result := .int (-1), request := some (.makeDirectory ⟨filesystem, path⟩) })
      (by simp [Html5FileSystem.switch, Html5FileSystem.mkDirCall, hfs, hp.waiting,
        imm_refused hB, hc])
      rfl hp.quiescent ?_
    simp [Line.makeDirectory, Line.bind_run, hB, World.issue, Backend.after]
  | completes answer =>
    refine .chains hp.arguments (e := {
        world := w.setDelegate d { w.delegates d with waiting := true }
        result := .int 0
        chaining := true
        request := some (.makeDirectory ⟨filesystem, path⟩)
        completion := some (.proxy (w.delegates d).callback) })
      (by simp [Html5FileSystem.switch, Html5FileSystem.mkDirCall, hfs, hp.waiting,
        imm_completes hB])
      rfl rfl rfl hB hp.callback fun w' hw => ?_
    have hp' : Phase w' call d (.mkdir path mode) true false := by
      rw [← hw]
      exact (hp.set rfl hp.querying).of_eq rfl rfl
    have hfs' : w'.filesystem = some filesystem := by rw [← hw]; exact hfs
    refine .of_eq (serve_mkDir_waiting hp' hfs') ?_
    simp [← hw, deliver, Line.makeDirectory, Line.bind_run, hB]

theorem serve_mkDir {path : Str} {mode : BitVec 32}
    (hp : Phase w call d (.mkdir path mode) false false) :
    Agrees (serve B 3 w b call 0) (Line.mkDir B path w.store b) :=
  serve_need hp (fun w hfs => ⟨.int 0, by simp [Html5FileSystem.switch, Html5FileSystem.mkDirCall, hfs]; rfl⟩)
    fun _ _ _ _ hp hfs => serve_mkDir_ready hp hfs

theorem serve_openDir {dirname : Str} (hp : Phase w call d (.opendir dirname) false false) :
    Agrees (serve B 2 w b call 0) (Line.openDir B d dirname w.store b) := by
  refine serve_need hp (fun w hfs =>
    ⟨.dir none, by simp [Html5FileSystem.switch, Html5FileSystem.openDirCall, hfs]⟩)
    fun w b result filesystem hp hfs => ?_
  refine .done hp.arguments (e := {
      world := { w with dirs := w.dirs ++ [some { delegate := d, directoryRef := ⟨filesystem, dirname⟩ }] }
      result := .dir (some w.dirs.length) })
    (by simp [Html5FileSystem.switch, Html5FileSystem.openDirCall, hfs]) rfl (hp.of_eq rfl rfl).quiescent ?_
  simp [World.issue, Backend.after, Line.newDir, Line.bind_run, World.store]

/-! ### Queries -/

theorem serve_query {k : Int → Line β Result} (hp : Phase w call d f true false)
    (he : Html5FileSystem.switch (B.imm b) w d result f = {
      world := w.setDelegate d { w.delegates d with waiting := false, querying := true }
      result := .int 0
      chaining := true
      request := some (.query (w.delegates d).fileIo)
      completion := accepted (B.imm b) (.query (w.delegates d).fileIo)
        (.query d (w.delegates d).callback) })
    (h : ∀ w' b' code, Phase w' call d f false true → w'.filesystem = w.filesystem →
      Agrees (serve B n w' b' call code) (k code w'.store b')) :
    Agrees (serve B (n + 1) w b call result) ((Line.query B d >>= k) w.store b) := by
  cases hB : (B b (.query (w.delegates d).fileIo)).1 with
  | refused code hc =>
    refine .hangs hp.arguments he rfl (by simp [accepted, imm_refused hB, hc]) ?_
    rw [Line.query_bind_refused (s := w.store) hB]
    simp [World.issue, Backend.after]
  | completes answer =>
    refine .chains hp.arguments he rfl rfl (p := .query d (w.delegates d).callback)
      (by simp [accepted, imm_completes hB]) hB hp.callback fun w' hw => ?_
    have hp' : Phase w' call d f false true := by
      rw [← hw]
      refine Phase.setInfo ?_ _
      exact (hp.set rfl rfl).of_eq rfl rfl
    refine .of_eq (h w' _ answer.code hp' ?_) ?_
    · rw [← hw, deliver]
      cases answer.info <;> rfl
    · rw [Line.query_bind_completes (s := w.store) hB]
      simp [← hw, deliver, Store.withInfo]

/-! ### Open and stat -/

theorem serve_open_querying {path : Str} {oflag cmode : BitVec 32} {filesystem : Nat}
    (hp : Phase w call d (.open_ path oflag cmode) false true) (hfs : w.filesystem = some filesystem) :
    Agrees (serve B 1 w b call result) ((Line.opened d oflag result : Line β Result) w.store b) := by
  by_cases hr : result = 0
  · refine .done hp.arguments (e := {
        world := w.setDelegate d
          { w.delegates d with querying := false, toOpenFile := (w.delegates d).start oflag }
        result := .int 0 })
      (by simp [Html5FileSystem.switch, Html5FileSystem.openCall, hfs, hp.waiting, hp.querying, hr])
      rfl (hp.set hp.waiting rfl).quiescent ?_
    simp [World.issue, Backend.after, Line.opened, hr, Line.bind_run, Line.modifyFile]
  · refine .done hp.arguments (e := {
        world := w.setDelegate d { w.delegates d with querying := false }
        result := .int (ppErrorToErrNo result) })
      (by simp [Html5FileSystem.switch, Html5FileSystem.openCall, hfs, hp.waiting, hp.querying, hr])
      rfl (hp.set hp.waiting rfl).quiescent ?_
    simp [World.issue, Backend.after, Line.opened, hr]

theorem serve_open_waiting {path : Str} {oflag cmode : BitVec 32} {filesystem : Nat}
    (hp : Phase w call d (.open_ path oflag cmode) true false) (hfs : w.filesystem = some filesystem) :
    Agrees (serve B 2 w b call result) (Line.opening B d oflag result w.store b) := by
  by_cases hr : result = 0
  · rw [Line.opening, if_neg (not_not_intro hr)]
    refine serve_query hp ?_ fun w' b' code hp' hfs' => serve_open_querying hp' (hfs'.trans hfs)
    simp [Html5FileSystem.switch, Html5FileSystem.openCall, hfs, hp.waiting, hr]
  · refine .done hp.arguments (e := {
        world := w.setDelegate d { w.delegates d with waiting := false }
        result := .int (ppErrorToErrNo result) })
      (by simp [Html5FileSystem.switch, Html5FileSystem.openCall, hfs, hp.waiting, hr])
      rfl (hp.set rfl hp.querying).quiescent ?_
    simp [World.issue, Backend.after, Line.opening, hr]

/-- A run that opens a new file of the delegate. -/
theorem serve_openFile {k : Reply → Line β Result} {ref : FileRef} {flags : BitVec 32} {r : Int → Int}
    (hp : Phase w call d f false false)
    (he : Html5FileSystem.switch (B.imm b) w d result f =
      let this := { w.delegates d with fileRef := some ref, fileIo := some w.resources }
      let request := .fileOpen w.resources ref flags
      let w := { w with resources := w.resources + 1 }
      if B.imm b request ≠ ppOkCompletionPending then
        { world := w.setDelegate d this
          result := .int (r (B.imm b request))
          request := some request }
      else
        { world := w.setDelegate d { this with waiting := true }
          result := .int 0
          chaining := true
          request := some request
          completion := some (.proxy this.callback) })
    (hr : ∀ code hc s b, k (.refused code hc) s b = (some (.int (r code)), s, b))
    (h : ∀ w' b' answer, Phase w' call d f true false → w'.filesystem = w.filesystem →
      Agrees (serve B n w' b' call answer.code) (k (.completes answer) w'.store b')) :
    Agrees (serve B (n + 1) w b call result) ((Line.openFile B d ref flags >>= k) w.store b) := by
  cases hB : (B b (.fileOpen w.resources ref flags)).1 with
  | refused code hc =>
    simp only [imm_refused hB, if_pos hc] at he
    refine .done hp.arguments he rfl ((hp.of_eq rfl rfl).set hp.waiting hp.querying).quiescent ?_
    rw [Line.openFile_bind]
    simp [Store.withFile, World.store_resources, World.store_filesystem, hB, hr, World.issue,
      Backend.after]
  | completes answer =>
    simp only [imm_completes hB, ne_eq, not_true_eq_false, if_false] at he
    refine .chains hp.arguments he rfl rfl rfl hB hp.callback fun w' hw => ?_
    have hp' : Phase w' call d f true false := by
      rw [← hw]
      exact ((hp.of_eq (u := { w with resources := w.resources + 1 }) rfl rfl).set rfl
        hp.querying).of_eq rfl rfl
    refine .of_eq (h w' _ answer hp' (by rw [← hw]; rfl)) ?_
    rw [Line.openFile_bind]
    simp [← hw, deliver, Store.withFile, World.store_resources, World.store_filesystem, hB]

theorem serve_open {path : Str} {oflag cmode : BitVec 32}
    (hp : Phase w call d (.open_ path oflag cmode) false false) :
    Agrees (serve B 4 w b call 0) (Line.open_ B d path oflag w.store b) := by
  refine serve_need hp (fun w hfs => ⟨.int 0, by
    simp [Html5FileSystem.switch, Html5FileSystem.openCall, hfs]; rfl⟩) fun w b result filesystem hp hfs => ?_
  refine serve_openFile (r := fun _ => ppErrorToErrNo result) hp ?_ (fun _ _ _ _ => rfl)
    fun w' b' answer hp' hfs' => serve_open_waiting hp' (hfs'.trans hfs)
  simp [Html5FileSystem.switch, Html5FileSystem.openCall, hfs, hp.waiting, hp.querying]

theorem serve_stat_querying {path : Str} {buf filesystem : Nat}
    (hp : Phase w call d (.stat path buf) false true) (hfs : w.filesystem = some filesystem) :
    Agrees (serve B 1 w b call result) ((Line.queried d buf result : Line β Result) w.store b) := by
  by_cases hr : result = 0
  · refine .done hp.arguments (e := {
        world := (w.setDelegate d { w.delegates d with querying := false }).setStat buf
          ((w.delegates d).fileInfo.toStat (sIRwxU ||| sIRwxG ||| sIRwxO))
        result := .int 0 })
      (by simp [Html5FileSystem.switch, Html5FileSystem.statCall, hfs, hp.waiting, hp.querying, hr])
      rfl ((hp.set hp.waiting rfl).of_eq rfl rfl).quiescent ?_
    simp [World.issue, Backend.after, Line.queried, hr, Line.bind_run, Line.fillStat]
  · refine .done hp.arguments (e := {
        world := w.setDelegate d { w.delegates d with querying := false }
        result := .int (ppErrorToErrNo result) })
      (by simp [Html5FileSystem.switch, Html5FileSystem.statCall, hfs, hp.waiting, hp.querying, hr])
      rfl (hp.set hp.waiting rfl).quiescent ?_
    simp [World.issue, Backend.after, Line.queried, hr]

theorem serve_stat_waiting {path : Str} {buf filesystem : Nat}
    (hp : Phase w call d (.stat path buf) true false) (hfs : w.filesystem = some filesystem) :
    Agrees (serve B 2 w b call result) (Line.statting B d buf result w.store b) := by
  by_cases hn : result = ppErrorNotAFile
  · refine .done hp.arguments (e := {
        world := (w.setDelegate d { w.delegates d with waiting := false }).setStat buf directoryStat
        result := .int 0 })
      (by simp [Html5FileSystem.switch, Html5FileSystem.statCall, hfs, hp.waiting, hn])
      rfl ((hp.set rfl hp.querying).of_eq rfl rfl).quiescent ?_
    simp [World.issue, Backend.after, Line.statting, hn, Line.bind_run, Line.fillStat]
  · by_cases hr : result = 0
    · rw [Line.statting, if_neg hn, if_neg (not_not_intro hr)]
      refine serve_query hp ?_ fun w' b' code hp' hfs' => serve_stat_querying hp' (hfs'.trans hfs)
      subst hr
      simp [Html5FileSystem.switch, Html5FileSystem.statCall, hfs, hp.waiting, hn]
    · refine .done hp.arguments (e := {
          world := w.setDelegate d { w.delegates d with waiting := false }
          result := .int (ppErrorToErrNo result) })
        (by simp [Html5FileSystem.switch, Html5FileSystem.statCall, hfs, hp.waiting, hn, hr])
        rfl (hp.set rfl hp.querying).quiescent ?_
      simp [World.issue, Backend.after, Line.statting, hn, hr]

theorem serve_stat {path : Str} {buf : Nat} (hp : Phase w call d (.stat path buf) false false) :
    Agrees (serve B 4 w b call 0) (Line.stat B d path buf w.store b) := by
  refine serve_need hp (fun w hfs => ⟨.int 0, by
    simp [Html5FileSystem.switch, Html5FileSystem.statCall, hfs]; rfl⟩)
    fun w b result filesystem hp hfs => ?_
  refine serve_openFile (r := ppErrorToErrNo) hp ?_ (fun _ _ _ _ => rfl)
    fun w' b' answer hp' hfs' => serve_stat_waiting hp' (hfs'.trans hfs)
  simp [Html5FileSystem.switch, Html5FileSystem.statCall, hfs, hp.waiting, hp.querying]

theorem serve_fstat_waiting {buf : Nat} (hp : Phase w call d (.fstat buf) true false) :
    Agrees (serve B 1 w b call result) (some (.int 0),
      { w.store with
        stats := Function.update w.store.stats buf ((w.store.files d).fileInfo.toStat sIRwxU) },
      b) := by
  refine .done hp.arguments (e := {
      world := (w.setDelegate d { w.delegates d with waiting := false }).setStat buf
        ((w.delegates d).fileInfo.toStat sIRwxU)
      result := .int 0 })
    (by simp [Html5FileSystem.switch, Html5FileSystem.fstatCall, hp.waiting]) rfl
    ((hp.set rfl hp.querying).of_eq rfl rfl).quiescent ?_
  simp [World.issue, Backend.after]

theorem serve_fstat {buf : Nat} (hp : Phase w call d (.fstat buf) false false) :
    Agrees (serve B 2 w b call 0) (Line.fstat B d buf w.store b) := by
  cases hB : (B b (.query (w.delegates d).fileIo)).1 with
  | refused code hc =>
    refine .done hp.arguments (e := {
        world := w
        result := .int (ppErrorToErrNo code)
        request := some (.query (w.delegates d).fileIo) })
      (by simp [Html5FileSystem.switch, Html5FileSystem.fstatCall, hp.waiting, imm_refused hB, hc])
      rfl hp.quiescent ?_
    simp [Line.fstat, Line.bind_run, hB, World.issue, Backend.after]
  | completes answer =>
    refine .chains hp.arguments (e := {
        world := w.setDelegate d { w.delegates d with waiting := true }
        result := .int 0
        chaining := true
        request := some (.query (w.delegates d).fileIo)
        completion := some (.query d (w.delegates d).callback) })
      (by simp [Html5FileSystem.switch, Html5FileSystem.fstatCall, hp.waiting, imm_completes hB])
      rfl rfl rfl hB hp.callback fun w' hw => ?_
    have hp' : Phase w' call d (.fstat buf) true false := by
      rw [← hw]
      refine Phase.setInfo ?_ _
      exact (hp.set rfl hp.querying).of_eq rfl rfl
    refine .of_eq (serve_fstat_waiting hp') ?_
    simp [← hw, deliver, Line.fstat, Line.storeInfo, Line.fillStat, Line.bind_run, hB, Line.modifyFile]

/-! ### Directories -/

theorem serve_readDir_waiting {dirp : Nat} {dir : Html5FileSystemDir}
    (hp : Phase w call d (.readdir dirp) true false) (hd : w.dir dirp = some dir) :
    Agrees (serve B 1 w b call result) (if result ≠ 0 then (some (.dirent none), w.store, b)
      else Line.readDirNext dirp dir.toListing w.store b) := by
  by_cases hr : result = 0
  · refine .done hp.arguments (e := {
        world := (w.setDelegate d { w.delegates d with waiting := false }).setDir dirp
          (some { dir with toListing := dir.readDirNext.1 })
        result := .dirent dir.readDirNext.2 })
      (by simp [Html5FileSystem.switch, Html5FileSystem.readDirCall, hd, hp.waiting, hr]) rfl
      ((hp.set rfl hp.querying).of_eq rfl rfl).quiescent ?_
    simp [World.issue, Backend.after, hr, Line.readDirNext, Line.setDir, Line.bind_run]
  · refine .done hp.arguments (e := {
        world := w.setDelegate d { w.delegates d with waiting := false }, result := .dirent none })
      (by simp [Html5FileSystem.switch, Html5FileSystem.readDirCall, hd, hp.waiting, hr]) rfl
      (hp.set rfl hp.querying).quiescent ?_
    simp [World.issue, Backend.after, hr]

theorem deliver_listing {dirp : Nat} {dir : Html5FileSystemDir} (h : w.dir dirp = some dir)
    (answer : Answer) : deliver w (.listing dirp) answer =
      ((w.record (.delivered (.listing dirp) answer)).setDir dirp (some
        { toListing := dir.onReadDirectoryEntries answer.code answer.entries, callback := none }),
        dir.callback) := by
  have h' : (w.record (.delivered (.listing dirp) answer)).dir dirp = some dir := h
  simp only [deliver, h']

theorem serve_readDir {dirp : Nat} (hp : Phase w call d (.readdir dirp) false false) :
    Agrees (serve B 2 w b call 0) (Line.readDir B dirp w.store b) := by
  cases hd : w.dir dirp with
  | none =>
    refine .done hp.arguments (e := { world := w, result := .dirent none })
      (by simp [Html5FileSystem.switch, Html5FileSystem.readDirCall, hd]) rfl hp.quiescent ?_
    simp [World.issue, Backend.after, Line.readDir, Line.bind_run, World.store_dir, hd]
  | some dir =>
    by_cases hread : dir.read = true
    · refine .done hp.arguments (e := {
          world := w.setDir dirp (some { dir with toListing := dir.readDirNext.1 })
          result := .dirent dir.readDirNext.2 })
        (by simp [Html5FileSystem.switch, Html5FileSystem.readDirCall, hd, hp.waiting, hread]) rfl
        (hp.of_eq rfl rfl).quiescent ?_
      simp [World.issue, Backend.after, Line.readDir, Line.bind_run, World.store_dir, hd, hread,
        Line.readDirNext, Line.setDir]
    · cases hB : (B b (.readDirectoryEntries dir.directoryRef)).1 with
      | refused code hc =>
        by_cases hok : code = ppOk
        · refine .done hp.arguments (e := {
              world := w.setDir dirp (some { dir with toListing := dir.rewind.readDirNext.1 })
              result := .dirent dir.rewind.readDirNext.2
              request := some (.readDirectoryEntries dir.directoryRef) })
            (by simp [Html5FileSystem.switch, Html5FileSystem.readDirCall, hd, hp.waiting, hread,
              Listing.rewind, imm_refused hB, hok]) rfl (hp.of_eq rfl rfl).quiescent ?_
          simp [World.issue, Backend.after, Line.readDir, Line.bind_run, World.store_dir, hd, hread,
            hB, hok, Line.readDirNext, Line.setDir]
        · refine .done hp.arguments (e := {
              world := w.setDir dirp (some { dir with toListing := dir.rewind })
              result := .dirent none
              request := some (.readDirectoryEntries dir.directoryRef) })
            (by simp [Html5FileSystem.switch, Html5FileSystem.readDirCall, hd, hp.waiting, hread,
              Listing.rewind, imm_refused hB, hok, hc]) rfl (hp.of_eq rfl rfl).quiescent ?_
          simp [World.issue, Backend.after, Line.readDir, Line.bind_run, World.store_dir, hd, hread,
            hB, hok, Line.setDir]
      | completes answer =>
        -- The DIR keeps the callback until the listing is delivered.
        have hd' (e : Event) : (((w.setDir dirp (some
              { toListing := dir.rewind, callback := (w.delegates d).callback })).setDelegate d
                { w.delegates d with waiting := true }).record e).dir dirp =
            some { toListing := dir.rewind, callback := (w.delegates d).callback } :=
          World.dir_setDir hd _
        refine .chains hp.arguments (c := call) (e := {
            world := (w.setDir dirp (some
              { toListing := dir.rewind, callback := (w.delegates d).callback })).setDelegate d
                { w.delegates d with waiting := true }
            result := .dirent none
            chaining := true
            request := some (.readDirectoryEntries dir.directoryRef)
            completion := some (.listing dirp) })
          (by simp [Html5FileSystem.switch, Html5FileSystem.readDirCall, hd, hp.waiting, hread,
            Listing.rewind, imm_completes hB, ppOk, ppOkCompletionPending])
          rfl rfl rfl hB (by rw [deliver_listing (hd' _)]; exact hp.callback) fun w' hw => ?_
        rw [deliver_listing (hd' _)] at hw
        have hp' : Phase w' call d (.readdir dirp) true false := by
          rw [← hw]
          exact (hp.set rfl hp.querying).of_eq rfl rfl
        have hd'' : w'.dir dirp = some
            { toListing := dir.rewind.onReadDirectoryEntries answer.code answer.entries,
              callback := none } := by
          rw [← hw]
          apply World.dir_setDir
          exact hd' (.issued call (.readDirectoryEntries dir.directoryRef))
        refine .of_eq (serve_readDir_waiting hp' hd'') ?_
        by_cases hr : answer.code = 0
        · simp [← hw, hr, Line.readDir, Line.bind_run, World.store_dir, hd, hread, hB,
            Line.readDirNext, Line.setDir]
        · simp [← hw, hr, Line.readDir, Line.bind_run, World.store_dir, hd, hread, hB, Line.setDir]

theorem serve_rewindDir {dirp : Nat} (hp : Phase w call d (.rewinddir dirp) false false) :
    Agrees (serve B 1 w b call 0) ((Line.rewindDir dirp : Line β Result) w.store b) := by
  cases hd : w.dir dirp with
  | none =>
    refine .done hp.arguments (e := { world := w, result := .callback 0 })
      (by simp [Html5FileSystem.switch, Html5FileSystem.rewindDirCall, hd]) rfl hp.quiescent ?_
    simp [World.issue, Backend.after, Line.rewindDir, Line.bind_run, World.store_dir, hd]
  | some dir =>
    refine .done hp.arguments (e := {
        world := w.setDir dirp (some { dir with toListing := dir.rewind }), result := .callback 0 })
      (by simp [Html5FileSystem.switch, Html5FileSystem.rewindDirCall, hd]) rfl
      (hp.of_eq rfl rfl).quiescent ?_
    simp [World.issue, Backend.after, Line.rewindDir, Line.bind_run, World.store_dir, hd, Line.setDir]

theorem serve_closeDir {dirp : Nat} (hp : Phase w call d (.closedir dirp) false false) :
    Agrees (serve B 1 w b call 0) ((Line.closeDir dirp : Line β Result) w.store b) := by
  cases hd : w.dir dirp with
  | none =>
    refine .done hp.arguments (e := { world := w, result := .int (-1) })
      (by simp [Html5FileSystem.switch, Html5FileSystem.closeDirCall, hd]) rfl hp.quiescent ?_
    simp [World.issue, Backend.after, Line.closeDir, Line.bind_run, World.store_dir, hd]
  | some dir =>
    refine .done hp.arguments (e := { world := w.setDir dirp none, result := .int 0 })
      (by simp [Html5FileSystem.switch, Html5FileSystem.closeDirCall, hd]) rfl
      (hp.of_eq rfl rfl).quiescent ?_
    simp [World.issue, Backend.after, Line.closeDir, Line.bind_run, World.store_dir, hd, Line.setDir]

/-! ## Runs -/

/-- The runs of one call against its program. -/
theorem serve_program (hp : Phase w call d f false false) :
    Agrees (serve B 4 w b call 0) (Line.program B d f w.store b) := by
  cases f with
  | open_ path oflag cmode => exact serve_open hp
  | stat path buf => exact serve_stat hp
  | close => exact (serve_close hp).succ.succ.succ
  | fstat buf => exact (serve_fstat hp).succ.succ
  | read buf nbytes => exact (serve_read hp).succ.succ
  | write buf => exact (serve_write hp).succ.succ
  | seek offset whence => exact (serve_seek hp).succ.succ.succ
  | isatty => exact (serve_isatty hp).succ.succ.succ
  | fcntl cmd ap => exact (serve_fcntl hp).succ.succ.succ
  | mkdir path mode => exact (serve_mkDir hp).succ
  | opendir dirname => exact (serve_openDir hp).succ.succ
  | rewinddir dirp => exact (serve_rewindDir hp).succ.succ.succ
  | readdir dirp => exact (serve_readDir hp).succ.succ
  | closedir dirp => exact (serve_closeDir hp).succ.succ.succ

theorem call_agrees (hq : Quiescent w) (call : Nat) (arguments : Arguments) :
    Agrees (Delegate.call B w b call arguments)
      (Line.program B arguments.delegate arguments.function w.store b) := by
  have h := serve_program (B := B) (b := b) (hq.enter call arguments.delegate arguments.function)
  rwa [World.store_enter] at h

/-- The trace of a run seen over its store. -/
def Trace.store (t : Trace World β) : Trace Store β :=
  ⟨t.results, t.blocked, t.state.store, t.backend⟩

/-- One worker's run of calls on any delegates and DIRs, from any world between calls and over any
backend, ends, and it is the straight-line program: the same requests in the same order, the same
results, the same buffers, files and DIRs; and no phase flag is set when its calls have returned. -/
theorem run_line (B : Backend β) (calls : List Arguments) (w : World) (b : β) (call : Nat)
    (hq : Quiescent w) : ∃ t, Delegate.run B w b call calls = some t ∧
      t.store = Line.run B w.store b calls ∧ (t.blocked = false → Quiescent t.state) := by
  induction calls generalizing w b call with
  | nil => exact ⟨_, rfl, rfl, fun _ => hq⟩
  | cons arguments calls ih =>
    have h := call_agrees (B := B) (b := b) hq call arguments
    rw [Delegate.run, Line.run]
    cases ho : Delegate.call B w b call arguments with
    | returned result w' b' =>
      rw [ho] at h
      obtain ⟨hl, hq'⟩ := h
      obtain ⟨t, ht, hs, hb⟩ := ih w' b' (call + 1) hq'
      simp only [ht, hl, ← hs]
      exact ⟨_, rfl, rfl, hb⟩
    | blocked w' b' =>
      -- The worker never leaves this call, so no later one is made.
      rw [ho] at h
      simp only [show Line.program B _ _ _ _ = _ from h]
      exact ⟨_, rfl, rfl, by simp⟩
    | spent => rw [ho] at h; exact h.elim

/-- Opening a file and reading it, over a backend that completes everything with 0. -/
theorem run_line_open_read :
    ∃ t, Delegate.run (fun b _ => (.completes { code := 0 }, b)) World.blank () 0
        [⟨0, .open_ (str "/a") oRdWr 0⟩, ⟨0, .read 0 4⟩] = some t ∧
      t.store = Line.run (fun b _ => (.completes { code := 0 }, b)) World.blank.store ()
        [⟨0, .open_ (str "/a") oRdWr 0⟩, ⟨0, .read 0 4⟩] ∧
      (t.blocked = false → Quiescent t.state) :=
  run_line _ _ _ _ _ blank_quiescent

end NaClFs
