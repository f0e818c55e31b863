/-
What becomes of an operation whose opening of the HTML5 filesystem fails: nobody looks at the code,
the operation goes on with the filesystem that failed to open, and so does every later one.
-/
import NaClFs.Html5.Refine

namespace NaClFs

/-! ## What every program keeps -/

/-- The request opens a filesystem. -/
def Request.opensFileSystem : Request → Bool
  | .fileSystemOpen _ _ _ => true
  | _ => false

/-- Requests are only added; once the filesystem is set it stays, and none is opened any more. -/
structure Later (s s' : Store) : Prop where
  filesystem : s.filesystem.isSome → s'.filesystem = s.filesystem
  requests : ∃ new, s'.requests = s.requests ++ new ∧
    (s.filesystem.isSome → ∀ r ∈ new, r.opensFileSystem = false)

theorem Later.of_eq {s s' : Store} (hf : s'.filesystem = s.filesystem)
    (hr : s'.requests = s.requests) : Later s s' := ⟨fun _ => hf, [], by simp [hr], by simp⟩

theorem Later.refl (s : Store) : Later s s := .of_eq rfl rfl

theorem Later.trans {s s' s'' : Store} (h : Later s s') (h' : Later s' s'') : Later s s'' := by
  obtain ⟨new, hn, hno⟩ := h.requests
  obtain ⟨new', hn', hno'⟩ := h'.requests
  refine ⟨fun hs => ?_, new ++ new', by rw [hn', hn, List.append_assoc], fun hs r hr => ?_⟩
  · rw [h'.filesystem (by rw [h.filesystem hs]; exact hs), h.filesystem hs]
  · rcases List.mem_append.1 hr with hr | hr
    · exact hno hs r hr
    · exact hno' (by rw [h.filesystem hs]; exact hs) r hr

namespace Line

variable {β α γ : Type} {B : Backend β}

/-- The program takes every store to a later one. -/
def Keeps (m : Line β α) : Prop := ∀ s b, Later s (m s b).2.1

theorem Keeps.pure (a : α) : Keeps (Pure.pure a : Line β α) := fun s _ => .refl s

theorem Keeps.wait : Keeps (wait : Line β α) := fun s _ => .refl s

theorem Keeps.bind {m : Line β α} {k : α → Line β γ} (hm : Keeps m) (hk : ∀ a, Keeps (k a)) :
    Keeps (m >>= k) := by
  intro s b
  have h := hm s b
  rw [bind_run]
  rcases hr : m s b with ⟨_ | a, s', b'⟩
  · rw [hr] at h; exact h
  · rw [hr] at h; exact h.trans (hk a s' b')

theorem Keeps.ite {c : Prop} [Decidable c] {m m' : Line β α} (h : Keeps m) (h' : Keeps m') :
    Keeps (if c then m else m') := by
  split
  · exact h
  · exact h'

theorem Keeps.get {k : Store → Line β α} (hk : ∀ s, Keeps (k s)) : Keeps (Line.get >>= k) :=
  fun s b => hk s s b

theorem Keeps.modify {f : Store → Store} (hf : ∀ s, (f s).filesystem = s.filesystem)
    (hr : ∀ s, (f s).requests = s.requests) : Keeps (modify f : Line β Unit) :=
  fun s _ => .of_eq (hf s) (hr s)

theorem Keeps.ask {request : Request} (h : request.opensFileSystem = false) :
    Keeps (ask B request) := fun _ _ => ⟨fun _ => rfl, [request], rfl, fun _ => by simpa using h⟩

theorem Keeps.modifyFile (d : Nat) (f : OpenFile → OpenFile) :
    Keeps (modifyFile d f : Line β Unit) := .modify (fun _ => rfl) fun _ => rfl

theorem Keeps.setDir (dirp : Nat) (dir : Option Listing) : Keeps (setDir dirp dir : Line β Unit) :=
  .modify (fun _ => rfl) fun _ => rfl

theorem Keeps.fillStat (buf : Nat) (st : Stat) : Keeps (fillStat buf st : Line β Unit) :=
  .modify (fun _ => rfl) fun _ => rfl

theorem Keeps.query (d : Nat) : Keeps (query B d) := by
  refine .get fun s => .bind (.ask rfl) fun r => ?_
  cases r with
  | refused code h => exact .wait
  | completes answer => exact .bind (.modifyFile _ _) fun _ => .pure _

theorem Keeps.openFile (d : Nat) (ref : FileRef) (flags : BitVec 32) :
    Keeps (openFile B d ref flags) :=
  .get fun _ => .bind (.modify (fun _ => rfl) fun _ => rfl) fun _ =>
    .bind (.modifyFile _ _) fun _ => .ask rfl

theorem Keeps.needFileSystem : Keeps (needFileSystem B) := by
  intro s b
  cases hf : s.filesystem with
  | some filesystem => simpa [Line.needFileSystem, bind_run, hf] using Later.refl s
  | none =>
    refine ⟨by simp [hf], ?_⟩
    cases hB : (B b (.fileSystemOpen s.resources s.filesystemType Html5FileSystem.expectedSize)).1 <;>
      exact ⟨[.fileSystemOpen s.resources s.filesystemType Html5FileSystem.expectedSize],
        by simp [Line.needFileSystem, bind_run, hf, hB], by simp [hf]⟩

theorem Keeps.opening (d : Nat) (oflag : BitVec 32) (code : Int) :
    Keeps (opening B d oflag code) :=
  .ite (.pure _) (.bind (.query d) fun _ =>
    .ite (.pure _) (.bind (.modifyFile _ _) fun _ => .pure _))

theorem Keeps.statting (d buf : Nat) (code : Int) : Keeps (statting B d buf code) :=
  .ite (.bind (.fillStat _ _) fun _ => .pure _) (.ite (.pure _) (.bind (.query d) fun _ =>
    .ite (.pure _) (.get fun _ => .bind (.fillStat _ _) fun _ => .pure _)))

theorem Keeps.open_ (d : Nat) (path : Str) (oflag : BitVec 32) : Keeps (open_ B d path oflag) := by
  refine .bind .needFileSystem fun p => .bind (.openFile _ _ _) fun r => ?_
  cases r with
  | refused code h => exact .pure _
  | completes answer => exact .opening _ _ _

theorem Keeps.stat (d : Nat) (path : Str) (buf : Nat) : Keeps (stat B d path buf) := by
  refine .bind .needFileSystem fun p => .bind (.openFile _ _ _) fun r => ?_
  cases r with
  | refused code h => exact .pure _
  | completes answer => exact .statting _ _ _

theorem Keeps.fstat (d buf : Nat) : Keeps (fstat B d buf) := by
  refine .get fun s => .bind (.ask rfl) fun r => ?_
  cases r with
  | refused code h => exact .pure _
  | completes answer =>
    exact .bind (.modifyFile _ _) fun _ => .get fun _ => .bind (.fillStat _ _) fun _ => .pure _

theorem Keeps.read (d buf nbytes : Nat) : Keeps (read B d buf nbytes) := by
  refine .get fun s => .bind (.ask rfl) fun r => ?_
  cases r with
  | refused code h => exact .pure _
  | completes answer =>
    exact .bind (.modify (fun _ => rfl) fun _ => rfl) fun _ =>
      .bind (.modifyFile _ _) fun _ => .pure _

theorem Keeps.write (d : Nat) (buf : Str) : Keeps (write B d buf) := by
  refine .get fun s => .bind (.ask rfl) fun r => ?_
  cases r with
  | refused code h => exact .pure _
  | completes answer => exact .bind (.modifyFile _ _) fun _ => .pure _

theorem Keeps.moveTo (d : Nat) (offset : Int) : Keeps (moveTo d offset : Line β Result) :=
  .bind (.modifyFile _ _) fun _ => .pure _

theorem Keeps.seek (d : Nat) (offset whence : Int) :
    Keeps (seek d offset whence : Line β Result) :=
  .get fun _ => .ite (.moveTo _ _) (.ite (.moveTo _ _) (.ite (.moveTo _ _) (.pure _)))

theorem Keeps.makeDirectory (ref : FileRef) : Keeps (makeDirectory B ref) := by
  refine .bind (.ask rfl) fun r => ?_
  cases r with
  | refused code h => exact .pure _
  | completes answer => exact .pure _

theorem Keeps.newDir (d : Nat) (ref : FileRef) : Keeps (newDir d ref : Line β Result) :=
  .get fun _ => .bind (.modify (fun _ => rfl) fun _ => rfl) fun _ => .pure _

theorem Keeps.readDirNext (dirp : Nat) (dir : Listing) :
    Keeps (readDirNext dirp dir : Line β Result) :=
  .bind (.setDir _ _) fun _ => .pure _

theorem Keeps.readDir (dirp : Nat) : Keeps (readDir B dirp) := by
  refine .get fun s => ?_
  cases s.dirs[dirp]?.join with
  | none => exact .pure _
  | some dir =>
    refine .ite (.readDirNext _ _) (.bind (.ask rfl) fun r => ?_)
    cases r with
    | refused code h => exact .ite (.readDirNext _ _) (.bind (.setDir _ _) fun _ => .pure _)
    | completes answer => exact .ite (.bind (.setDir _ _) fun _ => .pure _) (.readDirNext _ _)

theorem Keeps.rewindDir (dirp : Nat) : Keeps (rewindDir dirp : Line β Result) := by
  refine .get fun s => ?_
  cases s.dirs[dirp]?.join with
  | none => exact .pure _
  | some dir => exact .bind (.setDir _ _) fun _ => .pure _

theorem Keeps.closeDir (dirp : Nat) : Keeps (closeDir dirp : Line β Result) := by
  refine .get fun s => ?_
  cases s.dirs[dirp]?.join with
  | none => exact .pure _
  | some dir => exact .bind (.setDir _ _) fun _ => .pure _

theorem Keeps.program (d : Nat) (f : Function) : Keeps (program B d f) := by
  cases f with
  | open_ path oflag cmode => exact .open_ _ _ _
  | stat path buf => exact .stat _ _ _
  | close => exact .get fun _ => .bind (.ask rfl) fun _ => .pure _
  | fstat buf => exact .fstat _ _
  | read buf nbytes => exact .read _ _ _
  | write buf => exact .write _ _
  | seek offset whence => exact .seek _ _ _
  | isatty => exact .pure _
  | fcntl cmd ap => exact .ite (.pure _) (.bind (.modify (fun _ => rfl) fun _ => rfl) fun _ => .pure _)
  | mkdir path mode => exact .bind .needFileSystem fun p => .makeDirectory _
  | opendir dirname => exact .bind .needFileSystem fun p => .newDir _ _
  | rewinddir dirp => exact .rewindDir _
  | readdir dirp => exact .readDir _
  | closedir dirp => exact .closeDir _

theorem run_later (B : Backend β) : ∀ (calls : List Arguments) (s : Store) (b : β),
    Later s (run B s b calls).state
  | [], s, _ => .refl s
  | arguments :: rest, s, b => by
    have h := Keeps.program (B := B) arguments.delegate arguments.function s b
    rw [run]
    rcases hr : program B arguments.delegate arguments.function s b with ⟨_ | result, s', b'⟩
    · rw [hr] at h; exact h
    · rw [hr] at h; exact h.trans (run_later B rest s' b')

end Line

/-! ## A filesystem that failed to open -/

/-- The operations that need the filesystem. -/
def NeedsFileSystem : Function → Prop
  | .open_ _ _ _ | .stat _ _ | .mkdir _ _ | .opendir _ => True
  | _ => False

/-- The result of such an operation reports failure. -/
def Result.Failed : Result → Prop
  | .int value => value ≠ 0
  | .dir dirp => dirp = none
  | _ => False

variable {β : Type}

/-- If the opening of the filesystem completes with an error, the call returns a failure and issues
no other request. -/
def HandlesFailure (B : Backend β) (w : World) (b : β) (call : Nat) (arguments : Arguments) : Prop :=
  ∀ answer, (B b (.fileSystemOpen w.resources w.filesystemType Html5FileSystem.expectedSize)).1 =
      .completes answer → answer.code ≠ ppOk →
    ∃ result w' b', Delegate.call B w b call arguments = .returned result w' b' ∧ result.Failed ∧
      w'.store.requests = w.store.requests ++
        [.fileSystemOpen w.resources w.filesystemType Html5FileSystem.expectedSize]

/-- The store after the filesystem was opened, whatever that completed with. -/
def Store.opened (s : Store) : Store :=
  { s with
    filesystem := some s.resources
    resources := s.resources + 1
    requests := s.requests ++
      [.fileSystemOpen s.resources s.filesystemType Html5FileSystem.expectedSize] }

/-- The program issues a request from every store, and takes it to a later one. -/
def Asks {α : Type} (m : Line β α) : Prop :=
  ∀ s b, Later s (m s b).2.1 ∧ ∃ r new, (m s b).2.1.requests = s.requests ++ r :: new

variable {B : Backend β} {α γ : Type}

theorem Asks.bind {m : Line β α} {k : α → Line β γ} (hm : Asks m) (hk : ∀ a, Line.Keeps (k a)) :
    Asks (m >>= k) := by
  intro s b
  refine ⟨Line.Keeps.bind (fun s b => (hm s b).1) hk s b, ?_⟩
  obtain ⟨-, r, new, hr⟩ := hm s b
  rw [Line.bind_run]
  rcases he : m s b with ⟨_ | a, s', b'⟩
  · rw [he] at hr; exact ⟨r, new, hr⟩
  · rw [he] at hr
    obtain ⟨new', hn, -⟩ := (hk a s' b').requests
    have hr' : s'.requests = s.requests ++ r :: new := hr
    exact ⟨r, new ++ new', by simp only [hn, hr', List.append_assoc, List.cons_append]⟩

theorem Asks.ask {request : Request} (h : request.opensFileSystem = false) :
    Asks (Line.ask B request) := fun s b => ⟨Line.Keeps.ask h s b, request, [], rfl⟩

theorem Asks.openFile (d : Nat) (ref : FileRef) (flags : BitVec 32) :
    Asks (Line.openFile B d ref flags) := fun s b =>
  ⟨Line.Keeps.openFile d ref flags s b, .fileOpen s.resources ref flags, [], rfl⟩

/-- After the request the program goes on to a later store. -/
theorem Asks.goes_on {m : Line β α} {k : α → Line β Result} {s : Store} {b : β} (hm : Asks m)
    (hk : ∀ a, Line.Keeps (k a)) :
    Later s ((m >>= k) s b).2.1 ∧
      ((∃ dirp, ((m >>= k) s b).1 = some (.dir (some dirp))) ∨
        ∃ r new, ((m >>= k) s b).2.1.requests = s.requests ++ r :: new) :=
  have h := hm.bind hk s b
  ⟨h.1, .inr h.2⟩

theorem need_opened {k : Nat × Int → Line β γ} {s : Store} {b : β} {answer : Answer}
    (hs : s.filesystem = none)
    (hB : (B b (.fileSystemOpen s.resources s.filesystemType Html5FileSystem.expectedSize)).1 =
      .completes answer) :
    (Line.needFileSystem B >>= k) s b = k (s.resources, answer.code) s.opened
      (B b (.fileSystemOpen s.resources s.filesystemType Html5FileSystem.expectedSize)).2 := by
  simp [Line.needFileSystem, Line.bind_run, hs, hB, Store.opened]

/-- Whatever the opening of the filesystem completed with, an operation that needs it goes on from
there: it asks for more, or it makes a DIR. -/
theorem program_of_opened {s : Store} {b : β} {d : Nat} {f : Function} {answer : Answer}
    (hf : NeedsFileSystem f) (hs : s.filesystem = none)
    (hB : (B b (.fileSystemOpen s.resources s.filesystemType Html5FileSystem.expectedSize)).1 =
      .completes answer) :
    Later s.opened (Line.program B d f s b).2.1 ∧
    ((∃ dirp, (Line.program B d f s b).1 = some (.dir (some dirp))) ∨
      ∃ r new, (Line.program B d f s b).2.1.requests = s.opened.requests ++ r :: new) := by
  cases f with
  | open_ path oflag cmode =>
    rw [Line.program, Line.open_, need_opened hs hB]
    refine Asks.goes_on (.openFile _ _ _) fun r => ?_
    cases r with
    | refused code h => exact .pure _
    | completes answer => exact .opening _ _ _
  | stat path buf =>
    rw [Line.program, Line.stat, need_opened hs hB]
    refine Asks.goes_on (.openFile _ _ _) fun r => ?_
    cases r with
    | refused code h => exact .pure _
    | completes answer => exact .statting _ _ _
  | mkdir path mode =>
    rw [Line.program, Line.mkDir, need_opened hs hB]
    refine Asks.goes_on (.ask rfl) fun r => ?_
    cases r <;> exact .pure _
  | opendir dirname =>
    rw [Line.program, Line.openDir, need_opened hs hB]
    exact ⟨Line.Keeps.newDir _ _ _ _, .inl ⟨_, rfl⟩⟩
  | _ => exact hf.elim

/-- The filesystem, in the world after a call that opened it, whatever that completed with. -/
theorem call_of_opened {w w' : World} {b b' : β} {call d : Nat} {f : Function} {answer : Answer}
    {result : Result} (hq : Quiescent w) (hf : NeedsFileSystem f) (hs : w.filesystem = none)
    (hB : (B b (.fileSystemOpen w.resources w.filesystemType Html5FileSystem.expectedSize)).1 =
      .completes answer)
    (hc : Delegate.call B w b call ⟨d, f⟩ = .returned result w' b') :
    Quiescent w' ∧ Later w.store.opened w'.store ∧
      ((∃ dirp, result = .dir (some dirp)) ∨
        ∃ r new, w'.store.requests = w.store.opened.requests ++ r :: new) := by
  have h := call_agrees (B := B) (b := b) hq call ⟨d, f⟩
  rw [hc] at h
  obtain ⟨hl, hq'⟩ := h
  have h := program_of_opened (s := w.store) (d := d) hf hs hB
  rw [hl] at h
  exact ⟨hq', h.1, h.2.imp (fun ⟨dirp, he⟩ => ⟨dirp, Option.some.inj he⟩) id⟩

/-- An operation that needs the filesystem and whose opening of it completes with an error never
reports that alone, and no later call opens the filesystem again: it keeps the one that failed. -/
theorem init_failure_unhandled (B : Backend β) (w : World) (b : β) (call d : Nat) (f : Function)
    (answer : Answer) (hq : Quiescent w) (hf : NeedsFileSystem f) (hs : w.filesystem = none)
    (hB : (B b (.fileSystemOpen w.resources w.filesystemType Html5FileSystem.expectedSize)).1 =
      .completes answer) (hcode : answer.code ≠ ppOk) :
    ¬ HandlesFailure B w b call ⟨d, f⟩ ∧
    ∀ result w' b', Delegate.call B w b call ⟨d, f⟩ = .returned result w' b' →
      ∀ call' calls t, Delegate.run B w' b' call' calls = some t →
        t.state.filesystem = some w.resources ∧
        ∃ new, t.state.store.requests = w'.store.requests ++ new ∧
          ∀ r ∈ new, r.opensFileSystem = false := by
  constructor
  · -- The operation went on: it issued a request after the opening, or returned a DIR.
    intro h
    obtain ⟨result, w', b', hc, hfail, hreq⟩ := h answer hB hcode
    obtain ⟨-, -, ⟨dirp, rfl⟩ | ⟨r, new, hr⟩⟩ := call_of_opened hq hf hs hB hc
    · exact absurd hfail (by simp [Result.Failed])
    · rw [hr] at hreq
      simp [Store.opened, World.store_resources, World.store_filesystemType] at hreq
  · -- `filesystem_` is set from then on, and a set one is never opened again.
    intro result w' b' hc call' calls t ht
    obtain ⟨hq', hl, -⟩ := call_of_opened hq hf hs hB hc
    obtain ⟨t', ht', hs', -⟩ := run_line B calls w' b' call' hq'
    rw [ht] at ht'
    cases ht'
    have hfs : w'.store.filesystem = some w.resources := hl.filesystem rfl
    have h := Line.run_later B calls w'.store b'
    rw [← hs'] at h
    obtain ⟨new, hn, hno⟩ := h.requests
    exact ⟨(h.filesystem (by rw [hfs]; rfl)).trans hfs, new, hn, hno (by rw [hfs]; rfl)⟩

/-- A backend that denies the filesystem and completes everything else with 0. -/
def denied : Backend Unit := fun b request =>
  (.completes { code := if request.opensFileSystem then ppErrorNoAccess else ppOk }, b)

theorem init_failure_unhandled_open :
    ¬ HandlesFailure denied World.blank () 0 ⟨0, .open_ (str "/a") oRdWr 0⟩ :=
  (init_failure_unhandled denied World.blank () 0 0 (.open_ (str "/a") oRdWr 0)
    { code := ppErrorNoAccess } blank_quiescent trivial rfl rfl (by decide)).1

/-- `Open` returns 0 on the filesystem that was denied. -/
theorem open_on_denied : Quiescent World.blank ∧ World.blank.filesystem = none ∧
    ¬ HandlesFailure denied World.blank () 0 ⟨0, .open_ (str "/a") oRdWr 0⟩ := by
  refine ⟨blank_quiescent, rfl, fun h => ?_⟩
  obtain ⟨result, w', b', hc, hfail, -⟩ := h { code := ppErrorNoAccess } rfl (by decide)
  have hr : some (Result.int 0) = some result := congrArg Outcome.result hc
  cases hr
  exact hfail rfl

end NaClFs
