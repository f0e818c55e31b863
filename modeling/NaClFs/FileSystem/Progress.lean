/-
When an operation returns. The filesystem and the information of a file are waited for without a look at
whether they were asked for in vain; a read may wait for a message; every other operation returns,
whatever the backend refuses or completes its requests with.
-/
import NaClFs.FileSystem.System

namespace NaClFs

/-! ## Programs -/

/-- The requests that are waited for are accepted, and complete with any code. -/
structure Backend.Accepts {β : Type} (B : Backend β) : Prop where
  fileSystemOpen : ∀ b r type size, ∃ answer, (B b (.fileSystemOpen r type size)).1 = .completes answer
  query : ∀ b file, ∃ answer, (B b (.query file)).1 = .completes answer

namespace Line

variable {β α γ : Type} {B : Backend β}

/-- The program never waits. -/
def Answers (m : Line β α) : Prop := Waiting.Answers m

theorem answers_pure (a : α) : Answers (pure a : Line β α) := fun _ _ => rfl

theorem answers_get : Answers (get : Line β Store) := fun _ _ => rfl

theorem answers_modify (f : Store → Store) : Answers (modify f : Line β Unit) := fun _ _ => rfl

theorem answers_ask (request : Request) : Answers (ask B request) := fun _ _ => rfl

theorem answers_bind {m : Line β α} {k : α → Line β γ} (hm : Answers m) (hk : ∀ a, Answers (k a)) :
    Answers (m >>= k) := by
  intro s b
  have h : (m >>= k) s b = Waiting.andThen (m s b) k := by
    rw [bind_run]
    rcases m s b with ⟨_ | a, s', b'⟩
    · rfl
    · rfl
  rw [h]
  exact Waiting.Answers.andThen hm hk s b

theorem answers_ite {c : Prop} [Decidable c] {m m' : Line β α} (h : Answers m) (h' : Answers m') :
    Answers (if c then m else m') := by
  split
  · exact h
  · exact h'

/-- The operations hand the backend a request and go on with its reply. -/
theorem answers_reply {request : Store → Request} {k : Reply → Line β α} (hk : ∀ reply, Answers (k reply)) :
    Answers (do let s ← get; let reply ← ask B (request s); k reply : Line β α) :=
  answers_bind answers_get fun _ => answers_bind (answers_ask _) hk

section Parts

variable (hB : B.Accepts)
include hB

theorem answers_needFileSystem : Answers (needFileSystem B) := by
  intro s b
  cases hf : s.filesystem with
  | some filesystem => simp [needFileSystem, bind_run, get, hf]
  | none =>
    obtain ⟨answer, ha⟩ :=
      hB.fileSystemOpen b s.resources s.filesystemType Html5FileSystem.expectedSize
    simp [needFileSystem, bind_run, get, modify, ask, hf, ha]

theorem answers_query (d : Nat) : Answers (query B d) := by
  intro s b
  obtain ⟨answer, ha⟩ := hB.query b (s.files d).fileIo
  simp [query, bind_run, get, ask, ha, storeInfo, modifyFile, modify]

end Parts

theorem answers_openFile (d : Nat) (ref : FileRef) (flags : BitVec 32) : Answers (openFile B d ref flags) :=
  fun _ _ => rfl

theorem answers_readDirNext (dirp : Nat) (dir : Listing) : Answers (readDirNext dirp dir : Line β Result) :=
  fun _ _ => rfl

theorem answers_readDir (dirp : Nat) : Answers (readDir B dirp) := by
  unfold readDir
  apply answers_bind answers_get
  intro s
  split
  · exact answers_pure _
  · rename_i dir _
    apply answers_ite (answers_readDirNext _ _)
    apply answers_bind (answers_ask _)
    intro reply
    cases reply with
    | refused code hc =>
      apply answers_ite (answers_readDirNext _ _)
      exact answers_bind (answers_modify _) fun _ => answers_pure _
    | completes answer =>
      apply answers_ite ?_ (answers_readDirNext _ _)
      exact answers_bind (answers_modify _) fun _ => answers_pure _

/-- With a backend that accepts what is waited for, no program waits. -/
theorem answers_program (hB : B.Accepts) (d : Nat) (f : Function) : Answers (program B d f) := by
  cases f with
  | open_ path oflag cmode =>
    apply answers_bind (answers_needFileSystem hB)
    rintro ⟨filesystem, code⟩
    apply answers_bind (answers_openFile _ _ _)
    intro reply
    cases reply with
    | refused => exact answers_pure _
    | completes answer =>
      apply answers_ite (answers_pure _)
      apply answers_bind (answers_query hB d)
      intro code
      exact answers_ite (answers_pure _) (answers_bind (answers_modify _) fun _ => answers_pure _)
  | stat path buf =>
    apply answers_bind (answers_needFileSystem hB)
    rintro ⟨filesystem, code⟩
    apply answers_bind (answers_openFile _ _ _)
    intro reply
    cases reply with
    | refused => exact answers_pure _
    | completes answer =>
      apply answers_ite (answers_bind (answers_modify _) fun _ => answers_pure _)
      apply answers_ite (answers_pure _)
      apply answers_bind (answers_query hB d)
      intro code
      apply answers_ite (answers_pure _)
      exact answers_bind answers_get fun _ => answers_bind (answers_modify _) fun _ => answers_pure _
  | close => exact answers_reply fun _ => answers_pure _
  | fstat buf =>
    apply answers_reply
    intro reply
    cases reply with
    | refused => exact answers_pure _
    | completes answer =>
      apply answers_bind (answers_modify _)
      intro _
      exact answers_bind answers_get fun _ => answers_bind (answers_modify _) fun _ => answers_pure _
  | read buf nbytes =>
    intro s b
    obtain ⟨s', hs, -⟩ := read_run (B := B) s b d buf nbytes
    show (read B d buf nbytes s b).1.isSome
    rw [hs]
    rfl
  | write buf =>
    intro s b
    obtain ⟨s', hs, -⟩ := write_run (B := B) s b d buf
    show (write B d buf s b).1.isSome
    rw [hs]
    rfl
  | seek offset whence =>
    intro s b
    show ((seek d offset whence : Line β Result) s b).1.isSome
    rw [seek_eq]
    cases target (s.files d) offset whence <;> rfl
  | isatty => exact answers_pure _
  | fcntl cmd ap =>
    exact answers_ite (answers_pure _) (answers_bind (answers_modify _) fun _ => answers_pure _)
  | mkdir path mode =>
    apply answers_bind (answers_needFileSystem hB)
    rintro ⟨filesystem, code⟩
    apply answers_bind (answers_ask _)
    intro reply
    cases reply <;> exact answers_pure _
  | opendir dirname =>
    apply answers_bind (answers_needFileSystem hB)
    rintro ⟨filesystem, code⟩
    exact answers_bind answers_get fun _ => answers_bind (answers_modify _) fun _ => answers_pure _
  | rewinddir dirp =>
    apply answers_bind answers_get
    intro s
    split
    · exact answers_pure _
    · exact answers_bind (answers_modify _) fun _ => answers_pure _
  | readdir dirp => exact answers_readDir dirp
  | closedir dirp =>
    apply answers_bind answers_get
    intro s
    split
    · exact answers_pure _
    · exact answers_bind (answers_modify _) fun _ => answers_pure _

end Line

/-- Whether the operation returns. -/
def Ends.IsReturn {β : Type} : Ends β → Prop
  | .returns _ _ => True
  | _ => False

namespace Process

variable {β : Type} {B : Backend β} {main : Bool} {call : Nat} {s : Process β}

/-! ## Operations -/

variable (main call) in
/-- A method is answered. -/
theorem method_answers (hB : B.Accepts) (hq : Quiescent s.world) (d : Nat) (f : Function) :
    ∃ answer s', s.method B main call d f = some (answer, s') := by
  cases hk : s.table.kind d with
  | port => exact ⟨_, _, method_port hk f⟩
  | html5 =>
    cases main with
    | true => exact ⟨_, _, method_file_main hk f⟩
    | false =>
      obtain ⟨answer, st, b, hp⟩ := (Line.answers_program hB d f).returns s.world.store s.backend
      obtain ⟨w, hm, -⟩ := method_returns call hq hk hp
      exact ⟨answer, _, hm⟩

/-- A read waits for a message: of a device, that has nothing to give; of a file, whose code is the one a
device asks to wait with, and is so again where a message has unlocked `mutex_` for a second turn. -/
def Waits (B : Backend β) (main : Bool) (s : Process β) : Op → Prop
  | .read fildes buf nbytes => ∃ d, s.table.getDelegate fildes = some d ∧
      match s.table.kind d with
      | .port => 0 ≤ (s.ports d).id ∧ (s.ports d).readable ∧ (s.ports d).blocking ∧
          (nbytes = 0 ∨ s.buffer = [])
      | .html5 => main = false ∧
          let request := Line.readRequest s.world.store d buf nbytes
          Line.count (B s.backend request).1 = -2 ∧
            (s.locked = true ∨ Line.count (B (B s.backend request).2 request).1 = -2)
  | _ => False

/-- A null path that is not looked for, or a DIR that is closed or was never there. -/
def Faults (s : Process β) : Op → Prop
  | .stat path _ | .chdir path _ => path = none
  | .rewinddir dirp | .readdir dirp | .closedir dirp => s.table.dirs[dirp]?.join = none
  | _ => False

theorem finish_isReturn {o : Option (Result × Process β)} {answer : Result} {s' : Process β}
    (h : o = some (answer, s')) (k : Result → Process β → FileSystem × Returned) : (finish o k).IsReturn := by
  rw [h]
  trivial

theorem onPath_isReturn (hB : B.Accepts) (hq : Quiescent s.world) (path : Str) (f : Str → Function)
    (k : Result → Process β → FileSystem × Returned) : (s.onPath B main call path f k).IsReturn := by
  obtain ⟨answer, s', hm⟩ := method_answers main call hB
    (create_quiescent hq (createFullpath s.table.cwd path)) (s.create (createFullpath s.table.cwd path)).2
    (f (createFullpath s.table.cwd path))
  exact finish_isReturn hm k

theorem onDescriptor_isReturn (hB : B.Accepts) (hq : Quiescent s.world) (fildes bad : Int) (f : Function)
    (k : Result → Process β → FileSystem × Returned) :
    (s.onDescriptor B main call fildes bad f k).IsReturn := by
  unfold onDescriptor
  split
  · trivial
  · rename_i d hd
    obtain ⟨answer, s', hm⟩ := method_answers main call hB hq d f
    exact finish_isReturn hm k

theorem onDir_isReturn (hB : B.Accepts) (hq : Quiescent s.world) (dirp : Nat) (f : Function)
    (k : Result → Process β → FileSystem × Returned) :
    (s.onDir B main call dirp f k).IsReturn ↔ s.table.dirs[dirp]?.join ≠ none := by
  unfold onDir
  split
  · rename_i hd
    exact iff_of_false (fun h => h) (not_not_intro hd)
  · rename_i d hd
    obtain ⟨answer, s', hm⟩ := method_answers main call hB hq d f
    refine iff_of_true (finish_isReturn hm k) ?_
    rw [hd]
    exact Option.some_ne_none d

theorem read_isReturn (hq : Quiescent s.world) (fildes : Int) (buf nbytes : Nat) :
    (s.read B main call fildes buf nbytes).IsReturn ↔ ¬ Waits B main s (.read fildes buf nbytes) := by
  cases hd : s.table.getDelegate fildes with
  | none =>
    refine iff_of_true ?_ ?_
    · rw [read_none hd]
      exact trivial
    · rintro ⟨d, hd', -⟩
      rw [hd] at hd'
      cases hd'
  | some d =>
    have hwaits : Waits B main s (.read fildes buf nbytes) ↔ match s.table.kind d with
        | .port => 0 ≤ (s.ports d).id ∧ (s.ports d).readable ∧ (s.ports d).blocking ∧
            (nbytes = 0 ∨ s.buffer = [])
        | .html5 => main = false ∧
            let request := Line.readRequest s.world.store d buf nbytes
            Line.count (B s.backend request).1 = -2 ∧
              (s.locked = true ∨ Line.count (B (B s.backend request).2 request).1 = -2) := by
      constructor
      · rintro ⟨d', hd', h⟩
        rw [hd] at hd'
        cases hd'
        exact h
      · intro h
        exact ⟨d, hd, h⟩
    rw [hwaits]
    cases hk : s.table.kind d with
    | port =>
      rw [read_device hd hk]
      dsimp only
      rw [← PortFileSystem.read_waits]
      split
      · rename_i h2
        exact iff_of_false (fun h => h) (not_not_intro h2)
      · rename_i h2
        exact iff_of_true trivial h2
    | html5 =>
      cases main with
      | true =>
        rw [read_file_main hd hk]
        exact iff_of_true trivial fun h => Bool.noConfusion h.1
      | false =>
        dsimp only
        rcases read_file B call hq hd hk buf nbytes with ⟨h2, t, ho, -⟩ | ⟨h2, hw, ho⟩ | ⟨h2, hl, h3, t, ho, -⟩
        · rw [ho]
          exact iff_of_true trivial fun h => h2 h.2.1
        · rw [ho]
          exact iff_of_false (fun h => h) (not_not_intro ⟨rfl, h2, hw⟩)
        · rw [ho]
          refine iff_of_true trivial ?_
          rintro ⟨-, -, h | h⟩
          · rw [hl] at h
            cases h
          · exact h3 h

/-- Every operation that is not kept waiting and does not fault returns. -/
theorem perform_isReturn (hB : B.Accepts) (hq : Quiescent s.world) (op : Op) :
    (s.perform B main call op).IsReturn ↔ ¬ Waits B main s op ∧ ¬ Faults s op := by
  have hsure {e : Ends β} (h : e.IsReturn) : e.IsReturn ↔ ¬ False ∧ ¬ False :=
    iff_of_true h ⟨not_false, not_false⟩
  have hdir {e : Ends β} {dirp : Nat} (h : e.IsReturn ↔ s.table.dirs[dirp]?.join ≠ none) :
      e.IsReturn ↔ ¬ False ∧ ¬ s.table.dirs[dirp]?.join = none := h.trans (by simp)
  cases op with
  | open_ path oflag cmode =>
    apply hsure
    cases path with
    | none => trivial
    | some path =>
      simp only [perform, open_]
      exact onPath_isReturn hB hq path _ _
  | mkdir path mode =>
    apply hsure
    cases path with
    | none => trivial
    | some path =>
      simp only [perform, mkDir]
      exact onPath_isReturn hB hq path _ _
  | opendir path =>
    apply hsure
    cases path with
    | none => trivial
    | some path => exact onPath_isReturn hB hq path _ _
  | stat path buf =>
    cases path with
    | none => exact iff_of_false (fun h => h) fun h => h.2 rfl
    | some path =>
      refine iff_of_true ?_ ⟨not_false, Option.some_ne_none path⟩
      simp only [perform, stat]
      exact onPath_isReturn hB hq path _ _
  | chdir path buf =>
    cases path with
    | none => exact iff_of_false (fun h => h) fun h => h.2 rfl
    | some path =>
      refine iff_of_true ?_ ⟨not_false, Option.some_ne_none path⟩
      simp only [perform, chDir]
      exact onPath_isReturn hB hq path _ _
  | read fildes buf nbytes => exact (read_isReturn hq fildes buf nbytes).trans (by simp [Faults])
  | close | fstat | write | seek | isatty | fcntl => exact hsure (onDescriptor_isReturn hB hq _ _ _ _)
  | rewinddir | readdir | closedir => exact hdir (onDir_isReturn hB hq _ _ _)

end Process

/-! ## The system -/

namespace System

variable {β : Type} {B : Backend β} {s : System β}

/-- After every run of operations and messages, with a backend that refuses or fails any request but
never leaves the opening of the filesystem or a query unanswered: an operation returns unless it is a
read that waits, or is given a null path or a DIR that is not open where these are not looked at. -/
theorem run_returns_iff (hB : B.Accepts) {type : FileSystemType} {info : Nat → FileInfo}
    {arguments : Nat → Arguments} {stats : Nat → Stat} {buffers : Nat → Str} {b : β} {as : List Act}
    {os : List (Option Returned)}
    (h : Stream.run (step B) (init type info arguments stats buffers b) as = some (s, os)) (main : Bool)
    (call : Nat) (op : Process.Op) : (step B s (.op main call op)).isSome ↔
      ¬ s.process.Waits B main op ∧ ¬ s.process.Faults op := by
  have hiff : (s.process.perform B main call op).IsReturn ↔ _ :=
    Process.perform_isReturn hB (run_quiescent h) op
  rw [← hiff]
  simp only [step]
  cases s.process.perform B main call op with
  | returns ret t => exact iff_of_true rfl trivial
  | waits | faults => exact iff_of_false (by simp) fun h => h

/-- stdin and a file whose reads fail are opened, and a key is sent. -/
def openBoth : List Act :=
  [.op true 0 (.open_ (some (str "/dev/stdin")) oRdOnly 0), .op false 1 (.open_ (some (str "a")) oRdOnly 0),
    .message (.string (str "S0x"))]

theorem failingReads_accepts : failingReads.Accepts :=
  ⟨fun _ _ _ _ => ⟨_, rfl⟩, fun _ _ => ⟨_, rfl⟩⟩

theorem run_returns_iff_openBoth :
    ∃ s os, Stream.run (step failingReads) ⟨Process.blank (), []⟩ openBoth = some (s, os) ∧
      ∀ main call op, (step failingReads s (.op main call op)).isSome ↔
        ¬ s.process.Waits failingReads main op ∧ ¬ s.process.Faults op := by
  have hs : (Stream.run (step failingReads) ⟨Process.blank (), []⟩ openBoth).isSome = true := by
    decide +kernel
  obtain ⟨⟨s, os⟩, h⟩ := Option.isSome_iff_exists.1 hs
  exact ⟨s, os, h, run_returns_iff failingReads_accepts h⟩

/-- The file's read waits once it has been tried again for the key, which stdin's read still takes. -/
example : (Stream.run (step failingReads) ⟨Process.blank (), []⟩
    (openBoth ++ [.op false 2 (.read 0 0 1)])).isSome ∧
    Stream.run (step failingReads) ⟨Process.blank (), []⟩ (openBoth ++ [.op false 2 (.read 1 0 1)]) = none := by
  decide +kernel

end System

end NaClFs
