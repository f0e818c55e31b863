/-
`FileSystem` over the delegates themselves: each operation makes the virtual call of its delegate, on the
main thread or on a worker, and does to the table what `NaClFs.FileSystem.Table` does on the answer. A
worker's call is served to its end, so the operations are taken one after the other.
-/
import NaClFs.FileSystem.Read
import NaClFs.Html5.Refine
import NaClFs.Lib.Run

namespace NaClFs

/-! ## Virtual calls -/

/-- What the base class answers on the main thread, where it makes no call. `RewindDir` returns
nothing. -/
def onMainThread : Function → Result
  | .open_ _ _ _ | .stat _ _ | .close | .fstat _ | .isatty | .fcntl _ _ | .mkdir _ _ | .closedir _ =>
    .int eio
  | .read _ _ | .write _ | .seek _ _ => .int (-1)
  | .opendir _ => .dir none
  | .rewinddir _ => .callback 0
  | .readdir _ => .dirent none

/-- The number of an answer that is one. -/
def Result.toInt : Result → Int
  | .int value => value
  | _ => 0

/-- Whether an answer is a DIR. -/
def Result.isDir : Result → Bool
  | .dir (some _) => true
  | _ => false

/-- What an operation returns, the entry of `ReadDir` included. -/
structure Returned extends FileSystem.Ret where
  dirent : Option Str := none
  deriving DecidableEq, Repr

/-- How an operation ends: it returns, it waits for something that does not come while it is served
alone, or it reads through a pointer it must not. -/
inductive Ends (β : Type)
  | returns (ret : Returned) (s : Process β)
  | waits
  | faults

namespace Process

variable {β : Type}

/-- The methods of `PortFileSystem`, on the delegate. -/
def port (s : Process β) (d : Nat) : Function → Result × Process β
  | .open_ path oflag _ =>
    let (this, result) := (s.ports d).open_ path oflag
    (.int result, { s with ports := Function.update s.ports d this })
  | .stat path buf =>
    match PortFileSystem.stat path with
    | (result, none) => (.int result, s)
    | (result, some st) => (.int result, { s with world := s.world.setStat buf st })
  | .close => (.int (s.ports d).close, s)
  | .fstat buf => (.int 0, { s with world := s.world.setStat buf PortFileSystem.deviceStat })
  | .read buf nbytes =>
    let (result, bytes, buffer) := (s.ports d).read s.buffer nbytes
    (.int result, { s with buffer := buffer, world := s.world.setBuffer buf bytes })
  | .write buf => (.int ((s.ports d).write buf).1, s)
  | .seek _ _ => (.int PortFileSystem.seek, s)
  | .isatty => (.int PortFileSystem.isATty, s)
  | .fcntl cmd ap =>
    let (this, result, errno) := (s.ports d).fcntl cmd (BitVec.ofInt 32 ap)
    (.int result, { s with
      ports := Function.update s.ports d this
      table := { s.table with errno := errno.getD s.table.errno } })
  | .mkdir _ _ => (.int (-1), s)
  | .opendir _ => (.dir none, s)
  | .rewinddir _ => (.callback 0, s)
  | .readdir _ => (.dirent none, s)
  | .closedir _ => (.int (-1), s)

variable (B : Backend β) (main : Bool) (call : Nat)

/-- A method of the delegate; none when the call is never answered. -/
def method (s : Process β) (d : Nat) (f : Function) : Option (Result × Process β) :=
  match s.table.kind d with
  | .port => some (s.port d f)
  | .html5 =>
    if main then some (onMainThread f, s)
    else
      match Delegate.call B s.world s.backend call ⟨d, f⟩ with
      | .returned result w b => some (result, { s with world := w, backend := b })
      | _ => none

/-- `CreateDelegate`: the object as its constructor leaves it. `file_info_` is not set. -/
def create (s : Process β) (path : Str) : Process β × Nat :=
  let (table, d) := s.table.createDelegate path
  ({ s with
    table := table
    ports := Function.update s.ports d {}
    world := s.world.setDelegate d { fileInfo := (s.world.delegates d).fileInfo } }, d)

/-! ## Operations -/

/-- The end of an operation: the method of the delegate, then what is done to the table. -/
def finish (o : Option (Result × Process β)) (k : Result → Process β → FileSystem × Returned) :
    Ends β :=
  match o with
  | none => .waits
  | some (answer, s) => .returns (k answer s).2 { s with table := (k answer s).1 }

/-- A method of a new delegate for the path. -/
def onPath (s : Process β) (path : Str) (f : Str → Function)
    (k : Result → Process β → FileSystem × Returned) : Ends β :=
  let fullpath := createFullpath s.table.cwd path
  let (s, d) := s.create fullpath
  finish (s.method B main call d (f fullpath)) k

/-- A method of the delegate behind a descriptor, or the result for a bad one. -/
def onDescriptor (s : Process β) (fildes : Int) (bad : Int) (f : Function)
    (k : Result → Process β → FileSystem × Returned) : Ends β :=
  match s.table.getDelegate fildes with
  | none => .returns { result := bad } s
  | some d => finish (s.method B main call d f) k

/-- A method of the delegate of a DIR. -/
def onDir (s : Process β) (dirp : Nat) (f : Function)
    (k : Result → Process β → FileSystem × Returned) : Ends β :=
  match s.table.dirs[dirp]?.join with
  | none => .faults
  | some d => finish (s.method B main call d f) k

theorem onDir_some {B : Backend β} {main : Bool} {call : Nat} {s : Process β} {dirp d : Nat}
    (h : s.table.dirs[dirp]?.join = some d) (f : Function)
    (k : Result → Process β → FileSystem × Returned) :
    s.onDir B main call dirp f k = finish (s.method B main call d f) k := by
  simp only [onDir, h]

/-- The table stays and the answer is the result. -/
def pass (answer : Result) (s : Process β) : FileSystem × Returned :=
  (s.table, { result := answer.toInt })

/-- `Open`. -/
def open_ (s : Process β) (path : Option Str) (oflag cmode : BitVec 32) : Ends β :=
  match path with
  | none => .returns { result := efault } s
  | some path => s.onPath B main call path (.open_ · oflag cmode) fun answer _ =>
    let (table, ret) := s.table.open_ (some path) answer.toInt
    (table, { ret with })

/-- `Stat`, which reads the path before it is looked at. -/
def stat (s : Process β) (path : Option Str) (buf : Nat) : Ends β :=
  match path with
  | none => .faults
  | some path => s.onPath B main call path (.stat · buf) fun answer _ =>
    let (table, ret) := s.table.stat path answer.toInt
    (table, { ret with })

/-- `Close`. -/
def close (s : Process β) (fildes : Int) : Ends β :=
  s.onDescriptor B main call fildes ebadf .close fun answer _ =>
    let (table, ret) := s.table.close fildes answer.toInt
    (table, { ret with })

/-- `Fstat`. -/
def fstat (s : Process β) (fildes : Int) (buf : Nat) : Ends β :=
  s.onDescriptor B main call fildes ebadf (.fstat buf) pass

/-- The loop of `Read`. A turn that ends in the lock of `mutex_` is followed by another where a message
has unlocked it; where it is locked the reader waits, for a message that is not handled meanwhile. -/
def readLoop (fildes : Int) (buf nbytes : Nat) : Nat → Process β → Ends β
  | 0, _ => .waits
  | turns + 1, s =>
    match FileSystem.readTurn B main call s fildes buf nbytes with
    | .returns result s => .returns { result := result } s
    | .locks s => if s.locked then .waits else readLoop fildes buf nbytes turns { s with locked := true }
    | .waits => .waits

/-- `Read`. The second turn leaves `mutex_` locked, so there is no third. -/
def read (s : Process β) (fildes : Int) (buf nbytes : Nat) : Ends β :=
  readLoop B main call fildes buf nbytes 2 s

/-- `Write`. -/
def write (s : Process β) (fildes : Int) (buf : Str) : Ends β :=
  s.onDescriptor B main call fildes (-1) (.write buf) pass

/-- `Seek`. -/
def seek (s : Process β) (fildes : Int) (offset whence : Int) : Ends β :=
  s.onDescriptor B main call fildes (-1) (.seek offset whence) pass

/-- `IsATty`. -/
def isATty (s : Process β) (fildes : Int) : Ends β :=
  s.onDescriptor B main call fildes ebadf .isatty pass

/-- `Fcntl`. -/
def fcntl (s : Process β) (fildes : Int) (cmd ap : Int) : Ends β :=
  s.onDescriptor B main call fildes ebadf (.fcntl cmd ap) pass

/-- `MkDir`. -/
def mkDir (s : Process β) (path : Option Str) (mode : BitVec 32) : Ends β :=
  match path with
  | none => .returns { result := -1 } s
  | some path => s.onPath B main call path (.mkdir · mode) fun answer _ =>
    let (table, ret) := s.table.mkDir (some path) answer.toInt
    (table, { ret with })

/-- `OpenDir`. -/
def openDir (s : Process β) (dirname : Option Str) : Ends β :=
  match dirname with
  | none => .returns { result := 0 } s
  | some dirname => s.onPath B main call dirname .opendir fun answer _ =>
    let (table, ret) := s.table.openDir (some dirname) answer.isDir
    (table, { ret with })

/-- `RewindDir`. -/
def rewindDir (s : Process β) (dirp : Nat) : Ends β :=
  s.onDir B main call dirp (.rewinddir dirp) fun _ s => (s.table, { result := 0 })

/-- `ReadDir`. -/
def readDir (s : Process β) (dirp : Nat) : Ends β :=
  s.onDir B main call dirp (.readdir dirp) fun answer s =>
    (s.table, { result := 0, dirent := match answer with | .dirent name => name | _ => none })

/-- `CloseDir`. -/
def closeDir (s : Process β) (dirp : Nat) : Ends β :=
  s.onDir B main call dirp (.closedir dirp) fun answer _ =>
    match s.table.closeDir dirp answer.toInt with
    | none => (s.table, { result := answer.toInt })
    | some (table, ret) => (table, { ret with })

/-- `ChDir`, with the address of its `struct stat`. -/
def chDir (s : Process β) (path : Option Str) (buf : Nat) : Ends β :=
  match path with
  | none => .faults
  | some path => s.onPath B main call path (.stat · buf) fun answer s' =>
    let (table, ret) := s.table.chDir path answer.toInt (s'.world.stats buf)
    (table, { ret with })

/-! ## Runs -/

/-- A call on the file system. -/
inductive Op
  | open_ (path : Option Str) (oflag cmode : BitVec 32)
  | stat (path : Option Str) (buf : Nat)
  | close (fildes : Int)
  | fstat (fildes : Int) (buf : Nat)
  | read (fildes : Int) (buf nbytes : Nat)
  | write (fildes : Int) (buf : Str)
  | seek (fildes offset whence : Int)
  | isatty (fildes : Int)
  | fcntl (fildes cmd ap : Int)
  | mkdir (path : Option Str) (mode : BitVec 32)
  | opendir (dirname : Option Str)
  | rewinddir (dirp : Nat)
  | readdir (dirp : Nat)
  | closedir (dirp : Nat)
  | chdir (path : Option Str) (buf : Nat)
  deriving DecidableEq, Repr

/-- The call. -/
def perform (s : Process β) : Op → Ends β
  | .open_ path oflag cmode => s.open_ B main call path oflag cmode
  | .stat path buf => s.stat B main call path buf
  | .close fildes => s.close B main call fildes
  | .fstat fildes buf => s.fstat B main call fildes buf
  | .read fildes buf nbytes => s.read B main call fildes buf nbytes
  | .write fildes buf => s.write B main call fildes buf
  | .seek fildes offset whence => s.seek B main call fildes offset whence
  | .isatty fildes => s.isATty B main call fildes
  | .fcntl fildes cmd ap => s.fcntl B main call fildes cmd ap
  | .mkdir path mode => s.mkDir B main call path mode
  | .opendir dirname => s.openDir B main call dirname
  | .rewinddir dirp => s.rewindDir B main call dirp
  | .readdir dirp => s.readDir B main call dirp
  | .closedir dirp => s.closeDir B main call dirp
  | .chdir path buf => s.chDir B main call path buf

/-- One call that returns, on the main thread or on a worker. -/
def step (B : Backend β) (s : Process β) (a : Bool × Nat × Op) : Option (Process β) :=
  match s.perform B a.1 a.2.1 a.2.2 with
  | .returns _ s => some s
  | _ => none

/-- The process of the constructors, whatever they leave unset. -/
def init (type : FileSystemType) (info : Nat → FileInfo) (arguments : Nat → Arguments)
    (stats : Nat → Stat) (buffers : Nat → Str) (b : β) : Process β where
  table := .init
  ports _ := {}
  buffer := []
  world := .init type info arguments stats buffers
  backend := b

/-- The process of the constructors over cleared memory. -/
def blank (b : β) : Process β :=
  init .localTemporary (fun _ => ⟨0, .regular, 0, 0, 0⟩) (fun _ => ⟨0, .close⟩) (fun _ => .zero)
    (fun _ => []) b

/-- A backend that refuses every request. -/
def refusing : Backend Unit := fun b _ => (.refused ppErrorFailed (by decide), b)

/-! ## Between calls -/

variable {B main call}

theorem port_delegates (s : Process β) (d : Nat) (f : Function) :
    (s.port d f).2.world.delegates = s.world.delegates := by
  cases f with
  | stat path buf =>
    simp only [port]
    cases PortFileSystem.stat path with
    | mk result st => cases st <;> rfl
  | _ => rfl

theorem method_port {s : Process β} {d : Nat} (hk : s.table.kind d = .port) (f : Function) :
    s.method B main call d f = some (s.port d f) := by
  simp only [method, hk]

/-- On the main thread the method of a file is not called. -/
theorem method_file_main {s : Process β} {d : Nat} (hk : s.table.kind d = .html5) (f : Function) :
    s.method B true call d f = some (onMainThread f, s) := by
  simp only [method, hk, if_true]

/-- A method leaves no call in flight. -/
theorem method_quiescent {s s' : Process β} {d : Nat} {f : Function} {answer : Result}
    (hq : Quiescent s.world) (h : s.method B main call d f = some (answer, s')) :
    Quiescent s'.world := by
  unfold method at h
  split at h
  · obtain rfl : (s.port d f).2 = s' := congrArg Prod.snd (Option.some.inj h)
    intro d'
    rw [port_delegates]
    exact hq d'
  · split at h
    · cases h
      exact hq
    · have ha := call_agrees (B := B) (b := s.backend) hq call ⟨d, f⟩
      split at h
      · rename_i result w b ho
        rw [ho] at ha
        cases h
        exact ha.2
      · cases h

/-- No method touches `mutex_`. -/
theorem method_locked {s s' : Process β} {d : Nat} {f : Function} {answer : Result}
    (h : s.method B main call d f = some (answer, s')) : s'.locked = s.locked := by
  unfold method at h
  split at h
  · obtain rfl : (s.port d f).2 = s' := congrArg Prod.snd (Option.some.inj h)
    cases f with
    | stat path buf =>
      simp only [port]
      split <;> rfl
    | _ => rfl
  · split at h
    · cases h
      rfl
    · split at h
      · cases h
        rfl
      · cases h

/-- On a worker the method of a file is its program. -/
theorem method_returns (call : Nat) {s : Process β} (hq : Quiescent s.world) {d : Nat}
    (hk : s.table.kind d = .html5) {f : Function} {answer : Result} {st : Store} {b : β}
    (h : Line.program B d f s.world.store s.backend = (some answer, st, b)) :
    ∃ w, s.method B false call d f = some (answer, { s with world := w, backend := b }) ∧
      w.store = st ∧ Quiescent w := by
  have ha := call_agrees (B := B) (b := s.backend) hq call ⟨d, f⟩
  rw [h] at ha
  simp only [method, hk, Bool.false_eq_true, if_false]
  cases ho : Delegate.call B s.world s.backend call ⟨d, f⟩ with
  | returned answer' w b' =>
    rw [ho] at ha
    obtain ⟨hl, hq'⟩ := ha
    cases hl
    exact ⟨w, rfl, rfl, hq'⟩
  | blocked w b' =>
    rw [ho] at ha
    cases ha
  | spent =>
    rw [ho] at ha
    exact ha.elim

/-- And it waits where the program does. -/
theorem method_waits (call : Nat) {s : Process β} (hq : Quiescent s.world) {d : Nat}
    (hk : s.table.kind d = .html5) {f : Function}
    (h : (Line.program B d f s.world.store s.backend).1 = none) :
    s.method B false call d f = none := by
  have ha := call_agrees (B := B) (b := s.backend) hq call ⟨d, f⟩
  simp only [method, hk, Bool.false_eq_true, if_false]
  cases ho : Delegate.call B s.world s.backend call ⟨d, f⟩ with
  | returned answer w b' =>
    rw [ho] at ha
    rw [ha.1] at h
    cases h
  | blocked w b' => rfl
  | spent => rfl

theorem onDescriptor_none {s : Process β} {fildes : Int} (h : s.table.getDelegate fildes = none)
    (bad : Int) (f : Function) (k : Result → Process β → FileSystem × Returned) :
    s.onDescriptor B main call fildes bad f k = .returns { result := bad } s := by
  simp only [onDescriptor, h]

/-- The method's number is the result. -/
theorem onDescriptor_pass {s s' : Process β} {fildes : Int} {d : Nat} {f : Function} {value : Int}
    (h : s.table.getDelegate fildes = some d) (hm : s.method B main call d f = some (.int value, s'))
    (bad : Int) : s.onDescriptor B main call fildes bad f pass = .returns { result := value } s' := by
  simp only [onDescriptor, h, hm]
  rfl

/-- The class `CreateDelegate` chooses. -/
theorem create_kind (s : Process β) (path : Str) : (s.create path).1.table.kind (s.create path).2 =
    if (str "/dev/std").isPrefixOf path then .port else .html5 := by
  simp only [create, FileSystem.createDelegate, FileSystem.kind]
  rw [List.getD_eq_getElem?_getD, List.getElem?_concat_length]
  rfl

theorem create_quiescent {s : Process β} (hq : Quiescent s.world) (path : Str) :
    Quiescent (s.create path).1.world := by
  intro d
  by_cases hd : d = s.table.delegates.length
  · subst hd
    simp only [create, FileSystem.createDelegate, World.setDelegate_self]
    exact ⟨rfl, rfl⟩
  · simp only [create, FileSystem.createDelegate, World.setDelegate_of_ne _ hd]
    exact hq d

/-- An operation ends in the world its method left. -/
theorem finish_world {o : Option (Result × Process β)}
    {k : Result → Process β → FileSystem × Returned} {ret : Returned} {s : Process β}
    (h : finish o k = .returns ret s) :
    ∃ answer s', o = some (answer, s') ∧ ret = (k answer s').2 ∧
      s = { s' with table := (k answer s').1 } := by
  unfold finish at h
  split at h
  · cases h
  · cases h
    exact ⟨_, _, rfl, rfl, rfl⟩

theorem onPath_quiescent {s t : Process β} {path : Str} {f : Str → Function}
    {k : Result → Process β → FileSystem × Returned} {ret : Returned} (hq : Quiescent s.world)
    (h : s.onPath B main call path f k = .returns ret t) : Quiescent t.world := by
  obtain ⟨answer, s', ho, -, rfl⟩ := finish_world h
  have := method_quiescent (create_quiescent hq _) ho
  exact this

theorem onDescriptor_quiescent {s t : Process β} {fildes bad : Int} {f : Function}
    {k : Result → Process β → FileSystem × Returned} {ret : Returned} (hq : Quiescent s.world)
    (h : s.onDescriptor B main call fildes bad f k = .returns ret t) : Quiescent t.world := by
  unfold onDescriptor at h
  split at h
  · cases h
    exact hq
  · obtain ⟨answer, s', ho, -, rfl⟩ := finish_world h
    have := method_quiescent hq ho
    exact this

theorem onDir_quiescent {s t : Process β} {dirp : Nat} {f : Function}
    {k : Result → Process β → FileSystem × Returned} {ret : Returned} (hq : Quiescent s.world)
    (h : s.onDir B main call dirp f k = .returns ret t) : Quiescent t.world := by
  unfold onDir at h
  split at h
  · cases h
  · obtain ⟨answer, s', ho, -, rfl⟩ := finish_world h
    have := method_quiescent hq ho
    exact this

/-- What an operation other than `Read` comes to. -/
inductive Dispatch (B : Backend β) (main : Bool) (call : Nat) (s : Process β) : Ends β → Prop
  | answers (ret : Returned) : Dispatch B main call s (.returns ret s)
  | faults : Dispatch B main call s .faults
  | path (path : Str) (f : Str → Function) (k : Result → Process β → FileSystem × Returned) :
      Dispatch B main call s (s.onPath B main call path f k)
  | descriptor (fildes bad : Int) (f : Function) (k : Result → Process β → FileSystem × Returned) :
      Dispatch B main call s (s.onDescriptor B main call fildes bad f k)
  | dir (dirp : Nat) (f : Function) (k : Result → Process β → FileSystem × Returned) :
      Dispatch B main call s (s.onDir B main call dirp f k)

theorem perform_dispatch (s : Process β) {op : Op} (h : ∀ fildes buf nbytes, op ≠ .read fildes buf nbytes) :
    Dispatch B main call s (s.perform B main call op) := by
  cases op with
  | read fildes buf nbytes => exact absurd rfl (h fildes buf nbytes)
  | open_ path oflag cmode =>
    cases path with
    | none => exact .answers _
    | some path =>
      simp only [perform, open_]
      exact .path path _ _
  | mkdir path mode =>
    cases path with
    | none => exact .answers _
    | some path =>
      simp only [perform, mkDir]
      exact .path path _ _
  | opendir dirname =>
    cases dirname with
    | none => exact .answers _
    | some dirname => exact .path dirname _ _
  | stat path buf =>
    cases path with
    | none => exact .faults
    | some path =>
      simp only [perform, stat]
      exact .path path _ _
  | chdir path buf =>
    cases path with
    | none => exact .faults
    | some path =>
      simp only [perform, chDir]
      exact .path path _ _
  | close | fstat | write | seek | isatty | fcntl => exact .descriptor _ _ _ _
  | rewinddir | readdir | closedir => exact .dir _ _ _

theorem Dispatch.quiescent {s t : Process β} {ends : Ends β} {ret : Returned}
    (hd : Dispatch B main call s ends) (hq : Quiescent s.world) (h : ends = .returns ret t) :
    Quiescent t.world := by
  cases hd with
  | answers ret' =>
    cases h
    exact hq
  | faults => cases h
  | path path f k => exact onPath_quiescent hq h
  | descriptor fildes bad f k => exact onDescriptor_quiescent hq h
  | dir dirp f k => exact onDir_quiescent hq h

/-! ## The turns of a read -/

section Turns

variable {fildes : Int} {buf nbytes : Nat}

theorem readTurn_none {s : Process β} (hd : s.table.getDelegate fildes = none) :
    FileSystem.readTurn B main call s fildes buf nbytes = .returns (-1) s := by
  simp only [FileSystem.readTurn, hd]

/-- A turn is the method of the delegate. -/
theorem readTurn_of_method {s s' : Process β} {d : Nat} {value : Int} (hd : s.table.getDelegate fildes = some d)
    (hm : s.method B main call d (.read buf nbytes) = some (.int value, s')) :
    FileSystem.readTurn B main call s fildes buf nbytes = .of value s' := by
  simp only [FileSystem.readTurn, hd]
  unfold method at hm
  cases hk : s.table.kind d with
  | port =>
    rw [hk] at hm
    have hvalue : Result.int ((s.ports d).read s.buffer nbytes).1 = .int value :=
      congrArg Prod.fst (Option.some.inj hm)
    obtain rfl : ((s.ports d).read s.buffer nbytes).1 = value := Result.int.inj hvalue
    obtain rfl : (s.port d (.read buf nbytes)).2 = s' := congrArg Prod.snd (Option.some.inj hm)
    rfl
  | html5 =>
    rw [hk] at hm
    cases main with
    | true =>
      cases hm
      rfl
    | false =>
      simp only [Bool.false_eq_true, if_false] at hm ⊢
      cases ho : Delegate.call B s.world s.backend call ⟨d, .read buf nbytes⟩ with
      | returned result w b =>
        rw [ho] at hm
        cases hm
        rfl
      | blocked w b =>
        rw [ho] at hm
        cases hm
      | spent =>
        rw [ho] at hm
        cases hm

theorem readTurn_cases (B : Backend β) (main : Bool) (call : Nat) (s : Process β) (buf nbytes : Nat) {d : Nat}
    (hd : s.table.getDelegate fildes = some d) :
    FileSystem.readTurn B main call s fildes buf nbytes = .waits ∨
      ∃ value s', s.method B main call d (.read buf nbytes) = some (.int value, s') ∧
        FileSystem.readTurn B main call s fildes buf nbytes = .of value s' := by
  have hturn {value : Int} {s' : Process β}
      (hm : s.method B main call d (.read buf nbytes) = some (.int value, s')) :
      ∃ value s', s.method B main call d (.read buf nbytes) = some (.int value, s') ∧
        FileSystem.readTurn B main call s fildes buf nbytes = .of value s' :=
    ⟨value, s', hm, readTurn_of_method hd hm⟩
  cases hk : s.table.kind d with
  | port =>
    right
    have hm : s.method B main call d (.read buf nbytes) =
        some (.int ((s.ports d).read s.buffer nbytes).1, (s.port d (.read buf nbytes)).2) :=
      method_port hk _
    exact hturn hm
  | html5 =>
    cases main with
    | true =>
      right
      exact hturn (method_file_main hk _)
    | false =>
      cases ho : Delegate.call B s.world s.backend call ⟨d, .read buf nbytes⟩ with
      | returned result w b =>
        cases result with
        | int value =>
          right
          have hm : s.method B false call d (.read buf nbytes) =
              some (.int value, { s with world := w, backend := b }) := by
            simp only [method, hk, Bool.false_eq_true, if_false, ho]
          exact hturn hm
        | _ =>
          left
          simp only [FileSystem.readTurn, hd, hk, Bool.false_eq_true, if_false, ho]
      | _ =>
        left
        simp only [FileSystem.readTurn, hd, hk, Bool.false_eq_true, if_false, ho]

/-- A read that returns: a turn whose result is not -2, after any that ended in a lock that was free. -/
inductive ReadTurns (B : Backend β) (main : Bool) (call : Nat) (fildes : Int) (buf nbytes : Nat) :
    Process β → Returned → Process β → Prop
  | bad {s : Process β} (hd : s.table.getDelegate fildes = none) :
      ReadTurns B main call fildes buf nbytes s { result := -1 } s
  | last {s s' : Process β} {d : Nat} {value : Int} (hd : s.table.getDelegate fildes = some d)
      (hm : s.method B main call d (.read buf nbytes) = some (.int value, s')) (hv : value ≠ -2) :
      ReadTurns B main call fildes buf nbytes s { result := value } s'
  | again {s s' t : Process β} {d : Nat} {ret : Returned} (hd : s.table.getDelegate fildes = some d)
      (hm : s.method B main call d (.read buf nbytes) = some (.int (-2), s')) (hl : s'.locked = false)
      (rest : ReadTurns B main call fildes buf nbytes { s' with locked := true } ret t) :
      ReadTurns B main call fildes buf nbytes s ret t

theorem readLoop_turns {turns : Nat} {s t : Process β} {ret : Returned}
    (h : readLoop B main call fildes buf nbytes turns s = .returns ret t) :
    ReadTurns B main call fildes buf nbytes s ret t := by
  induction turns generalizing s with
  | zero => cases h
  | succ turns ih =>
    rw [readLoop] at h
    cases hd : s.table.getDelegate fildes with
    | none =>
      rw [readTurn_none hd] at h
      cases h
      exact .bad hd
    | some d =>
      rcases readTurn_cases B main call s buf nbytes hd with hw | ⟨value, s', hm, hturn⟩
      · rw [hw] at h
        cases h
      rw [hturn] at h
      by_cases hv : value = -2
      · subst hv
        simp only [Turn.of, ne_eq, not_true_eq_false, if_false] at h
        split at h
        · cases h
        · rename_i hl
          exact .again hd hm (Bool.eq_false_iff.2 hl) (ih h)
      · simp only [Turn.of, if_pos hv] at h
        cases h
        exact .last hd hm hv

theorem read_turns {s t : Process β} {ret : Returned}
    (h : s.read B main call fildes buf nbytes = .returns ret t) :
    ReadTurns B main call fildes buf nbytes s ret t := readLoop_turns h

/-- A turn that does not end in the lock is the last. -/
theorem read_of_method {s s' : Process β} {d : Nat} {value : Int} (hd : s.table.getDelegate fildes = some d)
    (hm : s.method B main call d (.read buf nbytes) = some (.int value, s')) (hv : value ≠ -2) :
    s.read B main call fildes buf nbytes = .returns { result := value } s' := by
  rw [read, readLoop, readTurn_of_method hd hm, Turn.of, if_pos hv]

/-- Where `mutex_` is locked, one that ends in the lock is the last too. -/
theorem read_of_locked {s s' : Process β} {d : Nat} (hd : s.table.getDelegate fildes = some d)
    (hm : s.method B main call d (.read buf nbytes) = some (.int (-2), s')) (hl : s'.locked = true) :
    s.read B main call fildes buf nbytes = .waits := by
  rw [read, readLoop, readTurn_of_method hd hm]
  exact if_pos hl

/-- A turn that starts with `mutex_` locked is the last one. -/
theorem readLoop_locked (turns : Nat) {s : Process β} (hl : s.locked = true) :
    readLoop B main call fildes buf nbytes (turns + 1) s = readLoop B main call fildes buf nbytes 1 s := by
  rw [readLoop, readLoop]
  cases hd : s.table.getDelegate fildes with
  | none => rw [readTurn_none hd]
  | some d =>
    rcases readTurn_cases B main call s buf nbytes hd with hw | ⟨value, s', hm, hturn⟩
    · rw [hw]
    · rw [hturn]
      have hl' : s'.locked = true := (method_locked hm).trans hl
      by_cases hv : value ≠ -2
      · simp only [Turn.of, if_pos hv]
      · simp only [Turn.of, if_neg hv, hl', if_true]

/-- However many turns the loop may take, it takes two at most. -/
theorem readLoop_eq_read (turns : Nat) (s : Process β) :
    readLoop B main call fildes buf nbytes (turns + 2) s = s.read B main call fildes buf nbytes := by
  rw [read, readLoop, readLoop]
  cases FileSystem.readTurn B main call s fildes buf nbytes with
  | returns | waits => rfl
  | locks s' =>
    dsimp only
    have hl : ({ s' with locked := true } : Process β).locked = true := rfl
    rw [readLoop_locked turns hl]

theorem ReadTurns.quiescent {s t : Process β} {ret : Returned}
    (h : ReadTurns B main call fildes buf nbytes s ret t) (hq : Quiescent s.world) : Quiescent t.world := by
  induction h with
  | bad => exact hq
  | last hd hm hv => exact method_quiescent hq hm
  | again hd hm hl rest ih =>
    have hq' := method_quiescent hq hm
    exact ih hq'

end Turns

theorem perform_quiescent {s t : Process β} {op : Op} {ret : Returned} (hq : Quiescent s.world)
    (h : s.perform B main call op = .returns ret t) : Quiescent t.world := by
  by_cases hr : ∃ fildes buf nbytes, op = .read fildes buf nbytes
  · obtain ⟨fildes, buf, nbytes, rfl⟩ := hr
    exact (read_turns h).quiescent hq
  · simp only [not_exists] at hr
    exact (perform_dispatch s hr).quiescent hq h

/-- Between calls no delegate has a phase flag set. -/
theorem run_quiescent {type : FileSystemType} {info : Nat → FileInfo} {arguments : Nat → Arguments}
    {stats : Nat → Stat} {buffers : Nat → Str} {b : β} {as : List (Bool × Nat × Op)} {s : Process β}
    (h : Run.run (step B) (init type info arguments stats buffers b) as = some s) :
    Quiescent s.world := by
  refine Run.invariant_all (I := fun s : Process β => Quiescent s.world) ?_
    (init_quiescent type info arguments stats buffers) h
  intro s a t hq hs
  unfold step at hs
  split at hs
  · rename_i ret t' ho
    cases hs
    exact perform_quiescent hq ho
  · cases hs

/-- A state some run of the file system reaches. -/
def Reachable (B : Backend β) (s : Process β) : Prop :=
  ∃ type info arguments stats buffers b as,
    Run.run (step B) (init type info arguments stats buffers b) as = some s

theorem Reachable.quiescent {s : Process β} (h : Reachable B s) : Quiescent s.world := by
  obtain ⟨type, info, arguments, stats, buffers, b, as, hr⟩ := h
  exact run_quiescent hr

end Process

end NaClFs
