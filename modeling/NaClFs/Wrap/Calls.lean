/-
The entry points of the IRT and the libc functions of wrap.cc, as a newlib build has them, over the
process they share. Each turns some arguments away and hands the others to one operation of `FileSystem`;
what it adds is errno and the form of the answer. So the runs of a program that calls them are runs of the
system, and what is proved of those holds of it. What is logged is left out, the traces and the lines that
dup, dup2, telldir and seekdir log in every build, and so are the copies a glibc build makes of a `stat` in
__wrap_stat and __wrap_fstat. A pointer the code does not look at before it is stored through is not NULL.
-/
import NaClFs.FileSystem.Relative
import NaClFs.FileSystem.System
import NaClFs.Wrap.Access
import NaClFs.Wrap.Irt

namespace NaClFs

namespace Wrap

/-! ## The functions -/

/-- What a function returns and what it stores: a descriptor, a count or an offset, a DIR, the name of an
entry or of the current directory. -/
structure Output where
  result : Int
  stored : Option Int := none
  dirp : Option Nat := none
  name : Option Str := none
  deriving DecidableEq, Repr

/-- How a function ends. -/
inductive Ends (β : Type)
  | returns (out : Output) (s : Process β)
  | waits
  | faults

variable {β : Type}

/-- An operation, and what is made of what it returns. -/
def after (ends : NaClFs.Ends β) (k : Returned → Process β → Output × Process β) : Ends β :=
  match ends with
  | .returns ret s => .returns (k ret s).1 (k ret s).2
  | .waits => .waits
  | .faults => .faults

/-- The result is passed on. -/
def pass (ret : Returned) (s : Process β) : Output × Process β :=
  ({ result := ret.result, stored := ret.newfd, dirp := ret.dirp, name := ret.dirent }, s)

/-- The functions of the IRT that store a count or an offset. -/
def ofIrt : Option (Irt.Output × Process β) → Ends β
  | some (out, s) => .returns { result := out.result, stored := some out.stored } s
  | none => .waits

variable (B : Backend β) (main : Bool) (call : Nat)

/-- `__wrap_open`. -/
def wrapOpen (s : Process β) (path : Option Str) (oflag cmode : BitVec 32) : Ends β :=
  match path with
  | none => .returns { result := efault } s
  | some path =>
    if path = [] then .returns { result := enoent } s
    else after (s.open_ B main call (some path) oflag cmode) pass

/-- `__wrap_close`. -/
def wrapClose (s : Process β) (fildes : Int) : Ends β := after (s.close B main call fildes) pass

/-- `__wrap_dup`, which is not implemented. -/
def wrapDup (s : Process β) (_fd : Int) : Ends β := .returns { result := 0 } s

/-- `__wrap_dup2`, which is not implemented. -/
def wrapDup2 (s : Process β) (_fd _newfd : Int) : Ends β := .returns { result := 0 } s

/-- `__wrap_fstat`, with the address of the caller's buffer. -/
def wrapFstat (s : Process β) (fd : Int) (buf : Option Nat) : Ends β :=
  match buf with
  | none => .returns { result := efault } s
  | some buf => after (s.fstat B main call fd buf) pass

/-- What `__wrap_isatty` makes of the answer, which is an errno or -1 where it is not 0. -/
def ttyAnswer (ret : Returned) (s : Process β) : Output × Process β :=
  let s := s.setErrno (if 0 ≤ ret.result then ret.result else 0)
  if ret.result ≠ 0 then ({ result := 0 }, s) else ({ result := 1 }, s)

/-- `__wrap_isatty`. -/
def wrapIsatty (s : Process β) (fildes : Int) : Ends β := after (s.isATty B main call fildes) ttyAnswer

/-- `opendir`. -/
def opendir (s : Process β) (dirname : Option Str) : Ends β := after (s.openDir B main call dirname) pass

/-- `rewinddir`. -/
def rewinddir (s : Process β) (dirp : Nat) : Ends β := after (s.rewindDir B main call dirp) pass

/-- `readdir`. -/
def readdir (s : Process β) (dirp : Nat) : Ends β := after (s.readDir B main call dirp) pass

/-- What `readdir_r` makes of an entry, which it copies, or of none. -/
def entryAnswer (ret : Returned) (s : Process β) : Output × Process β :=
  match ret.dirent with
  | none => ({ result := efault }, s)
  | some name => ({ result := 0, name := some name }, s)

/-- `readdir_r`, with whether `entry` and `result` are given. -/
def readdirR (s : Process β) (dirp : Option Nat) (entry result : Bool) : Ends β :=
  match dirp with
  | none => .returns { result := einval } s
  | some dirp =>
    if entry = false ∨ result = false then .returns { result := einval } s
    else after (s.readDir B main call dirp) entryAnswer

/-- `telldir`, which is not implemented. -/
def telldir (s : Process β) (_dirp : Nat) : Ends β := .returns { result := -1 } s

/-- `seekdir`, which is not implemented. -/
def seekdir (s : Process β) (_dirp : Nat) (_offset : Int) : Ends β := .returns { result := 0 } s

/-- `getcwd`, with whether there is a buffer. -/
def getcwd (s : Process β) (buf : Bool) (size : Nat) : Ends β :=
  let (table, name) := s.table.getCwd buf size
  .returns { result := 0, name := name } { s with table := table }

/-- `getwd`, whose size is that of the platform. -/
def getwd (maxPathLen : Nat) (s : Process β) (buf : Bool) : Ends β := getcwd s buf maxPathLen

/-! ## Calls -/

/-- The calls of wrap.cc; a size is a `size_t`, below 2^32. -/
inductive Call
  | open_ (path : Option Str) (oflag cmode : BitVec 32)
  | stat (path : Option Str) (buf : Option Nat)
  | close (fildes : Int)
  | dup (fd : Int)
  | dup2 (fd newfd : Int)
  | fstat (fd : Int) (buf : Option Nat)
  | read (fildes : Int) (buf : Nat) (nbytes : BitVec 32)
  | write (fildes : Int) (buf : Str) (size : buf.length < 4294967296)
  | seek (fildes offset whence : Int)
  | access (path : Option Str) (amode : BitVec 32) (buf : Nat)
  | isatty (fildes : Int)
  | fcntl (fildes cmd ap : Int)
  | mkdir (path : Option Str) (mode : BitVec 32)
  | opendir (dirname : Option Str)
  | rewinddir (dirp : Nat)
  | readdir (dirp : Nat)
  | readdirR (dirp : Option Nat) (entry result : Bool)
  | telldir (dirp : Nat)
  | seekdir (dirp : Nat) (offset : Int)
  | closedir (dirp : Nat)
  | chdir (path : Option Str) (buf : Nat)
  | getcwd (buf : Bool) (size : Nat)
  | getwd (maxPathLen : Nat) (buf : Bool)
  deriving DecidableEq, Repr

/-- The call. -/
def perform (s : Process β) : Call → Ends β
  | .open_ path oflag cmode => wrapOpen B main call s path oflag cmode
  | .stat path buf => after (Libc.wrapStat B main call s path buf) pass
  | .close fildes => wrapClose B main call s fildes
  | .dup fd => wrapDup s fd
  | .dup2 fd newfd => wrapDup2 s fd newfd
  | .fstat fd buf => wrapFstat B main call s fd buf
  | .read fildes buf nbytes => ofIrt (Irt.wrapRead B main call [] s fildes buf nbytes.toNat)
  | .write fildes buf _ => ofIrt (Irt.wrapWrite B main call s fildes buf)
  | .seek fildes offset whence => ofIrt (Irt.wrapSeek B main call s fildes offset whence)
  | .access path amode buf => after (Libc.wrapAccess B main call s path amode buf) pass
  | .isatty fildes => wrapIsatty B main call s fildes
  | .fcntl fildes cmd ap => after (Libc.wrapFcntl B main call s fildes cmd ap) pass
  | .mkdir path mode => after (Libc.mkdir B main call s path mode) pass
  | .opendir dirname => opendir B main call s dirname
  | .rewinddir dirp => rewinddir B main call s dirp
  | .readdir dirp => readdir B main call s dirp
  | .readdirR dirp entry result => readdirR B main call s dirp entry result
  | .telldir dirp => telldir s dirp
  | .seekdir dirp offset => seekdir s dirp offset
  | .closedir dirp => after (Libc.closedir B main call s dirp) pass
  | .chdir path buf => after (Libc.chdir B main call s path buf) pass
  | .getcwd buf size => getcwd s buf size
  | .getwd maxPathLen buf => getwd maxPathLen s buf

/-! ## The operation behind a call -/

/-- The operation a call is handed to, if it is not turned away. -/
def Call.op : Call → Option Process.Op
  | .open_ path oflag cmode =>
    path.bind fun path => if path = [] then none else some (.open_ (some path) oflag cmode)
  | .stat path buf =>
    path.bind fun path => buf.bind fun buf => if path = [] then none else some (.stat (some path) buf)
  | .close fildes => some (.close fildes)
  | .fstat fd buf => buf.map (.fstat fd ·)
  | .read fildes buf nbytes => some (.read fildes buf nbytes.toNat)
  | .write fildes buf _ => some (.write fildes buf)
  | .seek fildes offset whence => some (.seek fildes offset whence)
  | .access path _ buf => some (.stat path buf)
  | .isatty fildes => some (.isatty fildes)
  | .fcntl fildes cmd ap => some (.fcntl fildes cmd ap)
  | .mkdir path mode => some (.mkdir path mode)
  | .opendir dirname => some (.opendir dirname)
  | .rewinddir dirp => some (.rewinddir dirp)
  | .readdir dirp => some (.readdir dirp)
  | .readdirR dirp entry result =>
    dirp.bind fun dirp => if entry = false ∨ result = false then none else some (.readdir dirp)
  | .closedir dirp => some (.closedir dirp)
  | .chdir path buf => some (.chdir path buf)
  | .dup _ | .dup2 _ _ | .telldir _ | .seekdir _ _ | .getcwd _ _ | .getwd _ _ => none

/-- The calls that are not turned away, with their operations. -/
inductive Passes : Call → Process.Op → Prop
  | open_ {path : Str} (h : path ≠ []) (oflag cmode : BitVec 32) :
      Passes (.open_ (some path) oflag cmode) (.open_ (some path) oflag cmode)
  | stat {path : Str} (h : path ≠ []) (buf : Nat) :
      Passes (.stat (some path) (some buf)) (.stat (some path) buf)
  | close (fildes : Int) : Passes (.close fildes) (.close fildes)
  | fstat (fd : Int) (buf : Nat) : Passes (.fstat fd (some buf)) (.fstat fd buf)
  | read (fildes : Int) (buf : Nat) (nbytes : BitVec 32) :
      Passes (.read fildes buf nbytes) (.read fildes buf nbytes.toNat)
  | write (fildes : Int) (buf : Str) (size : buf.length < 4294967296) :
      Passes (.write fildes buf size) (.write fildes buf)
  | seek (fildes offset whence : Int) : Passes (.seek fildes offset whence) (.seek fildes offset whence)
  | access (path : Option Str) (amode : BitVec 32) (buf : Nat) :
      Passes (.access path amode buf) (.stat path buf)
  | isatty (fildes : Int) : Passes (.isatty fildes) (.isatty fildes)
  | fcntl (fildes cmd ap : Int) : Passes (.fcntl fildes cmd ap) (.fcntl fildes cmd ap)
  | mkdir (path : Option Str) (mode : BitVec 32) : Passes (.mkdir path mode) (.mkdir path mode)
  | opendir (dirname : Option Str) : Passes (.opendir dirname) (.opendir dirname)
  | rewinddir (dirp : Nat) : Passes (.rewinddir dirp) (.rewinddir dirp)
  | readdir (dirp : Nat) : Passes (.readdir dirp) (.readdir dirp)
  | readdirR {entry result : Bool} (h : ¬ (entry = false ∨ result = false)) (dirp : Nat) :
      Passes (.readdirR (some dirp) entry result) (.readdir dirp)
  | closedir (dirp : Nat) : Passes (.closedir dirp) (.closedir dirp)
  | chdir (path : Option Str) (buf : Nat) : Passes (.chdir path buf) (.chdir path buf)

theorem Call.passes {c : Call} {op : Process.Op} (h : c.op = some op) : Passes c op := by
  cases c with
  | open_ path oflag cmode =>
    cases path with
    | none => cases h
    | some path =>
      simp only [Call.op, Option.bind_some] at h
      split at h
      · cases h
      · rename_i hp
        cases h
        exact .open_ hp oflag cmode
  | stat path buf =>
    cases path with
    | none => cases h
    | some path =>
      cases buf with
      | none => cases h
      | some buf =>
        simp only [Call.op, Option.bind_some] at h
        split at h
        · cases h
        · rename_i hp
          cases h
          exact .stat hp buf
  | fstat fd buf =>
    cases buf with
    | none => cases h
    | some buf =>
      cases h
      exact .fstat fd buf
  | readdirR dirp entry result =>
    cases dirp with
    | none => cases h
    | some dirp =>
      simp only [Call.op, Option.bind_some] at h
      split at h
      · cases h
      · rename_i hp
        cases h
        exact .readdirR hp dirp
  | dup | dup2 | telldir | seekdir | getcwd | getwd => cases h
  | _ =>
    cases h
    constructor

/-- What a call makes of what its operation returned. -/
def Call.answer : Call → Returned → Process β → Output × Process β
  | .read _ _ _, ret, s | .write _ _ _, ret, s => ({ result := 0, stored := some (Irt.sizeT ret.result) }, s)
  | .seek _ _ _, ret, s => ({ result := 0, stored := some ret.result }, s)
  | .access _ amode buf, ret, s =>
    if ret.result ≠ 0 then ({ result := -1 }, s.setErrno ret.result)
    else if (s.world.stats buf).mode &&& amode ≠ amode then ({ result := -1 }, s.setErrno eacces)
    else ({ result := 0 }, s)
  | .isatty _, ret, s => ttyAnswer ret s
  | .readdirR _ _ _, ret, s => entryAnswer ret s
  | _, ret, s => pass ret s

/-- What a call that is turned away gives. -/
def Call.turned : Call → Process β → Output × Process β
  | .open_ none _ _, s | .stat none _, s | .stat _ none, s | .fstat _ _, s => ({ result := efault }, s)
  | .open_ _ _ _, s | .stat _ _, s => ({ result := enoent }, s)
  | .readdirR _ _ _, s => ({ result := einval }, s)
  | .telldir _, s => ({ result := -1 }, s)
  | .getcwd buf size, s | .getwd size buf, s =>
    ({ result := 0, name := (s.table.getCwd buf size).2 }, { s with table := (s.table.getCwd buf size).1 })
  | _, s => ({ result := 0 }, s)

variable {B main call} {s t : Process β} {c : Call} {op : Process.Op}

theorem perform_of_none (h : c.op = none) :
    perform B main call s c = .returns (c.turned s).1 (c.turned s).2 := by
  cases c with
  | open_ path oflag cmode =>
    cases path with
    | none => rfl
    | some path =>
      simp only [Call.op, Option.bind_some] at h
      split at h
      · rename_i hp
        simp only [perform, wrapOpen, if_pos hp, Call.turned]
      · cases h
  | stat path buf =>
    cases path with
    | none => rfl
    | some path =>
      cases buf with
      | none => rfl
      | some buf =>
        simp only [Call.op, Option.bind_some] at h
        split at h
        · rename_i hp
          simp only [perform, Libc.wrapStat, if_pos hp]
          rfl
        · cases h
  | fstat fd buf =>
    cases buf with
    | none => rfl
    | some buf => cases h
  | readdirR dirp entry result =>
    cases dirp with
    | none => rfl
    | some dirp =>
      simp only [Call.op, Option.bind_some] at h
      split at h
      · rename_i hp
        simp only [perform, readdirR, if_pos hp, Call.turned]
      · cases h
  | dup | dup2 | telldir | seekdir | getcwd | getwd => rfl
  | _ => cases h

/-- An operation through a descriptor reads through no pointer of its own. -/
theorem onDescriptor_ne_faults {fildes bad : Int} {f : Function}
    {k : Result → Process β → FileSystem × Returned} : s.onDescriptor B main call fildes bad f k ≠ .faults := by
  intro h
  unfold Process.onDescriptor Process.finish at h
  split at h
  · cases h
  · split at h <;> cases h

theorem readLoop_ne_faults {fildes : Int} {buf nbytes : Nat} : ∀ (turns : Nat) (s : Process β),
    Process.readLoop B main call fildes buf nbytes turns s ≠ .faults
  | 0, _ => by
    intro h
    cases h
  | turns + 1, s => by
    intro h
    rw [Process.readLoop] at h
    split at h
    · cases h
    · split at h
      · cases h
      · exact readLoop_ne_faults turns _ h
    · cases h

/-- A function of the IRT passes on an operation that does not fault. -/
theorem ofIrt_eq {ends : NaClFs.Ends β} (h : ends ≠ .faults) (k : Returned → Irt.Output) :
    ofIrt (match ends with | .returns ret s => some (k ret, s) | _ => none) =
      after ends fun ret s => ({ result := (k ret).result, stored := some (k ret).stored }, s) := by
  cases ends with
  | returns | waits => rfl
  | faults => exact absurd rfl h

theorem perform_of_some (h : c.op = some op) :
    perform B main call s c = after (s.perform B main call op) c.answer := by
  cases Call.passes h with
  | open_ hp oflag cmode =>
    simp only [perform, wrapOpen, if_neg hp]
    rfl
  | stat hp buf =>
    simp only [perform, Libc.wrapStat, if_neg hp]
    rfl
  | readdirR hp dirp =>
    simp only [perform, readdirR, if_neg hp]
    rfl
  | read fildes buf nbytes =>
    exact ofIrt_eq (readLoop_ne_faults 2 s) fun ret => { result := 0, stored := Irt.sizeT ret.result }
  | write fildes buf size =>
    exact ofIrt_eq onDescriptor_ne_faults fun ret => { result := 0, stored := Irt.sizeT ret.result }
  | seek fildes offset whence =>
    exact ofIrt_eq onDescriptor_ne_faults fun ret => { result := 0, stored := ret.result }
  | access path amode buf =>
    simp only [perform, Libc.wrapAccess, Process.perform]
    cases s.stat B main call path buf with
    | waits | faults => rfl
    | returns ret t =>
      by_cases h0 : ret.result ≠ 0
      · simp only [after, Call.answer, if_pos h0]
        rfl
      · by_cases hm : (t.world.stats buf).mode &&& amode ≠ amode
        · simp only [after, Call.answer, if_neg h0, if_pos hm]
          rfl
        · simp only [after, Call.answer, if_neg h0, if_neg hm]
          rfl
  | _ => rfl

/-! ## errno is not looked at -/

/-- Two ends that differ in errno at most. -/
def UpToErrno : NaClFs.Ends β → NaClFs.Ends β → Prop
  | .returns ret s, .returns ret' s' => ret' = ret ∧ ∃ errno, s' = s.setErrno errno
  | .waits, .waits | .faults, .faults => True
  | _, _ => False

variable (B main call) in
theorem method_setErrno (s : Process β) (errno : Int) (d : Nat) (f : Function) :
    ∃ errno', (s.setErrno errno).method B main call d f =
      (s.method B main call d f).map fun x => (x.1, x.2.setErrno errno') := by
  unfold Process.method
  rw [show (s.setErrno errno).table.kind d = s.table.kind d from rfl]
  cases s.table.kind d with
  | port =>
    cases f with
    | fcntl cmd ap => exact ⟨((s.ports d).fcntl cmd (BitVec.ofInt 32 ap)).2.2.getD errno, rfl⟩
    | stat path buf =>
      refine ⟨errno, ?_⟩
      simp only [Process.port]
      split <;> rfl
    | _ => exact ⟨errno, rfl⟩
  | html5 =>
    refine ⟨errno, ?_⟩
    dsimp only
    split
    · rfl
    · rw [show (s.setErrno errno).world = s.world from rfl, show (s.setErrno errno).backend =
        s.backend from rfl]
      split <;> rfl

/-- An operation that does the same to the table whatever errno is. -/
theorem finish_upTo {o o' : Option (Result × Process β)} {errno : Int}
    {k k' : Result → Process β → FileSystem × Returned} (ho : o' = o.map fun x => (x.1, x.2.setErrno errno))
    (hk : ∀ answer t, ∃ errno', k' answer (t.setErrno errno) =
      ({ (k answer t).1 with errno := errno' }, (k answer t).2)) :
    UpToErrno (Process.finish o k) (Process.finish o' k') := by
  subst ho
  cases o with
  | none => trivial
  | some x =>
    obtain ⟨errno', he⟩ := hk x.1 x.2
    refine ⟨?_, errno', ?_⟩
    · rw [he]
    · rw [he]
      rfl

theorem onPath_upTo (s : Process β) (errno : Int) (path : Str) (f : Str → Function)
    {k k' : Result → Process β → FileSystem × Returned}
    (hk : ∀ answer t errno, ∃ errno', k' answer (t.setErrno errno) =
      ({ (k answer t).1 with errno := errno' }, (k answer t).2)) :
    UpToErrno (s.onPath B main call path f k) ((s.setErrno errno).onPath B main call path f k') := by
  obtain ⟨errno', hm⟩ := method_setErrno B main call (s.create (createFullpath s.table.cwd path)).1 errno
    s.table.delegates.length (f (createFullpath s.table.cwd path))
  exact finish_upTo hm fun answer t => hk answer t errno'

theorem onDescriptor_upTo (s : Process β) (errno : Int) (fildes bad : Int) (f : Function)
    {k k' : Result → Process β → FileSystem × Returned}
    (hk : ∀ answer t errno, ∃ errno', k' answer (t.setErrno errno) =
      ({ (k answer t).1 with errno := errno' }, (k answer t).2)) :
    UpToErrno (s.onDescriptor B main call fildes bad f k)
      ((s.setErrno errno).onDescriptor B main call fildes bad f k') := by
  unfold Process.onDescriptor
  rw [show (s.setErrno errno).table.getDelegate fildes = s.table.getDelegate fildes from rfl]
  cases s.table.getDelegate fildes with
  | none => exact ⟨rfl, errno, rfl⟩
  | some d =>
    obtain ⟨errno', hm⟩ := method_setErrno B main call s errno d f
    exact finish_upTo hm fun answer t => hk answer t errno'

theorem onDir_upTo (s : Process β) (errno : Int) (dirp : Nat) (f : Function)
    {k k' : Result → Process β → FileSystem × Returned}
    (hk : ∀ answer t errno, ∃ errno', k' answer (t.setErrno errno) =
      ({ (k answer t).1 with errno := errno' }, (k answer t).2)) :
    UpToErrno (s.onDir B main call dirp f k) ((s.setErrno errno).onDir B main call dirp f k') := by
  unfold Process.onDir
  rw [show (s.setErrno errno).table.dirs = s.table.dirs from rfl]
  cases s.table.dirs[dirp]?.join with
  | none => trivial
  | some d =>
    obtain ⟨errno', hm⟩ := method_setErrno B main call s errno d f
    exact finish_upTo hm fun answer t => hk answer t errno'

/-- The turns of a read. -/
theorem readLoop_upTo {fildes : Int} {buf nbytes : Nat} : ∀ (turns : Nat) (s : Process β) (errno : Int),
    UpToErrno (Process.readLoop B main call fildes buf nbytes turns s)
      (Process.readLoop B main call fildes buf nbytes turns (s.setErrno errno))
  | 0, _, _ => trivial
  | turns + 1, s, errno => by
    rw [Process.readLoop, Process.readLoop]
    cases hd : s.table.getDelegate fildes with
    | none =>
      have hd' : (s.setErrno errno).table.getDelegate fildes = none := hd
      rw [Process.readTurn_none hd, Process.readTurn_none hd']
      exact ⟨rfl, errno, rfl⟩
    | some d =>
      have hd' : (s.setErrno errno).table.getDelegate fildes = some d := hd
      obtain ⟨errno', he⟩ := method_setErrno B main call s errno d (.read buf nbytes)
      rcases Process.readTurn_cases B main call s buf nbytes hd with hw | ⟨value, s', hm, hturn⟩
      · rcases Process.readTurn_cases B main call (s.setErrno errno) buf nbytes hd' with hw' |
          ⟨value, _, hm', -⟩
        · rw [hw, hw']
          trivial
        · -- The method answers there, so it answers here.
          rw [he] at hm'
          obtain ⟨⟨result, s'⟩, hm, hx⟩ := Option.map_eq_some_iff.1 hm'
          obtain rfl : result = .int value := congrArg Prod.fst hx
          rw [Process.readTurn_of_method hd hm, Turn.of] at hw
          split at hw <;> cases hw
      · rw [hm, Option.map_some] at he
        rw [hturn, Process.readTurn_of_method hd' he]
        by_cases hv : value ≠ -2
        · simp only [Turn.of, if_pos hv]
          exact ⟨rfl, errno', rfl⟩
        · simp only [Turn.of, if_neg hv]
          rw [show (s'.setErrno errno').locked = s'.locked from rfl]
          split
          · trivial
          · exact readLoop_upTo turns { s' with locked := true } errno'

/-- What an operation does to the table does not depend on errno. -/
theorem call_setErrno (fs : FileSystem) (errno : Int) (op : FileSystem.Op) :
    ∃ errno', ({ fs with errno := errno } : FileSystem).call op =
      (fs.call op).map fun x => ({ x.1 with errno := errno' }, x.2) := by
  cases op with
  | open_ path answer =>
    refine ⟨errno, ?_⟩
    cases path with
    | none => rfl
    | some path =>
      simp only [FileSystem.call, FileSystem.open_]
      split <;> rfl
  | stat | mkDir path =>
    refine ⟨errno, ?_⟩
    first | rfl | cases path <;> rfl
  | close fildes answer =>
    refine ⟨errno, ?_⟩
    simp only [FileSystem.call, FileSystem.close]
    rw [show ({ fs with errno := errno } : FileSystem).getDelegate fildes = fs.getDelegate fildes from rfl]
    cases hd : fs.getDelegate fildes with
    | none => rfl
    | some d =>
      dsimp only
      split
      · rfl
      · simp only [FileSystem.deleteDescriptor]
        rw [show ({ fs with errno := errno } : FileSystem).getDelegate fildes =
          fs.getDelegate fildes from rfl, hd]
        rfl
  | openDir dirname answer =>
    refine ⟨errno, ?_⟩
    cases dirname with
    | none => rfl
    | some dirname => cases answer <;> rfl
  | closeDir dirp answer =>
    refine ⟨errno, ?_⟩
    simp only [FileSystem.call, FileSystem.closeDir]
    cases fs.dirs[dirp]?.join with
    | none => rfl
    | some d =>
      dsimp only
      split <;> rfl
  | chDir path answer buf =>
    by_cases h0 : answer ≠ 0
    · refine ⟨errno, ?_⟩
      simp only [FileSystem.call, FileSystem.chDir_eq, if_pos h0]
      rfl
    · by_cases hd : ¬ sIsDir buf.mode
      · refine ⟨enotdir, ?_⟩
        simp only [FileSystem.call, FileSystem.chDir_eq, if_neg h0, if_pos hd]
        rfl
      · refine ⟨errno, ?_⟩
        simp only [FileSystem.call, FileSystem.chDir_eq, if_neg h0, if_neg hd]
        rfl

/-- A method of a new delegate, whose answer goes to an operation on the table. -/
theorem onPath_table (op : Result → (Nat → Stat) → FileSystem.Op)
    (g : Result → (Nat → Stat) → FileSystem → FileSystem × FileSystem.Ret)
    (hg : ∀ answer stats fs, fs.call (op answer stats) = some (g answer stats fs)) (s : Process β) (errno : Int)
    (path : Str) (f : Str → Function) :
    UpToErrno
      (s.onPath B main call path f fun answer t =>
        ((g answer t.world.stats s.table).1, { (g answer t.world.stats s.table).2 with }))
      ((s.setErrno errno).onPath B main call path f fun answer t =>
        ((g answer t.world.stats (s.setErrno errno).table).1,
          { (g answer t.world.stats (s.setErrno errno).table).2 with })) := by
  apply onPath_upTo
  intro answer t _
  obtain ⟨errno', h⟩ := call_setErrno s.table errno (op answer t.world.stats)
  rw [hg, hg] at h
  refine ⟨errno', ?_⟩
  have hsame : g answer t.world.stats (s.setErrno errno).table =
      ({ (g answer t.world.stats s.table).1 with errno := errno' }, (g answer t.world.stats s.table).2) :=
    Option.some.inj h
  dsimp only [Process.setErrno] at hsame ⊢
  rw [hsame]

/-- No operation looks at errno. -/
theorem perform_setErrno (s : Process β) (errno : Int) (op : Process.Op) :
    UpToErrno (s.perform B main call op) ((s.setErrno errno).perform B main call op) := by
  have hpass : ∀ (answer : Result) (t : Process β) errno, ∃ errno', Process.pass answer (t.setErrno errno) =
      ({ (Process.pass answer t).1 with errno := errno' }, (Process.pass answer t).2) :=
    fun _ _ errno => ⟨errno, rfl⟩
  cases op with
  | open_ path oflag cmode =>
    cases path with
    | none => exact ⟨rfl, errno, rfl⟩
    | some path =>
      simp only [Process.perform, Process.open_]
      exact onPath_table (fun answer _ => .open_ (some path) answer.toInt)
        (fun answer _ fs => fs.open_ (some path) answer.toInt) (fun _ _ _ => rfl) s errno path _
  | stat path buf =>
    cases path with
    | none => trivial
    | some path =>
      simp only [Process.perform, Process.stat]
      exact onPath_table (fun answer _ => .stat path answer.toInt)
        (fun answer _ fs => fs.stat path answer.toInt)
        (fun _ _ _ => rfl) s errno path _
  | mkdir path mode =>
    cases path with
    | none => exact ⟨rfl, errno, rfl⟩
    | some path =>
      simp only [Process.perform, Process.mkDir]
      exact onPath_table (fun answer _ => .mkDir (some path) answer.toInt)
        (fun answer _ fs => fs.mkDir (some path) answer.toInt) (fun _ _ _ => rfl) s errno path _
  | opendir dirname =>
    cases dirname with
    | none => exact ⟨rfl, errno, rfl⟩
    | some dirname =>
      exact onPath_table (fun answer _ => .openDir (some dirname) answer.isDir)
        (fun answer _ fs => fs.openDir (some dirname) answer.isDir) (fun _ _ _ => rfl) s errno dirname _
  | chdir path buf =>
    cases path with
    | none => trivial
    | some path =>
      simp only [Process.perform, Process.chDir]
      exact onPath_table (fun answer stats => .chDir path answer.toInt (stats buf))
        (fun answer stats fs => fs.chDir path answer.toInt (stats buf)) (fun _ _ _ => rfl) s errno path _
  | close fildes =>
    apply onDescriptor_upTo
    intro answer t _
    obtain ⟨errno', h⟩ := call_setErrno s.table errno (.close fildes answer.toInt)
    refine ⟨errno', ?_⟩
    have hsame : (s.setErrno errno).table.close fildes answer.toInt =
        ({ (s.table.close fildes answer.toInt).1 with errno := errno' },
          (s.table.close fildes answer.toInt).2) :=
      Option.some.inj h
    dsimp only [Process.setErrno] at hsame ⊢
    rw [hsame]
  | closedir dirp =>
    apply onDir_upTo
    intro answer t errno'
    obtain ⟨errno₁, h⟩ := call_setErrno s.table errno (.closeDir dirp answer.toInt)
    have hsame : (s.setErrno errno).table.closeDir dirp answer.toInt =
        (s.table.closeDir dirp answer.toInt).map fun x => ({ x.1 with errno := errno₁ }, x.2) := h
    dsimp only [Process.setErrno] at hsame ⊢
    rw [hsame]
    cases s.table.closeDir dirp answer.toInt with
    | none => exact ⟨errno, rfl⟩
    | some x => exact ⟨errno₁, rfl⟩
  | read fildes buf nbytes => exact readLoop_upTo 2 s errno
  | fstat | write | seek | isatty | fcntl => exact onDescriptor_upTo s errno _ _ _ hpass
  | rewinddir dirp => exact onDir_upTo s errno _ _ fun _ _ errno => ⟨errno, rfl⟩
  | readdir dirp => exact onDir_upTo s errno _ _ fun _ _ errno => ⟨errno, rfl⟩

/-! ## Programs -/

/-- What happens: a program calls a function, on the main thread or on a worker, or the page sends a
message. -/
inductive Act
  | call (main : Bool) (call : Nat) (c : Call)
  | message (message : Var)
  deriving DecidableEq, Repr

/-- What a call posts to the page. -/
def Call.posts (s : Process β) : Call → List Str
  | .write fildes buf _ => s.posts (.write fildes buf)
  | _ => []

/-- One act, with what a call returns; none when it does not return. -/
def step (B : Backend β) (s : System β) : Act → Option (System β × Option Output)
  | .call main call c =>
    match perform B main call s.process c with
    | .returns out process => some (⟨process, s.posted ++ c.posts s.process⟩, some out)
    | _ => none
  | .message message => some ({ s with process := (s.process.handleMessage message).2 }, none)

/-- What the system does for it. -/
def Act.acts : Act → List System.Act
  | .call main n c => c.op.toList.map (.op main n ·)
  | .message m => [.message m]

/-- An act as the system sees it: a call that is turned away changes nothing, and one that is not is a step
of the system, of whose answer the function makes its own. -/
inductive Does (B : Backend β) (s : System β) : Act → Option Output → System β → Prop
  | turned {main : Bool} {call : Nat} {c : Call} (h : c.op = none) :
      Does B s (.call main call c) (some (c.turned s.process).1) s
  | passed {main : Bool} {call : Nat} {c : Call} {op : Process.Op} {t : System β} {ret : Returned}
      (h : c.op = some op) (hs : System.step B s (.op main call op) = some (t, some ret)) :
      Does B s (.call main call c) (some (c.answer ret t.process).1) t
  | message {message : Var} {t : System β} (hs : System.step B s (.message message) = some (t, none)) :
      Does B s (.message message) none t

/-- Two systems that differ in errno at most. -/
def SameButErrno (s u : System β) : Prop := ∃ errno, s = ⟨u.process.setErrno errno, u.posted⟩

section

variable {u u' : System β} {v : System β} {a : Act} {o : Option Output}

theorem posts_of_none (h : c.op = none) (s : Process β) : c.posts s = [] := by
  cases c with
  | write => cases h
  | _ => rfl

theorem posts_eq (h : c.op = some op) (s : Process β) : c.posts s = s.posts op := by
  cases Call.passes h <;> rfl

/-- What a function makes of an answer does not depend on errno, and only errno is set. -/
theorem answer_setErrno (c : Call) (ret : Returned) (t : Process β) (errno : Int) :
    (c.answer ret (t.setErrno errno)).1 = (c.answer ret t).1 ∧
      ∃ errno', (c.answer ret (t.setErrno errno)).2 = t.setErrno errno' := by
  cases c with
  | access path amode buf =>
    simp only [Call.answer, show (t.setErrno errno).world = t.world from rfl]
    split
    · exact ⟨rfl, ret.result, rfl⟩
    · split
      · exact ⟨rfl, eacces, rfl⟩
      · exact ⟨rfl, errno, rfl⟩
  | isatty fildes =>
    simp only [Call.answer, ttyAnswer]
    split <;> exact ⟨rfl, _, rfl⟩
  | readdirR dirp entry result =>
    simp only [Call.answer, entryAnswer]
    split <;> exact ⟨rfl, errno, rfl⟩
  | _ => exact ⟨rfl, errno, rfl⟩

theorem getCwd_setErrno (fs : FileSystem) (errno : Int) (buf : Bool) (size : Nat) :
    (({ fs with errno := errno } : FileSystem).getCwd buf size).2 = (fs.getCwd buf size).2 ∧
      ∃ errno', (({ fs with errno := errno } : FileSystem).getCwd buf size).1 =
        { fs with errno := errno' } := by
  unfold FileSystem.getCwd
  split
  · exact ⟨rfl, einval, rfl⟩
  · dsimp only
    split
    · exact ⟨rfl, erange, rfl⟩
    · exact ⟨rfl, errno, rfl⟩

/-- A call that is turned away leaves all but errno. -/
theorem turned_setErrno (h : c.op = none) (t : Process β) (errno : Int) :
    (c.turned (t.setErrno errno)).1 = (c.turned t).1 ∧
      ∃ errno', (c.turned (t.setErrno errno)).2 = t.setErrno errno' := by
  cases c with
  | getcwd buf size =>
    obtain ⟨hname, errno', ht⟩ := getCwd_setErrno t.table errno buf size
    refine ⟨?_, errno', ?_⟩
    · exact congrArg (fun name => ({ result := 0, name := name } : Output)) hname
    · exact congrArg (fun table => { t with table := table }) ht
  | getwd size buf =>
    obtain ⟨hname, errno', ht⟩ := getCwd_setErrno t.table errno buf size
    refine ⟨?_, errno', ?_⟩
    · exact congrArg (fun name => ({ result := 0, name := name } : Output)) hname
    · exact congrArg (fun table => { t with table := table }) ht
  | open_ path => cases path <;> exact ⟨rfl, errno, rfl⟩
  | stat path buf => cases path <;> cases buf <;> exact ⟨rfl, errno, rfl⟩
  | fstat | readdirR | telldir | dup | dup2 | seekdir => exact ⟨rfl, errno, rfl⟩
  | _ => cases h

/-- Where a program acts the system does, and where it is stuck the system is. -/
theorem step_does (B : Backend β) (h : SameButErrno v u) (a : Act) :
    (step B v a = none ∧ ∃ x, a.acts = [x] ∧ System.step B u x = none) ∨
    ∃ v' o u', step B v a = some (v', o) ∧ Does B u a o u' ∧ SameButErrno v' u' := by
  obtain ⟨errno, rfl⟩ := h
  cases a with
  | message message => exact .inr ⟨_, _, _, rfl, .message rfl, errno, rfl⟩
  | call main call c =>
    cases hop : c.op with
    | none =>
      obtain ⟨hout, errno', hs⟩ := turned_setErrno hop u.process errno
      have hstep : step B ⟨u.process.setErrno errno, u.posted⟩ (.call main call c) =
          some (⟨u.process.setErrno errno', u.posted⟩, some (c.turned u.process).1) := by
        simp only [step, perform_of_none hop, hout, hs, posts_of_none hop, List.append_nil]
      exact .inr ⟨_, _, u, hstep, .turned hop, errno', rfl⟩
    | some op =>
      have h : UpToErrno (u.process.perform B main call op) _ := perform_setErrno u.process errno op
      have hacts : (Act.call main call c).acts = [.op main call op] := by
        simp only [Act.acts, hop]
        rfl
      -- The operation ends in the same way from the two states.
      cases ho : u.process.perform B main call op with
      | waits | faults =>
        rw [ho] at h
        left
        refine ⟨?_, _, hacts, by simp only [System.step, ho]⟩
        cases ho' : (u.process.setErrno errno).perform B main call op with
        | returns =>
          rw [ho'] at h
          exact h.elim
        | waits | faults => simp only [step, perform_of_some hop, ho', after]
      | returns ret t =>
        rw [ho] at h
        cases ho' : (u.process.setErrno errno).perform B main call op with
        | waits | faults =>
          rw [ho'] at h
          exact h.elim
        | returns ret' t' =>
          rw [ho'] at h
          obtain ⟨rfl, errno', rfl⟩ := h
          obtain ⟨hout, errno'', hs⟩ := answer_setErrno c ret' t errno'
          have hposts : c.posts (u.process.setErrno errno) = u.process.posts op := by
            rw [posts_eq hop]
            cases op <;> rfl
          have hstep : step B ⟨u.process.setErrno errno, u.posted⟩ (.call main call c) =
              some (⟨t.setErrno errno'', u.posted ++ u.process.posts op⟩, some (c.answer ret' t).1) := by
            simp only [step, perform_of_some hop, ho', after, hout, hs, hposts]
          have hsystem : System.step B u (.op main call op) =
              some (⟨t, u.posted ++ u.process.posts op⟩, some ret') := by
            simp only [System.step, ho]
          exact .inr ⟨_, _, _, hstep, .passed hop hsystem, errno'', rfl⟩

theorem Does.acts (h : Does B u a o u') : ∃ os, Stream.run (System.step B) u a.acts = some (u', os) := by
  cases h with
  | turned h =>
    simp only [Act.acts, h]
    exact ⟨[], rfl⟩
  | passed h hs =>
    simp only [Act.acts, h]
    exact ⟨_, Stream.run_cons.2 ⟨_, _, _, hs, rfl, rfl⟩⟩
  | message hs => exact ⟨_, Stream.run_cons.2 ⟨_, _, _, hs, rfl, rfl⟩⟩

/-- And so for a run. -/
theorem run_does (B : Backend β) :
    ∀ (as : List Act) {v u : System β}, SameButErrno v u →
      (Stream.run (step B) v as = none ∧ Stream.run (System.step B) u (as.flatMap Act.acts) = none) ∨
      ∃ v' os u' os', Stream.run (step B) v as = some (v', os) ∧ Stream.Steps (Does B) u as os u' ∧
        Stream.run (System.step B) u (as.flatMap Act.acts) = some (u', os') ∧ SameButErrno v' u'
  | [], v, u, h => .inr ⟨v, [], u, [], rfl, .nil u, rfl, h⟩
  | a :: as, v, u, h => by
    rcases step_does B h a with ⟨hnone, x, hacts, hstuck⟩ | ⟨v₁, o, u₁, hstep, hdoes, h₁⟩
    · left
      constructor
      · simp only [Stream.run, hnone, Option.bind_none]
      · rw [List.flatMap_cons, hacts]
        simp only [List.cons_append, Stream.run, hstuck, Option.bind_none]
    · obtain ⟨os₁, hacts⟩ := hdoes.acts
      rcases run_does B as h₁ with ⟨hnone, hstuck⟩ | ⟨v', os, u', os', hrun, hsteps, hsystem, h'⟩
      · left
        constructor
        · simp only [Stream.run, hstep, Option.bind_some, hnone, Option.map_none]
        · rw [List.flatMap_cons, Stream.run_append, hacts]
          simp only [Option.bind_some, hstuck, Option.map_none]
      · right
        refine ⟨v', o :: os, u', os₁ ++ os', ?_, .cons hdoes hsteps, ?_, h'⟩
        · exact Stream.run_cons.2 ⟨_, _, _, hstep, hrun, rfl⟩
        · rw [List.flatMap_cons, Stream.run_append, hacts]
          simp only [Option.bind_some, hsystem, Option.map_some]

/-- A program that calls the functions of wrap.cc, on any threads and with messages in between, runs as the
system does on the operations behind its calls, over the same backend: both get stuck, or both come to the
same state but for errno, and each call has returned what its function makes of the answer of its
operation. -/
theorem run_program (B : Backend β) (type : FileSystemType) (info : Nat → FileInfo)
    (arguments : Nat → Arguments) (stats : Nat → Stat) (buffers : Nat → Str) (b : β) (as : List Act) :
    let init : System β := .init type info arguments stats buffers b
    (Stream.run (step B) init as = none ∧ Stream.run (System.step B) init (as.flatMap Act.acts) = none) ∨
    ∃ s os u os', Stream.run (step B) init as = some (s, os) ∧ Stream.Steps (Does B) init as os u ∧
      Stream.run (System.step B) init (as.flatMap Act.acts) = some (u, os') ∧ SameButErrno s u :=
  run_does B as ⟨0, rfl⟩

end

end Wrap

end NaClFs
