/-
The `FileSystem` object between calls: the descriptor table, the current directory, and the heap
of delegates and DIR objects the table shares with its callers. What a virtual method of a
delegate answers is an argument of the operation that calls it.

`CreateDelegate` never answers NULL and a `Dir` never holds a NULL delegate, so the branches that
test for it are left out, as are the log lines.
-/
import NaClFs.Path.Fullpath

namespace NaClFs

/-! ## State -/

/-- The two classes behind the `Delegate` interface. -/
inductive DelegateKind
  | port
  | html5
  deriving DecidableEq, Repr

/-- The file system and the objects it allocates. A delegate and a DIR are named by their place in
the order of allocation, so a name is never used again. -/
structure FileSystem where
  /-- `descriptors_`. -/
  descriptors : List (Option Nat) := []
  /-- `cwd_`, without the first slash. -/
  cwd : Str := []
  /-- The errno of the calling thread. -/
  errno : Int := 0
  /-- Every delegate made by `CreateDelegate`. -/
  delegates : List DelegateKind := []
  /-- Every delegate given to `delete`, in order. -/
  deleted : List Nat := []
  /-- Every DIR a delegate returned, with its `delegate_`; none once it is deleted. -/
  dirs : List (Option Nat) := []
  /-- Every path given to `CreateDelegate` or to a method of a delegate, in order. -/
  paths : List Str := []
  deriving DecidableEq, Repr

namespace FileSystem

/-- The constructor's state. -/
def init : FileSystem := {}

/-! ## The table -/

/-- `CreateDelegate`: the new delegate. -/
def createDelegate (fs : FileSystem) (path : Str) : FileSystem × Nat :=
  let kind := if (str "/dev/std").isPrefixOf path then .port else .html5
  ({ fs with delegates := fs.delegates ++ [kind], paths := fs.paths ++ [path] },
    fs.delegates.length)

/-- A path goes to a method of a delegate. -/
def hand (fs : FileSystem) (path : Str) : FileSystem := { fs with paths := fs.paths ++ [path] }

/-- `delete delegate`. -/
def delete (fs : FileSystem) (delegate : Nat) : FileSystem :=
  { fs with deleted := fs.deleted ++ [delegate] }

/-- `BindToDescriptor`. -/
def bindToDescriptor (fs : FileSystem) (delegate : Nat) : FileSystem × Int :=
  let descriptors := fs.descriptors ++ [some delegate]
  ({ fs with descriptors := descriptors }, toInt (descriptors.length - 1))

/-- `GetDelegate`. -/
def getDelegate (fs : FileSystem) (fildes : Int) : Option Nat :=
  if fildes < 0 ∨ fs.descriptors.length ≤ fildes.toNat then none
  else fs.descriptors[fildes.toNat]?.join

/-- `DeleteDescriptor`. -/
def deleteDescriptor (fs : FileSystem) (fildes : Int) : FileSystem :=
  match fs.getDelegate fildes with
  | none => fs
  | some delegate =>
    let fs := fs.delete delegate
    { fs with descriptors := fs.descriptors.set fildes.toNat none }

/-! ## Operations -/

/-- What an operation returns: its result, the descriptor in `*newfd`, the DIR of `OpenDir`. -/
structure Ret where
  result : Int
  newfd : Option Int := none
  dirp : Option Nat := none
  deriving DecidableEq, Repr

/-- `Open`, when `delegate->Open` answers `answer`. -/
def open_ (fs : FileSystem) (path : Option Str) (answer : Int) : FileSystem × Ret :=
  match path with
  | none => (fs, { result := efault })
  | some path =>
    let fullpath := createFullpath fs.cwd path
    let (fs, delegate) := fs.createDelegate fullpath
    let fs := fs.hand fullpath
    if answer ≠ 0 then (fs.delete delegate, { result := answer })
    else
      let (fs, newfd) := fs.bindToDescriptor delegate
      (fs, { result := 0, newfd := some newfd })

/-- `Stat`, when `delegate->Stat` answers `answer`. -/
def stat (fs : FileSystem) (path : Str) (answer : Int) : FileSystem × Ret :=
  let fullpath := createFullpath fs.cwd path
  let (fs, delegate) := fs.createDelegate fullpath
  let fs := fs.hand fullpath
  (fs.delete delegate, { result := answer })

/-- `Close`, when `delegate->Close` answers `answer`. -/
def close (fs : FileSystem) (fildes : Int) (answer : Int) : FileSystem × Ret :=
  match fs.getDelegate fildes with
  | none => (fs, { result := ebadf })
  | some _ =>
    if answer ≠ 0 then (fs, { result := answer })
    else (fs.deleteDescriptor fildes, { result := answer })

/-- `MkDir`, when `delegate->MkDir` answers `answer`. -/
def mkDir (fs : FileSystem) (path : Option Str) (answer : Int) : FileSystem × Ret :=
  match path with
  | none => (fs, { result := -1 })
  | some path =>
    let fullpath := createFullpath fs.cwd path
    let (fs, delegate) := fs.createDelegate fullpath
    let fs := fs.hand fullpath
    (fs.delete delegate, { result := answer })

/-- `OpenDir`, when `delegate->OpenDir` answers a new DIR or NULL. -/
def openDir (fs : FileSystem) (dirname : Option Str) (answer : Bool) : FileSystem × Ret :=
  match dirname with
  | none => (fs, { result := 0 })
  | some dirname =>
    let fullpath := createFullpath fs.cwd dirname
    let (fs, delegate) := fs.createDelegate fullpath
    let fs := fs.hand fullpath
    if answer then
      ({ fs with dirs := fs.dirs ++ [some delegate] },
        { result := 0, dirp := some fs.dirs.length })
    else (fs.delete delegate, { result := 0 })

/-- `CloseDir` of a DIR that is not deleted, when `delegate->CloseDir` answers `answer`; the
delegate deletes the DIR when it answers 0. -/
def closeDir (fs : FileSystem) (dirp : Nat) (answer : Int) : Option (FileSystem × Ret) :=
  match fs.dirs[dirp]?.join with
  | none => none
  | some delegate =>
    if answer = 0 then
      let fs := { fs with dirs := fs.dirs.set dirp none }
      some (fs.delete delegate, { result := answer })
    else some (fs, { result := answer })

/-- `ChDir`, when `delegate->Stat` answers `answer` and leaves `buf`. -/
def chDir (fs : FileSystem) (path : Str) (answer : Int) (buf : Stat) : FileSystem × Ret :=
  let (fs, ret) := fs.stat path answer
  if ret.result ≠ 0 then (fs, { result := ret.result })
  else if ¬ sIsDir buf.mode then ({ fs with errno := enotdir }, { result := -1 })
  else
    let fullpath := createFullpath fs.cwd path
    ({ fs with cwd := fullpath.drop 1 }, { result := 0 })

/-! ## Runs -/

/-- A call on the file system, with the answer of the delegate it reaches. -/
inductive Op
  | open_ (path : Option Str) (answer : Int)
  | stat (path : Str) (answer : Int)
  | close (fildes : Int) (answer : Int)
  | mkDir (path : Option Str) (answer : Int)
  | openDir (dirname : Option Str) (answer : Bool)
  | closeDir (dirp : Nat) (answer : Int)
  | chDir (path : Str) (answer : Int) (buf : Stat)

/-- One call; none for a `CloseDir` of a DIR that does not exist or is deleted. -/
def call (fs : FileSystem) : Op → Option (FileSystem × Ret)
  | .open_ path answer => some (fs.open_ path answer)
  | .stat path answer => some (fs.stat path answer)
  | .close fildes answer => some (fs.close fildes answer)
  | .mkDir path answer => some (fs.mkDir path answer)
  | .openDir dirname answer => some (fs.openDir dirname answer)
  | .closeDir dirp answer => fs.closeDir dirp answer
  | .chDir path answer buf => some (fs.chDir path answer buf)

/-- The state after one call. -/
def step (fs : FileSystem) (op : Op) : Option FileSystem := (fs.call op).map (·.1)

theorem step_some {fs fs' : FileSystem} {op : Op} :
    fs.step op = some fs' ↔ ∃ ret, fs.call op = some (fs', ret) := by
  simp [step, Option.map_eq_some_iff]

end FileSystem

end NaClFs
