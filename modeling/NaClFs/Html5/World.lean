/-
The data behind the HTML5 delegates: the records a call and a request are made of, the objects
the main thread works on, and the memory of the callers they fill. A delegate, a call and a
caller's buffer are named by a number, which stands for its address.

Log messages are left out. `file_io_` and `file_ref_` are passed on as they are where the source
would dereference a NULL: a delegate is bound to a descriptor only after an `Open` that returned 0.
-/
import NaClFs.Base.Types
import Mathlib.Tactic.SplitIfs

namespace NaClFs

/-! ## Calls -/

/-- The function of a call and its member of the union `u`. A DIR is named by its place in the
order of allocation; the `va_list` of `Fcntl` by the `long` it holds. -/
inductive Function
  | open_ (path : Str) (oflag : BitVec 32) (cmode : BitVec 32)
  | stat (path : Str) (buf : Nat)
  | close
  | fstat (buf : Nat)
  | read (buf : Nat) (nbytes : Nat)
  | write (buf : Str)
  | seek (offset : Int) (whence : Int)
  | isatty
  | fcntl (cmd : Int) (ap : Int)
  | mkdir (path : Str) (mode : BitVec 32)
  | opendir (dirname : Str)
  | rewinddir (dirp : Nat)
  | readdir (dirp : Nat)
  | closedir (dirp : Nat)
  deriving DecidableEq, Repr

/-- `Arguments`, less the two fields a `Proxy` run writes. -/
structure Arguments where
  delegate : Nat
  function : Function
  deriving DecidableEq, Repr

/-- The union `result`: the completion code `Proxy` stores in it, or what `Switch` stores. A
`struct dirent *` is the name in the entry it points to. -/
inductive Result
  | callback (code : Int)
  | int (value : Int)
  | dir (dirp : Option Nat)
  | dirent (name : Option Str)
  deriving DecidableEq, Repr

/-! ## Requests -/

/-- `PP_FileSystemType`. -/
inductive FileSystemType
  | external
  | localPersistent
  | localTemporary
  deriving DecidableEq, Repr

/-- `pp::FileRef`: a path on a filesystem. -/
structure FileRef where
  filesystem : Nat
  path : Str
  deriving DecidableEq, Repr

/-- What is asked of the backend. -/
inductive Request
  | fileSystemOpen (filesystem : Nat) (type : FileSystemType) (expectedSize : Int)
  | fileOpen (file : Nat) (ref : FileRef) (flags : BitVec 32)
  | query (file : Option Nat)
  | read (file : Option Nat) (offset : Int) (buf : Nat) (bytesToRead : Int)
  | write (file : Option Nat) (offset : Int) (buf : Str) (bytesToWrite : Int)
  | close (file : Option Nat)
  | makeDirectory (ref : FileRef)
  | readDirectoryEntries (ref : FileRef)
  deriving DecidableEq, Repr

/-- How the backend completes a request: the code, and what it delivers with it. -/
structure Answer where
  code : Int
  /-- What a query writes to the `PP_FileInfo`; none when it writes nothing. -/
  info : Option FileInfo := none
  /-- The bytes a read stores. -/
  data : Str := []
  /-- The names a listing delivers. -/
  entries : List Str := []
  deriving DecidableEq, Repr

/-- What an accepted request runs when it completes: the callback handed over with it, a
`CompletionCallback(Proxy, arguments)`, or the listing callback of a DIR. A query and a read first
store what they deliver. -/
inductive Completion
  | proxy (callback : Option Nat)
  | query (delegate : Nat) (callback : Option Nat)
  | read (buf : Nat) (callback : Option Nat)
  | listing (dirp : Nat)
  deriving DecidableEq, Repr

/-- A request issued by a `Proxy` run for a call, or a completion delivered to the main thread. -/
inductive Event
  | issued (call : Nat) (request : Request)
  | delivered (completion : Completion) (answer : Answer)
  deriving DecidableEq, Repr

def Event.request : Event → Option Request
  | .issued _ request => some request
  | .delivered _ _ => none

/-! ## Objects -/

/-- What a delegate holds of its file. The offset is unbounded; when it stays within 64 bits is said in
`NaClFs.Html5.Offsets`. -/
structure OpenFile where
  fileRef : Option FileRef := none
  fileIo : Option Nat := none
  fileInfo : FileInfo
  offset : Int := 0
  deriving DecidableEq, Repr

/-- `Html5FileSystem`, with the `callback_` of its base class. -/
structure Html5FileSystem extends OpenFile where
  waiting : Bool := false
  querying : Bool := false
  callback : Option Nat := none
  deriving DecidableEq, Repr

/-- What a DIR holds of its directory. -/
structure Listing where
  delegate : Nat
  directoryRef : FileRef
  entries : List Str := []
  offset : Nat := 0
  read : Bool := false
  deriving DecidableEq, Repr

/-- `Html5FileSystemDir`. -/
structure Html5FileSystemDir extends Listing where
  callback : Option Nat := none
  deriving DecidableEq, Repr

/-- What the `Proxy` runs of the main thread read and write. -/
structure World where
  /-- `NaClFs::filesystem_type_`. -/
  filesystemType : FileSystemType := .localTemporary
  /-- `filesystem_`. -/
  filesystem : Option Nat := none
  /-- How many filesystems and files were made. -/
  resources : Nat := 0
  delegates : Nat → Html5FileSystem
  /-- Every DIR made; none once it is deleted. -/
  dirs : List (Option Html5FileSystemDir) := []
  /-- The `Arguments` of each call. -/
  arguments : Nat → Arguments
  /-- The callers' `struct stat` buffers. -/
  stats : Nat → Stat
  /-- The callers' byte buffers. -/
  buffers : Nat → Str
  /-- The errno of the main thread. -/
  errno : Int := 0
  /-- What was issued and delivered, in order. -/
  log : List Event := []

namespace World

/-- The world of the constructors. What they do not set is arbitrary: each `file_info_`, and the
memory of the callers. -/
def init (type : FileSystemType) (info : Nat → FileInfo) (arguments : Nat → Arguments)
    (stats : Nat → Stat) (buffers : Nat → Str) : World where
  filesystemType := type
  delegates d := { fileInfo := info d }
  arguments := arguments
  stats := stats
  buffers := buffers

/-- The world of the constructors over cleared memory. -/
def blank : World :=
  init .localTemporary (fun _ => ⟨0, .regular, 0, 0, 0⟩) (fun _ => ⟨0, .close⟩) (fun _ => .zero)
    fun _ => []

def setDelegate (w : World) (d : Nat) (this : Html5FileSystem) : World :=
  { w with delegates := Function.update w.delegates d this }

def setDir (w : World) (dirp : Nat) (dir : Option Html5FileSystemDir) : World :=
  { w with dirs := w.dirs.set dirp dir }

def setStat (w : World) (buf : Nat) (st : Stat) : World :=
  { w with stats := Function.update w.stats buf st }

/-- The bytes are stored at the front of the buffer. -/
def setBuffer (w : World) (buf : Nat) (data : Str) : World :=
  { w with buffers := Function.update w.buffers buf (data ++ (w.buffers buf).drop data.length) }

/-- A query writes `file_info_`, or does not. -/
def setInfo (w : World) (d : Nat) : Option FileInfo → World
  | none => w
  | some info => w.setDelegate d { w.delegates d with fileInfo := info }

def record (w : World) (e : Event) : World := { w with log := w.log ++ [e] }

/-- The DIR behind a pointer; none for NULL and for a deleted one. -/
def dir (w : World) (dirp : Nat) : Option Html5FileSystemDir := w.dirs[dirp]?.join

/-- `Call` before it takes the mutex: the fields of the `Arguments` and `callback_`. -/
def enter (w : World) (call : Nat) (arguments : Arguments) : World :=
  { w with
    arguments := Function.update w.arguments call arguments
    delegates := Function.update w.delegates arguments.delegate
      { w.delegates arguments.delegate with callback := some call } }

@[simp] theorem setDelegate_self (w : World) (d : Nat) (this : Html5FileSystem) :
    (w.setDelegate d this).delegates d = this := Function.update_self ..

theorem setDelegate_of_ne (w : World) {d d' : Nat} (h : d' ≠ d) (this : Html5FileSystem) :
    (w.setDelegate d this).delegates d' = w.delegates d' := Function.update_of_ne h ..

@[simp] theorem enter_self (w : World) (call : Nat) (arguments : Arguments) :
    (w.enter call arguments).arguments call = arguments := Function.update_self ..

theorem enter_of_ne (w : World) {call call' : Nat} (h : call' ≠ call) (arguments : Arguments) :
    (w.enter call arguments).arguments call' = w.arguments call' := Function.update_of_ne h ..

theorem dir_some {w : World} {dirp : Nat} {dir : Html5FileSystemDir} :
    w.dir dirp = some dir ↔ w.dirs[dirp]? = some (some dir) := by
  rw [World.dir, Option.join_eq_some_iff]

end World

/-! ## errno -/

/-- `PPErrorToErrNo`. -/
def ppErrorToErrNo (ppError : Int) : Int :=
  if ppError = ppErrorNoAccess then eacces
  else if ppError = ppErrorNoMemory then enomem
  else if ppError = ppErrorNoSpace then enospc
  else if ppError = ppErrorNoQuota then enospc
  else if ppError = ppErrorFileNotFound then enoent
  else if ppError = ppErrorFileExists then eexist
  else if ppError = ppErrorFileTooBig then efbig
  else enosys

/-- Every code maps to an errno. -/
theorem ppErrorToErrNo_pos (ppError : Int) : 0 < ppErrorToErrNo ppError := by
  unfold ppErrorToErrNo
  split_ifs <;> decide

end NaClFs
