/-
The straight-line program: each operation of an HTML5 file written as the sequence of requests it
stands for, over a store that has no phase flags and no callbacks. It says what the operations are
for; `NaClFs.Html5.Refine` compares it with the runs of the main thread.
-/
import NaClFs.Html5.Driver

namespace NaClFs

/-! ## The store -/

/-- What a run leaves behind, seen without `waiting_`, `querying_` and the callbacks. -/
structure Store where
  filesystemType : FileSystemType
  filesystem : Option Nat
  resources : Nat
  files : Nat → OpenFile
  dirs : List (Option Listing)
  stats : Nat → Stat
  buffers : Nat → Str
  errno : Int
  requests : List Request

/-- The store of a world. -/
def World.store (w : World) : Store where
  filesystemType := w.filesystemType
  filesystem := w.filesystem
  resources := w.resources
  files d := (w.delegates d).toOpenFile
  dirs := w.dirs.map (Option.map Html5FileSystemDir.toListing)
  stats := w.stats
  buffers := w.buffers
  errno := w.errno
  requests := w.log.filterMap Event.request

/-! ## Programs -/

/-- A program over the store and the backend; it returns none when it waits forever. -/
def Line (β α : Type) := Store → β → Option α × Store × β

namespace Line

variable {β : Type}

instance : Monad (Line β) where
  pure a := fun s b => (some a, s, b)
  bind m f := fun s b =>
    match m s b with
    | (none, s, b) => (none, s, b)
    | (some a, s, b) => f a s b

@[simp] theorem pure_run {α : Type} (a : α) (s : Store) (b : β) :
    (pure a : Line β α) s b = (some a, s, b) := rfl

theorem bind_run {α γ : Type} (m : Line β α) (f : α → Line β γ) (s : Store) (b : β) :
    (m >>= f) s b = match m s b with
      | (none, s, b) => (none, s, b)
      | (some a, s, b) => f a s b := rfl

/-- Wait forever. -/
def wait {α : Type} : Line β α := fun s b => (none, s, b)

def get : Line β Store := fun s b => (some s, s, b)

def modify (f : Store → Store) : Line β Unit := fun s b => (some (), f s, b)

def modifyFile (d : Nat) (f : OpenFile → OpenFile) : Line β Unit :=
  modify fun s => { s with files := Function.update s.files d (f (s.files d)) }

def setDir (dirp : Nat) (dir : Option Listing) : Line β Unit :=
  modify fun s => { s with dirs := s.dirs.set dirp dir }

def fillStat (buf : Nat) (st : Stat) : Line β Unit :=
  modify fun s => { s with stats := Function.update s.stats buf st }

/-- Hand one request to the backend. -/
def ask (B : Backend β) (request : Request) : Line β Reply := fun s b =>
  (some (B b request).1, { s with requests := s.requests ++ [request] }, (B b request).2)

/-! ## Operations -/

variable (B : Backend β)

/-- The filesystem, opened by the first operation that needs it, and the code of its opening. -/
def needFileSystem : Line β (Nat × Int) := do
  let s ← get
  match s.filesystem with
  | some filesystem => pure (filesystem, 0)
  | none =>
    modify fun s => { s with filesystem := some s.resources, resources := s.resources + 1 }
    match ← ask B (.fileSystemOpen s.resources s.filesystemType Html5FileSystem.expectedSize) with
    | .refused _ _ => wait
    | .completes answer => pure (s.resources, answer.code)

/-- A new file of the delegate, opened. -/
def openFile (d : Nat) (ref : FileRef) (flags : BitVec 32) : Line β Reply := do
  let s ← get
  modify fun s => { s with resources := s.resources + 1 }
  modifyFile d fun file => { file with fileRef := some ref, fileIo := some s.resources }
  ask B (.fileOpen s.resources ref flags)

/-- The information of the file, taken from the answer to a query that was accepted. -/
def storeInfo (d : Nat) (info : Option FileInfo) : Line β Unit :=
  modifyFile d fun file => { file with fileInfo := info.getD file.fileInfo }

/-- Query the file, wait for the answer and return its code. -/
def query (d : Nat) : Line β Int := do
  match ← ask B (.query ((← get).files d).fileIo) with
  | .refused _ _ => wait
  | .completes answer =>
    storeInfo d answer.info
    pure answer.code

/-- The end of an `Open` whose query completed with `code`; `O_APPEND` starts at the queried size. -/
def opened (d : Nat) (oflag : BitVec 32) (code : Int) : Line β Result := do
  if code ≠ 0 then pure (.int (ppErrorToErrNo code))
  else
    modifyFile d fun file => file.start oflag
    pure (.int 0)

/-- The rest of an `Open` whose file open completed with `code`: a query, only if that is 0. -/
def opening (d : Nat) (oflag : BitVec 32) (code : Int) : Line β Result := do
  if code ≠ 0 then pure (.int (ppErrorToErrNo code))
  else
    let code ← query B d
    opened d oflag code

/-- Open the file, then query it. -/
def open_ (d : Nat) (path : Str) (oflag : BitVec 32) : Line β Result := do
  let (filesystem, code) ← needFileSystem B
  match ← openFile B d ⟨filesystem, path⟩ (openFlags oflag) with
  | .refused _ _ => pure (.int (ppErrorToErrNo code))
  | .completes answer => opening B d oflag answer.code

/-- The end of a `Stat` whose query completed with `code`. -/
def queried (d buf : Nat) (code : Int) : Line β Result := do
  if code ≠ 0 then pure (.int (ppErrorToErrNo code))
  else
    fillStat buf (((← get).files d).fileInfo.toStat (sIRwxU ||| sIRwxG ||| sIRwxO))
    pure (.int 0)

/-- The rest of a `Stat` whose file open completed with `code`: a directory is told by it, any other
failure is mapped, and a file is queried. -/
def statting (d buf : Nat) (code : Int) : Line β Result := do
  if code = ppErrorNotAFile then
    fillStat buf directoryStat
    pure (.int 0)
  else if code ≠ 0 then pure (.int (ppErrorToErrNo code))
  else
    let code ← query B d
    queried d buf code

/-- Open the file with no flags, then query it. -/
def stat (d : Nat) (path : Str) (buf : Nat) : Line β Result := do
  let (filesystem, _) ← needFileSystem B
  match ← openFile B d ⟨filesystem, path⟩ 0 with
  | .refused code _ => pure (.int (ppErrorToErrNo code))
  | .completes answer => statting B d buf answer.code

/-- Query the file and fill the buffer, whatever the query completed with. -/
def fstat (d buf : Nat) : Line β Result := do
  match ← ask B (.query ((← get).files d).fileIo) with
  | .refused code _ => pure (.int (ppErrorToErrNo code))
  | .completes answer =>
    storeInfo d answer.info
    fillStat buf (((← get).files d).fileInfo.toStat sIRwxU)
    pure (.int 0)

/-- One read at the offset, whose code is the result. -/
def read (d buf nbytes : Nat) : Line β Result := do
  let file := (← get).files d
  match ← ask B (.read file.fileIo file.offset buf (toInt nbytes)) with
  | .refused _ _ => pure (.int (-1))
  | .completes answer =>
    modify fun s => { s with
      buffers := Function.update s.buffers buf
        (answer.data ++ (s.buffers buf).drop answer.data.length) }
    modifyFile d fun file => file.advance answer.code
    pure (.int answer.code)

/-- One write at the offset, whose code is the result; it may grow the known size. -/
def write (d : Nat) (buf : Str) : Line β Result := do
  let file := (← get).files d
  match ← ask B (.write file.fileIo file.offset buf (toInt buf.length)) with
  | .refused _ _ => pure (.int (-1))
  | .completes answer =>
    modifyFile d fun file => (file.advance answer.code).grow
    pure (.int answer.code)

/-- Move the offset; no request. -/
def moveTo (d : Nat) (offset : Int) : Line β Result := do
  modifyFile d fun file => { file with offset := offset }
  pure (.int offset)

/-- Move the offset to a place counted from the start, from where it is or from the known end. -/
def seek (d : Nat) (offset whence : Int) : Line β Result := do
  let file := (← get).files d
  if whence = seekSet then moveTo d offset
  else if whence = seekCur then moveTo d (file.offset + offset)
  else if whence = seekEnd then moveTo d (file.fileInfo.size + offset)
  else pure (.int (-1))

/-- One close, whose code nobody reads. -/
def close (d : Nat) : Line β Result := do
  let _ ← ask B (.close ((← get).files d).fileIo)
  pure (.int 0)

/-- Only `F_GETFD`, and `F_SETFD` with `FD_CLOEXEC`, succeed. -/
def fcntl (cmd ap : Int) : Line β Result := do
  if cmd = fGetFd ∨ cmd = fSetFd ∧ ap = fdCloexec then pure (.int 0)
  else
    modify fun s => { s with errno := enosys }
    pure (.int (-1))

/-- One request for the directory, whose code is the result. -/
def makeDirectory (ref : FileRef) : Line β Result := do
  match ← ask B (.makeDirectory ref) with
  | .refused _ _ => pure (.int (-1))
  | .completes answer => pure (.int answer.code)

def mkDir (path : Str) : Line β Result := do
  let (filesystem, _) ← needFileSystem B
  makeDirectory B ⟨filesystem, path⟩

/-- A new DIR; no request. -/
def newDir (d : Nat) (ref : FileRef) : Line β Result := do
  let s ← get
  modify fun s => { s with dirs := s.dirs ++ [some { delegate := d, directoryRef := ref }] }
  pure (.dir (some s.dirs.length))

def openDir (d : Nat) (dirname : Str) : Line β Result := do
  let (filesystem, _) ← needFileSystem B
  newDir d ⟨filesystem, dirname⟩

/-- The next entry of the DIR. -/
def readDirNext (dirp : Nat) (dir : Listing) : Line β Result := do
  setDir dirp (some dir.readDirNext.1)
  pure (.dirent dir.readDirNext.2)

/-- List the directory unless that is done, then return the next entry. -/
def readDir (dirp : Nat) : Line β Result := do
  match (← get).dirs[dirp]?.join with
  | none => pure (.dirent none)
  | some dir =>
    if dir.read then readDirNext dirp dir
    else
      match ← ask B (.readDirectoryEntries dir.directoryRef) with
      | .refused code _ =>
        if code = ppOk then readDirNext dirp dir.rewind
        else
          setDir dirp (some dir.rewind)
          pure (.dirent none)
      | .completes answer =>
        let dir := dir.rewind.onReadDirectoryEntries answer.code answer.entries
        if answer.code ≠ 0 then
          setDir dirp (some dir)
          pure (.dirent none)
        else readDirNext dirp dir

def rewindDir (dirp : Nat) : Line β Result := do
  match (← get).dirs[dirp]?.join with
  | none => pure (.callback 0)
  | some dir =>
    setDir dirp (some dir.rewind)
    pure (.callback 0)

def closeDir (dirp : Nat) : Line β Result := do
  match (← get).dirs[dirp]?.join with
  | none => pure (.int (-1))
  | some _ =>
    setDir dirp none
    pure (.int 0)

/-- The program of a call. -/
def program (d : Nat) : Function → Line β Result
  | .open_ path oflag _ => open_ B d path oflag
  | .stat path buf => stat B d path buf
  | .close => close B d
  | .fstat buf => fstat B d buf
  | .read buf nbytes => read B d buf nbytes
  | .write buf => write B d buf
  | .seek offset whence => seek d offset whence
  | .isatty => pure (.int (-1))
  | .fcntl cmd ap => fcntl cmd ap
  | .mkdir path _ => mkDir B path
  | .opendir dirname => openDir B d dirname
  | .rewinddir dirp => rewindDir dirp
  | .readdir dirp => readDir B dirp
  | .closedir dirp => closeDir dirp

/-- The programs of some calls, one after the other. -/
def run : Store → β → List Arguments → Trace Store β
  | s, b, [] => ⟨[], false, s, b⟩
  | s, b, arguments :: rest =>
    match program B arguments.delegate arguments.function s b with
    | (none, s, b) => ⟨[], true, s, b⟩
    | (some result, s, b) =>
      let t := run s b rest
      { t with results := result :: t.results }

end Line

end NaClFs
