/-
`Html5FileSystem`: one run of each `*Call` method, as `Proxy` enters it for a call and for each
completion of the call's requests. A method reads the immediate code of a request from `imm` and
the completion code of the run from `callback`, which is `arguments->result.callback`.
-/
import NaClFs.Html5.World

namespace NaClFs

/-- What one run does: the world after it, the value `Switch` stores in the result, `chaining`, the
request it issues and, when the backend accepted it, what the completion will run. -/
structure Entry where
  world : World
  result : Result
  chaining : Bool := false
  request : Option Request := none
  completion : Option Completion := none

/-- The completion of a request that returned `PP_OK_COMPLETIONPENDING`. -/
def accepted (imm : Request → Int) (request : Request) (completion : Completion) :
    Option Completion :=
  if imm request = ppOkCompletionPending then some completion else none

/-! ## DIR objects -/

/-- The C string `strncpy` leaves in `d_name`. -/
def dName (name : Str) : Str := (name.takeWhile (· ≠ 0)).take 255

/-- `ReadDirNext`. -/
def Listing.readDirNext (dir : Listing) : Listing × Option Str :=
  match dir.entries[dir.offset]? with
  | none => (dir, none)
  | some name => ({ dir with offset := dir.offset + 1 }, some (dName name))

/-- `Rewind`. -/
def Listing.rewind (dir : Listing) : Listing := { dir with offset := 0 }

/-- `OnReadDirectoryEntries`, less the callback it runs. -/
def Listing.onReadDirectoryEntries (dir : Listing) (result : Int) (entries : List Str) : Listing :=
  if result = ppOk then { dir with entries := dir.entries ++ entries, read := true } else dir

/-! ## Stat buffers -/

/-- The type bits of `st_mode`. -/
def FileType.mode : FileType → BitVec 32
  | .regular => sIfReg
  | .directory => sIfDir
  | .other => 0

/-- What `StatCall` and `FstatCall` fill the buffer with, each with its own permission bits. Nothing is cut
to the width of its field, and `size + 511` does not overflow. -/
def FileInfo.toStat (info : FileInfo) (permissions : BitVec 32) : Stat where
  mode := permissions ||| info.type.mode
  size := info.size
  atime := info.lastAccessTime
  mtime := info.lastModifiedTime
  ctime := info.creationTime
  blksize := 512
  blocks := (info.size + 511) >>> (9 : Nat)

/-- What `StatCall` fills the buffer with on `PP_ERROR_NOTAFILE`. -/
def directoryStat : Stat :=
  { Stat.zero with mode := sIRwxU ||| sIRwxG ||| sIRwxO ||| sIfDir }

/-! ## Open flags -/

/-- The `PP_FILEOPENFLAG` word of `oflag`; the bits it does not know are only logged. -/
def openFlags (oflag : BitVec 32) : BitVec 32 :=
  let flags :=
    if oflag &&& oAccMode = oRdOnly then ppFileOpenFlagRead
    else if oflag &&& oAccMode = oWrOnly then ppFileOpenFlagWrite
    else if oflag &&& oAccMode = oRdWr then ppFileOpenFlagRead ||| ppFileOpenFlagWrite
    else 0
  let flags := if oflag &&& oCreat ≠ 0 then flags ||| ppFileOpenFlagCreate else flags
  let flags := if oflag &&& oTrunc ≠ 0 then flags ||| ppFileOpenFlagTruncate else flags
  if oflag &&& oExcl ≠ 0 then flags ||| ppFileOpenFlagExclusive else flags

/-! ## File offsets -/

/-- A transfer moves the offset by its count when that is positive. -/
def OpenFile.advance (file : OpenFile) (count : Int) : OpenFile :=
  { file with offset := if 0 < count then file.offset + count else file.offset }

/-- A write past the known size grows it. -/
def OpenFile.grow (file : OpenFile) : OpenFile :=
  { file with
    fileInfo := { file.fileInfo with
      size := if file.fileInfo.size < file.offset then file.offset else file.fileInfo.size } }

/-- `O_APPEND` starts at the queried size. -/
def OpenFile.start (file : OpenFile) (oflag : BitVec 32) : OpenFile :=
  { file with offset := if oflag &&& oAppend ≠ 0 then file.fileInfo.size else file.offset }

namespace Html5FileSystem

variable (imm : Request → Int) (w : World) (d : Nat) (callback : Int)

/-! ## Methods -/

/-- The size the filesystem is opened with. -/
def expectedSize : Int := 1024 * 1024

/-- `Initialize`. -/
def initialize_ : Entry :=
  let request := .fileSystemOpen w.resources w.filesystemType expectedSize
  { world := { w with filesystem := some w.resources, resources := w.resources + 1 }
    result := .int 0
    chaining := true
    request := some request
    completion := accepted imm request (.proxy (w.delegates d).callback) }

/-- `OpenCall`. -/
def openCall (path : Str) (oflag : BitVec 32) : Entry :=
  match w.filesystem with
  | none => initialize_ imm w d
  | some filesystem =>
    let this := w.delegates d
    if this.waiting then
      let this := { this with waiting := false }
      if callback ≠ 0 then
        { world := w.setDelegate d this, result := .int (ppErrorToErrNo callback) }
      else
        -- The code of `Query` is not looked at.
        { world := w.setDelegate d { this with querying := true }
          result := .int 0
          chaining := true
          request := some (.query this.fileIo)
          completion := accepted imm (.query this.fileIo) (.query d this.callback) }
    else if this.querying then
      let this := { this with querying := false }
      if callback ≠ 0 then
        { world := w.setDelegate d this, result := .int (ppErrorToErrNo callback) }
      else
        let this := { this with toOpenFile := this.start oflag }
        { world := w.setDelegate d this, result := .int 0 }
    else
      let fileRef : FileRef := ⟨filesystem, path⟩
      let this := { this with fileRef := some fileRef, fileIo := some w.resources }
      let request := .fileOpen w.resources fileRef (openFlags oflag)
      let w := { w with resources := w.resources + 1 }
      if imm request ≠ ppOkCompletionPending then
        { world := w.setDelegate d this
          result := .int (ppErrorToErrNo callback)
          request := some request }
      else
        { world := w.setDelegate d { this with waiting := true }
          result := .int 0
          chaining := true
          request := some request
          completion := some (.proxy this.callback) }

/-- `StatCall`. -/
def statCall (path : Str) (buf : Nat) : Entry :=
  match w.filesystem with
  | none => initialize_ imm w d
  | some filesystem =>
    let this := w.delegates d
    if this.waiting then
      let this := { this with waiting := false }
      if callback = ppErrorNotAFile then
        { world := (w.setDelegate d this).setStat buf directoryStat, result := .int 0 }
      else if callback ≠ 0 then
        { world := w.setDelegate d this, result := .int (ppErrorToErrNo callback) }
      else
        { world := w.setDelegate d { this with querying := true }
          result := .int 0
          chaining := true
          request := some (.query this.fileIo)
          completion := accepted imm (.query this.fileIo) (.query d this.callback) }
    else if this.querying then
      let this := { this with querying := false }
      if callback ≠ 0 then
        { world := w.setDelegate d this, result := .int (ppErrorToErrNo callback) }
      else
        let st := this.fileInfo.toStat (sIRwxU ||| sIRwxG ||| sIRwxO)
        { world := (w.setDelegate d this).setStat buf st, result := .int 0 }
    else
      let fileRef : FileRef := ⟨filesystem, path⟩
      let this := { this with fileRef := some fileRef, fileIo := some w.resources }
      let request := .fileOpen w.resources fileRef 0
      let w := { w with resources := w.resources + 1 }
      if imm request ≠ ppOkCompletionPending then
        { world := w.setDelegate d this
          result := .int (ppErrorToErrNo (imm request))
          request := some request }
      else
        { world := w.setDelegate d { this with waiting := true }
          result := .int 0
          chaining := true
          request := some request
          completion := some (.proxy this.callback) }

/-- `CloseCall`. -/
def closeCall : Entry :=
  { world := w, result := .int 0, request := some (.close (w.delegates d).fileIo) }

/-- `FstatCall`. -/
def fstatCall (buf : Nat) : Entry :=
  let this := w.delegates d
  if this.waiting then
    -- The code of the completion is only converted, never returned.
    let this := { this with waiting := false }
    { world := (w.setDelegate d this).setStat buf (this.fileInfo.toStat sIRwxU), result := .int 0 }
  else if imm (.query this.fileIo) ≠ ppOkCompletionPending then
    { world := w
      result := .int (ppErrorToErrNo (imm (.query this.fileIo)))
      request := some (.query this.fileIo) }
  else
    { world := w.setDelegate d { this with waiting := true }
      result := .int 0
      chaining := true
      request := some (.query this.fileIo)
      completion := some (.query d this.callback) }

/-- `ReadCall`. -/
def readCall (buf nbytes : Nat) : Entry :=
  let this := w.delegates d
  if this.waiting then
    let this := { this with waiting := false, toOpenFile := this.advance callback }
    { world := w.setDelegate d this, result := .int callback }
  else
    let request := .read this.fileIo this.offset buf (toInt nbytes)
    if imm request ≠ ppOkCompletionPending then
      { world := w, result := .int (-1), request := some request }
    else
      { world := w.setDelegate d { this with waiting := true }
        result := .int 0
        chaining := true
        request := some request
        completion := some (.read buf this.callback) }

/-- `WriteCall`. -/
def writeCall (buf : Str) : Entry :=
  let this := w.delegates d
  if this.waiting then
    let this := { this with waiting := false, toOpenFile := (this.advance callback).grow }
    { world := w.setDelegate d this, result := .int callback }
  else
    let request := .write this.fileIo this.offset buf (toInt buf.length)
    if imm request ≠ ppOkCompletionPending then
      { world := w, result := .int (-1), request := some request }
    else
      { world := w.setDelegate d { this with waiting := true }
        result := .int 0
        chaining := true
        request := some request
        completion := some (.proxy this.callback) }

/-- `SeekCall`. -/
def seekCall (offset whence : Int) : Entry :=
  let this := w.delegates d
  let move (offset : Int) : Entry :=
    { world := w.setDelegate d { this with offset := offset }, result := .int offset }
  if whence = seekSet then move offset
  else if whence = seekCur then move (this.offset + offset)
  else if whence = seekEnd then move (this.fileInfo.size + offset)
  else { world := w, result := .int (-1) }

/-- `IsATtyCall`. -/
def isATtyCall : Entry := { world := w, result := .int (-1) }

/-- `FcntlCall`. -/
def fcntlCall (cmd ap : Int) : Entry :=
  if cmd = fGetFd then { world := w, result := .int 0 }
  else if cmd = fSetFd ∧ ap = fdCloexec then { world := w, result := .int 0 }
  else { world := { w with errno := enosys }, result := .int (-1) }

/-- `MkDirCall`. -/
def mkDirCall (path : Str) : Entry :=
  match w.filesystem with
  | none => initialize_ imm w d
  | some filesystem =>
    let this := w.delegates d
    if this.waiting then
      { world := w.setDelegate d { this with waiting := false }, result := .int callback }
    else
      let request := .makeDirectory ⟨filesystem, path⟩
      if imm request ≠ ppOkCompletionPending then
        { world := w, result := .int (-1), request := some request }
      else
        { world := w.setDelegate d { this with waiting := true }
          result := .int 0
          chaining := true
          request := some request
          completion := some (.proxy this.callback) }

/-- `OpenDirCall`. -/
def openDirCall (dirname : Str) : Entry :=
  match w.filesystem with
  | none => { initialize_ imm w d with result := .dir none }
  | some filesystem =>
    { world := { w with dirs := w.dirs ++ [some { delegate := d, directoryRef := ⟨filesystem, dirname⟩ }] }
      result := .dir (some w.dirs.length) }

/-- `RewindDirCall`, which leaves the result as `Proxy` set it. -/
def rewindDirCall (dirp : Nat) : Entry :=
  match w.dir dirp with
  | none => { world := w, result := .callback callback }
  | some dir =>
    { world := w.setDir dirp (some { dir with toListing := dir.rewind })
      result := .callback callback }

/-- `ReadDirCall`, with the `ReadDir` of the DIR. -/
def readDirCall (dirp : Nat) : Entry :=
  match w.dir dirp with
  | none => { world := w, result := .dirent none }
  | some dir =>
    let this := w.delegates d
    let next (w : World) (dir : Html5FileSystemDir) (request : Option Request) : Entry :=
      { world := w.setDir dirp (some { dir with toListing := dir.readDirNext.1 })
        result := .dirent dir.readDirNext.2
        request := request }
    if this.waiting then
      let w := w.setDelegate d { this with waiting := false }
      if callback ≠ 0 then { world := w, result := .dirent none } else next w dir none
    else if dir.read then next w dir none
    else
      let dir := { dir with toListing := dir.rewind }
      let request := .readDirectoryEntries dir.directoryRef
      if imm request = ppOk then next w dir (some request)
      else if imm request = ppOkCompletionPending then
        { world := (w.setDir dirp (some { dir with callback := this.callback })).setDelegate d
            { this with waiting := true }
          result := .dirent none
          chaining := true
          request := some request
          completion := some (.listing dirp) }
      else { world := w.setDir dirp (some dir), result := .dirent none, request := some request }

/-- `CloseDirCall`. -/
def closeDirCall (dirp : Nat) : Entry :=
  match w.dir dirp with
  | none => { world := w, result := .int (-1) }
  | some _ => { world := w.setDir dirp none, result := .int 0 }

/-! ## Dispatch -/

/-- `Switch`. -/
def switch : Function → Entry
  | .open_ path oflag _ => openCall imm w d callback path oflag
  | .stat path buf => statCall imm w d callback path buf
  | .close => closeCall w d
  | .fstat buf => fstatCall imm w d buf
  | .read buf nbytes => readCall imm w d callback buf nbytes
  | .write buf => writeCall imm w d callback buf
  | .seek offset whence => seekCall w d offset whence
  | .isatty => isATtyCall w
  | .fcntl cmd ap => fcntlCall w cmd ap
  | .mkdir path _ => mkDirCall imm w d callback path
  | .opendir dirname => openDirCall imm w d dirname
  | .rewinddir dirp => rewindDirCall w callback dirp
  | .readdir dirp => readDirCall imm w d callback dirp
  | .closedir dirp => closeDirCall w dirp

end Html5FileSystem

/-- The request of a run goes on record under the call it is made for. -/
def World.issue (w : World) (call : Nat) : Option Request → World
  | none => w
  | some request => w.record (.issued call request)

/-- `Proxy` on the `Arguments` of a call, up to the signal. -/
def proxy (imm : Request → Int) (w : World) (call : Nat) (result : Int) : Entry :=
  let arguments := w.arguments call
  let e := Html5FileSystem.switch imm w arguments.delegate result arguments.function
  { e with world := e.world.issue call e.request }

/-- What the completion of a request stores, and the call whose `Proxy` it runs. -/
def deliver (w : World) (p : Completion) (answer : Answer) : World × Option Nat :=
  let w := w.record (.delivered p answer)
  match p with
  | .proxy callback => (w, callback)
  | .query d callback => (w.setInfo d answer.info, callback)
  | .read buf callback => (w.setBuffer buf answer.data, callback)
  | .listing dirp =>
    match w.dir dirp with
    | none => (w, none)
    | some dir =>
      -- `callback_` is cleared before it runs.
      (w.setDir dirp (some
        { toListing := dir.onReadDirectoryEntries answer.code answer.entries, callback := none }),
        dir.callback)

end NaClFs
