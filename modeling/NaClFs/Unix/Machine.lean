/-
What the file system is for: one machine of regular files kept by path, of descriptors that are open on
a file or on a device of the terminal, each file descriptor with a position of its own, and of DIRs. An
operation is one step of it. `NaClFs.Unix.Refine` shows that the delegates, their requests and the
table come to this.

Where the system may fail, so may a step. errno is left out.
-/
import NaClFs.FileSystem.Process
import NaClFs.Unix.Disk

namespace NaClFs

open Bytes

namespace Unix

/-! ## State -/

/-- What a descriptor is open on. Of a file it knows a position, and what the file last was. -/
inductive Description
  | device (port : PortFileSystem)
  | file (handle : Handle) (position : Int) (info : FileInfo)
  deriving DecidableEq, Repr

/-- A DIR: the names it was listed with, once it was, and how many of them were read. -/
structure Cursor where
  path : Str
  names : Option (List Str) := none
  next : Nat := 0
  deriving DecidableEq, Repr

structure Machine where
  files : Str → Option Str
  /-- The current directory, without the first slash. -/
  cwd : Str
  descriptors : List (Option Description)
  dirs : List (Option Cursor)
  /-- What messages pushed and nobody read yet. -/
  input : Str
  /-- What was posted to the page. -/
  posted : List Str
  /-- The memory of the callers. -/
  buffers : Nat → Str
  stats : Nat → Stat

namespace Machine

variable (m : Machine)

/-- The description behind a descriptor. -/
def descriptor (fildes : Int) : Option Description :=
  if fildes < 0 then none else m.descriptors[fildes.toNat]?.join

def setDescriptor (fildes : Int) (x : Option Description) : Machine :=
  { m with descriptors := m.descriptors.set fildes.toNat x }

def bind (x : Description) : Machine := { m with descriptors := m.descriptors ++ [some x] }

/-- The descriptor the next `Open` returns. -/
def newfd : Int := toInt m.descriptors.length

def setDir (dirp : Nat) (x : Option Cursor) : Machine := { m with dirs := m.dirs.set dirp x }

def setFile (path content : Str) : Machine :=
  { m with files := Function.update m.files path (some content) }

def setStat (buf : Nat) (st : Stat) : Machine := { m with stats := Function.update m.stats buf st }

def setBuffer (buf : Nat) (data : Str) : Machine :=
  { m with buffers := Function.update m.buffers buf (data ++ (m.buffers buf).drop data.length) }

/-- The path an operation means. -/
def fullpath (path : Str) : Str := createFullpath m.cwd path

/-- Whether a path is one of the terminal. -/
def onDevice (path : Str) : Bool := (str "/dev/std").isPrefixOf (m.fullpath path)

end Machine

/-! ## Operations on a description -/

/-- A place counted from the start, from the position or from the known end. -/
def target (position : Int) (info : FileInfo) (offset whence : Int) : Option Int :=
  if whence = seekSet then some offset
  else if whence = seekCur then some (position + offset)
  else if whence = seekEnd then some (info.size + offset)
  else none

/-- What is known of a file after a write that ended at `position`. -/
def known (info : FileInfo) (position : Int) : FileInfo := { info with size := max info.size position }

/-- What a function does to what it is called on: its result, the description and the machine after it. -/
inductive Acts (main : Bool) (m : Machine) : Description → Function → Int → Description → Machine → Prop
  /-- A device is the same on every thread. -/
  | deviceFstat {port : PortFileSystem} (buf : Nat) :
      Acts main m (.device port) (.fstat buf) 0 (.device port) (m.setStat buf PortFileSystem.deviceStat)
  | deviceRead {port : PortFileSystem} (buf nbytes : Nat) :
      Acts main m (.device port) (.read buf nbytes) (port.read m.input nbytes).1 (.device port)
        { m.setBuffer buf (port.read m.input nbytes).2.1 with input := (port.read m.input nbytes).2.2 }
  | deviceWrite {port : PortFileSystem} (buf : Str) :
      Acts main m (.device port) (.write buf) (port.write buf).1 (.device port)
        { m with posted := m.posted ++ (port.write buf).2.toList }
  | deviceSeek {port : PortFileSystem} (offset whence : Int) :
      Acts main m (.device port) (.seek offset whence) 0 (.device port) m
  | deviceIsATty {port : PortFileSystem} : Acts main m (.device port) .isatty 0 (.device port) m
  | deviceFcntl {port : PortFileSystem} (cmd ap : Int) :
      Acts main m (.device port) (.fcntl cmd ap) (port.fcntl cmd (BitVec.ofInt 32 ap)).2.1
        (.device (port.fcntl cmd (BitVec.ofInt 32 ap)).1) m
  | deviceClose {port : PortFileSystem} (h : port.close ≠ 0) :
      Acts main m (.device port) .close port.close (.device port) m
  /-- The main thread does nothing with a file. -/
  | main {h : Handle} {position : Int} {info : FileInfo} (f : Function) (hm : main = true) :
      Acts main m (.file h position info) f (onMainThread f).toInt (.file h position info) m
  | fstatRefused {h : Handle} {position : Int} {info : FileInfo} {buf : Nat} {result : Int} (hm : main = false)
      (hr : 0 < result) :
      Acts main m (.file h position info) (.fstat buf) result (.file h position info) m
  /-- What is told is the file, or what was known of it before. -/
  | fstat {h : Handle} {position : Int} {info info' : FileInfo} {buf : Nat} (hm : main = false)
      (hi : info' = info ∨ ∃ content, m.files h.path = some content ∧ info'.Describes content) :
      Acts main m (.file h position info) (.fstat buf) 0 (.file h position info')
        (m.setStat buf (info'.toStat sIRwxU))
  | readFails {h : Handle} {position : Int} {info : FileInfo} {buf nbytes : Nat} {result : Int} (left : Str)
      (hm : main = false) (hr : result < 0) :
      Acts main m (.file h position info) (.read buf nbytes) result (.file h position info)
        (m.setBuffer buf left)
  | read {h : Handle} {position : Int} {info : FileInfo} {buf nbytes k : Nat} {content : Str}
      (hm : main = false) (hc : m.files h.path = some content) (h0 : 0 ≤ position) (hr : h.readable)
      (hn : (k : Int) ≤ toInt nbytes) (hk : k ≤ content.length - position.toNat)
      (he : k = 0 → toInt nbytes ≤ 0 ∨ content.length ≤ position.toNat) :
      Acts main m (.file h position info) (.read buf nbytes) k (.file h (position + k) info)
        (m.setBuffer buf (slice content position.toNat k))
  /-- The position counts as known even then. -/
  | writeFails {h : Handle} {position : Int} {info info' : FileInfo} {buf : Str} {result : Int}
      (hm : main = false) (hr : result < 0) (hi : info' = info ∨ info' = known info position) :
      Acts main m (.file h position info) (.write buf) result (.file h position info') m
  | write {h : Handle} {position : Int} {info : FileInfo} {buf content : Str} {k : Nat} (hm : main = false)
      (hc : m.files h.path = some content) (h0 : 0 ≤ position) (hw : h.writable)
      (hn : (k : Int) ≤ toInt buf.length) :
      Acts main m (.file h position info) (.write buf) k
        (.file h (position + k) (known info (position + k)))
        (m.setFile h.path (overlay 0 content position.toNat (buf.take k)))
  | seekNowhere {h : Handle} {position : Int} {info : FileInfo} {offset whence : Int} (hm : main = false)
      (ht : target position info offset whence = none) :
      Acts main m (.file h position info) (.seek offset whence) (-1) (.file h position info) m
  | seek {h : Handle} {position position' : Int} {info : FileInfo} {offset whence : Int} (hm : main = false)
      (ht : target position info offset whence = some position') :
      Acts main m (.file h position info) (.seek offset whence) position' (.file h position' info) m
  | isatty {h : Handle} {position : Int} {info : FileInfo} (hm : main = false) :
      Acts main m (.file h position info) .isatty (-1) (.file h position info) m
  | fcntl {h : Handle} {position : Int} {info : FileInfo} (cmd ap : Int) (hm : main = false) :
      Acts main m (.file h position info) (.fcntl cmd ap)
        (if cmd = fGetFd ∨ cmd = fSetFd ∧ ap = fdCloexec then 0 else -1) (.file h position info) m

/-- What a `Stat` of a full path finds. Nothing is a directory but what cannot be opened as a file. -/
inductive Looks (main : Bool) (m : Machine) (path : Str) (buf : Nat) : Int → Machine → Prop
  | device {result : Int} {st : Stat} (hd : (str "/dev/std").isPrefixOf path)
      (h : PortFileSystem.stat path = (result, some st)) : Looks main m path buf result (m.setStat buf st)
  | noDevice {result : Int} (hd : (str "/dev/std").isPrefixOf path)
      (h : PortFileSystem.stat path = (result, none)) : Looks main m path buf result m
  | fails {result : Int} (hd : ¬ (str "/dev/std").isPrefixOf path) (hr : 0 < result) :
      Looks main m path buf result m
  | file {info : FileInfo} {content : Str} (hd : ¬ (str "/dev/std").isPrefixOf path) (hm : main = false)
      (hc : m.files path = some content) (hi : info.Describes content) :
      Looks main m path buf 0 (m.setStat buf (info.toStat (sIRwxU ||| sIRwxG ||| sIRwxO)))
  | directory (hd : ¬ (str "/dev/std").isPrefixOf path) (hm : main = false) (hc : m.files path = none) :
      Looks main m path buf 0 (m.setStat buf directoryStat)

/-- A DIR is listed once, by the first read that does not fail, and then read name by name. -/
inductive Cursor.ReadsNext (x : Cursor) : Option Str → Cursor → Prop
  | name {names : List Str} {name : Str} (hl : x.names = some names ∨ x.names = none)
      (hn : names[x.next]? = some name) :
      ReadsNext x (some (dName name)) { x with names := some names, next := x.next + 1 }
  | atEnd {names : List Str} (hl : x.names = some names ∨ x.names = none) (hn : names[x.next]? = none) :
      ReadsNext x none { x with names := some names }
  | fails (hl : x.names = none) : ReadsNext x none x

/-! ## Steps -/

/-- The operations through a descriptor, with the result for one that is not open. -/
def throughDescriptor : Process.Op → Option (Int × Int × Function)
  | .close fildes => some (fildes, ebadf, .close)
  | .fstat fildes buf => some (fildes, ebadf, .fstat buf)
  | .read fildes buf nbytes => some (fildes, -1, .read buf nbytes)
  | .write fildes buf => some (fildes, -1, .write buf)
  | .seek fildes offset whence => some (fildes, -1, .seek offset whence)
  | .isatty fildes => some (fildes, ebadf, .isatty)
  | .fcntl fildes cmd ap => some (fildes, ebadf, .fcntl cmd ap)
  | _ => none

/-- The operations on a DIR. -/
def throughDir : Process.Op → Option (Nat × Function)
  | .rewinddir dirp => some (dirp, .rewinddir dirp)
  | .readdir dirp => some (dirp, .readdir dirp)
  | .closedir dirp => some (dirp, .closedir dirp)
  | _ => none

/-- Whether a `Close` succeeds. -/
def Description.closes (main : Bool) : Description → Prop
  | .device port => port.close = 0
  | .file _ _ _ => main = false

/-- One operation, on the main thread or on a worker: what it returns and the machine after it. -/
inductive Step (main : Bool) (m : Machine) : Process.Op → Returned → Machine → Prop
  | openNull {oflag cmode : BitVec 32} : Step main m (.open_ none oflag cmode) { result := efault } m
  | mkdirNull {mode : BitVec 32} : Step main m (.mkdir none mode) { result := -1 } m
  | opendirNull : Step main m (.opendir none) { result := 0 } m
  | badDescriptor {op : Process.Op} {fildes bad : Int} {f : Function}
      (ho : throughDescriptor op = some (fildes, bad, f)) (hx : m.descriptor fildes = none) :
      Step main m op { result := bad } m
  /-- A read that answers -2 goes on to wait, or is tried again. -/
  | descriptor {op : Process.Op} {fildes bad result : Int} {f : Function} {x x' : Description} {m' : Machine}
      (ho : throughDescriptor op = some (fildes, bad, f)) (hx : m.descriptor fildes = some x)
      (ha : Acts main m x f result x' m') (hw : ∀ buf nbytes, f = .read buf nbytes → result ≠ -2) :
      Step main m op { result := result } (m'.setDescriptor fildes (some x'))
  /-- It is tried again where a message came before. -/
  | readAgain {fildes result : Int} {buf nbytes : Nat} {x x' : Description} {m₁ m' : Machine}
      (hx : m.descriptor fildes = some x) (hw : Acts main m x (.read buf nbytes) (-2) x m₁)
      (ha : Acts main m₁ x (.read buf nbytes) result x' m') (hr : result ≠ -2) :
      Step main m (.read fildes buf nbytes) { result := result } (m'.setDescriptor fildes (some x'))
  | close {fildes : Int} {x : Description} (hx : m.descriptor fildes = some x) (hc : x.closes main) :
      Step main m (.close fildes) { result := 0 } (m.setDescriptor fildes none)
  | openDevice {path : Str} {oflag cmode : BitVec 32} {port : PortFileSystem} (hd : m.onDevice path = true)
      (h : PortFileSystem.open_ {} (m.fullpath path) oflag = (port, 0)) :
      Step main m (.open_ (some path) oflag cmode) { result := 0, newfd := some m.newfd }
        (m.bind (.device port))
  | openNoDevice {path : Str} {oflag cmode : BitVec 32} {port : PortFileSystem} {result : Int}
      (hd : m.onDevice path = true)
      (h : PortFileSystem.open_ {} (m.fullpath path) oflag = (port, result)) (hr : result ≠ 0) :
      Step main m (.open_ (some path) oflag cmode) { result := result } m
  | openFile {path content : Str} {oflag cmode : BitVec 32} {info : FileInfo} (hm : main = false)
      (hd : m.onDevice path = false) (ho : Opens (openFlags oflag) (m.files (m.fullpath path)) content)
      (hi : info.Describes content) :
      Step main m (.open_ (some path) oflag cmode) { result := 0, newfd := some m.newfd }
        ((m.setFile (m.fullpath path) content).bind
          (.file ⟨m.fullpath path, openFlags oflag⟩ (if oflag &&& oAppend ≠ 0 then info.size else 0) info))
  | openFails {path : Str} {oflag cmode : BitVec 32} {result : Int} (hd : m.onDevice path = false)
      (hr : 0 < result) : Step main m (.open_ (some path) oflag cmode) { result := result } m
  /-- The file was opened, and could not be looked at then. -/
  | openLate {path content : Str} {oflag cmode : BitVec 32} {result : Int} (hm : main = false)
      (hd : m.onDevice path = false) (ho : Opens (openFlags oflag) (m.files (m.fullpath path)) content)
      (hr : 0 < result) :
      Step main m (.open_ (some path) oflag cmode) { result := result } (m.setFile (m.fullpath path) content)
  | stat {path : Str} {buf : Nat} {result : Int} {m' : Machine}
      (hl : Looks main m (m.fullpath path) buf result m') :
      Step main m (.stat (some path) buf) { result := result } m'
  | chdirFails {path : Str} {buf : Nat} {result : Int} {m' : Machine}
      (hl : Looks main m (m.fullpath path) buf result m') (hr : result ≠ 0) :
      Step main m (.chdir (some path) buf) { result := result } m'
  | chdirNotDir {path : Str} {buf : Nat} {m' : Machine} (hl : Looks main m (m.fullpath path) buf 0 m')
      (hs : sIsDir (m'.stats buf).mode = false) :
      Step main m (.chdir (some path) buf) { result := -1 } m'
  | chdir {path : Str} {buf : Nat} {m' : Machine} (hl : Looks main m (m.fullpath path) buf 0 m')
      (hs : sIsDir (m'.stats buf).mode = true) :
      Step main m (.chdir (some path) buf) { result := 0 } { m' with cwd := (m.fullpath path).drop 1 }
  /-- A directory is no file. -/
  | mkdir {path : Str} {mode : BitVec 32} (result : Int) (hd : m.onDevice path = true → result = -1) :
      Step main m (.mkdir (some path) mode) { result := result } m
  | opendirFails {path : Str} (h : m.onDevice path = true ∨ main = true) :
      Step main m (.opendir (some path)) { result := 0 } m
  | opendir {path : Str} (hm : main = false) (hd : m.onDevice path = false) :
      Step main m (.opendir (some path)) { result := 0, dirp := some m.dirs.length }
        { m with dirs := m.dirs ++ [some { path := m.fullpath path }] }
  | dirMain {op : Process.Op} {dirp : Nat} {f : Function} {x : Cursor} (hm : main = true)
      (ho : throughDir op = some (dirp, f)) (hx : m.dirs[dirp]?.join = some x) :
      Step main m op { result := (onMainThread f).toInt } m
  | rewinddir {dirp : Nat} {x : Cursor} (hm : main = false) (hx : m.dirs[dirp]?.join = some x) :
      Step main m (.rewinddir dirp) { result := 0 } (m.setDir dirp (some { x with next := 0 }))
  | readdir {dirp : Nat} {x x' : Cursor} {name : Option Str} (hm : main = false)
      (hx : m.dirs[dirp]?.join = some x) (hr : x.ReadsNext name x') :
      Step main m (.readdir dirp) { result := 0, dirent := name } (m.setDir dirp (some x'))
  | closedir {dirp : Nat} {x : Cursor} (hm : main = false) (hx : m.dirs[dirp]?.join = some x) :
      Step main m (.closedir dirp) { result := 0 } (m.setDir dirp none)

/-! ## Runs -/

/-- What happens to the machine. -/
inductive Label
  | op (main : Bool) (op : Process.Op)
  | message (message : Var)
  deriving DecidableEq, Repr

/-- An operation with what it returns, or a message, whose byte is pushed. -/
inductive Behaves (m : Machine) : Label → Option Returned → Machine → Prop
  | op {main : Bool} {op : Process.Op} {ret : Returned} {m' : Machine} (h : Step main m op ret m') :
      Behaves m (.op main op) (some ret) m'
  | message (message : Var) : Behaves m (.message message) none
      { m with input := (PortFileSystem.handleMessage m.input message).2 }

/-- Nothing is open, and the current directory is the root. -/
def Machine.init (files : Str → Option Str) (stats : Nat → Stat) (buffers : Nat → Str) : Machine :=
  ⟨files, [], [], [], [], [], buffers, stats⟩

end Unix

end NaClFs
