/-
The C and ppapi vocabulary of naclfs: byte strings, the errno values and ppapi codes it returns,
the open flags and mode bits it tests, and the two records a query and a stat fill.

An `int`, `ssize_t` or `off_t` is an `Int`; words that are only masked (`oflag`, `st_mode`) are
32-bit vectors. The errno and flag values are those of the NaCl glibc headers.
-/
import Mathlib.Logic.Function.Basic

namespace NaClFs

/-! ## Strings -/

/-- A byte string: a C string without its closing NUL, a `std::string` or the bytes of a buffer. -/
abbrev Str := List UInt8

/-- The bytes of an ASCII literal. -/
def str (s : String) : Str := s.toList.map Char.toUInt8

/-- The path separator. -/
def slash : UInt8 := 47

/-- The component that names its own directory. -/
def dot : Str := str "."

/-- The component that names the parent directory. -/
def dotdot : Str := str ".."

theorem slash_eq : str "/" = [slash] := by decide

theorem dot_ne_nil : dot ≠ [] := by decide

theorem dotdot_ne_nil : dotdot ≠ [] := by decide

theorem dotdot_ne_dot : dotdot ≠ dot := by decide

/-! ## errno -/

def enoent : Int := 2
def eio : Int := 5
def ebadf : Int := 9
def enomem : Int := 12
def eacces : Int := 13
def efault : Int := 14
def eexist : Int := 17
def enodev : Int := 19
def enotdir : Int := 20
def einval : Int := 22
def efbig : Int := 27
def enospc : Int := 28
def erange : Int := 34
def enosys : Int := 38

/-! ## ppapi codes -/

def ppOk : Int := 0
def ppOkCompletionPending : Int := -1
def ppErrorFailed : Int := -2
def ppErrorNoAccess : Int := -7
def ppErrorNoMemory : Int := -8
def ppErrorNoSpace : Int := -9
def ppErrorNoQuota : Int := -10
def ppErrorFileNotFound : Int := -20
def ppErrorFileExists : Int := -21
def ppErrorFileTooBig : Int := -22
def ppErrorNotAFile : Int := -24

/-! ## Flags and modes -/

def oAccMode : BitVec 32 := 0o3
def oRdOnly : BitVec 32 := 0o0
def oWrOnly : BitVec 32 := 0o1
def oRdWr : BitVec 32 := 0o2
def oCreat : BitVec 32 := 0o100
def oExcl : BitVec 32 := 0o200
def oTrunc : BitVec 32 := 0o1000
def oAppend : BitVec 32 := 0o2000
def oNonBlock : BitVec 32 := 0o4000

def ppFileOpenFlagRead : BitVec 32 := 1
def ppFileOpenFlagWrite : BitVec 32 := 2
def ppFileOpenFlagCreate : BitVec 32 := 4
def ppFileOpenFlagTruncate : BitVec 32 := 8
def ppFileOpenFlagExclusive : BitVec 32 := 16

def sIfMt : BitVec 32 := 0o170000
def sIfChr : BitVec 32 := 0o020000
def sIfDir : BitVec 32 := 0o040000
def sIfReg : BitVec 32 := 0o100000
def sIRwxU : BitVec 32 := 0o700
def sIRwxG : BitVec 32 := 0o070
def sIRwxO : BitVec 32 := 0o007
def sIRusrWusr : BitVec 32 := 0o600

/-- `S_ISDIR`. -/
def sIsDir (mode : BitVec 32) : Bool := mode &&& sIfMt == sIfDir

def seekSet : Int := 0
def seekCur : Int := 1
def seekEnd : Int := 2

def fGetFd : Int := 1
def fSetFd : Int := 2
def fGetFl : Int := 3
def fSetFl : Int := 4
def fdCloexec : Int := 1

/-- A `size_t` passed or returned as a 32-bit `int`. -/
def toInt (n : Nat) : Int := (BitVec.ofNat 32 n).toInt

/-! ## Records -/

/-- `PP_FileType`. -/
inductive FileType
  | regular
  | directory
  | other
  deriving DecidableEq, Repr

/-- `PP_FileInfo`. A `PP_Time` is kept as the whole seconds its conversion to `time_t` yields. -/
structure FileInfo where
  size : Int
  type : FileType
  creationTime : Int
  lastAccessTime : Int
  lastModifiedTime : Int
  deriving DecidableEq, Repr

/-- The fields of `struct stat` that naclfs sets to anything but the zero of its `memset`. The numbers are
unbounded: how wide the fields are is left out. -/
structure Stat where
  mode : BitVec 32
  size : Int
  atime : Int
  mtime : Int
  ctime : Int
  blksize : Int
  blocks : Int
  deriving DecidableEq, Repr

/-- `memset(buf, 0, sizeof(struct stat))`. -/
def Stat.zero : Stat := ⟨0, 0, 0, 0, 0, 0, 0⟩

end NaClFs
