/-
`PortFileSystem`: the delegate of /dev/stdin, /dev/stdout and /dev/stderr. All of its methods
override those of `Delegate`, so none of them makes a call to the main thread. The static `buffer_`
holds what the page sent and nobody read yet; it is passed and returned. Log messages are left out.
-/
import NaClFs.Base.Types

namespace NaClFs

/-! ## State -/

structure PortFileSystem where
  readable : Bool := false
  writable : Bool := false
  blocking : Bool := true
  oflag : BitVec 32 := 0
  id : Int := -1
  deriving DecidableEq, Repr

/-- `pp::Var`, as far as its type is asked. -/
inductive Var
  | string (s : Str)
  | other
  deriving DecidableEq, Repr

namespace PortFileSystem

def kStdInPath : Str := str "/dev/stdin"
def kStdOutPath : Str := str "/dev/stdout"
def kStdErrPath : Str := str "/dev/stderr"

/-! ## Methods -/

/-- `Open`. -/
def open_ (this : PortFileSystem) (path : Str) (oflag : BitVec 32) : PortFileSystem × Int :=
  let this := { this with oflag := oflag }
  if path = kStdInPath then ({ this with id := 0, readable := true }, 0)
  else if path = kStdOutPath then ({ this with id := 1, writable := true }, 0)
  else if path = kStdErrPath then ({ this with id := 2, writable := true }, 0)
  else (this, enodev)

/-- What `Stat` and `Fstat` fill the buffer with. -/
def deviceStat : Stat := { Stat.zero with mode := sIfChr ||| sIRusrWusr }

/-- `Stat`: the result, and what it fills the buffer with. -/
def stat (path : Str) : Int × Option Stat :=
  if path ≠ kStdInPath ∧ path ≠ kStdOutPath ∧ path ≠ kStdErrPath then (enodev, none)
  else (0, some deviceStat)

/-- `Close`. -/
def close (this : PortFileSystem) : Int := if this.id < 0 then -1 else 0

/-- The loop of `Read`: bytes go from the front of `buffer_` to the caller's buffer. -/
def readLoop (nbytes : Nat) : Nat → Str → Str → Nat × Str × Str
  | readSize, buf, [] => (readSize, buf, [])
  | readSize, buf, c :: buffer =>
    if readSize < nbytes then readLoop nbytes (readSize + 1) (buf ++ [c]) buffer
    else (readSize, buf, c :: buffer)

/-- `Read`: the result, the bytes stored in the caller's buffer, and `buffer_` after it. The result
-2 asks the caller to wait. -/
def read (this : PortFileSystem) (buffer : Str) (nbytes : Nat) : Int × Str × Str :=
  if this.id < 0 ∨ ¬ this.readable then (-1, [], buffer)
  else
    let (readSize, buf, buffer) := readLoop nbytes 0 [] buffer
    if readSize = 0 then (if this.blocking then -2 else -1, buf, buffer)
    else (readSize, buf, buffer)

/-- `Write`: the result, and the message posted: 'S', the digits of the id, then the bytes. -/
def write (this : PortFileSystem) (buf : Str) : Int × Option Str :=
  if this.id < 0 ∨ ¬ this.writable then (-1, none)
  else (buf.length, some (str "S" ++ str (toString this.id) ++ buf))

/-- `Seek`, which only logs. -/
def seek : Int := 0

/-- `IsATty`. -/
def isATty : Int := 0

/-- `Fcntl` with the `long` of its `va_list`: the delegate, the result and the errno it sets. -/
def fcntl (this : PortFileSystem) (cmd : Int) (ap : BitVec 32) :
    PortFileSystem × Int × Option Int :=
  if cmd = fSetFl then ({ this with blocking := ap &&& oNonBlock == 0 }, 0, some 0)
  else if cmd = fGetFl then (this, this.oflag.toInt, none)
  else (this, -1, some enosys)

/-- `HandleMessage`: whether the message was taken, and `buffer_` after it. A string of less than three
bytes has no `s[2]` and what the source reads there is undefined; here it is NUL. -/
def handleMessage (buffer : Str) : Var → Bool × Str
  | .other => (false, buffer)
  | .string s =>
    if s.getD 0 0 ≠ 83 then (false, buffer)
    else (true, buffer ++ [s.getD 2 0])

/-- `buffer_` after one message and the other. -/
def handleMessages (buffer : Str) (messages : List Var) : Str :=
  messages.foldl (fun buffer message => (handleMessage buffer message).2) buffer

theorem handleMessages_append (buffer : Str) (messages messages' : List Var) :
    handleMessages buffer (messages ++ messages') = handleMessages (handleMessages buffer messages) messages' :=
  List.foldl_append

/-! ## Reading -/

theorem readLoop_eq (nbytes : Nat) : ∀ (buffer : Str) (readSize : Nat) (buf : Str),
    readSize ≤ nbytes → readLoop nbytes readSize buf buffer =
      (min nbytes (readSize + buffer.length), buf ++ buffer.take (nbytes - readSize),
        buffer.drop (nbytes - readSize))
  | [], readSize, buf, h => by simp [readLoop, h]
  | c :: buffer, readSize, buf, h => by
    rw [readLoop]
    split
    · rename_i hlt
      rw [readLoop_eq nbytes buffer (readSize + 1) _ hlt]
      obtain ⟨k, hk⟩ : ∃ k, nbytes - readSize = k + 1 := ⟨nbytes - readSize - 1, by omega⟩
      have hk' : nbytes - (readSize + 1) = k := by omega
      simp only [hk, hk', List.take_succ_cons, List.drop_succ_cons, List.append_assoc,
        List.singleton_append, List.length_cons, Prod.mk.injEq, and_true]
      omega
    · obtain rfl : readSize = nbytes := by omega
      simp

/-- `Read` takes as many bytes as there are, at most `nbytes`; it reports -2 or -1 when that is
none. -/
theorem read_eq (this : PortFileSystem) (buffer : Str) (nbytes : Nat) :
    this.read buffer nbytes =
      if this.id < 0 ∨ ¬ this.readable then ((-1 : Int), [], buffer)
      else if nbytes = 0 ∨ buffer = [] then (if this.blocking then -2 else -1, [], buffer)
      else (((min nbytes buffer.length : Nat) : Int), buffer.take nbytes, buffer.drop nbytes) := by
  unfold read
  split
  · rfl
  · rw [readLoop_eq nbytes buffer 0 [] (Nat.zero_le _)]
    simp only [Nat.zero_add, Nat.sub_zero, List.nil_append]
    by_cases h : nbytes = 0 ∨ buffer = []
    · rw [if_pos h]
      rcases h with rfl | rfl <;> simp
    · have hne : min nbytes buffer.length ≠ 0 := by
        rw [not_or] at h
        have := List.length_pos_iff.2 h.2
        omega
      rw [if_neg h, if_neg hne]

/-- `Read` asks its caller to wait in one case: a readable, blocking device that has no byte to
give, or is asked for none. -/
theorem read_waits (this : PortFileSystem) (buffer : Str) (nbytes : Nat) :
    (this.read buffer nbytes).1 = -2 ↔
      0 ≤ this.id ∧ this.readable ∧ this.blocking ∧ (nbytes = 0 ∨ buffer = []) := by
  rw [read_eq]
  split
  · rename_i h
    simp only [show ¬ (-1 : Int) = -2 by decide, false_iff, not_and]
    intro h0 hr
    rcases h with h | h
    · omega
    · exact absurd hr h
  · rename_i h
    rw [not_or, not_not] at h
    split
    · rename_i he
      cases this.blocking with
      | false => simp
      | true =>
        refine iff_of_true rfl ⟨?_, h.2, rfl, he⟩
        omega
    · rename_i he
      simp only [he, and_false, iff_false]
      omega

/-- A read that asks its caller to wait takes nothing. -/
theorem read_waits_buffer {this : PortFileSystem} {buffer : Str} {nbytes : Nat}
    (h : (this.read buffer nbytes).1 = -2) : (this.read buffer nbytes).2.2 = buffer := by
  obtain ⟨h0, hr, -, hn⟩ := (read_waits this buffer nbytes).1 h
  have hgood : ¬ (this.id < 0 ∨ ¬ this.readable) := by
    rintro (h | h)
    · omega
    · exact h hr
  rw [read_eq, if_neg hgood, if_pos hn]

end PortFileSystem

end NaClFs
