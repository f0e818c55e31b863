/-
/dev/stdin as a stream: any number of descriptors are open on it and read from the one static
`buffer_`, which the messages of the page fill. Each `Read` and each `HandleMessage` is one step.
-/
import NaClFs.Lib.Stream
import NaClFs.Port.PortFileSystem

namespace NaClFs

/-! ## The device -/

/-- The delegates of the descriptors open on /dev/stdin, and what they share. A closed descriptor
leaves a hole. -/
structure StdIn where
  ports : List (Option PortFileSystem) := []
  /-- `PortFileSystem::buffer_`. -/
  buffer : Str := []
  deriving DecidableEq, Repr

namespace StdIn

inductive Action
  /-- A new delegate is opened on /dev/stdin. -/
  | open_ (oflag : BitVec 32)
  | close (port : Nat)
  | fcntl (port : Nat) (cmd : Int) (ap : BitVec 32)
  | read (port : Nat) (nbytes : Nat)
  | message (message : Var)
  deriving DecidableEq, Repr

/-- One `Read`: the size of the caller's buffer, the result, the bytes stored from the front of that
buffer on, and `buffer_` before and after it. -/
structure Reading where
  nbytes : Nat
  result : Int
  stored : Str
  before : Str
  after : Str
  deriving DecidableEq, Repr

/-- One call or one message; none for a call on a descriptor that is not open. -/
def step (s : StdIn) : Action → Option (StdIn × Option Reading)
  | .open_ oflag =>
    let port := (PortFileSystem.open_ {} PortFileSystem.kStdInPath oflag).1
    some ({ s with ports := s.ports ++ [some port] }, none)
  | .close port =>
    s.ports[port]?.join.map fun _ => ({ s with ports := s.ports.set port none }, none)
  | .fcntl port cmd ap =>
    s.ports[port]?.join.map fun this =>
      ({ s with ports := s.ports.set port (some (this.fcntl cmd ap).1) }, none)
  | .read port nbytes =>
    s.ports[port]?.join.map fun this =>
      let (result, stored, buffer) := this.read s.buffer nbytes
      ({ s with buffer := buffer },
        some { nbytes := nbytes, result := result, stored := stored, before := s.buffer,
               after := buffer })
  | .message message =>
    some ({ s with buffer := (PortFileSystem.handleMessage s.buffer message).2 }, none)

/-- The byte an accepted message pushes. -/
def pushed : Var → Str
  | .string s => if s.getD 0 0 = 83 then [s.getD 2 0] else []
  | .other => []

/-- What an action adds at the back of `buffer_`. -/
def Action.pushed : Action → Str
  | .message m => StdIn.pushed m
  | _ => []

/-- What a `Read` hands out. -/
def returned (o : Option Reading) : Str := (o.map Reading.stored).getD []

/-! ## One step -/

/-- An accepted message pushes one byte, any other message nothing. -/
theorem handleMessage_eq (buffer : Str) (message : Var) :
    PortFileSystem.handleMessage buffer message =
      ((PortFileSystem.handleMessage buffer message).1, buffer ++ pushed message) := by
  cases message with
  | other => simp [PortFileSystem.handleMessage, pushed]
  | string s =>
    by_cases h : s.getD 0 0 = 83
    · simp only [PortFileSystem.handleMessage, pushed, h, ne_eq, not_true_eq_false, if_false, if_true]
    · simp only [PortFileSystem.handleMessage, pushed, h, ne_eq, not_false_eq_true, if_true, if_false,
        List.append_nil]

/-- What one `Read` promises. -/
structure Reading.Ok (r : Reading) : Prop where
  /-- No byte is lost or invented. -/
  split : r.before = r.stored ++ r.after
  /-- It counts what it stored: at least one byte, at most the buffer's size. -/
  counts : 0 ≤ r.result → 1 ≤ r.result ∧ r.result ≤ r.nbytes ∧ (r.stored.length : Int) = r.result
  /-- Otherwise nothing is consumed. -/
  keeps : r.result < 0 → r.stored = [] ∧ r.after = r.before

/-- `Read` keeps the promise on every delegate, whatever the buffers hold. -/
theorem read_ok (this : PortFileSystem) (buffer : Str) (nbytes : Nat) :
    Reading.Ok {
      nbytes := nbytes
      result := (this.read buffer nbytes).1
      stored := (this.read buffer nbytes).2.1
      before := buffer
      after := (this.read buffer nbytes).2.2 } := by
  rw [PortFileSystem.read_eq]
  split
  · constructor <;> simp
  · split
    · constructor
      · simp
      · -- Both -1 and -2 are negative.
        intro h
        dsimp only at h
        split at h <;> exact absurd h (by decide)
      · simp
    · rename_i h
      rw [not_or] at h
      have hpos : 0 < buffer.length := List.length_pos_iff.2 h.2
      have hn : 0 < nbytes := Nat.pos_of_ne_zero h.1
      constructor
      · exact (List.take_append_drop nbytes buffer).symm
      · intro _
        dsimp only
        rw [List.length_take]
        omega
      · intro hlt
        dsimp only at hlt
        omega

/-- One step moves bytes from the front of `buffer_` to the reader, and from the message to its back. -/
theorem step_balance {s s' : StdIn} {a : Action} {o : Option Reading}
    (h : s.step a = some (s', o)) : returned o ++ s'.buffer = s.buffer ++ a.pushed := by
  cases a with
  | open_ oflag =>
    cases h
    simp [returned, Action.pushed]
  | close port =>
    obtain ⟨this, -, he⟩ := Option.map_eq_some_iff.1 h
    cases he
    simp [returned, Action.pushed]
  | fcntl port cmd ap =>
    obtain ⟨this, -, he⟩ := Option.map_eq_some_iff.1 h
    cases he
    simp [returned, Action.pushed]
  | read port nbytes =>
    obtain ⟨this, -, he⟩ := Option.map_eq_some_iff.1 h
    cases he
    have := (read_ok this s.buffer nbytes).split
    dsimp only at this
    simp only [returned, Option.map_some, Option.getD_some, Action.pushed, List.append_nil]
    exact this.symm
  | message message =>
    cases h
    rw [handleMessage_eq]
    simp [returned, Action.pushed]

theorem step_reading {s s' : StdIn} {a : Action} {r : Reading}
    (h : s.step a = some (s', some r)) : r.Ok := by
  cases a with
  | open_ oflag => cases h
  | close port =>
    obtain ⟨this, -, he⟩ := Option.map_eq_some_iff.1 h
    cases he
  | fcntl port cmd ap =>
    obtain ⟨this, -, he⟩ := Option.map_eq_some_iff.1 h
    cases he
  | read port nbytes =>
    obtain ⟨this, -, he⟩ := Option.map_eq_some_iff.1 h
    cases he
    exact read_ok this s.buffer nbytes
  | message message => cases h

/-! ## Whole runs -/

/-- A lossless FIFO: what all Reads returned, in the order of the calls, followed by `buffer_` is what
the messages pushed, and every `Read` keeps its promise. -/
theorem run_fifo (as : List Action) (s : StdIn) (os : List (Option Reading))
    (h : Stream.run step {} as = some (s, os)) :
    os.flatMap returned ++ s.buffer = as.flatMap Action.pushed ∧
    ∀ r, some r ∈ os →
      (0 ≤ r.result → 1 ≤ r.result ∧ r.result ≤ r.nbytes ∧ (r.stored.length : Int) = r.result) ∧
      (r.result < 0 → r.stored = [] ∧ r.after = r.before) := by
  constructor
  · have := Stream.run_balance StdIn.buffer Action.pushed returned (fun _ _ _ _ => step_balance) h
    simpa using this
  · intro r hr
    have := Stream.run_outputs (I := fun _ => True) (P := fun o => ∀ r, o = some r → r.Ok)
      (fun _ _ _ _ _ hs => ⟨trivial, fun _ ho => step_reading (ho ▸ hs)⟩) trivial h _ hr r rfl
    exact ⟨this.counts, this.keeps⟩

/-- Two readers with buffers of two bytes and of one share three keys. -/
theorem run_fifo_two_readers :
    ∃ s os, Stream.run step {} [.open_ oRdOnly, .open_ oRdOnly, .message (.string (str "S0a")),
        .message (.string (str "S0b")), .message (.string (str "S0c")), .read 1 2, .read 0 1,
        .read 1 2] = some (s, os) ∧
      os.flatMap returned ++ s.buffer = str "abc" := by
  refine ⟨_, _, rfl, ?_⟩
  have h := (run_fifo [.open_ oRdOnly, .open_ oRdOnly, .message (.string (str "S0a")),
    .message (.string (str "S0b")), .message (.string (str "S0c")), .read 1 2, .read 0 1,
    .read 1 2] _ _ rfl).1
  rw [h]
  decide

end StdIn

end NaClFs
