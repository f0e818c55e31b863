/-
Readers of /dev/stdin and the messages of the page. `FileSystem::mutex_` is locked by the constructor
and used as a token: a message pushes a byte and unlocks it, and a reader that found no byte locks it
before it reads again. Tokens of several messages merge.
-/
import NaClFs.Lib.Run
import NaClFs.Port.PortFileSystem

namespace NaClFs

/-! ## The machine -/

/-- Where a thread is in `FileSystem::Read` of a stdin descriptor: not in it, before
`delegate->Read`, or before or in `pthread_mutex_lock`. -/
inductive Reader
  | out
  | reading (this : PortFileSystem) (nbytes : Nat)
  | locking (this : PortFileSystem) (nbytes : Nat)
  deriving DecidableEq, Repr

/-- The thread waits for the mutex. -/
def Reader.Waits : Reader → Prop
  | .locking _ _ => True
  | _ => False

/-- The thread is about to read. -/
def Reader.Awake : Reader → Prop
  | .reading _ _ => True
  | _ => False

/-- The descriptor of a thread in `Read` is readable and blocking, and it asks for a byte at least. -/
def Reader.Ok : Reader → Prop
  | .out => True
  | .reading this nbytes | .locking this nbytes =>
    0 ≤ this.id ∧ this.readable = true ∧ this.blocking = true ∧ 1 ≤ nbytes

structure Stdin where
  /-- `FileSystem::mutex_`. -/
  locked : Bool := true
  /-- `PortFileSystem::buffer_`. -/
  buffer : Str := []
  readers : Nat → Reader := fun _ => .out
  /-- The main thread is in `FileSystem::HandleMessage`, after the push and before the unlock. -/
  handling : Bool := false

namespace Stdin

/-- The constructor's state. -/
def init : Stdin := {}

def setReader (s : Stdin) (t : Nat) (r : Reader) : Stdin :=
  { s with readers := Function.update s.readers t r }

/-- A thread calls `FileSystem::Read`, reads from the delegate, or gets the mutex; the main thread
pushes a message, or unlocks. -/
inductive Act
  | call (t : Nat) (this : PortFileSystem) (nbytes : Nat)
  | read (t : Nat)
  | lock (t : Nat)
  | push (message : Var)
  | unlock

/-- One step; none where the action is not enabled. Threads read at least one byte, from readable
descriptors in blocking mode. -/
def step (s : Stdin) : Act → Option Stdin
  | .call t this nbytes =>
    if s.readers t = .out ∧ 0 ≤ this.id ∧ this.readable ∧ this.blocking ∧ 1 ≤ nbytes then
      some (s.setReader t (.reading this nbytes))
    else none
  | .read t =>
    match s.readers t with
    | .reading this nbytes =>
      let (result, _, buffer) := this.read s.buffer nbytes
      let s := { s with buffer := buffer }
      if result ≠ -2 then some (s.setReader t .out) else some (s.setReader t (.locking this nbytes))
    | _ => none
  | .lock t =>
    match s.readers t with
    | .locking this nbytes =>
      if s.locked then none
      else some ({ s with locked := true }.setReader t (.reading this nbytes))
    | _ => none
  | .push message =>
    if s.handling then none
    else
      let (taken, buffer) := PortFileSystem.handleMessage s.buffer message
      some { s with buffer := buffer, handling := taken }
  | .unlock => if s.handling then some { s with locked := false, handling := false } else none

/-! ## Steps -/

def Inv (s : Stdin) : Prop := ∀ t, (s.readers t).Ok

/-- What a step does. -/
inductive Step (s : Stdin) : Act → Stdin → Prop
  | call (t : Nat) (this : PortFileSystem) (nbytes : Nat) (h : s.readers t = .out)
      (hok : (Reader.reading this nbytes).Ok) :
      Step s (.call t this nbytes) (s.setReader t (.reading this nbytes))
  | found (t : Nat) (this : PortFileSystem) (nbytes : Nat) (h : s.readers t = .reading this nbytes)
      (hb : s.buffer ≠ []) :
      Step s (.read t) ({ s with buffer := s.buffer.drop nbytes }.setReader t .out)
  | empty (t : Nat) (this : PortFileSystem) (nbytes : Nat) (h : s.readers t = .reading this nbytes)
      (hb : s.buffer = []) : Step s (.read t) (s.setReader t (.locking this nbytes))
  | lock (t : Nat) (this : PortFileSystem) (nbytes : Nat) (h : s.readers t = .locking this nbytes)
      (hl : s.locked = false) :
      Step s (.lock t) ({ s with locked := true }.setReader t (.reading this nbytes))
  | push (message : Var) (buffer : Str) (h : s.handling = false) :
      Step s (.push message) { s with buffer := buffer, handling := true }
  | ignore (message : Var) : Step s (.push message) s
  | unlock : Step s .unlock { s with locked := false, handling := false }

theorem read_of_ok {this : PortFileSystem} {nbytes : Nat} (h : (Reader.reading this nbytes).Ok)
    (buffer : Str) : this.read buffer nbytes = if buffer = [] then (-2, [], buffer)
      else (((min nbytes buffer.length : Nat) : Int), buffer.take nbytes, buffer.drop nbytes) := by
  obtain ⟨h0, hr, hb, hn⟩ := h
  rw [PortFileSystem.read_eq, if_neg (by simp only [hr, not_true_eq_false, or_false]; omega), hb]
  simp only [show ¬ nbytes = 0 by omega, false_or, if_true]

theorem step_spec {s s' : Stdin} {a : Act} (hi : Inv s) (h : s.step a = some s') : Step s a s' := by
  cases a with
  | call t this nbytes =>
    simp only [step, Option.ite_none_right_eq_some, Option.some.injEq] at h
    obtain ⟨⟨hout, hok⟩, rfl⟩ := h
    exact .call t this nbytes hout hok
  | read t =>
    cases hr : s.readers t with
    | reading this nbytes =>
      have hok := hi t
      rw [hr] at hok
      simp only [step, hr, read_of_ok hok] at h
      by_cases hb : s.buffer = []
      · simp only [hb, if_true, ne_eq, not_true_eq_false, if_false, Option.some.injEq] at h
        subst h
        rw [← hb]
        exact .empty t this nbytes hr hb
      · have hne : ((min nbytes s.buffer.length : Nat) : Int) ≠ -2 := by omega
        simp only [if_neg hb, if_pos hne, Option.some.injEq] at h
        subst h
        exact .found t this nbytes hr hb
    | out => simp [step, hr] at h
    | locking this nbytes => simp [step, hr] at h
  | lock t =>
    cases hr : s.readers t with
    | locking this nbytes =>
      simp only [step, hr, Option.ite_none_left_eq_some, Option.some.injEq] at h
      obtain ⟨hl, rfl⟩ := h
      exact .lock t this nbytes hr (by simpa using hl)
    | out => simp [step, hr] at h
    | reading this nbytes => simp [step, hr] at h
  | push message =>
    simp only [step, Option.ite_none_left_eq_some, Option.some.injEq] at h
    obtain ⟨hh, rfl⟩ := h
    have hh' : s.handling = false := by simpa using hh
    cases message with
    | other =>
      simp only [PortFileSystem.handleMessage, ← hh']
      exact .ignore .other
    | string m =>
      simp only [PortFileSystem.handleMessage]
      split
      · rw [← hh']
        exact .ignore (.string m)
      · exact .push (.string m) _ hh'
  | unlock =>
    simp only [step, Option.ite_none_right_eq_some, Option.some.injEq] at h
    obtain ⟨-, rfl⟩ := h
    exact .unlock

theorem setReader_self (s : Stdin) (t : Nat) (r : Reader) : (s.setReader t r).readers t = r :=
  Function.update_self ..

theorem setReader_of_ne (s : Stdin) {t u : Nat} (h : u ≠ t) (r : Reader) :
    (s.setReader t r).readers u = s.readers u := Function.update_of_ne h ..

theorem Inv.setReader {s : Stdin} (hi : Inv s) {t : Nat} {r : Reader} (h : r.Ok) :
    Inv (s.setReader t r) := by
  intro u
  by_cases hu : u = t
  · subst hu
    rw [setReader_self]
    exact h
  · rw [setReader_of_ne s hu]
    exact hi u

theorem step_inv {s s' : Stdin} {a : Act} (hi : Inv s) (hs : s.step a = some s') : Inv s' := by
  cases step_spec hi hs with
  | call t this nbytes h hok => exact hi.setReader hok
  | found t this nbytes h hb => exact Inv.setReader (fun u => hi u) trivial
  | empty t this nbytes h hb =>
    have hok := hi t
    rw [h] at hok
    exact hi.setReader hok
  | lock t this nbytes h hl =>
    have hok := hi t
    rw [h] at hok
    exact Inv.setReader (fun u => hi u) hok
  | _ => exact fun u => hi u

/-! ## Lost wake-ups -/

/-- A reader waits for the mutex, which is locked, while there are bytes to read and the main thread
is not about to unlock it. -/
structure Blocked (s : Stdin) : Prop where
  waits : ∃ t, (s.readers t).Waits
  locked : s.locked = true
  bytes : s.buffer ≠ []
  idle : s.handling = false

/-- The same, and no other reader is on its way to the bytes: only a further message helps. -/
structure Stranded (s : Stdin) : Prop extends Blocked s where
  asleep : ∀ t, ¬ (s.readers t).Awake

/-- No thread gets the mutex away from another that waits for it, while there are bytes and the main
thread is not about to unlock it. -/
def LockOk (s : Stdin) : Act → Prop
  | .lock t => s.buffer = [] ∨ s.handling = true ∨ ∀ u, u ≠ t → ¬ (s.readers u).Waits
  | _ => True

/-- No read leaves bytes behind while another reader waits, none is about to read, and nobody is going
to unlock the mutex. -/
def ReadOk (s : Stdin) : Act → Prop
  | .read t => ∀ this nbytes, s.readers t = .reading this nbytes →
      s.buffer.length ≤ nbytes ∨ s.locked = false ∨ s.handling = true ∨
        (∀ u, ¬ (s.readers u).Waits) ∨ ∃ u, u ≠ t ∧ (s.readers u).Awake
  | _ => True

theorem waits_setReader {s : Stdin} {t : Nat} {r : Reader} :
    (∃ u, ((s.setReader t r).readers u).Waits) ↔ r.Waits ∨ ∃ u, u ≠ t ∧ (s.readers u).Waits := by
  constructor
  · rintro ⟨u, hu⟩
    by_cases h : u = t
    · subst h
      rw [setReader_self] at hu
      exact .inl hu
    · rw [setReader_of_ne s h] at hu
      exact .inr ⟨u, h, hu⟩
  · rintro (h | ⟨u, h, hu⟩)
    · exact ⟨t, by rw [setReader_self]; exact h⟩
    · exact ⟨u, by rw [setReader_of_ne s h]; exact hu⟩

theorem not_awake_setReader {s : Stdin} {t : Nat} {r : Reader} :
    (∀ u, ¬ ((s.setReader t r).readers u).Awake) ↔
      ¬ r.Awake ∧ ∀ u, u ≠ t → ¬ (s.readers u).Awake := by
  constructor
  · intro h
    constructor
    · have := h t
      rwa [setReader_self] at this
    · intro u hu
      have := h u
      rwa [setReader_of_ne s hu] at this
  · rintro ⟨hr, h⟩ u
    by_cases hu : u = t
    · subst hu
      rw [setReader_self]
      exact hr
    · rw [setReader_of_ne s hu]
      exact h u hu

/-- A reader is blocked by nothing but a lock of another. -/
theorem step_blocked {s s' : Stdin} {a : Act} (hi : Inv s) (hp : ¬ Blocked s)
    (hs : s.step a = some s') : ¬ Blocked s' ↔ LockOk s a := by
  cases step_spec hi hs with
  | call t this nbytes h hok =>
    refine iff_of_true (fun hb => hp ?_) trivial
    obtain h' | ⟨u, -, hu⟩ := waits_setReader.1 hb.waits
    · exact h'.elim
    · exact ⟨⟨u, hu⟩, hb.locked, hb.bytes, hb.idle⟩
  | found t this nbytes h hne =>
    refine iff_of_true (fun hb => hp ?_) trivial
    obtain h' | ⟨u, -, hu⟩ := waits_setReader.1 hb.waits
    · exact h'.elim
    · exact ⟨⟨u, hu⟩, hb.locked, hne, hb.idle⟩
  | empty t this nbytes h he => exact iff_of_true (fun hb => hb.bytes he) trivial
  | lock t this nbytes h hl =>
    -- The lock is taken: whoever else waits is blocked unless an unlock is on its way.
    constructor
    · intro hb
      by_contra hok
      simp only [LockOk, not_or, not_forall, not_not] at hok
      obtain ⟨hne, hidle, u, hu, hw⟩ := hok
      have hidle' : s.handling = false := by simpa using hidle
      exact hb ⟨waits_setReader.2 (.inr ⟨u, hu, hw⟩), rfl, hne, hidle'⟩
    · rintro hok hb
      obtain h' | ⟨u, hu, hw⟩ := waits_setReader.1 hb.waits
      · exact h'
      · rcases hok with hok | hok | hok
        · exact hb.bytes hok
        · exact absurd (hok.symm.trans hb.idle) (by decide)
        · exact hok u hu hw
  | push message buffer hh => exact iff_of_true (fun hb => by simpa using hb.idle) trivial
  | ignore message => exact iff_of_true hp trivial
  | unlock => exact iff_of_true (fun hb => by simpa using hb.locked) trivial

/-- A reader is stranded by nothing but a read of another that leaves bytes behind. -/
theorem step_stranded {s s' : Stdin} {a : Act} (hi : Inv s) (hp : ¬ Stranded s)
    (hs : s.step a = some s') : ¬ Stranded s' ↔ ReadOk s a := by
  cases step_spec hi hs with
  | call t this nbytes h hok =>
    refine iff_of_true (fun hb => ?_) trivial
    exact (not_awake_setReader.1 hb.asleep).1 trivial
  | found t this nbytes h hne =>
    -- The reader leaves without an unlock: what it leaves behind is for those still awake.
    have hlen : s.buffer.drop nbytes = [] ↔ s.buffer.length ≤ nbytes := List.drop_eq_nil_iff
    constructor
    · intro hb this' n' hr
      rw [h] at hr
      cases hr
      by_contra hok
      simp only [not_or, not_exists, not_forall, not_not, not_and] at hok
      obtain ⟨hle, hlk, hidle, ⟨u, hw⟩, ha⟩ := hok
      have hu : u ≠ t := by rintro rfl; rw [h] at hw; exact hw
      have hlk' : s.locked = true := by simpa using hlk
      have hidle' : s.handling = false := by simpa using hidle
      exact hb ⟨⟨waits_setReader.2 (.inr ⟨u, hu, hw⟩), hlk', fun he => hle (hlen.1 he), hidle'⟩,
        not_awake_setReader.2 ⟨id, ha⟩⟩
    · intro hok hb
      obtain h' | ⟨u, hu, hw⟩ := waits_setReader.1 hb.waits
      · exact h'
      · rcases hok this nbytes h with hle | hlk | hidle | hno | ⟨v, hv, ha⟩
        · exact hb.bytes (hlen.2 hle)
        · exact absurd (hb.locked.symm.trans hlk) (by decide)
        · exact absurd (hb.idle.symm.trans hidle) (by decide)
        · exact hno u hw
        · exact (not_awake_setReader.1 hb.asleep).2 v hv ha
  | empty t this nbytes h he =>
    refine iff_of_true (fun hb => hb.bytes he) fun this' n' hr => .inl ?_
    rw [he]; exact Nat.zero_le _
  | lock t this nbytes h hl =>
    refine iff_of_true (fun hb => ?_) trivial
    exact (not_awake_setReader.1 hb.asleep).1 trivial
  | push message buffer hh => exact iff_of_true (fun hb => by simpa using hb.idle) trivial
  | ignore message => exact iff_of_true hp trivial
  | unlock => exact iff_of_true (fun hb => by simpa using hb.locked) trivial

/-! ## Runs -/

theorem init_inv : Inv init := fun _ => trivial

theorem init_not_blocked : ¬ Blocked init := fun h => h.bytes rfl

/-- Along every run of readers and messages, no reader is blocked beside bytes exactly when every lock
is taken with no byte there, or just before an unlock, or with no other reader waiting; and none is
stranded exactly when no read leaves bytes to readers that all wait for the mutex. -/
theorem run_blocked_iff (acts : List Act) (s : Stdin) (hr : Run.run step init acts = some s) :
    (Run.Along step (fun s => ¬ Blocked s) init acts ↔ Run.Guarded step LockOk init acts) ∧
    (Run.Along step (fun s => ¬ Stranded s) init acts ↔ Run.Guarded step ReadOk init acts) :=
  ⟨Run.along_iff_guarded (fun _ _ _ => step_inv) (fun _ _ _ => step_blocked) init_inv
      init_not_blocked hr,
    Run.along_iff_guarded (fun _ _ _ => step_inv) (fun _ _ _ => step_stranded) init_inv
      (fun h => init_not_blocked h.toBlocked) hr⟩

/-- A descriptor opened on /dev/stdin. -/
def stdin : PortFileSystem := (({} : PortFileSystem).open_ PortFileSystem.kStdInPath oRdOnly).1

/-- Two readers of one byte each wait, two bytes arrive, one reader takes one and returns. -/
def mergedTokens : List Act :=
  [.call 1 stdin 1, .read 1, .call 2 stdin 1, .read 2, .push (.string (str "S0a")), .unlock,
    .push (.string (str "S0b")), .unlock, .lock 1, .read 1]

theorem run_blocked_iff_merged :
    ∃ s, Run.run step init mergedTokens = some s ∧
      (Run.Along step (fun s => ¬ Blocked s) init mergedTokens ↔
        Run.Guarded step LockOk init mergedTokens) :=
  ⟨_, rfl, (run_blocked_iff mergedTokens _ rfl).1⟩

/-- The second reader is stranded beside the second byte. -/
theorem merged_tokens_strand :
    ∃ s, Run.run step init mergedTokens = some s ∧ Stranded s ∧
      s.readers 2 = .locking stdin 1 ∧ s.buffer = str "b" ∧ s.locked = true ∧ s.handling = false := by
  refine ⟨_, rfl, ⟨⟨⟨2, trivial⟩, rfl, by decide, rfl⟩, fun t => ?_⟩, rfl, rfl, rfl, rfl⟩
  match t with
  | 0 | 1 | 2 => exact id
  | n + 3 => exact id

end Stdin

end NaClFs
