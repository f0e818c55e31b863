/-
The process and the page around it: operations on the main thread and on workers, the messages the page
sends, and what is posted to it. What is called is served to its end, one operation after the other: a
read that waits for a message is in no run. Log messages are left out.
-/
import NaClFs.FileSystem.Performed
import NaClFs.Lib.Stream

namespace NaClFs

/-- `Html5FileSystem::HandleMessage`. -/
def Html5FileSystem.handleMessage (_ : Var) : Bool := false

namespace Process

variable {β : Type}

/-- `FileSystem::HandleMessage`: whether the message was taken. One that `PortFileSystem` takes unlocks
`mutex_`. -/
def handleMessage (s : Process β) (message : Var) : Bool × Process β :=
  let (result, buffer) := PortFileSystem.handleMessage s.buffer message
  (if result then result else Html5FileSystem.handleMessage message,
    { s with buffer := buffer, locked := if result then false else s.locked })

/-- `HandleMessage` of one message after the other. -/
def receive (s : Process β) (messages : List Var) : Process β :=
  messages.foldl (fun s message => (s.handleMessage message).2) s

/-- `FileSystem::Read` while messages come: those of the first list between its first turn and the lock,
those of the next one between the second turn and the lock, and none after the last list. -/
def readAmong (B : Backend β) (main : Bool) (call : Nat) (fildes : Int) (buf nbytes : Nat) :
    List (List Var) → Process β → Ends β
  | [], s => s.read B main call fildes buf nbytes
  | messages :: rest, s =>
    match FileSystem.readTurn B main call s fildes buf nbytes with
    | .returns result s => .returns { result := result } s
    | .waits => .waits
    | .locks s =>
      let s := s.receive messages
      if s.locked then .waits else readAmong B main call fildes buf nbytes rest { s with locked := true }

/-- What a method of the delegate posts. -/
def posted (s : Process β) (d : Nat) : Function → List Str
  | .write buf =>
    match s.table.kind d with
    | .port => ((s.ports d).write buf).2.toList
    | .html5 => []
  | _ => []

/-- What an operation posts. -/
def posts (s : Process β) : Op → List Str
  | .write fildes buf => ((s.table.getDelegate fildes).map (s.posted · (.write buf))).getD []
  | _ => []

/-! ## Reads while messages come -/

section Among

variable {B : Backend β} {main : Bool} {call : Nat} {s s' t : Process β} {fildes : Int} {d buf nbytes : Nat}
  {ret : Returned}

/-- A message reaches `buffer_` and `mutex_` only. -/
theorem receive_frame (s : Process β) (messages : List Var) : ∃ locked, s.receive messages =
    { s with buffer := PortFileSystem.handleMessages s.buffer messages, locked := locked } := by
  induction messages generalizing s with
  | nil => exact ⟨s.locked, rfl⟩
  | cons message messages ih =>
    obtain ⟨locked, h⟩ := ih (s.handleMessage message).2
    exact ⟨locked, h⟩

/-- The reader has the lock after the messages. -/
theorem receive_relocked (s : Process β) (messages : List Var) :
    { s.receive messages with locked := true } =
      ({ s with buffer := PortFileSystem.handleMessages s.buffer messages, locked := true } : Process β) := by
  obtain ⟨locked, h⟩ := receive_frame s messages
  rw [h]

theorem readAmong_of_method (hd : s.table.getDelegate fildes = some d) {value : Int}
    (hm : s.method B main call d (.read buf nbytes) = some (.int value, s')) (hv : value ≠ -2)
    (messages : List (List Var)) :
    readAmong B main call fildes buf nbytes messages s = .returns { result := value } s' := by
  cases messages with
  | nil => exact read_of_method hd hm hv
  | cons messages rest => rw [readAmong, readTurn_of_method hd hm, Turn.of, if_pos hv]

theorem readAmong_of_lock (hd : s.table.getDelegate fildes = some d)
    (hm : s.method B main call d (.read buf nbytes) = some (.int (-2), s')) (messages : List Var)
    (rest : List (List Var)) : readAmong B main call fildes buf nbytes (messages :: rest) s =
      if (s'.receive messages).locked then .waits
      else readAmong B main call fildes buf nbytes rest { s'.receive messages with locked := true } := by
  rw [readAmong, readTurn_of_method hd hm]
  rfl

theorem readAmong_none (hd : s.table.getDelegate fildes = none) (messages : List (List Var)) :
    readAmong B main call fildes buf nbytes messages s = .returns { result := -1 } s := by
  cases messages with
  | nil => exact read_none hd
  | cons messages rest => rw [readAmong, readTurn_none hd]

/-- A device gives what it has when it has something. -/
theorem readAmong_device (hd : s.table.getDelegate fildes = some d) (hk : s.table.kind d = .port)
    (messages : List (List Var)) (h : readAmong B main call fildes buf nbytes messages s = .returns ret t) :
    ∃ n, let buffer := PortFileSystem.handleMessages s.buffer (messages.take n).flatten
      ret.result = ((s.ports d).read buffer nbytes).1 ∧ ret.result ≠ -2 ∧
        t.buffer = ((s.ports d).read buffer nbytes).2.2 := by
  induction messages generalizing s with
  | nil =>
    refine ⟨0, ?_⟩
    rw [readAmong, read_device hd hk] at h
    split at h
    · cases h
    · rename_i hne
      cases h
      exact ⟨rfl, hne, rfl⟩
  | cons messages rest ih =>
    have hm : s.method B main call d (.read buf nbytes) =
        some (.int ((s.ports d).read s.buffer nbytes).1, (s.port d (.read buf nbytes)).2) :=
      method_port hk _
    by_cases h2 : ((s.ports d).read s.buffer nbytes).1 = -2
    · rw [h2] at hm
      rw [readAmong_of_lock hd hm] at h
      split at h
      · cases h
      -- Nothing was taken by the turn that ended in the lock.
      have hbuffer : ((s.ports d).read s.buffer nbytes).2.2 = s.buffer := PortFileSystem.read_waits_buffer h2
      rw [receive_relocked] at h
      obtain ⟨n, hret, hne, ht⟩ := ih (s := { (s.port d (.read buf nbytes)).2 with
        buffer := PortFileSystem.handleMessages ((s.ports d).read s.buffer nbytes).2.2 messages
        locked := true }) hd hk h
      rw [hbuffer, ← PortFileSystem.handleMessages_append] at hret ht
      exact ⟨n + 1, hret, hne, ht⟩
    · rw [readAmong_of_method hd hm h2] at h
      cases h
      exact ⟨0, rfl, h2, rfl⟩

/-- A worker's read of a file makes one request again as long as the code is -2, and returns the first code
that is not. -/
theorem readAmong_file (hq : Quiescent s.world) (hd : s.table.getDelegate fildes = some d)
    (hk : s.table.kind d = .html5) (messages : List (List Var))
    (h : readAmong B false call fildes buf nbytes messages s = .returns ret t) :
    let request := Line.readRequest s.world.store d buf nbytes
    let code n := Line.count (B (B.asked request n s.backend) request).1
    ∃ n, (∀ i < n, code i = -2) ∧ code n ≠ -2 ∧ ret = { result := code n } ∧
      t.world.store.requests = s.world.store.requests ++ List.replicate (n + 1) request := by
  intro request code
  induction messages generalizing s with
  | nil =>
    rw [readAmong] at h
    rcases read_file B call hq hd hk buf nbytes with ⟨h2, t', hr, hreq⟩ | ⟨-, -, hw⟩ | ⟨h2, -, h3, t', hr, hreq⟩
    · rw [hr] at h
      cases h
      exact ⟨0, by simp, h2, rfl, hreq⟩
    · rw [hw] at h
      cases h
    · rw [hr] at h
      cases h
      refine ⟨1, fun i hi => ?_, h3, rfl, hreq⟩
      obtain rfl : i = 0 := by omega
      exact h2
  | cons messages rest ih =>
    obtain ⟨s', hm, hturn⟩ := method_read_file B call hq hk buf nbytes
    by_cases h2 : code 0 = -2
    · have h2' : Line.count (B s.backend (Line.readRequest s.world.store d buf nbytes)).1 = -2 := h2
      rw [h2'] at hm
      rw [readAmong_of_lock hd hm] at h
      split at h
      · cases h
      rw [receive_relocked] at h
      have hrequest : Line.readRequest s'.world.store d buf nbytes = request :=
        hturn.request (by rw [h2']; decide)
      obtain ⟨n, hbefore, hn, hret, hreq⟩ := ih (s := { s' with
        buffer := PortFileSystem.handleMessages s'.buffer messages, locked := true }) hturn.quiet
        (by rw [hturn.table]; exact hd) (by rw [hturn.table]; exact hk) h
      simp only [hrequest, hturn.backend] at hbefore hn hret hreq
      refine ⟨n + 1, ?_, hn, hret, ?_⟩
      · rintro (_ | i) hi
        · exact h2
        · exact hbefore i (Nat.lt_of_succ_lt_succ hi)
      · rw [hreq, hturn.requests, List.append_assoc]
        rfl
    · rw [readAmong_of_method hd hm h2] at h
      cases h
      exact ⟨0, by simp, h2, rfl, hturn.requests⟩

/-- With a message before each lock that unlocks `mutex_`, it comes to that code. -/
theorem readAmong_answers (hq : Quiescent s.world) (hd : s.table.getDelegate fildes = some d)
    (hk : s.table.kind d = .html5) {message : Var}
    (hmessage : ∀ buffer, (PortFileSystem.handleMessage buffer message).1 = true) {n : Nat} :
    let request := Line.readRequest s.world.store d buf nbytes
    let code n := Line.count (B (B.asked request n s.backend) request).1
    (∀ i < n, code i = -2) → code n ≠ -2 →
      ∃ t, readAmong B false call fildes buf nbytes (List.replicate n [message]) s =
        .returns { result := code n } t := by
  intro request code hbefore hn
  induction n generalizing s with
  | zero =>
    obtain ⟨s', hm, -⟩ := method_read_file B call hq hk buf nbytes
    exact ⟨s', readAmong_of_method hd hm hn _⟩
  | succ n ih =>
    obtain ⟨s', hm, hturn⟩ := method_read_file B call hq hk buf nbytes
    have h2 : Line.count (B s.backend (Line.readRequest s.world.store d buf nbytes)).1 = -2 :=
      hbefore 0 (Nat.succ_pos n)
    rw [h2] at hm
    have hrequest : Line.readRequest s'.world.store d buf nbytes = request :=
      hturn.request (by rw [h2]; decide)
    have hunlocked : (s'.receive [message]).locked = false := by
      show (s'.handleMessage message).2.locked = _
      simp only [handleMessage, hmessage, if_true]
    rw [List.replicate_succ, readAmong_of_lock hd hm, hunlocked, receive_relocked, if_neg Bool.false_ne_true]
    -- The next turn makes the same request of the backend as the first one left it.
    have hnext := ih (s := { s' with
        buffer := PortFileSystem.handleMessages s'.buffer [message], locked := true }) hturn.quiet
      (by rw [hturn.table]; exact hd) (by rw [hturn.table]; exact hk)
    simp only [hrequest, hturn.backend] at hnext ⊢
    exact hnext (fun i hi => hbefore (i + 1) (Nat.succ_lt_succ hi)) hn

end Among

end Process

/-- The process, and what it posted so far. -/
structure System (β : Type) where
  process : Process β
  posted : List Str := []

namespace System

variable {β : Type}

/-- An operation, on the main thread or on a worker, with the number of its call; or a message. -/
inductive Act
  | op (main : Bool) (call : Nat) (op : Process.Op)
  | message (message : Var)
  deriving DecidableEq, Repr

/-- One act, with what an operation returns; none when it does not return. -/
def step (B : Backend β) (s : System β) : Act → Option (System β × Option Returned)
  | .op main call op =>
    match s.process.perform B main call op with
    | .returns ret process => some (⟨process, s.posted ++ s.process.posts op⟩, some ret)
    | _ => none
  | .message message => some ({ s with process := (s.process.handleMessage message).2 }, none)

/-- The system of the constructors. -/
def init (type : FileSystemType) (info : Nat → FileInfo) (arguments : Nat → Arguments)
    (stats : Nat → Stat) (buffers : Nat → Str) (b : β) : System β where
  process := .init type info arguments stats buffers b

variable {B : Backend β} {s t : System β}

theorem step_op {main : Bool} {call : Nat} {op : Process.Op} {o : Option Returned}
    (h : step B s (.op main call op) = some (t, o)) :
    ∃ ret, s.process.perform B main call op = .returns ret t.process ∧ o = some ret ∧
      t.posted = s.posted ++ s.process.posts op := by
  simp only [step] at h
  split at h
  · rename_i ret process ho
    cases h
    exact ⟨ret, ho, rfl, rfl⟩
  · cases h

theorem step_quiescent {a : Act} {o : Option Returned} (hq : Quiescent s.process.world)
    (h : step B s a = some (t, o)) : Quiescent t.process.world := by
  cases a with
  | op main call op =>
    obtain ⟨ret, hp, -⟩ := step_op h
    exact Process.perform_quiescent hq hp
  | message message =>
    cases h
    exact hq

/-- After a run no delegate has a phase flag set. -/
theorem run_quiescent {type : FileSystemType} {info : Nat → FileInfo} {arguments : Nat → Arguments}
    {stats : Nat → Stat} {buffers : Nat → Str} {b : β} {as : List Act} {os : List (Option Returned)}
    (h : Stream.run (step B) (init type info arguments stats buffers b) as = some (s, os)) :
    Quiescent s.process.world :=
  Stream.run_invariant (I := fun s => Quiescent s.process.world) (fun _ _ _ _ hi hs => step_quiescent hi hs)
    (init_quiescent type info arguments stats buffers) h

end System

end NaClFs
