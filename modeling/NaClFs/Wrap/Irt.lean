/-
The entry points `__wrap_read`, `__wrap_write` and `__wrap_seek`, which return an errno and store a
count or an offset through their last argument. They store what the layers below answer and return 0,
so a failure is stored as a count or an offset. A read is followed through its waits: messages may come
before each of its locks.
-/
import NaClFs.FileSystem.System
import NaClFs.Wrap.Libc

namespace NaClFs

namespace Irt

variable {β : Type} (B : Backend β) (main : Bool) (call : Nat)

/-! ## The entry points -/

/-- What an entry point returns, and what it stores. -/
structure Output where
  result : Int
  stored : Int
  deriving DecidableEq, Repr

/-- An `ssize_t` stored as a `size_t`. -/
def sizeT (count : Int) : Nat := (BitVec.ofInt 32 count).toNat

/-- The calls; a size is a `size_t`, below 2^32. -/
inductive Call
  | read (fildes : Int) (buf : Nat) (nbytes : BitVec 32)
  | write (fildes : Int) (buf : Str) (size : buf.length < 4294967296)
  | seek (fildes offset whence : Int)

/-- `__wrap_read` while messages come, as `readAmong` has them; none when it does not return. -/
def wrapRead (messages : List (List Var)) (s : Process β) (fildes : Int) (buf nbytes : Nat) :
    Option (Output × Process β) :=
  match Process.readAmong B main call fildes buf nbytes messages s with
  | .returns ret s => some ({ result := 0, stored := sizeT ret.result }, s)
  | _ => none

/-- `__wrap_write`. -/
def wrapWrite (s : Process β) (fildes : Int) (buf : Str) : Option (Output × Process β) :=
  match s.write B main call fildes buf with
  | .returns ret s => some ({ result := 0, stored := sizeT ret.result }, s)
  | _ => none

/-- `__wrap_seek`. -/
def wrapSeek (s : Process β) (fildes offset whence : Int) : Option (Output × Process β) :=
  match s.seek B main call fildes offset whence with
  | .returns ret s => some ({ result := 0, stored := ret.result }, s)
  | _ => none

/-- One call; only a read waits for messages. -/
def run (messages : List (List Var)) (s : Process β) : Call → Option (Output × Process β)
  | .read fildes buf nbytes => wrapRead B main call messages s fildes buf nbytes.toNat
  | .write fildes buf _ => wrapWrite B main call s fildes buf
  | .seek fildes offset whence => wrapSeek B main call s fildes offset whence

/-! ## What success means -/

/-- The request was handed to the backend once more after `n` times, and then it completed it with
`count`. -/
def Transferred (s : Process β) (w : World) (request : Request) (n : Nat) (count : Int) : Prop :=
  w.store.requests = s.world.store.requests ++ List.replicate (n + 1) request ∧
    ∃ answer, (B (B.asked request n s.backend) request).1 = .completes answer ∧ answer.code = count

/-- The code of the request after it was made `n` times. -/
def codeAfter (s : Process β) (request : Request) (n : Nat) : Int :=
  Line.count (B (B.asked request n s.backend) request).1

/-- What a call on an open descriptor stored is true: the bytes a read took from the front of
`buffer_`, which some of the messages may have reached before; all the bytes of a message that was
posted; the count the backend completed the request with, for a read the first that is not -2; the new
place in the file. A device stays at 0. -/
def Truthful (messages : List (List Var)) (s s' : Process β) (stored : Int) : Call → Prop
  | .read fildes buf nbytes => ∃ d, s.table.getDelegate fildes = some d ∧
      0 ≤ stored ∧ stored ≤ nbytes.toNat ∧
      match s.table.kind d with
      | .port => ∃ n taken, PortFileSystem.handleMessages s.buffer (messages.take n).flatten =
          taken ++ s'.buffer ∧
          (taken.length : Int) = stored
      | .html5 =>
          let request := Line.readRequest s.world.store d buf nbytes.toNat
          ∃ n, (∀ i < n, codeAfter B s request i = -2) ∧ Transferred B s s'.world request n stored
  | .write fildes buf _ => ∃ d, s.table.getDelegate fildes = some d ∧
      0 ≤ stored ∧ stored ≤ buf.length ∧
      match s.table.kind d with
      | .port => ((s.ports d).write buf).2.isSome = true ∧ (buf.length : Int) = stored
      | .html5 => Transferred B s s'.world (Line.writeRequest s.world.store d buf) 0 stored
  | .seek fildes _ _ => ∃ d, s.table.getDelegate fildes = some d ∧ 0 ≤ stored ∧
      match s.table.kind d with
      | .port => stored = 0
      | .html5 => (s'.world.delegates d).offset = stored

/-- A call that returns, whatever messages come while it waits, has stored the truth and returns 0, or
returns a positive errno. -/
def Reports (s : Process β) (c : Call) : Prop :=
  ∀ messages out s', run B main call messages s c = some (out, s') →
    (out.result = 0 ∧ Truthful B messages s s' out.stored c) ∨ 0 < out.result

/-! ## The condition -/

/-- The backend in the state `b` completes the request with a count of at most `limit`. -/
def Counts (b : β) (request : Request) (limit : Nat) : Prop :=
  ∃ answer, (B b request).1 = .completes answer ∧ 0 ≤ answer.code ∧ answer.code ≤ limit

/-- The call does not fail: the descriptor is open; a device can be read and has bytes to give or is
waited for, or can be written; a file is used on a worker, and the backend completes the transfer with a
count, where a read that is answered with -2 is asked for again, so the first answer that is not -2 is a
count; a seek has a target, which is not negative. -/
def ReportsWhen (s : Process β) : Call → Prop
  | .read fildes buf nbytes => ∃ d, s.table.getDelegate fildes = some d ∧
      match s.table.kind d with
      | .port => ¬ ((s.ports d).id < 0 ∨ ¬ (s.ports d).readable) ∧
          ((s.ports d).blocking = true ∨ ¬ (nbytes.toNat = 0 ∨ s.buffer = []))
      | .html5 => main = false ∧
          let request := Line.readRequest s.world.store d buf nbytes.toNat
          ∀ n, (∀ i < n, codeAfter B s request i = -2) → codeAfter B s request n ≠ -2 →
            Counts B (B.asked request n s.backend) request nbytes.toNat
  | .write fildes buf _ => ∃ d, s.table.getDelegate fildes = some d ∧
      match s.table.kind d with
      | .port => ¬ ((s.ports d).id < 0 ∨ ¬ (s.ports d).writable)
      | .html5 => main = false ∧ Counts B s.backend (Line.writeRequest s.world.store d buf) buf.length
  | .seek fildes offset whence => ∃ d, s.table.getDelegate fildes = some d ∧
      match s.table.kind d with
      | .port => True
      | .html5 => main = false ∧
          ∃ target, Line.target (s.world.store.files d) offset whence = some target ∧ 0 ≤ target

/-! ## Counts -/

theorem sizeT_of_count {count : Int} (h : 0 ≤ count) (hlt : count < 4294967296) :
    (sizeT count : Int) = count := by
  unfold sizeT
  rw [BitVec.toNat_ofInt]
  omega

/-- A stored count is the one the backend gave exactly when that is no error. -/
theorem transferred_iff {B : Backend β} {s : Process β} {w : World} {request : Request} {n : Nat}
    {answer : Answer} {limit : Nat} (hB : (B (B.asked request n s.backend) request).1 = .completes answer)
    (hreq : w.store.requests = s.world.store.requests ++ List.replicate (n + 1) request)
    (hl : limit < 4294967296) :
    (0 ≤ (sizeT answer.code : Int) ∧ (sizeT answer.code : Int) ≤ limit ∧
      Transferred B s w request n (sizeT answer.code)) ↔
        Counts B (B.asked request n s.backend) request limit := by
  constructor
  · rintro ⟨h0, hle, -, answer', ha, he⟩
    rw [hB] at ha
    cases ha
    rw [← he] at h0 hle
    exact ⟨answer, hB, h0, hle⟩
  · rintro ⟨answer', ha, h0, hle⟩
    rw [hB] at ha
    cases ha
    have hs := sizeT_of_count h0 (by omega)
    rw [hs]
    exact ⟨h0, hle, hreq, answer, hB, rfl⟩

/-- A transfer that is refused counts nothing. -/
theorem not_completes {B : Backend β} {b : β} {request : Request} {code : Int}
    {h : code ≠ ppOkCompletionPending} (hB : (B b request).1 = .refused code h)
    {P : Answer → Prop} : ¬ ∃ answer, (B b request).1 = .completes answer ∧ P answer := by
  rintro ⟨answer, ha, -⟩
  rw [hB] at ha
  cases ha

/-! ## One call -/

section Call

variable {B main call} {s : Process β} {d : Nat} {fildes : Int}

/-- The property and the condition, where the call returns 0 and stores what it does. -/
theorem reports_iff_of_run {c : Call} {stored : Int} {s' : Process β}
    (h : ∀ messages, run B main call messages s c = some ({ result := 0, stored := stored }, s')) :
    Reports B main call s c ↔ ∀ messages, Truthful B messages s s' stored c := by
  constructor
  · intro hr messages
    rcases hr _ _ _ (h messages) with ⟨-, ht⟩ | hpos
    · exact ht
    · exact absurd hpos (Int.lt_irrefl 0)
  · intro ht messages out s'' ho
    rw [h] at ho
    cases ho
    exact .inl ⟨rfl, ht messages⟩

theorem wrapRead_of_returns {messages : List (List Var)} {buf nbytes : Nat} {ret : Returned} {s' : Process β}
    (h : Process.readAmong B main call fildes buf nbytes messages s = .returns ret s') :
    wrapRead B main call messages s fildes buf nbytes =
      some ({ result := 0, stored := sizeT ret.result }, s') := by
  simp only [wrapRead, h]

theorem wrapRead_some {messages : List (List Var)} {buf nbytes : Nat} {out : Output} {s' : Process β}
    (h : wrapRead B main call messages s fildes buf nbytes = some (out, s')) :
    ∃ ret, Process.readAmong B main call fildes buf nbytes messages s = .returns ret s' ∧
      out = { result := 0, stored := sizeT ret.result } := by
  unfold wrapRead at h
  split at h
  · rename_i ret t ho
    cases h
    exact ⟨ret, ho, rfl⟩
  · cases h

/-- The same, where the truth does not depend on messages. -/
theorem reports_iff_of_same {c : Call} {stored : Int} {s' : Process β} {P : Prop}
    (h : ∀ messages, run B main call messages s c = some ({ result := 0, stored := stored }, s'))
    (hp : ∀ messages, Truthful B messages s s' stored c ↔ P) : Reports B main call s c ↔ P := by
  rw [reports_iff_of_run h]
  exact ⟨fun ht => (hp []).1 (ht []), fun hP messages => (hp messages).2 hP⟩

/-- A bad descriptor is no open one. -/
theorem not_exists_delegate (hd : s.table.getDelegate fildes = none) {P : Nat → Prop} :
    ¬ ∃ d, s.table.getDelegate fildes = some d ∧ P d := by
  rintro ⟨d, h, -⟩
  rw [hd] at h
  cases h

/-- What is said of an open descriptor is said of its delegate. -/
theorem exists_delegate_iff (hd : s.table.getDelegate fildes = some d) {P : Nat → Prop} :
    (∃ d, s.table.getDelegate fildes = some d ∧ P d) ↔ P d := by
  constructor
  · rintro ⟨d', h, hp⟩
    rw [hd] at h
    cases h
    exact hp
  · intro hp
    exact ⟨d, hd, hp⟩

/-- What the condition says of a read, where the descriptor is open. -/
theorem reportsWhen_read (hd : s.table.getDelegate fildes = some d) {buf : Nat} {nbytes : BitVec 32} :
    ReportsWhen B main s (.read fildes buf nbytes) ↔ match s.table.kind d with
      | .port => ¬ ((s.ports d).id < 0 ∨ ¬ (s.ports d).readable) ∧
          ((s.ports d).blocking = true ∨ ¬ (nbytes.toNat = 0 ∨ s.buffer = []))
      | .html5 => main = false ∧
          let request := Line.readRequest s.world.store d buf nbytes.toNat
          ∀ n, (∀ i < n, codeAfter B s request i = -2) → codeAfter B s request n ≠ -2 →
            Counts B (B.asked request n s.backend) request nbytes.toNat :=
  exists_delegate_iff hd

theorem truthful_read (hd : s.table.getDelegate fildes = some d) {messages : List (List Var)}
    {s' : Process β} {stored : Int} {buf : Nat} {nbytes : BitVec 32} :
    Truthful B messages s s' stored (.read fildes buf nbytes) ↔ 0 ≤ stored ∧ stored ≤ nbytes.toNat ∧
      match s.table.kind d with
      | .port => ∃ n taken, PortFileSystem.handleMessages s.buffer (messages.take n).flatten =
          taken ++ s'.buffer ∧
          (taken.length : Int) = stored
      | .html5 =>
          let request := Line.readRequest s.world.store d buf nbytes.toNat
          ∃ n, (∀ i < n, codeAfter B s request i = -2) ∧ Transferred B s s'.world request n stored :=
  exists_delegate_iff hd

/-- A count a device gives is what it takes from the front of its buffer. -/
theorem read_takes {port : PortFileSystem} {buffer : Str} {nbytes : BitVec 32}
    (hbad : ¬ (port.id < 0 ∨ ¬ port.readable)) (hsome : ¬ (nbytes.toNat = 0 ∨ buffer = [])) :
    let read := port.read buffer nbytes.toNat
    read.1 ≠ -2 ∧ 0 ≤ (sizeT read.1 : Int) ∧ (sizeT read.1 : Int) ≤ nbytes.toNat ∧
      ∃ taken, buffer = taken ++ read.2.2 ∧ (taken.length : Int) = sizeT read.1 := by
  intro read
  have hread : read = (((min nbytes.toNat buffer.length : Nat) : Int), buffer.take nbytes.toNat,
      buffer.drop nbytes.toNat) := by
    show port.read buffer nbytes.toNat = _
    rw [PortFileSystem.read_eq, if_neg hbad, if_neg hsome]
  have hlt := nbytes.isLt
  have hs : (sizeT ((min nbytes.toNat buffer.length : Nat) : Int) : Int) =
      (min nbytes.toNat buffer.length : Nat) := sizeT_of_count (by omega) (by omega)
  rw [hread, hs]
  refine ⟨by omega, by omega, by omega, buffer.take nbytes.toNat, ?_, ?_⟩
  · exact (List.take_append_drop nbytes.toNat buffer).symm
  · rw [List.length_take]

/-- A read of a device. -/
theorem read_port (hd : s.table.getDelegate fildes = some d) (hk : s.table.kind d = .port)
    (buf : Nat) (nbytes : BitVec 32) : Reports B main call s (.read fildes buf nbytes) ↔
      ReportsWhen B main s (.read fildes buf nbytes) := by
  rw [reportsWhen_read hd, hk]
  dsimp only
  have hread := PortFileSystem.read_eq (s.ports d) s.buffer nbytes.toNat
  have hm : s.method B main call d (.read buf nbytes.toNat) =
      some (s.port d (.read buf nbytes.toNat)) := Process.method_port hk _
  -- Without a message nothing was taken, so -1 is no count.
  have hfail {s' : Process β}
      (ho : s.method B main call d (.read buf nbytes.toNat) = some (.int (-1), s'))
      (hb : s'.buffer = s.buffer) :
      ¬ Reports B main call s (.read fildes buf nbytes) := by
    intro h
    have hr := wrapRead_of_returns (Process.readAmong_of_method hd ho (by decide) [])
    rcases h [] _ _ hr with ⟨-, ht⟩ | hpos
    · obtain ⟨-, -, hrest⟩ := (truthful_read hd).1 ht
      rw [hk] at hrest
      obtain ⟨n, taken, he, hl⟩ := hrest
      rw [List.take_nil, hb] at he
      have h0 : taken = [] := List.append_left_eq_self.1 he.symm
      rw [h0] at hl
      exact absurd hl (by decide)
    · exact absurd hpos (Int.lt_irrefl 0)
  by_cases hbad : (s.ports d).id < 0 ∨ ¬ (s.ports d).readable
  · rw [if_pos hbad] at hread
    simp only [Process.port, hread] at hm
    exact iff_of_false (hfail hm rfl) fun h => h.1 hbad
  · by_cases hnone : nbytes.toNat = 0 ∨ s.buffer = []
    · rw [if_neg hbad, if_pos hnone] at hread
      cases hbl : (s.ports d).blocking with
      | true =>
        -- The reader waits for messages.
        refine iff_of_true ?_ ⟨hbad, .inl rfl⟩
        intro messages out s' ho
        obtain ⟨ret, hr, rfl⟩ := wrapRead_some ho
        obtain ⟨n, hret, hne, hbuffer⟩ := Process.readAmong_device hd hk messages hr
        have hsome : ¬ (nbytes.toNat = 0 ∨
            PortFileSystem.handleMessages s.buffer (messages.take n).flatten = []) := by
          intro hn
          rw [PortFileSystem.read_eq, if_neg hbad, if_pos hn, hbl, if_pos rfl] at hret
          exact hne hret
        obtain ⟨-, h0, hle, taken, he, hl⟩ := read_takes hbad hsome
        rw [← hret] at h0 hle hl
        rw [← hbuffer] at he
        refine .inl ⟨rfl, (truthful_read hd).2 ⟨h0, hle, ?_⟩⟩
        rw [hk]
        exact ⟨n, taken, he, hl⟩
      | false =>
        simp only [Process.port, hread, hbl, Bool.false_eq_true, if_false] at hm
        refine iff_of_false (hfail hm rfl) ?_
        rintro ⟨-, h | h⟩
        · cases h
        · exact h hnone
    · obtain ⟨hne, h0, hle, taken, he, hl⟩ := read_takes hbad hnone
      have hr (messages : List (List Var)) : run B main call messages s (.read fildes buf nbytes) = _ :=
        wrapRead_of_returns (Process.readAmong_of_method hd hm hne messages)
      refine iff_of_true ?_ ⟨hbad, .inr hnone⟩
      rw [reports_iff_of_run hr]
      intro messages
      rw [truthful_read hd, hk]
      exact ⟨h0, hle, 0, taken, he, hl⟩

/-- On the main thread nothing is asked for. -/
theorem not_transferred_self {request : Request} {n : Nat} {count : Int} :
    ¬ Transferred B s s.world request n count := by
  rintro ⟨h, -⟩
  have := congrArg List.length h
  rw [List.length_append, List.length_replicate] at this
  omega

theorem codeAfter_completes {request : Request} {n : Nat} {answer : Answer}
    (hB : (B (B.asked request n s.backend) request).1 = .completes answer) :
    codeAfter B s request n = answer.code := by
  unfold codeAfter
  rw [hB]
  rfl

/-- A read of a file, on the main thread or on a worker. -/
theorem read_html5 (hq : Quiescent s.world) (hd : s.table.getDelegate fildes = some d)
    (hk : s.table.kind d = .html5) (buf : Nat) (nbytes : BitVec 32) :
    Reports B main call s (.read fildes buf nbytes) ↔
      ReportsWhen B main s (.read fildes buf nbytes) := by
  rw [reportsWhen_read hd, hk]
  dsimp only
  cases main with
  | true =>
    have hr (messages : List (List Var)) : run B true call messages s (.read fildes buf nbytes) = _ :=
      wrapRead_of_returns (Process.readAmong_of_method hd (Process.method_file_main hk _) (by decide) messages)
    refine iff_of_false ?_ fun h => by cases h.1
    rw [reports_iff_of_run hr]
    intro h
    obtain ⟨-, -, hrest⟩ := (truthful_read hd).1 (h [])
    rw [hk] at hrest
    obtain ⟨n, -, ht⟩ := hrest
    exact not_transferred_self ht
  | false =>
    generalize hreq : Line.readRequest s.world.store d buf nbytes.toNat = request
    constructor
    · intro h
      refine ⟨rfl, fun n hbefore hn => ?_⟩
      -- Messages unlock `mutex_` until the backend answers otherwise.
      have hkey (buffer : Str) : (PortFileSystem.handleMessage buffer (.string (str "S0x"))).1 = true := rfl
      subst hreq
      obtain ⟨t, hr⟩ : ∃ t, Process.readAmong B false call fildes buf nbytes.toNat
          (List.replicate n [.string (str "S0x")]) s = .returns _ t :=
        Process.readAmong_answers hq hd hk hkey hbefore hn
      rcases h _ _ _ (wrapRead_of_returns hr) with ⟨-, ht⟩ | hpos
      · obtain ⟨h0, hle, hrest⟩ := (truthful_read hd).1 ht
        rw [hk] at hrest
        obtain ⟨n', hbefore', -, answer, ha, he⟩ := hrest
        have hcode := codeAfter_completes ha
        rw [he] at hcode
        rcases Nat.lt_trichotomy n' n with hlt | rfl | hlt
        · rw [hbefore n' hlt] at hcode
          omega
        · exact ⟨answer, ha, by rw [he]; exact h0, by rw [he]; exact hle⟩
        · exact absurd (hbefore' n hlt) hn
      · exact absurd hpos (Int.lt_irrefl 0)
    · rintro ⟨-, hwhen⟩ messages out s' ho
      obtain ⟨ret, hr, rfl⟩ := wrapRead_some ho
      obtain ⟨n, hbefore, hn, rfl, hasked⟩ := Process.readAmong_file hq hd hk messages hr
      rw [hreq] at hbefore hn hasked
      have hcounts := hwhen n hbefore hn
      have hanswer := hcounts
      obtain ⟨answer, ha, -⟩ := hanswer
      obtain ⟨h0, hle, ht⟩ := (transferred_iff ha hasked nbytes.isLt).2 hcounts
      rw [hreq]
      refine .inl ⟨rfl, (truthful_read hd).2 ?_⟩
      rw [hk]
      dsimp only
      rw [hreq, show Line.count (B (B.asked request n s.backend) request).1 = answer.code from
        codeAfter_completes ha]
      exact ⟨h0, hle, n, hbefore, ht⟩

/-- What the condition says of a write, where the descriptor is open. -/
theorem reportsWhen_write (hd : s.table.getDelegate fildes = some d) {buf : Str}
    (size : buf.length < 4294967296) : ReportsWhen B main s (.write fildes buf size) ↔
      match s.table.kind d with
      | .port => ¬ ((s.ports d).id < 0 ∨ ¬ (s.ports d).writable)
      | .html5 => main = false ∧ Counts B s.backend (Line.writeRequest s.world.store d buf) buf.length :=
  exists_delegate_iff hd

theorem truthful_write (hd : s.table.getDelegate fildes = some d) {messages : List (List Var)}
    {s' : Process β} {stored : Int} {buf : Str} (size : buf.length < 4294967296) :
    Truthful B messages s s' stored (.write fildes buf size) ↔ 0 ≤ stored ∧ stored ≤ buf.length ∧
      match s.table.kind d with
      | .port => ((s.ports d).write buf).2.isSome = true ∧ (buf.length : Int) = stored
      | .html5 => Transferred B s s'.world (Line.writeRequest s.world.store d buf) 0 stored :=
  exists_delegate_iff hd

theorem wrapWrite_of_returns {buf : Str} {value : Int} {s' : Process β}
    (h : s.onDescriptor B main call fildes (-1) (.write buf) Process.pass =
      .returns { result := value } s') :
    wrapWrite B main call s fildes buf = some ({ result := 0, stored := sizeT value }, s') := by
  simp only [wrapWrite, Process.write, h]

/-- A write to a device. -/
theorem write_port (hd : s.table.getDelegate fildes = some d) (hk : s.table.kind d = .port)
    (buf : Str) (size : buf.length < 4294967296) : Reports B main call s (.write fildes buf size) ↔
      ReportsWhen B main s (.write fildes buf size) := by
  rw [reportsWhen_write hd, hk]
  dsimp only
  have hr (messages : List (List Var)) : run B main call messages s (.write fildes buf size) = _ :=
    wrapWrite_of_returns (Process.onDescriptor_pass hd (Process.method_port hk _) (-1))
  rw [reports_iff_of_same hr fun _ => truthful_write hd size, hk]
  dsimp only
  by_cases hbad : (s.ports d).id < 0 ∨ ¬ (s.ports d).writable
  · have hw : (s.ports d).write buf = (-1, none) := if_pos hbad
    rw [hw]
    refine iff_of_false (fun h => ?_) (not_not_intro hbad)
    exact absurd h.2.2.1 (by simp)
  · obtain ⟨message, hw⟩ : ∃ message, (s.ports d).write buf = ((buf.length : Int), some message) :=
      ⟨_, if_neg hbad⟩
    have hs : (sizeT (buf.length : Int) : Int) = buf.length := sizeT_of_count (by omega) (by omega)
    rw [hw, hs]
    exact iff_of_true ⟨by omega, by omega, rfl, rfl⟩ hbad

/-- A write to a file. -/
theorem write_html5 (hq : Quiescent s.world) (hd : s.table.getDelegate fildes = some d)
    (hk : s.table.kind d = .html5) (buf : Str) (size : buf.length < 4294967296) :
    Reports B main call s (.write fildes buf size) ↔
      ReportsWhen B main s (.write fildes buf size) := by
  rw [reportsWhen_write hd, hk]
  dsimp only
  cases main with
  | true =>
    have hr (messages : List (List Var)) : run B true call messages s (.write fildes buf size) = _ :=
      wrapWrite_of_returns (Process.onDescriptor_pass hd (Process.method_file_main hk _) (-1))
    refine iff_of_false ?_ fun h => by cases h.1
    rw [reports_iff_of_same hr fun _ => truthful_write hd size, hk]
    dsimp only
    exact fun h => not_transferred_self h.2.2
  | false =>
    generalize hreq : Line.writeRequest s.world.store d buf = request
    obtain ⟨reply, hB⟩ : ∃ reply, (B s.backend request).1 = reply := ⟨_, rfl⟩
    cases reply with
    | refused code hc =>
      have hp : Line.program B d (.write buf) s.world.store s.backend = _ :=
        Line.write_refused (by rw [hreq]; exact hB)
      obtain ⟨w, ho, -, -⟩ := Process.method_returns call hq hk hp
      have hr (messages : List (List Var)) : run B false call messages s (.write fildes buf size) = _ :=
        wrapWrite_of_returns (Process.onDescriptor_pass hd ho (-1))
      refine iff_of_false ?_ fun h => not_completes hB h.2
      rw [reports_iff_of_same hr fun _ => truthful_write hd size, hk, hreq]
      exact fun h => not_completes hB h.2.2.2
    | completes answer =>
      have hp : Line.program B d (.write buf) s.world.store s.backend = _ :=
        Line.write_completes (by rw [hreq]; exact hB)
      obtain ⟨w, ho, hw, -⟩ := Process.method_returns call hq hk hp
      have hr (messages : List (List Var)) : run B false call messages s (.write fildes buf size) = _ :=
        wrapWrite_of_returns (Process.onDescriptor_pass hd ho (-1))
      have hasked : w.store.requests = s.world.store.requests ++ List.replicate (0 + 1) request := by
        rw [hw, hreq]
        rfl
      rw [reports_iff_of_same hr fun _ => truthful_write hd size, hk, hreq]
      refine (transferred_iff hB hasked size).trans ?_
      exact ⟨fun h => ⟨rfl, h⟩, fun h => h.2⟩

theorem reportsWhen_seek (hd : s.table.getDelegate fildes = some d) {offset whence : Int} :
    ReportsWhen B main s (.seek fildes offset whence) ↔ match s.table.kind d with
      | .port => True
      | .html5 => main = false ∧
          ∃ target, Line.target (s.world.store.files d) offset whence = some target ∧ 0 ≤ target :=
  exists_delegate_iff hd

theorem truthful_seek (hd : s.table.getDelegate fildes = some d) {messages : List (List Var)}
    {s' : Process β} {stored : Int} {offset whence : Int} :
    Truthful B messages s s' stored (.seek fildes offset whence) ↔ 0 ≤ stored ∧
      match s.table.kind d with
      | .port => stored = 0
      | .html5 => (s'.world.delegates d).offset = stored :=
  exists_delegate_iff hd

theorem wrapSeek_of_returns {offset whence value : Int} {s' : Process β}
    (h : s.onDescriptor B main call fildes (-1) (.seek offset whence) Process.pass =
      .returns { result := value } s') :
    wrapSeek B main call s fildes offset whence = some ({ result := 0, stored := value }, s') := by
  simp only [wrapSeek, Process.seek, h]

/-- A seek, of a device or of a file. -/
theorem seek_open (hq : Quiescent s.world) (hd : s.table.getDelegate fildes = some d)
    (offset whence : Int) : Reports B main call s (.seek fildes offset whence) ↔
      ReportsWhen B main s (.seek fildes offset whence) := by
  rw [reportsWhen_seek hd]
  cases hk : s.table.kind d with
  | port =>
    have hr (messages : List (List Var)) : run B main call messages s (.seek fildes offset whence) = _ :=
      wrapSeek_of_returns (Process.onDescriptor_pass hd (Process.method_port hk _) (-1))
    rw [reports_iff_of_same hr fun _ => truthful_seek hd, hk]
    exact iff_of_true ⟨by decide, rfl⟩ trivial
  | html5 =>
    dsimp only
    have hfail {s' : Process β} (ho : s.method B main call d (.seek offset whence) = some (.int (-1), s')) :
        ¬ Reports B main call s (.seek fildes offset whence) := by
      have hr (messages : List (List Var)) : run B main call messages s (.seek fildes offset whence) = _ :=
        wrapSeek_of_returns (Process.onDescriptor_pass hd ho (-1))
      rw [reports_iff_of_same hr fun _ => truthful_seek hd]
      exact fun h => absurd h.1 (by decide)
    cases main with
    | true => exact iff_of_false (hfail (Process.method_file_main hk _)) fun h => by cases h.1
    | false =>
      have hp : Line.program B d (.seek offset whence) s.world.store s.backend = _ :=
        Line.seek_eq offset whence
      obtain ⟨target, ht⟩ : ∃ target, Line.target (s.world.store.files d) offset whence = target :=
        ⟨_, rfl⟩
      rw [ht] at hp ⊢
      cases target with
      | none =>
        obtain ⟨w, ho, -, -⟩ := Process.method_returns call hq hk hp
        refine iff_of_false (hfail ho) ?_
        rintro ⟨-, target, h, -⟩
        cases h
      | some target =>
        obtain ⟨w, ho, hw, -⟩ := Process.method_returns call hq hk hp
        have hr (messages : List (List Var)) : run B false call messages s (.seek fildes offset whence) = _ :=
          wrapSeek_of_returns (Process.onDescriptor_pass hd ho (-1))
        have hoff : (w.delegates d).offset = target := by
          have := congrArg (fun st => (Store.files st d).offset) hw
          simpa using this
        rw [reports_iff_of_same hr fun _ => truthful_seek hd, hk]
        constructor
        · rintro ⟨h0, -⟩
          exact ⟨rfl, target, rfl, h0⟩
        · rintro ⟨-, target', he, h0⟩
          cases he
          exact ⟨h0, hoff⟩

/-- A call on a descriptor that is not open stores -1. -/
theorem not_reports_none {c : Call} (h : ∃ stored, ∀ messages, run B main call messages s c =
    some ({ result := 0, stored := stored }, s)) (hn : ∀ s' stored, ¬ Truthful B [] s s' stored c) :
    ¬ Reports B main call s c := by
  obtain ⟨stored, hr⟩ := h
  rw [reports_iff_of_run hr]
  exact fun ht => hn s stored (ht [])

end Call

/-! ## When the entry points report failure -/

/-- Between calls, the entry points report exactly where `ReportsWhen` says. -/
theorem reports_of_quiescent {s : Process β} (hq : Quiescent s.world) (c : Call) :
    Reports B main call s c ↔ ReportsWhen B main s c := by
  cases c with
  | read fildes buf nbytes =>
    cases hd : s.table.getDelegate fildes with
    | none =>
      refine iff_of_false (not_reports_none ⟨_, fun messages =>
        wrapRead_of_returns (Process.readAmong_none hd messages)⟩ ?_) (not_exists_delegate hd)
      exact fun _ _ => not_exists_delegate hd
    | some d =>
      cases hk : s.table.kind d with
      | port => exact read_port hd hk buf nbytes
      | html5 => exact read_html5 hq hd hk buf nbytes
  | write fildes buf size =>
    cases hd : s.table.getDelegate fildes with
    | none =>
      refine iff_of_false (not_reports_none ⟨_, fun _ => wrapWrite_of_returns
        (Process.onDescriptor_none hd (-1) _ _)⟩ ?_) (not_exists_delegate hd)
      exact fun _ _ => not_exists_delegate hd
    | some d =>
      cases hk : s.table.kind d with
      | port => exact write_port hd hk buf size
      | html5 => exact write_html5 hq hd hk buf size
  | seek fildes offset whence =>
    cases hd : s.table.getDelegate fildes with
    | none =>
      refine iff_of_false (not_reports_none ⟨_, fun _ => wrapSeek_of_returns
        (Process.onDescriptor_none hd (-1) _ _)⟩ ?_) (not_exists_delegate hd)
      exact fun _ _ => not_exists_delegate hd
    | some d => exact seek_open hq hd offset whence

end Irt

end NaClFs
