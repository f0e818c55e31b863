/-
Several delegates open on one file. What they are for is one array of bytes with a position a delegate;
the offsets the delegates keep, moved when a transfer completes, refine it over a backend that stores
and delivers the bytes it counts.
-/
import NaClFs.Html5.Session
import NaClFs.Lib.Bytes

namespace NaClFs

open Bytes

/-! ## The abstract file -/

/-- The bytes of the file, the position of each delegate and the buffers of the readers; the backend, and
the requests that were made of it. -/
structure SharedFile (β : Type) where
  bytes : Str
  position : Nat → Nat
  buffers : Nat → Str
  backend : β
  requests : List Request

namespace SharedFile

/-- What becomes of a transfer: an error, with what it left at the front of a reader's buffer, or the
count of the bytes transferred. -/
inductive Outcome
  | error (code : Int) (left : Str)
  | count (k : Nat)

/-- The outcome the backend's reply tells. -/
def Outcome.of : Reply → Outcome
  | .refused _ _ => .error (-1) []
  | .completes answer => if answer.code < 0 then .error answer.code answer.data else .count answer.code.toNat

/-- What the caller gets. -/
def Outcome.result : Outcome → Int
  | .error code _ => code
  | .count k => k

/-- An outcome is an error or counts at most `n` bytes. -/
def Outcome.fits (n : Nat) : Outcome → Bool
  | .error code _ => code < 0
  | .count k => k ≤ n

variable {β : Type} (s : SharedFile β)

/-- Bytes stored at the front of a buffer. -/
def fill (buf : Nat) (data : Str) : SharedFile β :=
  { s with buffers := Function.update s.buffers buf (data ++ (s.buffers buf).drop data.length) }

/-- The position of one delegate moves. -/
def moveTo (d position : Nat) : SharedFile β := { s with position := Function.update s.position d position }

/-- The backend is asked. -/
def ask (B : Backend β) (request : Request) : SharedFile β :=
  { s with backend := (B s.backend request).2, requests := s.requests ++ [request] }

/-- A read of `k` bytes takes them from the position on and advances it; an error moves nothing. -/
def read (d buf : Nat) : Outcome → SharedFile β
  | .error _ left => s.fill buf left
  | .count k => (s.fill buf (slice s.bytes (s.position d) k)).moveTo d (s.position d + k)

/-- A write of `k` bytes stores the first `k` at the position and advances it; an error does neither. -/
def write (d : Nat) (buf : Str) : Outcome → SharedFile β
  | .error _ _ => s
  | .count k =>
    { s with bytes := overlay 0 s.bytes (s.position d) (buf.take k) }.moveTo d (s.position d + k)

/-- Where a seek goes: `SEEK_END` is no part of the model. -/
def target (d : Nat) (offset whence : Int) : Int :=
  if whence = seekSet then offset else if whence = seekCur then s.position d + offset else -1

/-- One call. A read or a write makes one request, of the resource the delegate has and at its position,
and the reply tells its outcome, which is no more than there is; a seek has a target that is not
negative. -/
def step (B : Backend β) (io : Nat → Option Nat) (s : SharedFile β) : Arguments → Option (SharedFile β × Result)
  | ⟨d, .read buf nbytes⟩ =>
    let request := .read (io d) (s.position d) buf (toInt nbytes)
    let outcome := Outcome.of (B s.backend request).1
    if outcome.fits (min nbytes (s.bytes.length - s.position d)) then
      some ((s.read d buf outcome).ask B request, .int outcome.result)
    else none
  | ⟨d, .write buf⟩ =>
    let request := .write (io d) (s.position d) buf (toInt buf.length)
    let outcome := Outcome.of (B s.backend request).1
    if outcome.fits buf.length then some ((s.write d buf outcome).ask B request, .int outcome.result)
    else none
  | ⟨d, .seek offset whence⟩ =>
    if 0 ≤ s.target d offset whence then
      some (s.moveTo d (s.target d offset whence).toNat, .int (s.target d offset whence))
    else none
  | _ => none

end SharedFile

/-! ## The backend -/

/-- A backend that keeps one file with the bytes `content` behind the resources in `file`: every read
and write of it at a place in or behind the file is accepted, and completes with an error or with a
count that is at most the number asked for. A write of `k` bytes stores the first `k`, a read of `k`
bytes delivers the `k` bytes at the offset. -/
structure StoresFile {β : Type} (B : Backend β) (content : β → Str) (file : Option Nat → Prop) :
    Prop where
  read : ∀ b io (offset buf : Nat) (n : Int), file io →
    ∃ answer, (B b (.read io offset buf n)).1 = .completes answer ∧
      content (B b (.read io offset buf n)).2 = content b ∧
      (answer.code < 0 ∨ ∃ k : Nat, answer.code = k ∧ (k : Int) ≤ n ∧
        k ≤ (content b).length - offset ∧ answer.data = slice (content b) offset k)
  write : ∀ b io (offset : Nat) (buf : Str) (n : Int), file io →
    ∃ answer, (B b (.write io offset buf n)).1 = .completes answer ∧
      ((answer.code < 0 ∧ content (B b (.write io offset buf n)).2 = content b) ∨
        ∃ k : Nat, answer.code = k ∧ (k : Int) ≤ n ∧
          content (B b (.write io offset buf n)).2 = overlay 0 (content b) offset (buf.take k))

/-! ## Refinement -/

section Refinement

variable {β : Type} {B : Backend β} {content : β → Str} {file : Option Nat → Prop} {D : Nat → Prop}
  {io : Nat → Option Nat}

/-- The delegates in `D` have their resources, and their offsets are the positions. -/
structure SharedFile.Refines (content : β → Str) (io : Nat → Option Nat) (D : Nat → Prop)
    (s : Store) (b : β) (t : SharedFile β) : Prop where
  bytes : t.bytes = content b
  buffers : t.buffers = s.buffers
  backend : t.backend = b
  requests : t.requests = s.requests
  io : ∀ d, D d → (s.files d).fileIo = io d
  offset : ∀ d, D d → (s.files d).offset = t.position d

/-- A call of the run: a read or a write, or a seek from the start or from the offset to a place that
is not negative. -/
def SharedFile.Allowed (D : Nat → Prop) (s : Session β) (a : Arguments) : Prop :=
  D a.delegate ∧ match a.function with
    | .read _ _ => True
    | .write _ => True
    | .seek offset whence =>
      (whence = seekSet ∧ 0 ≤ offset) ∨
        (whence = seekCur ∧ 0 ≤ (s.world.delegates a.delegate).offset + offset)
    | _ => False

instance [DecidablePred D] (s : Session β) : (a : Arguments) → Decidable (SharedFile.Allowed D s a)
  | ⟨d, .read _ _⟩ | ⟨d, .write _⟩ => inferInstanceAs (Decidable (D d ∧ True))
  | ⟨d, .seek offset whence⟩ =>
    inferInstanceAs (Decidable (D d ∧ ((whence = seekSet ∧ 0 ≤ offset) ∨
      (whence = seekCur ∧ 0 ≤ (s.world.delegates d).offset + offset))))
  | ⟨_, .open_ _ _ _⟩ | ⟨_, .stat _ _⟩ | ⟨_, .close⟩ | ⟨_, .fstat _⟩ | ⟨_, .isatty⟩ | ⟨_, .fcntl _ _⟩
  | ⟨_, .mkdir _ _⟩ | ⟨_, .opendir _⟩ | ⟨_, .rewinddir _⟩ | ⟨_, .readdir _⟩ | ⟨_, .closedir _⟩ =>
    isFalse fun h => h.2

theorem toInt_le (n : Nat) : toInt n ≤ n := by
  unfold toInt
  rw [BitVec.toInt_eq_toNat_cond, BitVec.toNat_ofNat]
  have := Nat.mod_le n (2 ^ 32)
  split <;> omega

theorem OpenFile.advance_count (f : OpenFile) (k : Nat) : (f.advance k).offset = f.offset + k := by
  unfold OpenFile.advance
  dsimp only
  split <;> omega

theorem OpenFile.advance_error (f : OpenFile) {code : Int} (h : code < 0) :
    (f.advance code).offset = f.offset := by
  unfold OpenFile.advance
  exact if_neg (by omega)

namespace SharedFile

/-- One delegate's file changes in place; the others stay. -/
theorem Refines.update {s s' : Store} {b b' : β} {t t' : SharedFile β} {d : Nat} {f : OpenFile}
    (h : Refines content io D s b t) (hbytes : t'.bytes = content b') (hbuffers : t'.buffers = s'.buffers)
    (hbackend : t'.backend = b') (hrequests : t'.requests = s'.requests)
    (hfiles : s'.files = Function.update s.files d f) (hio : f.fileIo = (s.files d).fileIo)
    (hoffset : D d → f.offset = t'.position d) (hpos : ∀ d', d' ≠ d → t'.position d' = t.position d') :
    Refines content io D s' b' t' := by
  constructor
  · exact hbytes
  · exact hbuffers
  · exact hbackend
  · exact hrequests
  · intro d' hd'
    rw [hfiles]
    by_cases he : d' = d
    · subst he
      rw [Function.update_self, hio]
      exact h.io d' hd'
    · rw [Function.update_of_ne he]
      exact h.io d' hd'
  · intro d' hd'
    rw [hfiles]
    by_cases he : d' = d
    · subst he
      rw [Function.update_self]
      exact hoffset hd'
    · rw [Function.update_of_ne he, hpos d' he]
      exact h.offset d' hd'

variable {s : Store} {b : β} {t : SharedFile β} {d : Nat}

theorem Outcome.of_error {answer : Answer} (h : answer.code < 0) :
    Outcome.of (.completes answer) = .error answer.code answer.data := if_pos h

theorem Outcome.of_count {answer : Answer} {k : Nat} (h : answer.code = k) :
    Outcome.of (.completes answer) = .count k := by
  rw [Outcome.of, if_neg (by omega), h]
  rfl

/-- A read of the program is a read of the model, whatever the backend makes of it. -/
theorem read_refines (hB : StoresFile B content file) (hD : ∀ d, D d → file (io d))
    (h : Refines content io D s b t) (hd : D d) (buf nbytes : Nat) :
    ∃ s' b' t' result, Line.read B d buf nbytes s b = (some result, s', b') ∧
      t.step B io ⟨d, .read buf nbytes⟩ = some (t', result) ∧ Refines content io D s' b' t' := by
  obtain ⟨answer, ha, hc, hk⟩ := hB.read b (io d) (t.position d) buf (toInt nbytes) (hD d hd)
  have hreq : Line.readRequest s d buf nbytes = .read (io d) (t.position d) buf (toInt nbytes) := by
    rw [Line.readRequest, h.offset d hd, h.io d hd]
  have hbackend : (B t.backend (.read (io d) (t.position d) buf (toInt nbytes))).2 =
      (B b (Line.readRequest s d buf nbytes)).2 := by
    rw [h.backend, hreq]
  have hrequests : t.requests ++ [.read (io d) (t.position d) buf (toInt nbytes)] =
      s.requests ++ [Line.readRequest s d buf nbytes] := by
    rw [h.requests, hreq]
  have hreply := ha
  rw [← h.backend] at hreply
  rw [← hreq] at ha hc
  have hrun := Line.read_completes ha
  simp only [step, hreply]
  rcases hk with hneg | ⟨k, hcode, hn, hlen, hdata⟩
  · -- An error moves nothing, whatever it left in the buffer.
    rw [Outcome.of_error hneg]
    refine ⟨_, _, _, _, hrun, if_pos (decide_eq_true hneg), ?_⟩
    refine h.update (h.bytes.trans hc.symm) ?_ ?_ ?_ rfl rfl (fun _ => ?_) (fun _ _ => rfl)
    · simp [read, ask, fill, h.buffers]
    · exact hbackend
    · exact hrequests
    · rw [OpenFile.advance_error _ hneg]
      exact h.offset d hd
  · have hle := toInt_le nbytes
    have hfit : (Outcome.count k).fits (min nbytes (t.bytes.length - t.position d)) = true := by
      rw [h.bytes]
      exact decide_eq_true (by omega)
    rw [Outcome.of_count hcode]
    rw [hcode] at hrun
    refine ⟨_, _, _, _, hrun, if_pos hfit, ?_⟩
    refine h.update (h.bytes.trans hc.symm) ?_ ?_ ?_ rfl rfl (fun _ => ?_) (fun d' hd' => ?_)
    · simp [read, ask, fill, moveTo, h.buffers, h.bytes, hdata]
    · exact hbackend
    · exact hrequests
    · rw [OpenFile.advance_count, h.offset d hd]
      simp [read, ask, moveTo]
    · simp [read, ask, moveTo, fill, Function.update_of_ne hd']

/-- The same for a write. -/
theorem write_refines (hB : StoresFile B content file) (hD : ∀ d, D d → file (io d))
    (h : Refines content io D s b t) (hd : D d) (buf : Str) :
    ∃ s' b' t' result, Line.write B d buf s b = (some result, s', b') ∧
      t.step B io ⟨d, .write buf⟩ = some (t', result) ∧ Refines content io D s' b' t' := by
  obtain ⟨answer, ha, hk⟩ := hB.write b (io d) (t.position d) buf (toInt buf.length) (hD d hd)
  have hreq : Line.writeRequest s d buf = .write (io d) (t.position d) buf (toInt buf.length) := by
    rw [Line.writeRequest, h.offset d hd, h.io d hd]
  have hbackend : (B t.backend (.write (io d) (t.position d) buf (toInt buf.length))).2 =
      (B b (Line.writeRequest s d buf)).2 := by
    rw [h.backend, hreq]
  have hrequests : t.requests ++ [.write (io d) (t.position d) buf (toInt buf.length)] =
      s.requests ++ [Line.writeRequest s d buf] := by
    rw [h.requests, hreq]
  have hreply := ha
  rw [← h.backend] at hreply
  rw [← hreq] at ha hk
  have hrun := Line.write_completes ha
  simp only [step, hreply]
  rcases hk with ⟨hneg, hc⟩ | ⟨k, hcode, hn, hc⟩
  · rw [Outcome.of_error hneg]
    refine ⟨_, _, _, _, hrun, if_pos (decide_eq_true hneg), ?_⟩
    refine h.update (h.bytes.trans hc.symm) h.buffers hbackend hrequests rfl rfl (fun _ => ?_)
      (fun _ _ => rfl)
    · have := OpenFile.advance_error (s.files d) hneg
      exact this.trans (h.offset d hd)
  · have hle := toInt_le buf.length
    have hfit : (Outcome.count k).fits buf.length = true := decide_eq_true (by omega)
    rw [Outcome.of_count hcode]
    rw [hcode] at hrun
    refine ⟨_, _, _, _, hrun, if_pos hfit, ?_⟩
    refine h.update ?_ h.buffers hbackend hrequests rfl rfl (fun _ => ?_) (fun d' hd' => ?_)
    · rw [hc, ← h.bytes]
      rfl
    · have hoff : ((s.files d).advance k).grow.offset = (s.files d).offset + k :=
        OpenFile.advance_count (s.files d) k
      rw [hoff, h.offset d hd]
      simp [write, ask, moveTo]
    · simp [write, ask, moveTo, Function.update_of_ne hd']

/-- A seek that is allowed. -/
theorem seek_refines (h : Refines content io D s b t) (hd : D d) {offset whence : Int}
    (ha : (whence = seekSet ∧ 0 ≤ offset) ∨ (whence = seekCur ∧ 0 ≤ (s.files d).offset + offset)) :
    ∃ s' t' result, (Line.seek d offset whence : Line β Result) s b = (some result, s', b) ∧
      t.step B io ⟨d, .seek offset whence⟩ = some (t', result) ∧ Refines content io D s' b t' := by
  have hcs : seekCur ≠ seekSet := by decide
  obtain ⟨p, hp, ht, hl⟩ : ∃ p, 0 ≤ p ∧ t.target d offset whence = p ∧
      Line.target (s.files d) offset whence = some p := by
    rcases ha with ⟨rfl, h0⟩ | ⟨rfl, h0⟩
    · exact ⟨offset, h0, if_pos rfl, if_pos rfl⟩
    · refine ⟨(s.files d).offset + offset, h0, ?_, ?_⟩
      · rw [target, if_neg hcs, if_pos rfl, h.offset d hd]
      · rw [Line.target, if_neg hcs, if_pos rfl]
  refine ⟨{ s with files := Function.update s.files d { s.files d with offset := p } },
    t.moveTo d p.toNat, .int p, ?_, ?_, ?_⟩
  · rw [Line.seek_eq, hl]
  · simp only [step, ht, if_pos hp]
  · refine h.update h.bytes h.buffers h.backend h.requests rfl rfl (fun _ => ?_) (fun d' hd' => ?_)
    · simp only [moveTo, Function.update_self]
      omega
    · simp [moveTo, Function.update_of_ne hd']

/-- One call of the run. -/
theorem step_refines (hB : StoresFile B content file) (hD : ∀ d, D d → file (io d)) {s : Session β}
    {a : Arguments} (h : Quiescent s.world ∧ Refines content io D s.world.store s.backend t)
    (ha : Allowed D s a) :
    ∃ s' t' a' o, Session.step B s a = some (s', o) ∧ id a' = a ∧ t.step B io a' = some (t', o) ∧
      (Quiescent s'.world ∧ Refines content io D s'.world.store s'.backend t') := by
  obtain ⟨hq, h⟩ := h
  obtain ⟨d, f⟩ := a
  obtain ⟨hd, hf⟩ := ha
  -- What the program does, the call does.
  have lift {st' : Store} {b' : β} {t' : SharedFile β} {o : Result}
      (hp : Line.program B d f s.world.store s.backend = (some o, st', b'))
      (ht : t.step B io ⟨d, f⟩ = some (t', o)) (hr : Refines content io D st' b' t') :
      ∃ s' t' a' o, Session.step B s ⟨d, f⟩ = some (s', o) ∧ id a' = (⟨d, f⟩ : Arguments) ∧
        t.step B io a' = some (t', o) ∧
        (Quiescent s'.world ∧ Refines content io D s'.world.store s'.backend t') := by
    obtain ⟨w, hw, hs, hq'⟩ := Session.step_of_program hq hp
    exact ⟨_, t', ⟨d, f⟩, o, hw, rfl, ht, hq', by rw [hs]; exact hr⟩
  cases f with
  | read buf nbytes =>
    obtain ⟨s', b', t', result, hp, ht, hr⟩ := read_refines hB hD h hd buf nbytes
    exact lift hp ht hr
  | write buf =>
    obtain ⟨s', b', t', result, hp, ht, hr⟩ := write_refines hB hD h hd buf
    exact lift hp ht hr
  | seek offset whence =>
    obtain ⟨s', t', result, hp, ht, hr⟩ := seek_refines (B := B) h hd hf
    exact lift hp ht hr
  | _ => exact hf.elim

/-! ## Runs -/

/-- A call that opens a file, without `O_APPEND`. -/
def Opens (a : Arguments) : Prop :=
  ∃ path oflag mode, a.function = .open_ path oflag mode ∧ oflag &&& oAppend = 0

/-- Delegates that were only opened are at the start of their files. -/
theorem run_opens {opens : List Arguments} {s : Session β} {t : Session β} {os : List Result}
    (ho : ∀ a ∈ opens, Opens a) (hq : Quiescent s.world)
    (h0 : ∀ d, (s.world.delegates d).offset = 0)
    (h : Stream.run (Session.step B) s opens = some (t, os)) :
    Quiescent t.world ∧ ∀ d, (t.world.delegates d).offset = 0 := by
  induction opens generalizing s os with
  | nil =>
    obtain ⟨rfl, -⟩ := Stream.run_nil.1 h
    exact ⟨hq, h0⟩
  | cons a opens ih =>
    obtain ⟨s', o, os', hs, hr, -⟩ := Stream.run_cons.1 h
    obtain ⟨path, oflag, mode, ha, happ⟩ := ho a (by simp)
    obtain ⟨hp, hq'⟩ := Session.step_program hq hs
    rw [ha] at hp
    have hsame : Line.SameOffsets s.world.store
        (Line.open_ B a.delegate path oflag s.world.store s.backend).2.1 :=
      Line.open_sameOffsets happ s.world.store s.backend
    refine ih (fun a' ha' => ho a' (by simp [ha'])) hq' (fun d => ?_) hr
    have hd : (s'.world.store.files d).offset = (s.world.store.files d).offset := by
      have := hsame d
      rw [show Line.open_ B a.delegate path oflag s.world.store s.backend = _ from hp] at this
      exact this
    exact hd.trans (h0 d)

/-- Any number of delegates opened without `O_APPEND` on a file that the backend stores: every run of
reads, writes and seeks on them is, call by call, the run of one array of bytes with a position for each
delegate. Each transfer makes the one request at its delegate's position and returns what the backend
replies to it, and the run leaves the array's bytes in the file, its positions in the offsets and what it
transferred in the readers' buffers. -/
theorem run_shared (B : Backend β) (content : β → Str) (file : Option Nat → Prop)
    (hB : StoresFile B content file) (type : FileSystemType) (info : Nat → FileInfo)
    (arguments : Nat → Arguments) (stats : Nat → Stat) (buffers : Nat → Str) (b : β)
    (opens : List Arguments) (s : Session β) (os : List Result) (ho : ∀ a ∈ opens, Opens a)
    (hs : Stream.run (Session.step B) ⟨World.init type info arguments stats buffers, b, 0⟩ opens =
      some (s, os))
    (D : Nat → Prop) (hD : ∀ d, D d → file (s.world.delegates d).fileIo)
    (calls : List Arguments) (hc : Stream.Guarded (Session.step B) (Allowed D) s calls) :
    ∃ s' t results, Stream.run (Session.step B) s calls = some (s', results) ∧
      Stream.run (step B fun d => (s.world.delegates d).fileIo)
        ⟨content s.backend, fun _ => 0, s.world.buffers, s.backend, s.world.store.requests⟩ calls =
          some (t, results) ∧
      t.bytes = content s'.backend ∧ t.buffers = s'.world.buffers ∧ t.backend = s'.backend ∧
      t.requests = s'.world.store.requests ∧ ∀ d, D d → (s'.world.delegates d).offset = t.position d := by
  obtain ⟨hq, h0⟩ := run_opens ho (init_quiescent type info arguments stats buffers)
    (fun _ => rfl) hs
  have hR : Quiescent s.world ∧
      Refines content (fun d => (s.world.delegates d).fileIo) D s.world.store s.backend
      ⟨content s.backend, fun _ => 0, s.world.buffers, s.backend, s.world.store.requests⟩ := by
    refine ⟨hq, rfl, rfl, rfl, rfl, fun _ _ => rfl, fun d _ => ?_⟩
    exact h0 d
  obtain ⟨s', t, calls', results, hr, hv, ht, -, hR'⟩ :=
    Stream.simulation (R := fun (s : Session β) t => Quiescent s.world ∧
      Refines content _ D s.world.store s.backend t) (fun _ _ _ => step_refines hB hD) hR hc
  rw [List.map_id] at hv
  subst hv
  exact ⟨s', t, results, hr, ht, hR'.bytes, hR'.buffers, hR'.backend, hR'.requests, hR'.offset⟩

end SharedFile

end Refinement

/-! ## A backend -/

/-- A backend with one file, behind every resource, that transfers all it can. -/
def plainFile : Backend Str := fun bytes request =>
  match request with
  | .read _ offset _ n =>
    if n < 0 then (.completes { code := ppErrorFailed }, bytes)
    else
      let data := slice bytes offset.toNat n.toNat
      (.completes { code := data.length, data := data }, bytes)
  | .write _ offset buf n =>
    if n < 0 then (.completes { code := ppErrorFailed }, bytes)
    else (.completes { code := n }, overlay 0 bytes offset.toNat (buf.take n.toNat))
  | .query _ => (.completes { code := 0, info := some ⟨bytes.length, .regular, 0, 0, 0⟩ }, bytes)
  | _ => (.completes { code := 0 }, bytes)

theorem plainFile_stores : StoresFile plainFile id fun _ => True := by
  constructor
  · intro bytes io offset buf n _
    by_cases hn : n < 0
    · refine ⟨{ code := ppErrorFailed }, ?_, ?_, .inl (by decide)⟩
      · simp [plainFile, hn]
      · simp [plainFile, hn]
    · refine ⟨{ code := (slice bytes offset n.toNat).length, data := slice bytes offset n.toNat },
        ?_, ?_, .inr ⟨(slice bytes offset n.toNat).length, rfl, ?_, ?_, ?_⟩⟩
      · simp [plainFile, hn]
      · simp [plainFile, hn]
      · unfold slice
        rw [List.length_take]
        omega
      · unfold slice
        rw [List.length_take, List.length_drop]
        exact Nat.min_le_right _ _
      · show slice bytes offset n.toNat = slice bytes offset (slice bytes offset n.toNat).length
        unfold slice
        rw [List.length_take, List.take_eq_take_iff]
        omega
  · intro bytes io offset buf n _
    by_cases hn : n < 0
    · refine ⟨{ code := ppErrorFailed }, ?_, .inl ⟨(by decide), ?_⟩⟩
      · simp [plainFile, hn]
      · simp [plainFile, hn]
    · refine ⟨{ code := n }, ?_, .inr ⟨n.toNat, ?_, ?_, ?_⟩⟩
      · simp [plainFile, hn]
      · dsimp only
        omega
      · omega
      · simp [plainFile, hn]

namespace SharedFile

/-- Two delegates are opened on one file. -/
def twoOpens : List Arguments := [⟨0, .open_ (str "/a") oRdWr 0⟩, ⟨1, .open_ (str "/a") oRdWr 0⟩]

/-- The first writes, the second reads from its own position. -/
def writeThenRead : List Arguments := [⟨0, .write (str "abc")⟩, ⟨1, .seek 1 seekSet⟩, ⟨1, .read 5 4⟩]

theorem twoOpens_isSome :
    (Stream.run (Session.step plainFile) ⟨World.blank, [], 0⟩ twoOpens).isSome = true := by
  decide +kernel

theorem run_shared_two_delegates :
    ∃ s os, Stream.run (Session.step plainFile) ⟨World.blank, [], 0⟩ twoOpens = some (s, os) ∧
      ∃ s' t results, Stream.run (Session.step plainFile) s writeThenRead = some (s', results) ∧
        Stream.run (step plainFile fun d => (s.world.delegates d).fileIo)
          ⟨id s.backend, fun _ => 0, s.world.buffers, s.backend, s.world.store.requests⟩ writeThenRead =
            some (t, results) ∧
        t.requests = s'.world.store.requests := by
  have hs := (Option.some_get twoOpens_isSome).symm
  have hc : Stream.Guarded (Session.step plainFile) (Allowed fun d => d < 2)
      ((Stream.run (Session.step plainFile)
        ⟨World.blank, [], 0⟩ twoOpens).get twoOpens_isSome).1 writeThenRead := by
    decide +kernel
  generalize (Stream.run (Session.step plainFile) ⟨World.blank, [], 0⟩ twoOpens).get twoOpens_isSome =
    p at hs hc
  obtain ⟨s, os⟩ := p
  have hopens : ∀ a ∈ twoOpens, Opens a := by
    intro a ha
    rcases List.mem_pair.1 ha with rfl | rfl
    · exact ⟨_, _, _, rfl, by decide⟩
    · exact ⟨_, _, _, rfl, by decide⟩
  obtain ⟨s', t, results, h1, h2, -, -, -, h3, -⟩ := run_shared plainFile id (fun _ => True)
    plainFile_stores .localTemporary _ _ _ _ [] twoOpens s os hopens hs (fun d => d < 2)
    (fun _ _ => trivial) writeThenRead hc
  exact ⟨s, os, hs, s', t, results, h1, h2, h3⟩

end SharedFile

end NaClFs
