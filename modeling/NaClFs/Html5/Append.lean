/-
Delegates opened on one file with `O_APPEND`. `Open` moves such a delegate to the end of the file once;
its writes are issued at the end exactly as long as no seek takes it elsewhere and nobody else changes
the length of the file.
-/
import NaClFs.Html5.Offsets
import NaClFs.Lib.Bytes

namespace NaClFs

open Bytes

/-! ## The backend -/

/-- What a write of `buf` at the offset, with its reply, makes of the bytes of a file: a positive count
lays as many of the given bytes at the offset, anything else leaves it. -/
def Wrote (reply : Reply) (offset : Int) (buf : Str) (bytes bytes' : Str) : Prop :=
  match reply with
  | .refused _ _ => bytes' = bytes
  | .completes answer =>
    if 0 < answer.code then
      ∃ p k : Nat, offset = p ∧ answer.code = k ∧ k ≤ buf.length ∧
        bytes' = overlay 0 bytes p (buf.take k)
    else bytes' = bytes

/-- A write counts nothing and leaves the bytes, or it lays what it counts, behind them when the offset is
their end. -/
theorem Wrote.cases {reply : Reply} {offset : Int} {buf bytes bytes' : Str}
    (h : Wrote reply offset buf bytes bytes') :
    (bytes' = bytes ∧ Session.moved offset reply = offset ∧
      ∀ answer, reply = .completes answer → ¬ 0 < answer.code) ∨
    ∃ answer, reply = .completes answer ∧ 0 < answer.code ∧
      Session.moved offset reply = offset + answer.code ∧
      (bytes'.length : Int) = max (bytes.length : Int) (offset + answer.code) ∧
      (offset = bytes.length → bytes <+: bytes') := by
  cases reply with
  | refused code hc =>
    left
    refine ⟨h, rfl, ?_⟩
    rintro answer ⟨⟩
  | completes answer =>
    unfold Wrote at h
    dsimp only at h
    by_cases hpos : 0 < answer.code
    · rw [if_pos hpos] at h
      obtain ⟨p, k, rfl, hk, hle, rfl⟩ := h
      have hlen : (buf.take k).length = k := by
        rw [List.length_take]
        omega
      have hne : buf.take k ≠ [] := by
        intro he
        rw [he, List.length_nil] at hlen
        omega
      refine .inr ⟨answer, rfl, hpos, if_pos hpos, ?_, fun hp => ?_⟩
      · rw [length_overlay 0 bytes p hne, hlen, hk]
        omega
      · obtain rfl : p = bytes.length := by omega
        rw [overlay_end]
        exact List.prefix_append _ _
    · rw [if_neg hpos] at h
      left
      refine ⟨h, if_neg hpos, ?_⟩
      rintro answer' ⟨⟩
      exact hpos

/-- A backend that keeps one file with the bytes `content` behind the resources in `file`: a query that
completes with 0 tells its size, what a read counts is inside it, and of these requests only a write
changes it. -/
structure KeepsFile {β : Type} (B : Backend β) (content : β → Str) (file : Nat → Bool) : Prop where
  query : ∀ b r, file r → content (B b (.query (some r))).2 = content b
  size : ∀ b r answer, file r → (B b (.query (some r))).1 = .completes answer → answer.code = 0 →
    ∃ info, answer.info = some info ∧ info.size = (content b).length
  read : ∀ b r offset buf n, file r → content (B b (.read (some r) offset buf n)).2 = content b
  count : ∀ b r offset buf n answer, file r →
    (B b (.read (some r) offset buf n)).1 = .completes answer → 0 < answer.code →
      offset + answer.code ≤ (content b).length
  write : ∀ b r offset buf n, file r → Wrote (B b (.write (some r) offset buf n)).1 offset buf
    (content b) (content (B b (.write (some r) offset buf n)).2)

/-! ## Runs -/

/-- A worker and the delegates it opened on the file with `O_APPEND`. -/
structure Appending (β : Type) extends Session β where
  append : List Nat := []

namespace Appending

/-- A call of a run: the `Open` of a delegate, or a call on an open one. -/
inductive Act
  | open_ (d : Nat) (path : Str) (oflag mode : BitVec 32)
  | call (d : Nat) (f : FileCall)
  deriving DecidableEq, Repr

/-- The delegate is open on the file. -/
def onFile {β : Type} (file : Nat → Bool) (s : Session β) (d : Nat) : Bool :=
  (s.fileOf d).fileIo.any file

section Step

variable {β : Type} (B : Backend β) (content : β → Str) (file : Nat → Bool)

/-- One call. A delegate is opened once; the others are on delegates that are open on the file. -/
def step (s : Appending β) : Act → Option (Appending β)
  | .open_ d path oflag mode =>
    if (s.fileOf d).fileIo = none then
      (s.toSession.step B ⟨d, .open_ path oflag mode⟩).map fun (t, result) =>
        { t with
          append :=
            if oflag &&& oAppend ≠ 0 ∧ result = .int 0 ∧ onFile file t d then d :: s.append
            else s.append }
    else none
  | .call d f =>
    if onFile file s.toSession d then
      (Session.fileStep B d s.toSession f).map fun t => { t with append := s.append }
    else none

/-- The end of the file. -/
def endOf (s : Appending β) : Int := (content s.backend).length

/-- Every write on a delegate opened with `O_APPEND` would be issued at the end of the file, and leave
the bytes that are there in front of what it writes. -/
def Appends (s : Appending β) : Prop :=
  ∀ d ∈ s.append, ∀ buf, ∃ t, step B file s (.call d (.write buf)) = some t ∧
    t.world.store.requests = s.world.store.requests ++
      [.write (s.fileOf d).fileIo (s.endOf content) buf (toInt buf.length)] ∧
    content s.backend <+: content t.backend

/-- The condition on a call: while a delegate appends, the `Open` of another one leaves the length of
the file, its writes stay inside the file, and a seek of the first goes to the end. -/
def AppendWhen (s : Appending β) : Act → Prop
  | .open_ d path oflag mode => s.append ≠ [] → ∀ t, step B file s (.open_ d path oflag mode) = some t →
      t.endOf content = s.endOf content
  | .call d (.write buf) => (∃ d' ∈ s.append, d' ≠ d) →
      ∀ answer, (B s.backend (Line.writeRequest s.world.store d buf)).1 = .completes answer →
        0 < answer.code → (s.fileOf d).offset + answer.code ≤ s.endOf content
  | .call d (.seek offset whence) => d ∈ s.append → ∀ b, Session.base (s.fileOf d) whence = some b →
      b + offset = s.endOf content
  | .call _ _ => True

end Step

/-! ## One call -/

variable {β : Type} {B : Backend β} {content : β → Str} {file : Nat → Bool} {s s' : Appending β}

theorem onFile_iff {s : Session β} {d : Nat} :
    onFile file s d = true ↔ ∃ r, (s.fileOf d).fileIo = some r ∧ file r = true := by
  unfold onFile
  cases (s.fileOf d).fileIo with
  | none => simp
  | some r => simp

/-- A call is one of the session, on a delegate that is open on the file. -/
theorem step_call {d : Nat} {f : FileCall} (h : step B file s (.call d f) = some s') :
    onFile file s.toSession d = true ∧ s'.append = s.append ∧
      ∃ result, s.toSession.step B ⟨d, f.function⟩ = some (s'.toSession, result) := by
  rw [step] at h
  split at h
  · rename_i hon
    obtain ⟨t, ht, rfl⟩ := Option.map_eq_some_iff.1 h
    exact ⟨hon, rfl, Session.fileStep_some ht⟩
  · cases h

/-- Every call on a delegate that is open on the file is a step. -/
theorem exists_step_call (hq : Quiescent s.world) {d : Nat} (hon : onFile file s.toSession d = true)
    (f : FileCall) : ∃ s', step B file s (.call d f) = some s' := by
  obtain ⟨t, ht⟩ := Session.exists_fileStep B d hq f
  refine ⟨{ t with append := s.append }, ?_⟩
  rw [step, if_pos hon, ht]
  rfl

/-- Between calls the delegates opened with `O_APPEND` are idle and open on the file. -/
structure Idle (file : Nat → Bool) (s : Appending β) : Prop where
  quiescent : Quiescent s.world
  onFile : ∀ d ∈ s.append, onFile file s.toSession d = true

/-- They are at its end. -/
def AtEnd (content : β → Str) (s : Appending β) : Prop :=
  ∀ d ∈ s.append, (s.fileOf d).offset = s.endOf content

/-- The files of the other delegates stay, and the delegate stays open on its file. -/
def SameFile (d : Nat) (s s' : Store) : Prop :=
  Line.SameOthers d s s' ∧ (s'.files d).fileIo = (s.files d).fileIo

theorem sameFile_frame (d : Nat) : Line.Frame (SameFile d) where
  refl s := ⟨(Line.sameOthers_frame d).refl s, rfl⟩
  trans s s' s'' h h' := ⟨(Line.sameOthers_frame d).trans s s' s'' h.1 h'.1, h'.2.trans h.2⟩
  ask s request := ⟨(Line.sameOthers_frame d).ask s request, rfl⟩

theorem SameFile.modifyFile {d : Nat} {f : OpenFile → OpenFile}
    (hf : ∀ file, (f file).fileIo = file.fileIo) :
    Line.Respects (SameFile d) (Line.modifyFile d f : Line β Unit) := by
  refine .modify fun s => ⟨fun d' hd => Function.update_of_ne hd .., ?_⟩
  dsimp only
  rw [Function.update_self]
  exact hf _

theorem call_sameFile (B : Backend β) (d : Nat) (f : FileCall) :
    Line.Respects (SameFile d) (Line.program B d f.function) := by
  have hF := sameFile_frame d
  have hmove (offset : Int) : Line.Respects (SameFile d) (Line.moveTo d offset : Line β Result) :=
    hF.bind (SameFile.modifyFile fun _ => rfl) fun _ => hF.pure _
  cases f with
  | read buf nbytes =>
    refine .get fun s => hF.bind (hF.asks _) fun r => ?_
    cases r with
    | refused code hc => exact hF.pure _
    | completes answer =>
      refine hF.bind (.modify fun _ => ⟨fun _ _ => rfl, rfl⟩) fun _ => ?_
      exact hF.bind (SameFile.modifyFile fun _ => rfl) fun _ => hF.pure _
  | write buf =>
    refine .get fun s => hF.bind (hF.asks _) fun r => ?_
    cases r with
    | refused code hc => exact hF.pure _
    | completes answer => exact hF.bind (SameFile.modifyFile fun _ => rfl) fun _ => hF.pure _
  | seek offset whence =>
    refine .get fun s => .ite (hmove _) (.ite (hmove _) (.ite (hmove _) (hF.pure _)))
  | fstat buf =>
    refine .get fun s => hF.bind (hF.asks _) fun r => ?_
    cases r with
    | refused code hc => exact hF.pure _
    | completes answer =>
      refine hF.bind (SameFile.modifyFile fun _ => rfl) fun _ => .get fun s => ?_
      exact hF.bind (.modify fun _ => ⟨fun _ _ => rfl, rfl⟩) fun _ => hF.pure _

/-- What any call keeps. -/
theorem call_kept (hI : Idle file s) {d : Nat} {f : FileCall}
    (h : step B file s (.call d f) = some s') :
    Idle file s' ∧ ∀ d', d' ≠ d → s'.fileOf d' = s.fileOf d' := by
  obtain ⟨-, happ, result, hs⟩ := step_call h
  obtain ⟨hp, hq'⟩ := Session.step_program hI.quiescent hs
  have hsame := call_sameFile B d f s.world.store s.backend
  rw [show Line.program B d f.function s.world.store s.backend = _ from hp] at hsame
  obtain ⟨hothers, hio⟩ := hsame
  refine ⟨⟨hq', fun d' hd' => ?_⟩, hothers⟩
  rw [happ] at hd'
  have hon := hI.onFile d' hd'
  unfold Appending.onFile at hon ⊢
  by_cases hd : d' = d
  · subst hd
    rw [show (s'.fileOf d').fileIo = (s.fileOf d').fileIo from hio]
    exact hon
  · rw [show s'.fileOf d' = s.fileOf d' from hothers d' hd]
    exact hon

/-- A call keeps the delegates at the end exactly when it leaves the length of the file, as far as other
delegates append, and its own delegate at the end, if that appends. -/
theorem atEnd_call (h0 : AtEnd content s) {d : Nat} (happ : s'.append = s.append)
    (hothers : ∀ d', d' ≠ d → s'.fileOf d' = s.fileOf d') :
    AtEnd content s' ↔ ((∃ d' ∈ s.append, d' ≠ d) → s'.endOf content = s.endOf content) ∧
      (d ∈ s.append → (s'.fileOf d).offset = s'.endOf content) := by
  unfold AtEnd
  rw [happ]
  constructor
  · intro h
    constructor
    · rintro ⟨d', hd', hne⟩
      rw [← h d' hd', hothers d' hne]
      exact h0 d' hd'
    · exact h d
  · rintro ⟨hlen, hown⟩ d' hd'
    by_cases hd : d' = d
    · subst hd
      exact hown hd'
    · rw [hothers d' hd, hlen ⟨d', hd', hd⟩]
      exact h0 d' hd'

/-- A read at the end counts nothing. -/
theorem read_atEnd (hB : KeepsFile B content file) (hI : Idle file s) (h0 : AtEnd content s)
    {d buf nbytes : Nat} (h : step B file s (.call d (.read buf nbytes)) = some s') :
    AtEnd content s' := by
  obtain ⟨hon, happ, result, hs⟩ := step_call h
  obtain ⟨hbackend, hoff⟩ := Session.read_step hI.quiescent hs
  obtain ⟨r, hio, hr⟩ := onFile_iff.1 hon
  have hreq : Line.readRequest s.world.store d buf nbytes =
      .read (some r) (s.fileOf d).offset buf (toInt nbytes) := by
    rw [← hio]
    rfl
  rw [hreq] at hbackend
  have hend : s'.endOf content = s.endOf content := by
    unfold endOf
    rw [hbackend, hB.read _ _ _ _ _ hr]
  apply (atEnd_call h0 happ (call_kept hI h).2).2
  refine ⟨fun _ => hend, fun hd => ?_⟩
  rw [hoff, hend, ← h0 d hd, Session.readSum, hreq]
  cases ha : (B s.backend (.read (some r) (s.fileOf d).offset buf (toInt nbytes))).1 with
  | refused code hc => rfl
  | completes answer =>
    apply if_neg
    intro hpos
    have hle := hB.count _ _ _ _ _ _ hr ha hpos
    have hlength : (s.fileOf d).offset = (content s.backend).length := h0 d hd
    omega

theorem fstat_atEnd (hB : KeepsFile B content file) (hI : Idle file s) (h0 : AtEnd content s)
    {d buf : Nat} (h : step B file s (.call d (.fstat buf)) = some s') : AtEnd content s' := by
  obtain ⟨hon, happ, result, hs⟩ := step_call h
  obtain ⟨hbackend, hoff⟩ := Session.fstat_step hI.quiescent hs
  obtain ⟨r, hio, hr⟩ := onFile_iff.1 hon
  have hend : s'.endOf content = s.endOf content := by
    unfold endOf
    rw [hbackend, hio, hB.query _ _ hr]
  apply (atEnd_call h0 happ (call_kept hI h).2).2
  refine ⟨fun _ => hend, fun hd => ?_⟩
  rw [hoff, hend]
  exact h0 d hd

/-- A write moves the end, for the others, where it counts past it. -/
theorem write_atEnd (hB : KeepsFile B content file) (hI : Idle file s) (h0 : AtEnd content s)
    {d : Nat} {buf : Str} (h : step B file s (.call d (.write buf)) = some s') :
    AtEnd content s' ↔ AppendWhen B content file s (.call d (.write buf)) := by
  obtain ⟨hon, happ, result, hs⟩ := step_call h
  obtain ⟨hbackend, hoff, -⟩ := Session.write_step hI.quiescent hs
  obtain ⟨r, hio, hr⟩ := onFile_iff.1 hon
  have hreq : Line.writeRequest s.world.store d buf =
      .write (some r) (s.fileOf d).offset buf (toInt buf.length) := by
    rw [← hio]
    rfl
  have hwrote := hB.write s.backend r (s.fileOf d).offset buf (toInt buf.length) hr
  rw [atEnd_call h0 happ (call_kept hI h).2, AppendWhen]
  rw [← hreq, ← hbackend] at hwrote
  unfold Session.writeSum at hoff
  rcases hwrote.cases with ⟨hsame, hmoved, hnone⟩ | ⟨answer, ha, hpos, hmoved, hlen, -⟩
  · have hend : s'.endOf content = s.endOf content := congrArg (fun l : Str => (l.length : Int)) hsame
    apply iff_of_true
    · refine ⟨fun _ => hend, fun hd => ?_⟩
      rw [hoff, hmoved, hend]
      exact h0 d hd
    · intro _ answer ha hpos
      exact absurd hpos (hnone answer ha)
  · have hend : s'.endOf content = max (s.endOf content) ((s.fileOf d).offset + answer.code) := hlen
    rw [hoff, hmoved, hend, ha]
    constructor
    · rintro ⟨hlen, -⟩ hother answer' ⟨⟩ -
      have := hlen hother
      omega
    · intro hin
      constructor
      · intro hother
        have := hin hother answer rfl hpos
        omega
      · intro hd
        have := h0 d hd
        omega

/-- A seek of an appending delegate goes to the end, or fails. -/
theorem seek_atEnd (hI : Idle file s) (h0 : AtEnd content s) {d : Nat} {offset whence : Int}
    (h : step B file s (.call d (.seek offset whence)) = some s') :
    AtEnd content s' ↔ AppendWhen B content file s (.call d (.seek offset whence)) := by
  obtain ⟨-, happ, result, hs⟩ := step_call h
  obtain ⟨hbackend, hseek⟩ := Session.seek_step hI.quiescent hs
  have hend : s'.endOf content = s.endOf content := by
    unfold endOf
    rw [hbackend]
  rw [atEnd_call h0 happ (call_kept hI h).2, hend, AppendWhen]
  cases hb : Session.base (s.fileOf d) whence with
  | none =>
    rw [hb] at hseek
    apply iff_of_true
    · refine ⟨fun _ => rfl, fun hd => ?_⟩
      rw [hseek.2]
      exact h0 d hd
    · intro _ b hb'
      cases hb'
  | some b =>
    rw [hb] at hseek
    rw [hseek.2]
    simp only [Option.some.injEq, forall_eq', implies_true, true_and]

/-- An `Open` is one of the session, of a delegate that was not opened before. -/
theorem step_open {d : Nat} {path : Str} {oflag mode : BitVec 32}
    (h : step B file s (.open_ d path oflag mode) = some s') :
    (s.fileOf d).fileIo = none ∧
      ∃ result, s.toSession.step B ⟨d, .open_ path oflag mode⟩ = some (s'.toSession, result) ∧
        s'.append = if oflag &&& oAppend ≠ 0 ∧ result = .int 0 ∧ onFile file s'.toSession d then
          d :: s.append else s.append := by
  rw [step] at h
  split at h
  · rename_i hnew
    obtain ⟨⟨t, result⟩, ht, rfl⟩ := Option.map_eq_some_iff.1 h
    exact ⟨hnew, result, ht, rfl⟩
  · cases h

/-- An `Open` leaves the other files; those opened before were others. -/
theorem open_kept (hI : Idle file s) {d : Nat} {path : Str} {oflag mode : BitVec 32}
    (h : step B file s (.open_ d path oflag mode) = some s') :
    Idle file s' ∧ ∀ d' ∈ s.append, d' ≠ d ∧ s'.fileOf d' = s.fileOf d' := by
  obtain ⟨hnew, result, hs, happ⟩ := step_open h
  obtain ⟨hp, hq'⟩ := Session.step_program hI.quiescent hs
  have hsame := Line.open_sameOthers (B := B) d path oflag s.world.store s.backend
  rw [show Line.open_ B d path oflag s.world.store s.backend = _ from hp] at hsame
  have hothers : ∀ d' ∈ s.append, d' ≠ d ∧ s'.fileOf d' = s.fileOf d' := by
    intro d' hd'
    have hne : d' ≠ d := by
      rintro rfl
      obtain ⟨r, hio, -⟩ := onFile_iff.1 (hI.onFile d' hd')
      rw [hnew] at hio
      cases hio
    exact ⟨hne, hsame d' hne⟩
  have hold : ∀ d' ∈ s.append, onFile file s'.toSession d' = true := by
    intro d' hd'
    have hon := hI.onFile d' hd'
    unfold Appending.onFile at hon ⊢
    rw [(hothers d' hd').2]
    exact hon
  refine ⟨⟨hq', fun d' hd' => ?_⟩, hothers⟩
  rw [happ] at hd'
  split at hd'
  · rename_i hc
    rcases List.mem_cons.1 hd' with rfl | hd'
    · exact hc.2.2
    · exact hold d' hd'
  · exact hold d' hd'

/-- An `Open` with `O_APPEND` goes to the end of the file; the others stay where they were. -/
theorem open_atEnd (hB : KeepsFile B content file) (hI : Idle file s) (h0 : AtEnd content s) {d : Nat}
    {path : Str} {oflag mode : BitVec 32} (h : step B file s (.open_ d path oflag mode) = some s') :
    AtEnd content s' ↔ AppendWhen B content file s (.open_ d path oflag mode) := by
  obtain ⟨-, result, hs, happ⟩ := step_open h
  obtain ⟨hp, -⟩ := Session.step_program hI.quiescent hs
  have hothers := (open_kept hI h).2
  rw [AppendWhen]
  constructor
  · intro hend hne t ht
    rw [h] at ht
    cases ht
    obtain ⟨d', hd'⟩ := List.exists_mem_of_ne_nil _ hne
    have hmem : d' ∈ s'.append := by
      rw [happ]
      split
      · exact List.mem_cons_of_mem _ hd'
      · exact hd'
    rw [← hend d' hmem, (hothers d' hd').2]
    exact h0 d' hd'
  · intro hkeep
    have hold : ∀ d' ∈ s.append, (s'.fileOf d').offset = s'.endOf content := by
      intro d' hd'
      rw [(hothers d' hd').2, hkeep (List.ne_nil_of_mem hd') s' h]
      exact h0 d' hd'
    intro d' hd'
    rw [happ] at hd'
    split at hd'
    · rename_i hc
      rcases List.mem_cons.1 hd' with rfl | hd'
      · -- The queried size is the length, for nothing comes after the query.
        obtain ⟨happend, rfl, hon⟩ := hc
        obtain ⟨r, hio, hr⟩ := onFile_iff.1 hon
        have hopen := Line.open_opened (B := B) (b := s.backend) hp
        obtain ⟨b, answer, hq, hcode, hinfo⟩ := hopen.query
        rw [show (s'.world.store.files d').fileIo = some r from hio] at hq
        obtain ⟨info, hi, hsize⟩ := hB.size b r answer hr (congrArg Prod.fst hq) hcode
        have hbytes : content s'.backend = content b := by
          rw [← hB.query b r hr, hq]
        calc (s'.fileOf d').offset = (s'.fileOf d').fileInfo.size := hopen.offset.trans (if_pos happend)
          _ = info.size := by
            unfold Session.fileOf
            rw [hinfo, hi]
            rfl
          _ = s'.endOf content := by
            unfold endOf
            rw [hsize, hbytes]
      · exact hold d' hd'
    · exact hold d' hd'

/-- One call of the run. -/
theorem step_atEnd (hB : KeepsFile B content file) (hI : Idle file s) {a : Act}
    (h : step B file s a = some s') :
    Idle file s' ∧ (AtEnd content s → (AtEnd content s' ↔ AppendWhen B content file s a)) := by
  cases a with
  | open_ d path oflag mode => exact ⟨(open_kept hI h).1, fun h0 => open_atEnd hB hI h0 h⟩
  | call d f =>
    refine ⟨(call_kept hI h).1, fun h0 => ?_⟩
    cases f with
    | read buf nbytes => exact iff_of_true (read_atEnd hB hI h0 h) trivial
    | write buf => exact write_atEnd hB hI h0 h
    | seek offset whence => exact seek_atEnd hI h0 h
    | fstat buf => exact iff_of_true (fstat_atEnd hB hI h0 h) trivial

/-- The writes are issued at the end when that is where the offsets are. -/
theorem appends_iff (hB : KeepsFile B content file) (hI : Idle file s) :
    Appends B content file s ↔ AtEnd content s := by
  constructor
  · intro h d hd
    obtain ⟨t, ht, hreq, -⟩ := h d hd []
    obtain ⟨-, -, result, hs⟩ := step_call ht
    have hwrite := (Session.write_step hI.quiescent hs).2.2
    rw [hreq] at hwrite
    have hlast := List.append_cancel_left hwrite
    simp only [Line.writeRequest, List.cons.injEq, Request.write.injEq] at hlast
    exact hlast.1.2.1.symm
  · intro h d hd buf
    have hon := hI.onFile d hd
    obtain ⟨t, ht⟩ := exists_step_call (B := B) hI.quiescent hon (.write buf)
    obtain ⟨-, -, result, hs⟩ := step_call ht
    obtain ⟨hbackend, -, hreq⟩ := Session.write_step hI.quiescent hs
    obtain ⟨r, hio, hr⟩ := onFile_iff.1 hon
    have hrequest : Line.writeRequest s.world.store d buf =
        .write (s.fileOf d).fileIo (s.endOf content) buf (toInt buf.length) := by
      rw [← h d hd]
      rfl
    rw [hrequest] at hbackend hreq
    refine ⟨t, ht, hreq, ?_⟩
    have hwrote := hB.write s.backend r (s.endOf content) buf (toInt buf.length) hr
    rw [← hio, ← hbackend] at hwrote
    rcases hwrote.cases with ⟨hsame, -⟩ | ⟨answer, -, -, -, -, hprefix⟩
    · have hprefix : content s.backend <+: content s.backend := List.prefix_refl _
      exact hsame.symm ▸ hprefix
    · exact hprefix rfl

/-! ## Whole runs -/

/-- Any number of delegates on one file that the backend keeps: in every run of opens, reads, writes,
seeks and `Fstat`s, every write on a delegate opened with `O_APPEND` would in each state be issued at
the end of the file and leave its bytes, if and only if every call of the run meets the condition. -/
theorem run_appends_iff (B : Backend β) (content : β → Str) (file : Nat → Bool)
    (hB : KeepsFile B content file) (s t : Appending β) (hq : Quiescent s.world) (ha : s.append = [])
    (acts : List Act) (ht : Run.run (step B file) s acts = some t) :
    Run.Along (step B file) (Appends B content file) s acts ↔
      Run.Guarded (step B file) (AppendWhen B content file) s acts := by
  have hI : Idle file s := by
    refine ⟨hq, fun d hd => ?_⟩
    rw [ha] at hd
    cases hd
  have h0 : Appends B content file s := by
    intro d hd
    rw [ha] at hd
    cases hd
  refine Run.along_iff_guarded (I := Idle file) ?_ ?_ hI h0 ht
  · intro s a s' hI hs
    exact (step_atEnd hB hI hs).1
  · intro s a s' hI hP hs
    obtain ⟨hI', hiff⟩ := step_atEnd hB hI hs
    rw [appends_iff hB hI']
    exact hiff ((appends_iff hB hI).1 hP)

/-! ## A backend -/

/-- A backend with one file, behind every resource, that transfers all it can at a place in a file and
fails elsewhere. -/
def keptFile : Backend Str := fun bytes request =>
  match request with
  | .read _ offset _ n =>
    if offset < 0 then (.completes { code := ppErrorFailed }, bytes)
    else
      let data := slice bytes offset.toNat n.toNat
      (.completes { code := data.length, data := data }, bytes)
  | .write _ offset buf n =>
    if offset < 0 then (.completes { code := ppErrorFailed }, bytes)
    else
      let data := buf.take n.toNat
      (.completes { code := data.length }, overlay 0 bytes offset.toNat data)
  | .query _ => (.completes { code := 0, info := some ⟨bytes.length, .regular, 0, 0, 0⟩ }, bytes)
  | _ => (.completes { code := 0 }, bytes)

theorem keptFile_keeps (file : Nat → Bool) : KeepsFile keptFile id file := by
  constructor
  · intro bytes r _
    rfl
  · rintro bytes r answer - ⟨⟩ -
    exact ⟨_, rfl, rfl⟩
  · intro bytes r offset buf n _
    by_cases h : offset < 0
    · simp [keptFile, h]
    · simp [keptFile, h]
  · intro bytes r offset buf n answer _ ha hpos
    by_cases h : offset < 0
    · simp only [keptFile, if_pos h, Reply.completes.injEq] at ha
      subst ha
      exact absurd hpos (by decide)
    · simp only [keptFile, if_neg h, Reply.completes.injEq] at ha
      subst ha
      simp only [slice, List.length_take, List.length_drop, id] at hpos ⊢
      omega
  · intro bytes r offset buf n _
    by_cases h : offset < 0
    · have hneg : ¬ 0 < ppErrorFailed := by decide
      simp only [keptFile, if_pos h, Wrote, if_neg hneg]
    · simp only [keptFile, if_neg h, Wrote, id]
      split
      · refine ⟨offset.toNat, (buf.take n.toNat).length, by omega, rfl, ?_, ?_⟩
        · rw [List.length_take]
          exact Nat.min_le_right _ _
        · rw [List.length_take, ← List.take_eq_take_min]
      · rename_i hpos
        have hnil : buf.take n.toNat = [] := List.eq_nil_of_length_eq_zero (by omega)
        rw [hnil]
        rfl

theorem run_appends_iff_one :
    ∃ t, Run.run (step keptFile fun _ => true) ⟨⟨World.blank, str "x", 0⟩, []⟩
        [.open_ 0 (str "/a") oAppend 0, .call 0 (.write (str "ab")), .call 0 (.seek 0 seekEnd)] = some t ∧
      (Run.Along (step keptFile fun _ => true) (Appends keptFile id fun _ => true)
          ⟨⟨World.blank, str "x", 0⟩, []⟩
          [.open_ 0 (str "/a") oAppend 0, .call 0 (.write (str "ab")), .call 0 (.seek 0 seekEnd)] ↔
        Run.Guarded (step keptFile fun _ => true) (AppendWhen keptFile id fun _ => true)
          ⟨⟨World.blank, str "x", 0⟩, []⟩
          [.open_ 0 (str "/a") oAppend 0, .call 0 (.write (str "ab")), .call 0 (.seek 0 seekEnd)]) :=
  ⟨_, rfl, run_appends_iff keptFile id (fun _ => true) (keptFile_keeps _) _ _ blank_quiescent rfl _ rfl⟩

/-- Of two delegates that append, the one writes over what the other wrote; and so does one alone after a
seek to the start. -/
theorem append_overwrites :
    (∃ s t, Run.run (step keptFile fun _ => true) ⟨⟨World.blank, [], 0⟩, []⟩
        [.open_ 0 (str "/a") oAppend 0, .open_ 1 (str "/a") oAppend 0,
          .call 0 (.write (str "ab"))] = some s ∧
      1 ∈ s.append ∧ s.backend = str "ab" ∧
      step keptFile (fun _ => true) s (.call 1 (.write (str "c"))) = some t ∧
      t.world.store.requests = s.world.store.requests ++ [.write (s.fileOf 1).fileIo 0 (str "c") 1] ∧
      t.backend = str "cb") ∧
    ∃ s t, Run.run (step keptFile fun _ => true) ⟨⟨World.blank, str "ab", 0⟩, []⟩
        [.open_ 0 (str "/a") oAppend 0, .call 0 (.seek 0 seekSet)] = some s ∧
      0 ∈ s.append ∧
      step keptFile (fun _ => true) s (.call 0 (.write (str "c"))) = some t ∧
      t.world.store.requests = s.world.store.requests ++ [.write (s.fileOf 0).fileIo 0 (str "c") 1] ∧
      t.backend = str "cb" :=
  ⟨⟨_, _, rfl, by decide, rfl, rfl, rfl, rfl⟩, _, _, rfl, by decide, rfl, rfl, rfl⟩

end Appending

end NaClFs
