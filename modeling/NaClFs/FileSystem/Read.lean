/-
`FileSystem::Read` over the delegates behind the descriptors. One turn of its loop calls the
delegate and, on the result -2, goes on to lock `mutex_`; the two kinds of delegates give that
number different meanings.
-/
import NaClFs.FileSystem.Table
import NaClFs.Html5.Phase
import NaClFs.Port.PortFileSystem

namespace NaClFs

/-! ## One turn -/

/-- The file system with the objects behind its delegates, and the backend. -/
structure Process (β : Type) where
  table : FileSystem
  ports : Nat → PortFileSystem
  /-- `PortFileSystem::buffer_`. -/
  buffer : Str
  /-- `FileSystem::mutex_`, which the constructor locks. -/
  locked : Bool := true
  world : World
  backend : β

/-- The class of a delegate. -/
def FileSystem.kind (fs : FileSystem) (delegate : Nat) : DelegateKind :=
  fs.delegates.getD delegate .html5

/-- How a turn ends: `Read` returns, it locks `mutex_` before the next turn, or it waits in the
rendezvous of the delegate's call. -/
inductive Turn (β : Type)
  | returns (result : Int) (s : Process β)
  | locks (s : Process β)
  | waits

/-- `if (result != -2) return result;`, else the lock. -/
def Turn.of {β : Type} (result : Int) (s : Process β) : Turn β :=
  if result ≠ -2 then .returns result s else .locks s

/-- One turn of the loop of `FileSystem::Read`, on the main thread or on a worker. -/
def FileSystem.readTurn {β : Type} (B : Backend β) (main : Bool) (call : Nat) (s : Process β)
    (fildes : Int) (buf nbytes : Nat) : Turn β :=
  match s.table.getDelegate fildes with
  | none => .returns (-1) s
  | some delegate =>
    match s.table.kind delegate with
    | .port =>
      let (result, bytes, buffer) := (s.ports delegate).read s.buffer nbytes
      .of result { s with buffer := buffer, world := s.world.setBuffer buf bytes }
    | .html5 =>
      if main then .of (-1) s
      else
        match Delegate.call B s.world s.backend call ⟨delegate, .read buf nbytes⟩ with
        | .returned (.int result) w b => .of result { s with world := w, backend := b }
        | _ => .waits

/-! ## A read of an HTML5 file -/

variable {β : Type} (B : Backend β) {w : World} (b : β) (call : Nat) {d : Nat} (buf nbytes : Nat)

/-- The request a read of the delegate issues. -/
def World.readRequest (w : World) (d buf nbytes : Nat) : Request :=
  .read (w.delegates d).fileIo (w.delegates d).offset buf (toInt nbytes)

theorem enter_delegate (w : World) (call d : Nat) (f : Function) :
    (w.enter call ⟨d, f⟩).delegates d = { w.delegates d with callback := some call } :=
  Function.update_self ..

/-- With `waiting_` set, a run of a read takes its code for the completion's and returns it. -/
theorem serve_read_completion (n : Nat) (result : Int)
    (ha : w.arguments call = ⟨d, .read buf nbytes⟩) (h : (w.delegates d).waiting = true) :
    ∃ w', serve B (n + 1) w b call result = .returned (.int result) w' b ∧
      w'.store.requests = w.store.requests := by
  have he : Html5FileSystem.switch (B.imm b) w d result (.read buf nbytes) = {
      world := w.setDelegate d
        { w.delegates d with waiting := false, toOpenFile := (w.delegates d).advance result }
      result := .int result } := by
    simp [Html5FileSystem.switch, Html5FileSystem.readCall, h]
  exact ⟨_, serve_done ha he rfl, by simp [World.issue]⟩

/-- While another call on the delegate is in flight, a read takes its first run for a completion. -/
theorem call_read_waiting (h : (w.delegates d).waiting = true) :
    ∃ w', Delegate.call B w b call ⟨d, .read buf nbytes⟩ = .returned (.int 0) w' b ∧
      w'.store.requests = w.store.requests := by
  obtain ⟨w', hs, hr⟩ := serve_read_completion B b call buf nbytes 3 ppOk
    (w.enter_self call ⟨d, .read buf nbytes⟩) (by rw [enter_delegate]; exact h)
  exact ⟨w', hs, by rw [hr, World.store_enter]⟩

/-- Otherwise a read issues one request, and returns its code or, when it was refused, -1. -/
theorem call_read (h : (w.delegates d).waiting = false) :
    ∃ w', Delegate.call B w b call ⟨d, .read buf nbytes⟩ = .returned
        (.int (match (B b (w.readRequest d buf nbytes)).1 with
          | .refused _ _ => -1
          | .completes answer => answer.code)) w' (B b (w.readRequest d buf nbytes)).2 ∧
      w'.store.requests = w.store.requests ++ [w.readRequest d buf nbytes] := by
  have hd := enter_delegate w call d (.read buf nbytes)
  cases hB : (B b (w.readRequest d buf nbytes)).1 with
  | refused code hc =>
    have he : Html5FileSystem.switch (B.imm b) (w.enter call ⟨d, .read buf nbytes⟩) d ppOk
        (.read buf nbytes) = {
          world := w.enter call ⟨d, .read buf nbytes⟩
          result := .int (-1)
          request := some (w.readRequest d buf nbytes) } := by
      have hi := imm_refused hB
      simp only [World.readRequest] at hi
      simp [Html5FileSystem.switch, Html5FileSystem.readCall, hd, h, hi, hc, World.readRequest]
    refine ⟨_, serve_done (w.enter_self ..) he rfl, ?_⟩
    simp [World.issue]
  | completes answer =>
    have he : Html5FileSystem.switch (B.imm b) (w.enter call ⟨d, .read buf nbytes⟩) d ppOk
        (.read buf nbytes) = {
          world := (w.enter call ⟨d, .read buf nbytes⟩).setDelegate d
            { w.delegates d with waiting := true, callback := some call }
          result := .int 0
          chaining := true
          request := some (w.readRequest d buf nbytes)
          completion := some (.read buf (some call)) } := by
      have hi := imm_completes hB
      simp only [World.readRequest] at hi
      simp [Html5FileSystem.switch, Html5FileSystem.readCall, hd, h, hi, World.readRequest]
    rw [Delegate.call, serve_chains (w.enter_self ..) he rfl rfl rfl hB rfl]
    obtain ⟨w', hs, hr⟩ := serve_read_completion B (B b (w.readRequest d buf nbytes)).2 call buf
      nbytes 2 answer.code
      (w := (deliver (((w.enter call ⟨d, .read buf nbytes⟩).setDelegate d
        { w.delegates d with waiting := true, callback := some call }).record
          (.issued call (w.readRequest d buf nbytes))) (.read buf (some call)) answer).1)
      (w.enter_self call ⟨d, .read buf nbytes⟩)
      (congrArg Html5FileSystem.waiting (World.setDelegate_self ..))
    exact ⟨w', hs, by rw [hr]; simp [deliver]⟩

/-! ## When `Read` locks -/

/-- The promise of `FileSystem::Read`: for an HTML5 file a turn returns after one request of a worker
and none of the main thread, and only a readable, blocking port whose buffer is empty locks. -/
structure ReadTurnSafe (B : Backend β) (main : Bool) (call : Nat) (s : Process β) (fildes : Int)
    (buf nbytes : Nat) : Prop where
  returns : ∀ d, s.table.getDelegate fildes = some d → s.table.kind d = .html5 →
    ∃ result s', FileSystem.readTurn B main call s fildes buf nbytes = .returns result s' ∧
      s'.world.store.requests = s.world.store.requests ++
        if main then [] else [s.world.readRequest d buf nbytes]
  locks : ∀ s', FileSystem.readTurn B main call s fildes buf nbytes = .locks s' →
    ∃ d, s.table.getDelegate fildes = some d ∧ s.table.kind d = .port ∧ 0 ≤ (s.ports d).id ∧
      (s.ports d).readable ∧ (s.ports d).blocking ∧ s.buffer = []

/-- The condition of the promise: no other call on the HTML5 delegate is in flight and its read does
not complete with -2; a readable, blocking port that has bytes is not asked for none of them. -/
structure ReadTurnOk (B : Backend β) (main : Bool) (s : Process β) (fildes : Int)
    (buf nbytes : Nat) : Prop where
  html5 : ∀ d, s.table.getDelegate fildes = some d → s.table.kind d = .html5 → main = false →
    (s.world.delegates d).waiting = false ∧
      ∀ answer, (B s.backend (s.world.readRequest d buf nbytes)).1 = .completes answer →
        answer.code ≠ -2
  port : ∀ d, s.table.getDelegate fildes = some d → s.table.kind d = .port → 0 ≤ (s.ports d).id →
    (s.ports d).readable → (s.ports d).blocking → s.buffer ≠ [] → nbytes ≠ 0

variable {main : Bool} {s : Process β} {fildes : Int}

theorem readTurn_port (hg : s.table.getDelegate fildes = some d) (hk : s.table.kind d = .port) :
    (∃ s', FileSystem.readTurn B main call s fildes buf nbytes = .locks s') ↔
      0 ≤ (s.ports d).id ∧ (s.ports d).readable ∧ (s.ports d).blocking ∧
        (nbytes = 0 ∨ s.buffer = []) := by
  rw [← PortFileSystem.read_waits]
  simp only [FileSystem.readTurn, hg, hk, Turn.of]
  by_cases h : ((s.ports d).read s.buffer nbytes).1 = -2
  · simp [h]
  · simp [h]

theorem readTurn_html5 (hg : s.table.getDelegate fildes = some d) (hk : s.table.kind d = .html5)
    (hv : (s.world.delegates d).waiting = false) :
    ∃ result s', FileSystem.readTurn B false call s fildes buf nbytes = .of result s' ∧
      s'.world.store.requests = s.world.store.requests ++ [s.world.readRequest d buf nbytes] ∧
      (result = -2 ↔ ∃ answer, (B s.backend (s.world.readRequest d buf nbytes)).1 =
        .completes answer ∧ answer.code = -2) := by
  obtain ⟨w', hc, hr⟩ := call_read B s.backend call buf nbytes hv
  simp only [FileSystem.readTurn, hg, hk, hc]
  refine ⟨_, _, rfl, hr, ?_⟩
  cases (B s.backend (s.world.readRequest d buf nbytes)).1 with
  | refused code h => simp
  | completes answer => simp

/-- A turn that keeps the promise meets the condition. -/
theorem ReadTurnSafe.ok (h : ReadTurnSafe B main call s fildes buf nbytes) :
    ReadTurnOk B main s fildes buf nbytes := by
  constructor
  · intro d hg hk hm
    subst hm
    obtain ⟨result, s', ht, hr⟩ := h.returns d hg hk
    cases hv : (s.world.delegates d).waiting with
    | true =>
      -- The read takes its own first run for a completion and issues nothing.
      obtain ⟨w', hc, hr'⟩ := call_read_waiting B s.backend call buf nbytes hv
      simp [FileSystem.readTurn, hg, hk, hc, Turn.of] at ht
      rw [← ht.2] at hr
      simp [hr'] at hr
    | false =>
      refine ⟨rfl, fun answer ha hcode => ?_⟩
      obtain ⟨result', s'', ht', -, hn⟩ := readTurn_html5 B call buf nbytes hg hk hv
      rw [hn.2 ⟨answer, ha, hcode⟩] at ht'
      rw [ht'] at ht
      cases ht
  · -- A port that is asked for no byte answers -2 whatever it has.
    rintro d hg hk h0 hr hb hne rfl
    obtain ⟨s', ht⟩ : ∃ s', FileSystem.readTurn B main call s fildes buf 0 = .locks s' :=
      (readTurn_port B call buf 0 hg hk).2 ⟨h0, hr, hb, .inl rfl⟩
    obtain ⟨d', -, -, -, -, -, he⟩ := h.locks s' ht
    exact hne he

/-- A turn that meets the condition keeps the promise. -/
theorem ReadTurnOk.safe (h : ReadTurnOk B main s fildes buf nbytes) :
    ReadTurnSafe B main call s fildes buf nbytes := by
  have returns (d : Nat) (hg : s.table.getDelegate fildes = some d)
      (hk : s.table.kind d = .html5) :
      ∃ result s', FileSystem.readTurn B main call s fildes buf nbytes = .returns result s' ∧
        s'.world.store.requests = s.world.store.requests ++
          if main then [] else [s.world.readRequest d buf nbytes] := by
    cases hm : main with
    | true => exact ⟨-1, s, by simp [FileSystem.readTurn, hg, hk, Turn.of], by simp⟩
    | false =>
      obtain ⟨hv, hcode⟩ := h.html5 d hg hk hm
      obtain ⟨result, s', ht, hr, hn⟩ := readTurn_html5 B call buf nbytes hg hk hv
      have hne : result ≠ -2 := fun he => by
        obtain ⟨answer, ha, hc⟩ := hn.1 he
        exact hcode answer ha hc
      exact ⟨result, s', by rw [ht, Turn.of, if_pos hne], by simpa using hr⟩
  refine ⟨returns, fun s' ht => ?_⟩
  cases hg : s.table.getDelegate fildes with
  | none => simp [FileSystem.readTurn, hg] at ht
  | some d =>
    cases hk : s.table.kind d with
    | html5 =>
      obtain ⟨result, s'', ht', -⟩ := returns d hg hk
      rw [ht'] at ht
      cases ht
    | port =>
      obtain ⟨h0, hr, hb, hn⟩ := (readTurn_port B call buf nbytes hg hk).1 ⟨s', ht⟩
      refine ⟨d, rfl, hk, h0, hr, hb, ?_⟩
      by_contra hne
      exact h.port d hg hk h0 hr hb hne (hn.resolve_right hne)

/-- Exactly when a turn of `FileSystem::Read` keeps its promise, from any state, over any backend and
on any thread. -/
theorem readTurn_safe_iff (B : Backend β) (main : Bool) (call : Nat) (s : Process β) (fildes : Int)
    (buf nbytes : Nat) :
    ReadTurnSafe B main call s fildes buf nbytes ↔ ReadTurnOk B main s fildes buf nbytes :=
  ⟨ReadTurnSafe.ok B call buf nbytes, ReadTurnOk.safe B call buf nbytes⟩

/-! ## /dev/stdin -/

/-- A delegate opened on /dev/stdin, whatever `Fcntl` made of it since. -/
inductive OnStdin : PortFileSystem → Prop
  | opened (oflag : BitVec 32) :
      OnStdin (PortFileSystem.open_ {} PortFileSystem.kStdInPath oflag).1
  | fcntl {this : PortFileSystem} (cmd : Int) (ap : BitVec 32) :
      OnStdin this → OnStdin (this.fcntl cmd ap).1

theorem OnStdin.readable {this : PortFileSystem} (h : OnStdin this) :
    ¬ (this.id < 0 ∨ ¬ this.readable) := by
  induction h with
  | opened oflag =>
    show ¬ ((0 : Int) < 0 ∨ ¬ true = true)
    decide
  | @fcntl this cmd ap _ ih =>
    -- `Fcntl` writes neither.
    have hsame : (this.fcntl cmd ap).1.id = this.id ∧
        (this.fcntl cmd ap).1.readable = this.readable := by
      unfold PortFileSystem.fcntl
      split
      · exact ⟨rfl, rfl⟩
      · split <;> exact ⟨rfl, rfl⟩
    rw [hsame.1, hsame.2]
    exact ih

theorem OnStdin.read_eq {this : PortFileSystem} (h : OnStdin this) (buffer : Str) (nbytes : Nat) :
    this.read buffer nbytes =
      if nbytes = 0 ∨ buffer = [] then (if this.blocking then -2 else -1, [], buffer)
      else (((min nbytes buffer.length : Nat) : Int), buffer.take nbytes, buffer.drop nbytes) := by
  rw [PortFileSystem.read_eq, if_neg h.readable]

/-- `Read` of /dev/stdin answers at once with what there is when it is asked for nothing or has
something, and it asks its caller to wait only where a blocking descriptor has none of the bytes it is
asked for; so the loop of `FileSystem::Read` ends without a wait in the former case. -/
structure Prompt (B : Backend β) (main : Bool) (call : Nat) (s : Process β) (fildes : Int) (d : Nat)
    (buf nbytes : Nat) : Prop where
  result : nbytes = 0 ∨ s.buffer ≠ [] →
    ((s.ports d).read s.buffer nbytes).1 = (min nbytes s.buffer.length : Nat)
  waits : ((s.ports d).read s.buffer nbytes).1 = -2 →
    0 < nbytes ∧ s.buffer = [] ∧ (s.ports d).blocking = true
  loop : nbytes = 0 ∨ s.buffer ≠ [] →
    ∃ result s', FileSystem.readTurn B main call s fildes buf nbytes = .returns result s'

/-- Every descriptor open on /dev/stdin reads so exactly when it is asked for a byte or more. -/
theorem stdin_prompt_iff (B : Backend β) (main : Bool) (call : Nat) (s : Process β) (fildes : Int)
    (d buf nbytes : Nat) (hg : s.table.getDelegate fildes = some d) (hk : s.table.kind d = .port)
    (hs : OnStdin (s.ports d)) : Prompt B main call s fildes d buf nbytes ↔ nbytes ≠ 0 := by
  have hread := hs.read_eq s.buffer nbytes
  constructor
  · -- Asked for nothing it answers -2 or -1, whatever there is.
    rintro h rfl
    have := h.result (.inl rfl)
    rw [hread, if_pos (.inl rfl), Nat.zero_min] at this
    dsimp only at this
    split at this <;> exact absurd this (by decide)
  · intro hn
    have hpos : 0 < nbytes := Nat.pos_of_ne_zero hn
    have hsome (hb : nbytes = 0 ∨ s.buffer ≠ []) : ¬ (nbytes = 0 ∨ s.buffer = []) := by
      rintro (h0 | he)
      · exact hn h0
      · exact (hb.resolve_left hn) he
    have hresult (hb : nbytes = 0 ∨ s.buffer ≠ []) :
        ((s.ports d).read s.buffer nbytes).1 = (min nbytes s.buffer.length : Nat) := by
      rw [hread, if_neg (hsome hb)]
    refine ⟨hresult, fun h2 => ?_, fun hb => ?_⟩
    · obtain ⟨-, -, hbl, h0 | he⟩ := (PortFileSystem.read_waits _ _ _).1 h2
      · exact absurd h0 hn
      · exact ⟨hpos, he, hbl⟩
    · have hne : ((s.ports d).read s.buffer nbytes).1 ≠ -2 := by
        rw [hresult hb]
        omega
      simp only [FileSystem.readTurn, hg, hk, Turn.of]
      exact ⟨_, _, if_pos hne⟩

/-- A process with a descriptor on /dev/stdin. -/
def oneStdin (buffer : Str) : Process Unit where
  table := (FileSystem.init.open_ (some PortFileSystem.kStdInPath) 0).1
  ports _ := (PortFileSystem.open_ {} PortFileSystem.kStdInPath oRdOnly).1
  buffer := buffer
  world := World.blank
  backend := ()

theorem stdin_prompt_iff_two :
    (oneStdin (str "a")).table.getDelegate 0 = some 0 ∧ (oneStdin (str "a")).table.kind 0 = .port ∧
      (Prompt (fun b _ => (.completes { code := 0 }, b)) true 0 (oneStdin (str "a")) 0 0 0 2 ↔
        (2 : Nat) ≠ 0) :=
  ⟨by decide, by decide, stdin_prompt_iff _ true 0 (oneStdin (str "a")) 0 0 0 2 (by decide) (by decide)
    (.opened oRdOnly)⟩

/-- A read of no byte waits for a message, although there is a byte. -/
theorem stdin_read_nothing_waits :
    ((oneStdin (str "a")).ports 0).read (str "a") 0 = (-2, [], str "a") ∧
      (∃ s', FileSystem.readTurn (fun b _ => (.completes { code := 0 }, b)) true 0
        (oneStdin (str "a")) 0 0 0 = .locks s') ∧
      ¬ Prompt (fun b _ => (.completes { code := 0 }, b)) true 0 (oneStdin (str "a")) 0 0 0 0 := by
  refine ⟨by decide, ⟨_, rfl⟩, fun h => ?_⟩
  exact absurd (h.waits (by decide)).1 (by decide)

/-! ## A read that fails -/

/-- A backend whose reads complete with `PP_ERROR_FAILED`. -/
def failingReads : Backend Unit := fun b request =>
  (.completes { code := match request with | .read _ _ _ _ => ppErrorFailed | _ => ppOk }, b)

/-- A process that opened one HTML5 file. -/
def oneFile : Process Unit where
  table := (FileSystem.init.open_ (some (str "a")) 0).1
  ports _ := {}
  buffer := []
  world := ((Delegate.run failingReads World.blank () 0 [⟨0, .open_ (str "/a") oRdOnly 0⟩]).map
    Trace.state).getD World.blank
  backend := ()

/-- A read of the file that fails goes on to lock. -/
theorem readTurn_failed_locks :
    (∃ s', FileSystem.readTurn failingReads false 1 oneFile 0 0 1 = .locks s') ∧
      ¬ ReadTurnSafe failingReads false 1 oneFile 0 0 1 := by
  refine ⟨⟨_, rfl⟩, fun h => ?_⟩
  obtain ⟨d, hg, hk, -⟩ := h.locks _ rfl
  cases hg
  exact absurd hk (by decide)

end NaClFs
