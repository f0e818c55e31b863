/-
Reads and writes of several threads on one HTML5 file. `waiting_`, `callback_` and `offset_` belong to
the delegate: as long as the first `Proxy` run of each call finds no transfer in progress and its own
`Arguments` in `callback_`, the calls are one after the other.
-/
import NaClFs.Html5.Refine
import NaClFs.Thread.Call
import Mathlib.Algebra.Ring.Int.Defs

namespace NaClFs

open Rendezvous

/-! ## One call after the other -/

theorem Delegate.run_snoc {β : Type} {B : Backend β} {arguments : Arguments} {v : Result}
    {w' : World} {b' : β} : ∀ {calls : List Arguments} {w : World} {b : β} {call : Nat}
      {t : Trace World β}, Delegate.run B w b call calls = some t → t.blocked = false →
      Delegate.call B t.state t.backend (call + calls.length) arguments = .returned v w' b' →
      Delegate.run B w b call (calls ++ [arguments]) = some ⟨t.results ++ [v], false, w', b'⟩
  | [], w, b, call, t, h, _, hc => by
    cases h
    simp only [List.length_nil, Nat.add_zero] at hc
    simp only [List.nil_append, Delegate.run, hc, Option.map_some]
  | a :: calls, w, b, call, t, h, hb, hc => by
    rw [Delegate.run] at h
    rw [List.cons_append, Delegate.run]
    split at h
    · cases h
    · cases h
      cases hb
    · next result w₁ b₁ h₁ =>
      obtain ⟨t', ht', rfl⟩ := Option.map_eq_some_iff.1 h
      have hc' : Delegate.call B t'.state t'.backend (call + 1 + calls.length) arguments =
          .returned v w' b' := by
        rw [← hc]
        simp [Nat.add_comm, Nat.add_left_comm]
      simp [run_snoc ht' hb hc']

/-- The backend that gives the replies in order. -/
def script : Backend (List Reply)
  | [], _ => (.completes { code := ppOk }, [])
  | reply :: replies, _ => (reply, replies)

/-- The calls made one after the other from the world between calls, with some replies of the
backend, return the results and leave the store. -/
def Serial (w : World) (calls : List Arguments) (results : List Result) (st : Store) : Prop :=
  ∃ replies, ∀ rest, ∃ t, Delegate.run script w (replies ++ rest) 0 calls = some t ∧
    t.results = results ∧ t.blocked = false ∧ t.backend = rest ∧ t.state.store = st ∧
    Quiescent t.state

theorem Serial.nil {w : World} (hq : Quiescent w) : Serial w [] [] w.store :=
  ⟨[], fun _ => ⟨_, rfl, rfl, rfl, rfl, rfl, hq⟩⟩

/-- A call that makes one request goes last. -/
theorem Serial.snoc {w : World} {calls : List Arguments} {results : List Result} {st st' : Store}
    {arguments : Arguments} {v : Result} {reply : Reply} (h : Serial w calls results st)
    (hp : ∀ rest, Line.program script arguments.delegate arguments.function st (reply :: rest) =
      (some v, st', rest)) : Serial w (calls ++ [arguments]) (results ++ [v]) st' := by
  obtain ⟨replies, h⟩ := h
  refine ⟨replies ++ [reply], fun rest => ?_⟩
  obtain ⟨t, ht, hres, hb, hrest, hst, hq⟩ := h (reply :: rest)
  have ha := call_agrees (B := script) (b := t.backend) hq (0 + calls.length) arguments
  rw [hst, hrest, hp rest] at ha
  cases hc : Delegate.call script t.state (reply :: rest) (0 + calls.length) arguments with
  | returned v' w' b' =>
    rw [hc] at ha
    obtain ⟨he, hq'⟩ := ha
    cases he
    -- The trace of the calls before it goes on with this one.
    rw [← hrest] at hc
    refine ⟨_, by rw [List.append_assoc]; exact Delegate.run_snoc ht hb hc, ?_, rfl, rfl, rfl, hq'⟩
    rw [hres]
  | blocked w' b' => rw [hc] at ha; cases ha
  | spent => rw [hc] at ha; exact ha.elim

/-! ## Transfers -/

/-- A read or a write. -/
inductive Transfer
  | read (buf nbytes : Nat)
  | write (buf : Str)

namespace Transfer

def function : Transfer → Function
  | .read buf nbytes => .read buf nbytes
  | .write buf => .write buf

/-- The request of the transfer on the file as it is. -/
def request (file : OpenFile) : Transfer → Request
  | .read buf nbytes => .read file.fileIo file.offset buf (toInt nbytes)
  | .write buf => .write file.fileIo file.offset buf (toInt buf.length)

/-- The completion of that request when `callback` was handed over. -/
def completion (callback : Option Nat) : Transfer → Completion
  | .read buf _ => .read buf callback
  | .write _ => .proxy callback

/-- What the completed transfer does to the store. -/
def landed (d : Nat) (answer : Answer) (s : Store) : Transfer → Store
  | .read buf _ => { s with
      buffers := Function.update s.buffers buf
        (answer.data ++ (s.buffers buf).drop answer.data.length)
      files := Function.update s.files d ((s.files d).advance answer.code) }
  | .write _ => { s with
      files := Function.update s.files d ((s.files d).advance answer.code).grow }

end Transfer

/-- The store after a request. -/
def Store.asked (s : Store) (request : Request) : Store :=
  { s with requests := s.requests ++ [request] }

variable {x : Transfer} {d : Nat} {s : Store}

theorem program_refused {code : Int} (h : code ≠ ppOkCompletionPending) (rest : List Reply) :
    Line.program script d x.function s (.refused code h :: rest) =
      (some (.int (-1)), s.asked (x.request (s.files d)), rest) := by
  cases x <;> rfl

theorem program_completes (answer : Answer) (rest : List Reply) :
    Line.program script d x.function s (.completes answer :: rest) =
      (some (.int answer.code), x.landed d answer (s.asked (x.request (s.files d))), rest) := by
  cases x <;> rfl

variable {w : World} {c : Nat} {imm : Request → Int}

/-- The first run of a transfer, when none is in progress. -/
theorem proxy_start (ha : w.arguments c = ⟨d, x.function⟩) (hw : (w.delegates d).waiting = false)
    (code : Int) :
    let request := x.request (w.delegates d).toOpenFile
    proxy imm w c code =
      if imm request = ppOkCompletionPending then
        { world := (w.setDelegate d { w.delegates d with waiting := true }).record (.issued c request)
          result := .int 0
          chaining := true
          request := some request
          completion := some (x.completion (w.delegates d).callback) }
      else
        { world := w.record (.issued c request), result := .int (-1), request := some request } := by
  cases x <;>
    simp only [proxy, ha, Transfer.function, Transfer.request, Transfer.completion,
      Html5FileSystem.switch, Html5FileSystem.readCall, Html5FileSystem.writeCall, hw] <;>
    grind [World.issue]

/-- What the run of the completion leaves. -/
structure Landed (w : World) (d c : Nat) (x : Transfer) (answer : Answer) (e : Entry) : Prop where
  result : e.result = .int answer.code
  chaining : e.chaining = false
  completion : e.completion = none
  store : e.world.store = x.landed d answer w.store
  waiting : (e.world.delegates d).waiting = false
  arguments : e.world.arguments = w.arguments
  log : e.world.log = w.log ++ [.delivered (x.completion (some c)) answer]

/-- The run of the completion of a transfer. -/
theorem proxy_landed (ha : w.arguments c = ⟨d, x.function⟩) (hw : (w.delegates d).waiting = true)
    (imm : Request → Int) (answer : Answer) :
    ∃ w', deliver w (x.completion (some c)) answer = (w', some c) ∧
      Landed w d c x answer (proxy imm w' c answer.code) := by
  cases x with
  | read buf nbytes =>
    refine ⟨(w.record (.delivered (.read buf (some c)) answer)).setBuffer buf answer.data, rfl, ?_⟩
    have he : proxy imm ((w.record (.delivered (.read buf (some c)) answer)).setBuffer buf answer.data)
        c answer.code = {
          world := ((w.record (.delivered (.read buf (some c)) answer)).setBuffer buf
            answer.data).setDelegate d
              { w.delegates d with waiting := false, toOpenFile := (w.delegates d).advance answer.code }
          result := .int answer.code } := by
      simp only [proxy, World.setBuffer, World.record, ha, Transfer.function, Html5FileSystem.switch,
        Html5FileSystem.readCall, hw, if_true, World.issue]
    rw [he]
    exact ⟨rfl, rfl, rfl, by simp [Transfer.landed], by simp, rfl, rfl⟩
  | write buf =>
    refine ⟨w.record (.delivered (.proxy (some c)) answer), rfl, ?_⟩
    have he : proxy imm (w.record (.delivered (.proxy (some c)) answer)) c answer.code = {
        world := (w.record (.delivered (.proxy (some c)) answer)).setDelegate d
          { w.delegates d with
            waiting := false, toOpenFile := ((w.delegates d).advance answer.code).grow }
        result := .int answer.code } := by
      simp only [proxy, World.record, ha, Transfer.function, Html5FileSystem.switch,
        Html5FileSystem.writeCall, hw, if_true, World.issue]
    rw [he]
    exact ⟨rfl, rfl, rfl, by simp [Transfer.landed], by simp, rfl, rfl⟩

/-! ## Logs -/

/-- The requests issued for a call. -/
def requestsOf (c : Nat) (log : List Event) : List Request :=
  log.filterMap fun
    | .issued c' request => if c' = c then some request else none
    | .delivered _ _ => none

theorem requestsOf_append (c : Nat) (log log' : List Event) :
    requestsOf c (log ++ log') = requestsOf c log ++ requestsOf c log' := List.filterMap_append ..

theorem requestsOf_issued (c : Nat) (request : Request) :
    requestsOf c [.issued c request] = [request] := by
  simp [requestsOf]

theorem requestsOf_issued_of_ne {c c' : Nat} (h : c' ≠ c) (request : Request) :
    requestsOf c [.issued c' request] = [] := by
  simp [requestsOf, h]

theorem requestsOf_delivered (c : Nat) (p : Completion) (answer : Answer) :
    requestsOf c [.delivered p answer] = [] := rfl

theorem Transfer.completion_inj {x x' : Transfer} {c c' : Nat}
    (h : x.completion (some c) = x'.completion (some c')) : c = c' := by
  cases x <;> cases x' <;> cases h <;> rfl

/-- A transfer that is over: one request was made, for its own buffer, and the result is the code it
was completed with, or -1 where the backend refused it. -/
structure Transferred (x : Transfer) (c : Nat) (v : Result) (log : List Event) : Prop where
  request : ∃ file, requestsOf c log = [x.request file]
  result : (∃ answer, .delivered (x.completion (some c)) answer ∈ log ∧ v = .int answer.code) ∨
    v = .int (-1) ∧ ∀ answer, .delivered (x.completion (some c)) answer ∉ log

/-- Events of other calls change nothing. -/
theorem Transferred.append {v : Result} {log : List Event} {e : Event} (h : Transferred x c v log)
    (hr : requestsOf c [e] = []) (hd : ∀ answer, e ≠ .delivered (x.completion (some c)) answer) :
    Transferred x c v (log ++ [e]) where
  request := by
    obtain ⟨file, hf⟩ := h.request
    exact ⟨file, by rw [requestsOf_append, hf, hr, List.append_nil]⟩
  result := by
    rcases h.result with ⟨answer, ha, hv⟩ | ⟨hv, hn⟩
    · exact .inl ⟨answer, List.mem_append_left _ ha, hv⟩
    · refine .inr ⟨hv, ?_⟩
      intro answer ha
      rcases List.mem_append.1 ha with ha | ha
      · exact hn answer ha
      · exact hd answer (List.mem_singleton.1 ha).symm

/-- The count a transfer moves the offset by. -/
def Result.count : Result → Int
  | .int v => max 0 v
  | _ => 0

/-- A transfer moves the offset by its count. -/
theorem landed_offset (answer : Answer) :
    ((x.landed d answer (s.asked (x.request (s.files d)))).files d).offset =
      (s.files d).offset + (Result.int answer.code).count := by
  cases x <;>
    simp only [Transfer.landed, Store.asked, Function.update_self, OpenFile.advance, OpenFile.grow,
      Result.count] <;>
    split <;> omega

/-! ## Orderly states -/

/-- No request is in flight and the store is `s`; or one is, of a call in progress, made on `s`. -/
inductive Flight (d : Nat) (u : Delegate.State) (log : List Event) (s : Store) : Prop
  | none (hf : u.flights = []) (hw : (u.world.delegates d).waiting = false) (hs : u.world.store = s)
  | some (c : Nat) (x : Transfer)
      (hf : u.flights = [(c, x.request (s.files d), x.completion (some c))])
      (ha : u.world.arguments c = ⟨d, x.function⟩) (hw : (u.world.delegates d).waiting = true)
      (hr : requestsOf c log = [x.request (s.files d)])
      (hs : u.world.store = s.asked (x.request (s.files d)))

/-- The calls that finished did so one after the other, from the world `w` on, and left the store `s`;
`log` is what was recorded since. -/
structure Orderly (d : Nat) (w : World) (u : Delegate.State) (log : List Event) (s : Store) : Prop where
  arguments : ∀ c, c < u.calls → ∃ x : Transfer, u.world.arguments c = ⟨d, x.function⟩
  recorded : u.world.log = w.log ++ log
  flight : Flight d u log s
  serial : Serial w (u.finished.map fun x => u.world.arguments x.1) (u.finished.map Prod.snd) s
  offset : (s.files d).offset = (w.delegates d).offset + (u.finished.map fun x => x.2.count).sum
  unissued : ∀ c, c ∉ u.finished.map Prod.fst → (∀ p, (c, p) ∉ u.flights) → requestsOf c log = []
  undelivered : ∀ c, c ∉ u.finished.map Prod.fst → ∀ (x : Transfer) answer,
    .delivered (x.completion (some c)) answer ∉ log
  done : ∀ c v, (c, v) ∈ u.finished → ∃ x : Transfer, u.world.arguments c = ⟨d, x.function⟩ ∧
    Transferred x c v log

variable {u u' : Delegate.State} {log : List Event}

theorem Orderly.init (hq : Quiescent w) :
    Orderly d w ({ world := w } : Delegate.State) [] w.store where
  arguments _ h := absurd h (Nat.not_lt_zero _)
  recorded := (List.append_nil _).symm
  flight := .none rfl (hq d).waiting rfl
  serial := .nil hq
  offset := by simp
  unissued _ _ _ := rfl
  undelivered _ _ _ _ := List.not_mem_nil
  done _ _ h := absurd h List.not_mem_nil

/-- Steps that make no run. -/
theorem Orderly.of_eq (h : Orderly d w u log s) (hw : u'.world = u.world) (hc : u'.calls = u.calls)
    (hf : u'.finished = u.finished) (hp : u'.flights.Perm u.flights) : Orderly d w u' log s where
  arguments := by rw [hc, hw]; exact h.arguments
  recorded := by rw [hw]; exact h.recorded
  flight := by
    cases h.flight with
    | none hf hw' hs => exact .none (by rw [hf] at hp; exact hp.eq_nil) (by rwa [hw]) (by rwa [hw])
    | some c x hf ha hw' hr hs =>
      refine .some c x ?_ (by rwa [hw]) (by rwa [hw]) hr (by rwa [hw])
      rw [hf] at hp
      exact hp.eq_singleton
  serial := by rw [hf, hw]; exact h.serial
  offset := by rw [hf]; exact h.offset
  unissued := by
    rw [hf]
    exact fun c hc hn => h.unissued c hc fun p hp' => hn p (hp.mem_iff.2 hp')
  undelivered := by rw [hf]; exact h.undelivered
  done := by rw [hf, hw]; exact h.done

/-- A caller fills in its `Arguments` and sets `callback_`. -/
theorem Orderly.enter (h : Orderly d w u log s) (hi : u.Inv) {t : Nat} {q : Arguments}
    (hq : ∃ x : Transfer, q = ⟨d, x.function⟩) :
    Orderly d w ({ u with
      world := u.world.enter u.calls q
      calls := u.calls + 1 }.setThread t (.entered u.calls)) log s where
  arguments c hc := by
    rcases Nat.lt_succ_iff_lt_or_eq.1 hc with hc | rfl
    · obtain ⟨x, hx⟩ := h.arguments c hc
      exact ⟨x, by rw [← hx]; exact World.enter_of_ne _ (Nat.ne_of_lt hc) _⟩
    · obtain ⟨x, rfl⟩ := hq
      exact ⟨x, World.enter_self ..⟩
  recorded := h.recorded
  flight := by
    have hd : ((u.world.enter u.calls q).delegates d).waiting = (u.world.delegates d).waiting := by
      simp only [World.enter, Function.update_apply]
      split
      · next hd => rw [hd]
      · rfl
    cases h.flight with
    | none hf hw hs => exact .none hf (hd.trans hw) ((World.store_enter ..).trans hs)
    | some c x hf ha hw hr hs =>
      refine .some c x hf ?_ (hd.trans hw) hr ((World.store_enter ..).trans hs)
      rw [← ha]
      refine World.enter_of_ne _ (Nat.ne_of_lt ?_) _
      -- A call with a request in flight is that of a caller, so it is an earlier one.
      have hl : c ∈ u.labels := Sys.mem_labels_of_flight (by rw [hf]; exact List.mem_singleton_self _)
      obtain ⟨t, ht⟩ := (hi.served c hl).1
      exact hi.base.lt t c (Pc.call_of_served ht)
  serial := by
    have : (u.finished.map fun x => (u.world.enter u.calls q).arguments x.1) =
        u.finished.map fun x => u.world.arguments x.1 :=
      List.map_congr_left fun x hx => World.enter_of_ne _ (Nat.ne_of_lt (hi.results _ _ hx).2) _
    exact this ▸ h.serial
  offset := h.offset
  unissued := h.unissued
  undelivered := h.undelivered
  done c v hc := by
    obtain ⟨x, hx, ht⟩ := h.done c v hc
    exact ⟨x, by rw [← hx]; exact World.enter_of_ne _ (Nat.ne_of_lt (hi.results _ _ hc).2) _, ht⟩

/-- What the condition asks of a step. -/
def Alone (d : Nat) (u : Delegate.State) : Delegate.Action → Prop
  | .run _ => ∀ c queue, u.queue = (c, .start) :: queue →
      (u.world.delegates d).waiting = false ∧ (u.world.delegates d).callback = some c
  | _ => True

/-- The runs that are looked at: reads and writes of one delegate, with the right wake-ups. -/
def Transfers (d : Nat) (u : Delegate.State) : Delegate.Action → Prop
  | .enter _ q => ∃ x : Transfer, q = ⟨d, x.function⟩
  | .signal (some t) => ∀ c, u.main = .signalling c → u.threads t = .waiting c
  | _ => True

/-- A completion about to run is that of the only request in flight. -/
theorem Orderly.flying (h : Orderly d w u log s) {c : Nat} {p : Request × Completion} {answer : Answer}
    {queue : List (Nat × Job (Request × Completion) Answer)}
    (hq : u.queue = (c, .done p answer) :: queue) :
    ∃ x : Transfer, p = (x.request (s.files d), x.completion (some c)) ∧
      u.world.arguments c = ⟨d, x.function⟩ ∧ (u.world.delegates d).waiting = true ∧
      u.flights = [(c, p)] ∧ queue.filterMap Job.flight ++ u.pending = [] ∧
      requestsOf c log = [x.request (s.files d)] ∧ u.world.store = s.asked (x.request (s.files d)) := by
  have hf := Sys.flights_done hq
  cases h.flight with
  | none hf' => rw [hf'] at hf; cases hf
  | some c₀ x hf' ha hw hr hs =>
    rw [hf'] at hf
    obtain ⟨he, hqueue⟩ := List.cons_eq_cons.1 hf
    cases he
    exact ⟨x, rfl, ha, hw, hf', hqueue.symm, hr, hs⟩

theorem Orderly.undisturbed (h : Orderly d w u log s) {a : Delegate.Action} (ht : Transfers d u a) :
    Delegate.Undisturbed u a := by
  cases a with
  | run imm =>
    intro c p answer queue hq c' hc'
    obtain ⟨x, rfl, -⟩ := h.flying hq
    cases x <;> cases hc' <;> rfl
  | signal t => cases t with
    | none => trivial
    | some t => exact ht
  | _ => trivial

/-- An event of the call `c` alone. -/
def Event.Only (e : Event) (c : Nat) : Prop :=
  ∀ c', c' ≠ c → requestsOf c' [e] = [] ∧
    ∀ (x : Transfer) answer, e ≠ .delivered (x.completion (some c')) answer

theorem Event.Only.issued (c : Nat) (request : Request) : (Event.issued c request).Only c :=
  fun _ hc => ⟨requestsOf_issued_of_ne hc.symm _, nofun⟩

theorem Event.Only.delivered (c : Nat) (x : Transfer) (answer : Answer) :
    (Event.delivered (x.completion (some c)) answer).Only c := by
  refine fun c' hc => ⟨rfl, fun x' answer' h => hc ?_⟩
  exact (Transfer.completion_inj (Event.delivered.inj h).1).symm

variable {c : Nat} {queue : List (Nat × Job (Request × Completion) Answer)} {w' : World} {e : Event}

/-- What the event leaves alone. -/
theorem Orderly.others (h : Orderly d w u log s) (ht : u.Turn c queue) (he : e.Only c) :
    (∀ c', c' ≠ c → c' ∉ u.finished.map Prod.fst → requestsOf c' log = [] →
      requestsOf c' (log ++ [e]) = []) ∧
    (∀ c', c' ≠ c → c' ∉ u.finished.map Prod.fst → ∀ (x : Transfer) answer,
      .delivered (x.completion (some c')) answer ∉ log ++ [e]) ∧
    ∀ c' v, (c', v) ∈ u.finished → ∃ x : Transfer, u.world.arguments c' = ⟨d, x.function⟩ ∧
      Transferred x c' v (log ++ [e]) := by
  refine ⟨?_, ?_, ?_⟩
  · intro c' hc hf hn
    rw [requestsOf_append, hn, (he c' hc).1, List.nil_append]
  · intro c' hc hf x answer hm
    rcases List.mem_append.1 hm with hm | hm
    · exact h.undelivered c' hf x answer hm
    · exact (he c' hc).2 x answer (List.mem_singleton.1 hm).symm
  · intro c' v hc
    obtain ⟨x, hx, ht'⟩ := h.done c' v hc
    -- A finished call is not the one whose turn it is.
    have hne : c' ≠ c := fun h' => ht.unfinished (h' ▸ List.mem_map_of_mem hc)
    exact ⟨x, hx, ht'.append (he c' hne).1 fun answer => (he c' hne).2 x answer⟩

/-- A run that is final, after which nothing is in flight. -/
theorem Orderly.finish {s' : Store} {v : Result} {reply : Reply} (h : Orderly d w u log s)
    (ht : u.Turn c queue) (ha : u.world.arguments c = ⟨d, x.function⟩)
    (harguments : w'.arguments = u.world.arguments) (hlog : w'.log = u.world.log ++ [e])
    (hflights : queue.filterMap Job.flight ++ u.pending = [])
    (hflight : ∀ c', c' ≠ c → ∀ p, (c', p) ∉ u.flights)
    (hwaiting : (w'.delegates d).waiting = false) (hstore : w'.store = s')
    (hprogram : ∀ rest, Line.program script d x.function s (reply :: rest) = (some v, s', rest))
    (hoffset : (s'.files d).offset = (s.files d).offset + v.count) (he : e.Only c)
    (hdone : Transferred x c v (log ++ [e])) :
    Orderly d w ({ u with queue := queue }.ran w' c ⟨v, true, none⟩) (log ++ [e]) s' := by
  obtain ⟨hunissued, hundelivered, hdone'⟩ := h.others ht he
  have hmem {c' : Nat} (hc' : c' ∉ (u.finished ++ [(c, v)]).map Prod.fst) :
      c' ≠ c ∧ c' ∉ u.finished.map Prod.fst := by
    simp only [List.map_append, List.map_cons, List.map_nil, List.mem_append, List.mem_singleton,
      not_or] at hc'
    exact hc'.symm
  exact {
    arguments := by simpa only [Sys.ran_calls, Sys.ran_world, harguments] using h.arguments
    recorded := by rw [Sys.ran_world, hlog, h.recorded, List.append_assoc]
    flight := .none hflights hwaiting hstore
    serial := by
      simp only [Sys.ran_finished_final, Sys.ran_world, harguments, List.map_append, List.map_cons,
        List.map_nil, ha]
      exact h.serial.snoc hprogram
    offset := by
      rw [hoffset, h.offset]
      simp [Int.add_assoc]
    unissued := fun c' hc' _ =>
      hunissued c' (hmem hc').1 (hmem hc').2 (h.unissued c' (hmem hc').2 (hflight c' (hmem hc').1))
    undelivered := fun c' hc' => hundelivered c' (hmem hc').1 (hmem hc').2
    done := by
      intro c' v' hc'
      simp only [Sys.ran_world, harguments]
      rcases List.mem_append.1 hc' with hc' | hc'
      · exact hdone' c' v' hc'
      · cases List.mem_singleton.1 hc'
        exact ⟨x, ha, hdone⟩ }

/-- A run that leaves the request of its transfer in flight, when nothing was. -/
theorem Orderly.chain {v : Result} (h : Orderly d w u log s) (ht : u.Turn c queue)
    (ha : u.world.arguments c = ⟨d, x.function⟩) (harguments : w'.arguments = u.world.arguments)
    (hlog : w'.log = u.world.log ++ [.issued c (x.request (s.files d))]) (hflights : u.flights = [])
    (hqueue : queue.filterMap Job.flight ++ u.pending = [])
    (hwaiting : (w'.delegates d).waiting = true)
    (hstore : w'.store = s.asked (x.request (s.files d))) :
    Orderly d w ({ u with queue := queue }.ran w' c
      ⟨v, false, some (x.request (s.files d), x.completion (some c))⟩)
      (log ++ [.issued c (x.request (s.files d))]) s := by
  obtain ⟨hunissued, hundelivered, hdone⟩ := h.others ht (.issued c (x.request (s.files d)))
  have hnone : requestsOf c log = [] := h.unissued c ht.unfinished (by simp [hflights])
  have hfl : Sys.flights ({ u with queue := queue }.ran w' c
      ⟨v, false, some (x.request (s.files d), x.completion (some c))⟩) =
      [(c, x.request (s.files d), x.completion (some c))] := by
    have : queue.filterMap Job.flight ++
        (u.pending ++ [(c, x.request (s.files d), x.completion (some c))]) =
        [(c, x.request (s.files d), x.completion (some c))] := by
      rw [← List.append_assoc, hqueue, List.nil_append]
    exact this
  exact {
    arguments := by simpa only [Sys.ran_calls, Sys.ran_world, harguments] using h.arguments
    recorded := by rw [Sys.ran_world, hlog, h.recorded, List.append_assoc]
    flight := .some c x hfl (by rw [Sys.ran_world, harguments, ha]) hwaiting
      (by rw [requestsOf_append, hnone, requestsOf_issued, List.nil_append]) hstore
    serial := by simpa only [Sys.ran_finished_chained, Sys.ran_world, harguments] using h.serial
    offset := h.offset
    unissued := fun c' hc' hn => by
      -- The call that ran now has a request in flight.
      have hne : c' ≠ c := by
        rintro rfl
        refine hn (x.request (s.files d), x.completion (some c')) ?_
        rw [hfl]
        exact List.mem_singleton_self _
      exact hunissued c' hne hc' (h.unissued c' hc' (by simp [hflights]))
    undelivered := fun c' hc' => by
      by_cases hne : c' = c
      · subst hne
        intro x' answer hm
        exact h.undelivered c' hc' x' answer (by simpa using hm)
      · exact hundelivered c' hne hc'
    done := by simpa only [Sys.ran_finished_chained, Sys.ran_world, harguments] using hdone }

/-- The first run of a call, when nothing is in flight. -/
theorem Orderly.start (h : Orderly d w u log s) (hi : u.Inv) (hq : u.queue = (c, .start) :: queue)
    (hw : (u.world.delegates d).waiting = false) (hc : (u.world.delegates d).callback = some c)
    (imm : Request → Int) :
    ∃ log' s', Orderly d w ({ u with queue := queue }.ran (proxy imm u.world c ppOk).world c
      (proxy imm u.world c ppOk).ran) log' s' := by
  have ht := hi.turn hq
  obtain ⟨x, ha⟩ := h.arguments c ht.lt
  have hnone : u.flights = [] ∧ u.world.store = s := by
    cases h.flight with
    | none hf hw' hs => exact ⟨hf, hs⟩
    | some c x hf ha hw' => rw [hw] at hw'; cases hw'
  obtain ⟨hf, rfl⟩ := hnone
  have hqueue := (Sys.flights_start hq).symm.trans hf
  have hrequest : requestsOf c (log ++ [.issued c (x.request (u.world.store.files d))]) =
      [x.request (u.world.store.files d)] := by
    rw [requestsOf_append, h.unissued c ht.unfinished (by simp [hf]), requestsOf_issued,
      List.nil_append]
  rw [proxy_start ha hw]
  -- The backend accepts the request, which then waits for its completion, or refuses it.
  by_cases himm : imm (x.request (u.world.delegates d).toOpenFile) = ppOkCompletionPending
  · rw [if_pos himm, hc]
    exact ⟨_, _, h.chain ht ha rfl rfl hf hqueue (by simp [World.record]) (by simp [Store.asked])⟩
  · rw [if_neg himm]
    have hstore : (u.world.record (.issued c (x.request (u.world.delegates d).toOpenFile))).store =
        u.world.store.asked (x.request (u.world.store.files d)) := by
      simp [Store.asked]
    refine ⟨_, _, h.finish ht ha rfl rfl hqueue (by simp [hf]) hw hstore
      (program_refused himm) ?_ (.issued c _) ⟨⟨_, hrequest⟩, .inr ⟨rfl, fun answer hm => ?_⟩⟩⟩
    · simp only [Store.asked, Result.count]
      omega
    · exact h.undelivered c ht.unfinished x answer (by simpa using hm)

/-- The run of a completion. -/
theorem Orderly.resume {p : Request × Completion} {answer : Answer} {imm : Request → Int}
    {r : Option (Nat × Ran Result (Request × Completion))} (h : Orderly d w u log s) (hi : u.Inv)
    (hq : u.queue = (c, .done p answer) :: queue)
    (hr : Delegate.service.resume imm u.world p answer = (w', r)) :
    ∃ v log' s', r = some (c, ⟨v, true, none⟩) ∧
      Orderly d w ({ u with queue := queue }.ran w' c ⟨v, true, none⟩) log' s' := by
  have ht := hi.turn hq
  obtain ⟨x, rfl, ha, hw, hf, hqueue, hreq, hs⟩ := h.flying hq
  obtain ⟨w₁, hd, hl⟩ := proxy_landed ha hw imm answer
  simp only [Delegate.service, hd, Prod.mk.injEq] at hr
  obtain ⟨rfl, rfl⟩ := hr
  have hran : (proxy imm w₁ c answer.code).ran = ⟨.int answer.code, true, none⟩ := by
    simp [Entry.ran, hl.result, hl.chaining, hl.completion]
  refine ⟨_, _, _, by rw [hran], h.finish ht ha hl.arguments hl.log hqueue ?_ hl.waiting
    (hl.store.trans (by rw [hs])) (program_completes answer) (landed_offset answer)
    (.delivered c x answer)
    ⟨⟨s.files d, ?_⟩, .inl ⟨answer, List.mem_append_right _ (List.mem_singleton_self _), rfl⟩⟩⟩
  · intro c' hne p hp
    rw [hf] at hp
    cases List.mem_singleton.1 hp
    exact hne rfl
  · rw [requestsOf_append, hreq, requestsOf_delivered, List.append_nil]

theorem Orderly.step {a : Delegate.Action} (h : Orderly d w u log s) (hi : u.Inv)
    (ht : Transfers d u a) (ha : Alone d u a) (hs : Delegate.step u a = some u') :
    ∃ log' s', Orderly d w u' log' s' := by
  cases Sys.step_spec hs with
  | enter t q => exact ⟨log, s, h.enter hi ht⟩
  | post t c hpc =>
    refine ⟨log, s, h.of_eq rfl rfl rfl (.of_eq ?_)⟩
    simp [Sys.flights, Sys.setThread, Job.flight]
  | complete n answer c p hp => exact ⟨log, s, h.of_eq rfl rfl rfl (Sys.flights_complete answer hp)⟩
  | start imm c queue w' r hm hq hr =>
    cases hr
    obtain ⟨hw, hc⟩ := ha c queue hq
    exact h.start hi hq hw hc imm
  | resume imm c c' p answer queue w' r hm hq hr =>
    obtain ⟨v, log', s', he, h'⟩ := h.resume hi hq hr
    cases he
    exact ⟨log', s', h'⟩
  | drop imm c p answer queue w' hm hq hr =>
    obtain ⟨v, log', s', he, -⟩ := h.resume hi hq hr
    cases he
  | _ => exact ⟨log, s, h.of_eq rfl rfl rfl (.refl _)⟩

/-! ## Runs -/

theorem run_orderly {as : List Delegate.Action} (hq : Quiescent w)
    (hg : Run.Guarded Delegate.step (fun u a => Transfers d u a ∧ Alone d u a) { world := w } as)
    (hr : Run.run Delegate.step { world := w } as = some u) :
    u.Inv ∧ ∃ log s, Orderly d w u log s := by
  refine Run.invariant (I := fun u => u.Inv ∧ ∃ log s, Orderly d w u log s) ?_
    ⟨.init w, [], w.store, .init hq⟩ hg hr
  rintro u a u' ⟨hi, log, s, h⟩ ⟨ht, ha⟩ hs
  exact ⟨hi.step Delegate.service_lawful (h.undisturbed ht).own hs, h.step hi ht ha hs⟩

/-- In every run of reads and writes on one delegate, by any number of threads, in which the first
`Proxy` run of each call finds no transfer in progress and its own `Arguments` in `callback_`: each
call that returned made one request, for its own buffer, and returned the code that request was
completed with; and when all have returned, the offset has moved by the sum of the positive counts,
and the results, the requests and all that is left behind are those of the calls made one after the
other in the order they finished. -/
theorem transfers_serial {as : List Delegate.Action} (hq : Quiescent w)
    (hg : Run.Guarded Delegate.step (fun u a => Transfers d u a ∧ Alone d u a) { world := w } as)
    (hr : Run.run Delegate.step { world := w } as = some u) :
    (∃ log, u.world.log = w.log ++ log ∧ ∀ c r, (c, r) ∈ u.returned →
      ∃ x v, u.world.arguments c = ⟨d, Transfer.function x⟩ ∧ r = some v ∧ Transferred x c v log) ∧
    ((∀ t, u.threads t = .idle) →
      ∃ order : List (Nat × Result), u.returned.Perm (order.map fun x => (x.1, some x.2)) ∧
        (∀ c, c < u.calls → c ∈ order.map Prod.fst) ∧
        (u.world.delegates d).offset =
          (w.delegates d).offset + (order.map fun x => x.2.count).sum ∧
        ∃ replies t,
          Delegate.run script w replies 0 (order.map fun x => u.world.arguments x.1) = some t ∧
          t.results = order.map Prod.snd ∧ t.blocked = false ∧ t.state.store = u.world.store) := by
  obtain ⟨hi, log, s, h⟩ := run_orderly hq hg hr
  refine ⟨⟨log, h.recorded, ?_⟩, ?_⟩
  · intro c r hc
    obtain ⟨v, rfl, hv⟩ := hi.returned c r hc
    obtain ⟨x, hx, ht⟩ := h.done c v hv
    exact ⟨x, v, hx, rfl, ht⟩
  · intro hidle
    -- Nobody is left to be served, so no transfer is in flight and the store is that of the calls.
    have hs : u.world.store = s := by
      cases h.flight with
      | none _ _ hs => exact hs
      | some c x hf => rw [hi.flights_nil hidle] at hf; cases hf
    obtain ⟨hperm, hcalls⟩ := hi.returned_perm hidle
    obtain ⟨replies, hserial⟩ := h.serial
    obtain ⟨t, ht, hres, hb, -, hst, -⟩ := hserial []
    refine ⟨u.finished, hperm, hcalls, ?_, replies ++ [], t, ht, hres, hb, hst.trans hs.symm⟩
    rw [← h.offset, ← hs]
    rfl

/-- A file that was opened. -/
def readable : World :=
  World.blank.setDelegate 0
    { World.blank.delegates 0 with fileRef := some ⟨0, str "/a"⟩, fileIo := some 0 }

theorem readable_quiescent : Quiescent readable := by
  intro d
  by_cases h : d = 0
  · subst h
    exact ⟨rfl, rfl⟩
  · rw [readable, World.setDelegate_of_ne _ h]
    exact blank_quiescent d

/-- A worker reads, and another one enters a write before the read has completed. -/
def readThenWrite : List Delegate.Action :=
  [.enter 0 ⟨0, .read 0 5⟩, .lock 0, .post 0, .wait 0, .run pendingAlways,
    .complete 0 ⟨5, none, str "hello", []⟩, .enter 1 ⟨0, .write (str "abc")⟩, .lock 1, .post 1, .wait 1,
    .run pendingAlways, .mainLock, .signal (some 0), .mainUnlock, .lock 0, .leave 0,
    .run pendingAlways, .complete 0 ⟨3, none, [], []⟩, .run pendingAlways, .mainLock, .signal (some 1),
    .mainUnlock, .lock 1, .leave 1]

theorem transfers_serial_read_then_write :
    ∃ u : Delegate.State, Run.run Delegate.step { world := readable } readThenWrite = some u ∧
      u.returned = [(0, some (.int 5)), (1, some (.int 3))] ∧ (u.world.delegates 0).offset = 8 ∧
      ∃ log, u.world.log = readable.log ++ log ∧ ∀ c r, (c, r) ∈ u.returned →
        ∃ x v, u.world.arguments c = ⟨0, Transfer.function x⟩ ∧ r = some v ∧ Transferred x c v log := by
  have hg : Run.Guarded Delegate.step (fun u a => Transfers 0 u a ∧ Alone 0 u a)
      { world := readable } readThenWrite :=
    .cons ⟨⟨.read 0 5, rfl⟩, trivial⟩ rfl <| .cons ⟨trivial, trivial⟩ rfl <|
    .cons ⟨trivial, trivial⟩ rfl <| .cons ⟨trivial, trivial⟩ rfl <|
    .cons ⟨trivial, fun c q h => by cases h; exact ⟨rfl, rfl⟩⟩ rfl <| .cons ⟨trivial, trivial⟩ rfl <|
    .cons ⟨⟨.write (str "abc"), rfl⟩, trivial⟩ rfl <| .cons ⟨trivial, trivial⟩ rfl <|
    .cons ⟨trivial, trivial⟩ rfl <| .cons ⟨trivial, trivial⟩ rfl <|
    .cons ⟨trivial, fun c q h => nomatch h⟩ rfl <| .cons ⟨trivial, trivial⟩ rfl <|
    .cons ⟨fun c h => by cases h; rfl, trivial⟩ rfl <| .cons ⟨trivial, trivial⟩ rfl <|
    .cons ⟨trivial, trivial⟩ rfl <| .cons ⟨trivial, trivial⟩ rfl <|
    .cons ⟨trivial, fun c q h => by cases h; exact ⟨rfl, rfl⟩⟩ rfl <| .cons ⟨trivial, trivial⟩ rfl <|
    .cons ⟨trivial, fun c q h => nomatch h⟩ rfl <| .cons ⟨trivial, trivial⟩ rfl <|
    .cons ⟨fun c h => by cases h; rfl, trivial⟩ rfl <| .cons ⟨trivial, trivial⟩ rfl <|
    .cons ⟨trivial, trivial⟩ rfl <| .cons ⟨trivial, trivial⟩ rfl trivial
  exact ⟨_, rfl, rfl, rfl, (transfers_serial readable_quiescent hg rfl).1⟩

/-- The second reader's `Proxy` runs between the request of the first one and its completion: it
returns 0 without a request, and the first read is requested twice, at the same offset. -/
def readInside : List Delegate.Action :=
  [.enter 0 ⟨0, .read 0 5⟩, .lock 0, .post 0, .wait 0, .run pendingAlways,
    .enter 1 ⟨0, .read 1 5⟩, .lock 1, .post 1, .wait 1, .run pendingAlways, .mainLock, .signal (some 1),
    .mainUnlock, .lock 1, .leave 1, .complete 0 ⟨5, none, str "hello", []⟩, .run pendingAlways]

theorem read_inside_read :
    Run.Guarded Delegate.step (Transfers 0) { world := readable } readInside ∧
      ∃ u : Delegate.State, Run.run Delegate.step { world := readable } readInside = some u ∧
        u.returned = [(1, some (.int 0))] ∧ requestsOf 1 u.world.log = [] ∧
        requestsOf 0 u.world.log = [.read (some 0) 0 0 5, .read (some 0) 0 0 5] := by
  refine ⟨?_, _, rfl, rfl, rfl, rfl⟩
  exact .cons ⟨.read 0 5, rfl⟩ rfl <| .cons trivial rfl <| .cons trivial rfl <| .cons trivial rfl <|
    .cons trivial rfl <| .cons ⟨.read 1 5, rfl⟩ rfl <| .cons trivial rfl <| .cons trivial rfl <|
    .cons trivial rfl <| .cons trivial rfl <| .cons trivial rfl <|
    .cons (fun c h => by cases h; rfl) rfl <| .cons trivial rfl <| .cons trivial rfl <|
    .cons trivial rfl <| .cons trivial rfl <| .cons trivial rfl trivial

end NaClFs
