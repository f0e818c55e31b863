/-
One instance: any number of workers in `Delegate::Call`, `NaClFs::PostMessage` and `FileSystem::Read`,
and the callbacks of the main thread. A worker does one of these at a time and the main thread runs one
callback at a time. A callback logs, which posts to the page without a lock, since it is on the main
thread; what it locks after that is `Delegate::mutex_` or `NaClFs::mutex_`.
-/
import NaClFs.FileSystem.Read
import NaClFs.Lib.Release
import NaClFs.Thread.Call

namespace NaClFs

open Rendezvous

/-! ## State -/

/-- Where a worker is in `FileSystem::Read`: not in it, before `delegate->Read`, in the `Call` of that
on an HTML5 delegate, or before or in the lock of `mutex_`. -/
inductive Reading
  | out
  | turn (delegate buf nbytes : Nat)
  | call (delegate buf nbytes : Nat)
  | locking (delegate buf nbytes : Nat)
  deriving DecidableEq, Repr

/-- The worker is in the part of `FileSystem::Read` that is no `Call`. -/
def Reading.Own : Reading → Prop
  | .turn _ _ _ | .locking _ _ _ => True
  | _ => False

/-- `NaClFsInstance`, with its workers. -/
structure Instance where
  /-- The descriptor table and the devices, as the workers' other operations leave them. -/
  table : FileSystem := .init
  ports : Nat → PortFileSystem := fun _ => {}
  /-- `PortFileSystem::buffer_`. -/
  buffer : Str := []
  /-- `FileSystem::mutex_`, which the constructor locks. -/
  locked : Bool := true
  readers : Nat → Reading := fun _ => .out
  /-- The calls on HTML5 delegates, with `Delegate::mutex_`. -/
  calls : Delegate.State
  /-- The messages of the workers, with `NaClFs::mutex_`. -/
  messages : PostMessage.State
  /-- The main thread is in `HandleMessage`, before the unlock of `FileSystem::mutex_`. -/
  handling : Bool := false
  /-- What the main thread posted to the page by itself. -/
  posted : List Var := []

namespace Instance

/-- The instance before its workers' first steps. -/
def init (w : World) (sent : Nat → Var) : Instance where
  calls := { world := w }
  messages := { world := { sent := sent } }

def setReader (s : Instance) (t : Nat) (reading : Reading) : Instance :=
  { s with readers := Function.update s.readers t reading }

/-- The worker is in no call, no message and no read. -/
def Free (s : Instance) (t : Nat) : Prop :=
  s.calls.threads t = .idle ∧ s.messages.threads t = .idle ∧ s.readers t = .out

instance (s : Instance) (t : Nat) : Decidable (s.Free t) :=
  inferInstanceAs (Decidable (_ ∧ _ ∧ _))

/-- The main thread is between two callbacks. -/
def MainFree (s : Instance) : Prop :=
  s.calls.main = .idle ∧ s.messages.main = .idle ∧ s.handling = false

instance (s : Instance) : Decidable s.MainFree := inferInstanceAs (Decidable (_ ∧ _ ∧ _))

/-! ## Messages and reads -/

/-- `NaClFs::PostMessage`: on the main thread, which is none, the message goes to the page at once; a
worker goes on to the lock. -/
def postMessage (s : Instance) (thread : Option Nat) (message : Var) : Option Instance :=
  match thread with
  | none => some { s with posted := s.posted ++ [message] }
  | some t => (PostMessage.step s.messages (.enter t message)).map ({ s with messages := · })

/-- `NaClFs::Log`, less what it writes to the real stderr. -/
def log (s : Instance) (thread : Option Nat) (message : Str) : Option Instance :=
  s.postMessage thread (.string (str "E" ++ message))

/-- The `Log` calls of a callback, in order. -/
def logs (s : Instance) (messages : List Str) : Option Instance :=
  messages.foldlM (fun s message => s.log none message) s

/-- Where the loop of `FileSystem::Read` goes on with the result of `delegate->Read`. -/
def afterRead (result : Int) (delegate buf nbytes : Nat) : Reading :=
  if result ≠ -2 then .out else .locking delegate buf nbytes

/-- Where a worker is in `FileSystem::Read` when its `Call` has returned. -/
def afterCall (s : Instance) (t : Nat) : Reading :=
  match s.readers t, s.calls.threads t with
  | .call delegate buf nbytes, .leaving c =>
    match s.calls.results c with
    | some (.int result) | some (.callback result) => afterRead result delegate buf nbytes
    | _ => .out
  | reading, _ => reading

/-! ## Steps -/

/-- What happens next. -/
inductive Act
  /-- A worker begins a call on an HTML5 delegate, a message, or a read. -/
  | call (t : Nat) (arguments : Arguments)
  | post (t : Nat) (message : Var)
  | read (t : Nat) (fildes : Int) (buf nbytes : Nat)
  /-- It goes on with a read. -/
  | turn (t : Nat)
  | lock (t : Nat)
  /-- A call or a message goes on: on the worker, in the backend or on the main thread. -/
  | calls (a : Delegate.Action)
  | messages (a : PostMessage.Action)
  /-- A callback begins, with what it logs. -/
  | proxy (imm : Request → Int) (lines : List Str)
  | postMessageFromMainThread
  | handleMessage (message : Var)
  | unlock
  /-- The workers' other operations change the table and the devices. -/
  | files (table : FileSystem) (ports : Nat → PortFileSystem)

/-- What `HandleMessage` logs. -/
def handleMessageLine (message : Var) : Str :=
  str "HandleMessage: " ++ (match message with | .string m => m | .other => []).takeWhile (· ≠ 0)

/-- One step; none where the action is not enabled. -/
def step (s : Instance) : Act → Option Instance
  | .call t arguments =>
    if s.Free t then
      (Delegate.step s.calls (.enter t arguments)).map ({ s with calls := · })
    else none
  | .post t message => if s.Free t then s.postMessage (some t) message else none
  | .read t fildes buf nbytes =>
    if s.Free t then
      match s.table.getDelegate fildes with
      | none => some s
      | some delegate => some (s.setReader t (.turn delegate buf nbytes))
    else none
  | .turn t =>
    match s.readers t with
    | .turn delegate buf nbytes =>
      match s.table.kind delegate with
      | .port =>
        let (result, bytes, buffer) := (s.ports delegate).read s.buffer nbytes
        let calls := { s.calls with world := s.calls.world.setBuffer buf bytes }
        some ({ s with buffer := buffer, calls := calls }.setReader t
          (afterRead result delegate buf nbytes))
      | .html5 =>
        (Delegate.step s.calls (.enter t ⟨delegate, .read buf nbytes⟩)).map fun calls =>
          { s with calls := calls }.setReader t (.call delegate buf nbytes)
    | _ => none
  | .lock t =>
    match s.readers t with
    | .locking delegate buf nbytes =>
      if s.locked then none
      else some ({ s with locked := true }.setReader t (.turn delegate buf nbytes))
    | _ => none
  | .calls (.leave t) =>
    (Delegate.step s.calls (.leave t)).map fun calls =>
      { s with calls := calls }.setReader t (s.afterCall t)
  | .calls a =>
    if a.onward then (Delegate.step s.calls a).map ({ s with calls := · }) else none
  | .messages a =>
    if a.onward then (PostMessage.step s.messages a).map ({ s with messages := · }) else none
  | .proxy imm lines =>
    if s.MainFree then
      (s.logs lines).bind fun s => (Delegate.step s.calls (.run imm)).map ({ s with calls := · })
    else none
  | .postMessageFromMainThread =>
    if s.MainFree then (PostMessage.step s.messages (.run ())).map ({ s with messages := · })
    else none
  | .handleMessage message =>
    if s.MainFree then
      (s.log none (handleMessageLine message)).bind fun s =>
        let (taken, buffer) := PortFileSystem.handleMessage s.buffer message
        let s := { s with buffer := buffer }
        -- No HTML5 delegate takes a message, and the instance logs one that nobody took.
        if taken then some { s with handling := true } else s.log none (str "unknown message\n")
    else none
  | .unlock => if s.handling then some { s with locked := false, handling := false } else none
  | .files table ports => some { s with table := table, ports := ports }

/-- The worker whose step it is; none for the main thread and the backend. -/
def Act.worker : Act → Option Nat
  | .call t _ | .post t _ | .read t _ _ _ | .turn t | .lock t => some t
  | .calls a => a.caller
  | .messages a => a.caller
  | _ => none

/-- On the main thread a message is posted without a lock, from any callback. -/
theorem logs_eq (lines : List Str) (s : Instance) : s.logs lines =
    some { s with posted := s.posted ++ lines.map fun line => .string (str "E" ++ line) } := by
  induction lines generalizing s with
  | nil =>
    show some s = _
    rw [List.map_nil, List.append_nil]
  | cons line lines ih =>
    show (s.log none line).bind (fun s => s.logs lines) = _
    rw [log, postMessage, Option.bind_some, ih]
    simp only [List.map_cons, List.append_assoc, List.singleton_append]

/-- What a step does. -/
inductive Step (s : Instance) : Act → Instance → Prop
  | call (t : Nat) (arguments : Arguments) (calls : Delegate.State) (hf : s.Free t)
      (hc : Delegate.step s.calls (.enter t arguments) = some calls) :
      Step s (.call t arguments) { s with calls := calls }
  | post (t : Nat) (message : Var) (messages : PostMessage.State) (hf : s.Free t)
      (hc : PostMessage.step s.messages (.enter t message) = some messages) :
      Step s (.post t message) { s with messages := messages }
  | bad (t : Nat) (fildes : Int) (buf nbytes : Nat) (hf : s.Free t)
      (hg : s.table.getDelegate fildes = none) : Step s (.read t fildes buf nbytes) s
  | read (t : Nat) (fildes : Int) (buf nbytes delegate : Nat) (hf : s.Free t)
      (hg : s.table.getDelegate fildes = some delegate) :
      Step s (.read t fildes buf nbytes) (s.setReader t (.turn delegate buf nbytes))
  | port (t delegate buf nbytes : Nat) (hr : s.readers t = .turn delegate buf nbytes)
      (hk : s.table.kind delegate = .port) :
      Step s (.turn t) ({ s with
        buffer := ((s.ports delegate).read s.buffer nbytes).2.2
        calls := { s.calls with
          world := s.calls.world.setBuffer buf ((s.ports delegate).read s.buffer nbytes).2.1 }
        }.setReader t (afterRead ((s.ports delegate).read s.buffer nbytes).1 delegate buf nbytes))
  | html5 (t delegate buf nbytes : Nat) (calls : Delegate.State)
      (hr : s.readers t = .turn delegate buf nbytes) (hk : s.table.kind delegate = .html5)
      (hc : Delegate.step s.calls (.enter t ⟨delegate, .read buf nbytes⟩) = some calls) :
      Step s (.turn t) ({ s with calls := calls }.setReader t (.call delegate buf nbytes))
  | lock (t delegate buf nbytes : Nat) (hr : s.readers t = .locking delegate buf nbytes)
      (hl : s.locked = false) :
      Step s (.lock t) ({ s with locked := true }.setReader t (.turn delegate buf nbytes))
  | leave (t : Nat) (calls : Delegate.State) (hc : Delegate.step s.calls (.leave t) = some calls) :
      Step s (.calls (.leave t)) ({ s with calls := calls }.setReader t (s.afterCall t))
  | calls (a : Delegate.Action) (calls : Delegate.State) (ha : a.onward = true)
      (hl : ∀ t, a ≠ .leave t) (hc : Delegate.step s.calls a = some calls) :
      Step s (.calls a) { s with calls := calls }
  | messages (a : PostMessage.Action) (messages : PostMessage.State) (ha : a.onward = true)
      (hc : PostMessage.step s.messages a = some messages) :
      Step s (.messages a) { s with messages := messages }
  | proxy (imm : Request → Int) (lines : List Str) (posted : List Var) (calls : Delegate.State)
      (hm : s.MainFree) (hc : Delegate.step s.calls (.run imm) = some calls) :
      Step s (.proxy imm lines) { s with posted := posted, calls := calls }
  | postMessageFromMainThread (messages : PostMessage.State) (hm : s.MainFree)
      (hc : PostMessage.step s.messages (.run ()) = some messages) :
      Step s .postMessageFromMainThread { s with messages := messages }
  | handleMessage (message : Var) (posted : List Var) (buffer : Str) (taken : Bool) (hm : s.MainFree) :
      Step s (.handleMessage message) { s with posted := posted, buffer := buffer, handling := taken }
  | unlock (hh : s.handling = true) : Step s .unlock { s with locked := false, handling := false }
  | files (table : FileSystem) (ports : Nat → PortFileSystem) :
      Step s (.files table ports) { s with table := table, ports := ports }

theorem step_spec {s s' : Instance} {a : Act} (h : s.step a = some s') : Step s a s' := by
  cases a with
  | call t arguments =>
    simp only [step, Option.ite_none_right_eq_some, Option.map_eq_some_iff] at h
    obtain ⟨hf, calls, h, rfl⟩ := h
    exact .call t arguments calls hf h
  | post t message =>
    simp only [step, postMessage, Option.ite_none_right_eq_some, Option.map_eq_some_iff] at h
    obtain ⟨hf, messages, h, rfl⟩ := h
    exact .post t message messages hf h
  | read t fildes buf nbytes =>
    simp only [step, Option.ite_none_right_eq_some] at h
    obtain ⟨hf, h⟩ := h
    cases hg : s.table.getDelegate fildes with
    | none =>
      rw [hg] at h
      cases h
      exact .bad t fildes buf nbytes hf hg
    | some delegate =>
      rw [hg] at h
      cases h
      exact .read t fildes buf nbytes delegate hf hg
  | turn t =>
    cases hr : s.readers t with
    | turn delegate buf nbytes =>
      cases hk : s.table.kind delegate with
      | port =>
        simp only [step, hr, hk, Option.some.injEq] at h
        subst h
        exact .port t delegate buf nbytes hr hk
      | html5 =>
        simp only [step, hr, hk, Option.map_eq_some_iff] at h
        obtain ⟨calls, h, rfl⟩ := h
        exact .html5 t delegate buf nbytes calls hr hk h
    | _ => simp [step, hr] at h
  | lock t =>
    cases hr : s.readers t with
    | locking delegate buf nbytes =>
      simp only [step, hr, Option.ite_none_left_eq_some, Option.some.injEq] at h
      obtain ⟨hl, rfl⟩ := h
      exact .lock t delegate buf nbytes hr (by simpa using hl)
    | _ => simp [step, hr] at h
  | calls a =>
    by_cases hl : ∃ t, a = .leave t
    · obtain ⟨t, rfl⟩ := hl
      simp only [step, Option.map_eq_some_iff] at h
      obtain ⟨calls, h, rfl⟩ := h
      exact .leave t calls h
    · rw [not_exists] at hl
      simp only [step, Option.ite_none_right_eq_some, Option.map_eq_some_iff] at h
      obtain ⟨ha, calls, h, rfl⟩ := h
      exact .calls a calls ha hl h
  | messages a =>
    simp only [step, Option.ite_none_right_eq_some, Option.map_eq_some_iff] at h
    obtain ⟨ha, messages, h, rfl⟩ := h
    exact .messages a messages ha h
  | proxy imm lines =>
    simp only [step, Option.ite_none_right_eq_some, logs_eq, Option.bind_some,
      Option.map_eq_some_iff] at h
    obtain ⟨hm, calls, h, rfl⟩ := h
    exact .proxy imm lines _ calls hm h
  | postMessageFromMainThread =>
    simp only [step, Option.ite_none_right_eq_some, Option.map_eq_some_iff] at h
    obtain ⟨hm, messages, h, rfl⟩ := h
    exact .postMessageFromMainThread messages hm h
  | handleMessage message =>
    simp only [step, log, postMessage, Option.ite_none_right_eq_some, Option.bind_some] at h
    obtain ⟨hm, h⟩ := h
    split at h
    · cases h
      exact .handleMessage message _ _ true hm
    · cases h
      exact .handleMessage message _ _ s.handling hm
  | unlock =>
    simp only [step, Option.ite_none_right_eq_some, Option.some.injEq] at h
    obtain ⟨hh, rfl⟩ := h
    exact .unlock hh
  | files table ports =>
    cases h
    exact .files table ports

/-! ## One thing at a time -/

/-- A worker in a call is in no message and at no other place of a read; one in a message is in no
read. -/
structure Alone (s : Instance) : Prop where
  call : ∀ t, s.calls.threads t ≠ .idle → s.messages.threads t = .idle ∧ ¬ (s.readers t).Own
  message : ∀ t, s.messages.threads t ≠ .idle → s.readers t = .out

variable {s s' : Instance}

/-- What a step does to the calls on HTML5 delegates: a step of theirs, of the same worker, or nothing
by a worker that is in one. -/
theorem calls_step {a : Act} (hal : Alone s) (h : s.step a = some s') :
    (∃ a', Delegate.step s.calls a' = some s'.calls ∧ a'.caller = a.worker) ∨
    (s'.calls.holder = s.calls.holder ∧ s'.calls.threads = s.calls.threads ∧
      s'.calls.main = s.calls.main ∧ ∀ t, a.worker = some t → s.calls.threads t = .idle) := by
  cases step_spec h with
  | call t arguments calls hf hc => exact .inl ⟨_, hc, rfl⟩
  | html5 t delegate buf nbytes calls hr hk hc => exact .inl ⟨_, hc, rfl⟩
  | leave t calls hc => exact .inl ⟨_, hc, rfl⟩
  | calls a calls ha hl hc => exact .inl ⟨_, hc, rfl⟩
  | proxy imm lines posted calls hm hc => exact .inl ⟨_, hc, rfl⟩
  | post t message messages hf hc | bad t fildes buf nbytes hf hg
  | read t fildes buf nbytes delegate hf hg =>
    right
    refine ⟨rfl, rfl, rfl, ?_⟩
    rintro t' ⟨⟩
    exact hf.1
  | port t delegate buf nbytes hr hk | lock t delegate buf nbytes hr hl =>
    right
    refine ⟨rfl, rfl, rfl, ?_⟩
    rintro t' ⟨⟩
    by_contra hne
    have := (hal.call t hne).2
    rw [hr] at this
    exact this trivial
  | messages a messages ha hc =>
    right
    refine ⟨rfl, rfl, rfl, ?_⟩
    intro t ht
    by_contra hne
    exact Sys.ne_idle_of_caller hc ha ht (hal.call t hne).1
  | _ =>
    right
    refine ⟨rfl, rfl, rfl, ?_⟩
    rintro t ⟨⟩

/-- The same of the messages. -/
theorem messages_step {a : Act} (hal : Alone s) (h : s.step a = some s') :
    (∃ a', PostMessage.step s.messages a' = some s'.messages ∧ a'.caller = a.worker) ∨
    (s'.messages = s.messages ∧ ∀ t, a.worker = some t → s.messages.threads t = .idle) := by
  cases step_spec h with
  | post t message messages hf hc => exact .inl ⟨_, hc, rfl⟩
  | messages a messages ha hc => exact .inl ⟨_, hc, rfl⟩
  | postMessageFromMainThread messages hm hc => exact .inl ⟨_, hc, rfl⟩
  | call t arguments calls hf hc | bad t fildes buf nbytes hf hg
  | read t fildes buf nbytes delegate hf hg =>
    right
    refine ⟨rfl, ?_⟩
    rintro t' ⟨⟩
    exact hf.2.1
  | port t delegate buf nbytes hr hk | html5 t delegate buf nbytes calls hr hk hc
  | lock t delegate buf nbytes hr hl =>
    right
    refine ⟨rfl, ?_⟩
    rintro t' ⟨⟩
    by_contra hne
    have := hal.message t hne
    rw [hr] at this
    cases this
  | leave t calls hc =>
    right
    refine ⟨rfl, ?_⟩
    rintro t' ⟨⟩
    exact (hal.call t (Sys.ne_idle_of_caller hc rfl rfl)).1
  | calls a calls ha hl hc =>
    right
    refine ⟨rfl, ?_⟩
    intro t ht
    exact (hal.call t (Sys.ne_idle_of_caller hc ha ht)).1
  | _ =>
    right
    refine ⟨rfl, ?_⟩
    rintro t ⟨⟩

theorem readers_setReader (s : Instance) (t : Nat) (r : Reading) (u : Nat) :
    (s.setReader t r).readers u = if u = t then r else s.readers u := Function.update_apply ..

/-- A worker in its own part of a read is in no call and no message. -/
theorem Alone.of_own {t : Nat} (hal : Alone s) (h : (s.readers t).Own) :
    s.calls.threads t = .idle ∧ s.messages.threads t = .idle := by
  constructor
  · by_contra hne
    exact (hal.call t hne).2 h
  · by_contra hne
    rw [hal.message t hne] at h
    exact h

theorem Alone.init (w : World) (sent : Nat → Var) : Alone (init w sent) where
  call _ h := absurd rfl h
  message _ h := absurd rfl h

/-- A worker that is in nothing else goes on within a read. -/
theorem Alone.setReader {t : Nat} {r : Reading} (hal : Alone s) (hc : s.calls.threads t = .idle)
    (hm : s.messages.threads t = .idle) : Alone (s.setReader t r) := by
  constructor
  · intro u hu
    have hut : u ≠ t := by
      rintro rfl
      exact hu hc
    rw [readers_setReader, if_neg hut]
    exact hal.call u hu
  · intro u hu
    have hut : u ≠ t := by
      rintro rfl
      exact hu hm
    rw [readers_setReader, if_neg hut]
    exact hal.message u hu

theorem Alone.step {a : Act} (hal : Alone s) (h : s.step a = some s') : Alone s' := by
  cases step_spec h with
  | call t arguments calls hf hc =>
    refine ⟨fun u hu => ?_, hal.message⟩
    by_cases hut : u = t
    · subst hut
      refine ⟨hf.2.1, ?_⟩
      rw [show s.readers u = .out from hf.2.2]
      exact id
    · have hu' : calls.threads u ≠ .idle := hu
      rw [Sys.threads_enter hc hut] at hu'
      exact hal.call u hu'
  | post t message messages hf hc =>
    refine ⟨fun u hu => ?_, fun u hu => ?_⟩
    · have hut : u ≠ t := by
        rintro rfl
        exact hu hf.1
      have hm := Sys.threads_enter hc hut
      show messages.threads u = .idle ∧ _
      rw [hm]
      exact hal.call u hu
    · by_cases hut : u = t
      · subst hut
        exact hf.2.2
      · have hm : messages.threads u ≠ .idle := hu
        rw [Sys.threads_enter hc hut] at hm
        exact hal.message u hm
  | bad t fildes buf nbytes hf hg => exact hal
  | read t fildes buf nbytes delegate hf hg => exact hal.setReader hf.1 hf.2.1
  | port t delegate buf nbytes hr hk =>
    obtain ⟨hc, hm⟩ := hal.of_own (t := t) (by rw [hr]; trivial)
    exact Alone.setReader (s := { s with buffer := _, calls := { s.calls with world := _ } })
      ⟨hal.call, hal.message⟩ hc hm
  | html5 t delegate buf nbytes calls hr hk hc =>
    obtain ⟨-, hm⟩ := hal.of_own (t := t) (by rw [hr]; trivial)
    refine ⟨fun u hu => ?_, fun u hu => ?_⟩
    · rw [readers_setReader]
      by_cases hut : u = t
      · subst hut
        rw [if_pos rfl]
        exact ⟨hm, id⟩
      · have hu' : calls.threads u ≠ .idle := hu
        rw [Sys.threads_enter hc hut] at hu'
        rw [if_neg hut]
        exact hal.call u hu'
    · have hut : u ≠ t := by
        rintro rfl
        exact hu hm
      rw [readers_setReader, if_neg hut]
      exact hal.message u hu
  | lock t delegate buf nbytes hr hl =>
    obtain ⟨hc, hm⟩ := hal.of_own (t := t) (by rw [hr]; trivial)
    exact Alone.setReader (s := { s with locked := true }) ⟨hal.call, hal.message⟩ hc hm
  | leave t calls hc =>
    obtain ⟨hne, hidle⟩ := Sys.threads_leave hc
    have hm := (hal.call t hne).1
    refine ⟨fun u hu => ?_, fun u hu => ?_⟩
    · have hut : u ≠ t := by
        rintro rfl
        exact hu hidle
      rw [readers_setReader, if_neg hut]
      exact hal.call u (Sys.ne_idle_of_step hc nofun u hu)
    · have hut : u ≠ t := by
        rintro rfl
        exact hu hm
      rw [readers_setReader, if_neg hut]
      exact hal.message u hu
  | calls a calls ha hl hc =>
    exact ⟨fun u hu => hal.call u (Sys.ne_idle_of_step hc (Act.ne_enter ha) u hu), hal.message⟩
  | messages a messages ha hc =>
    refine ⟨fun u hu => ⟨?_, (hal.call u hu).2⟩, fun u hu => ?_⟩
    · by_contra hne
      exact Sys.ne_idle_of_step hc (Act.ne_enter ha) u hne (hal.call u hu).1
    · exact hal.message u (Sys.ne_idle_of_step hc (Act.ne_enter ha) u hu)
  | proxy imm lines posted calls hm hc =>
    exact ⟨fun u hu => hal.call u (Sys.ne_idle_of_step hc nofun u hu), hal.message⟩
  | postMessageFromMainThread messages hm hc =>
    refine ⟨fun u hu => ⟨?_, (hal.call u hu).2⟩, fun u hu => ?_⟩
    · by_contra hne
      exact Sys.ne_idle_of_step hc nofun u hne (hal.call u hu).1
    · exact hal.message u (Sys.ne_idle_of_step hc nofun u hu)
  | handleMessage message posted buffer taken hm => exact ⟨hal.call, hal.message⟩
  | unlock hh => exact ⟨hal.call, hal.message⟩
  | files table ports => exact ⟨hal.call, hal.message⟩

/-! ## The mutexes of the main thread -/

/-- What holds in every run. -/
structure Sound (s : Instance) : Prop where
  alone : Alone s
  calls : s.calls.Owned
  messages : s.messages.Owned

theorem Sound.init (w : World) (sent : Nat → Var) : Sound (init w sent) :=
  ⟨.init w sent, .init w, .init _⟩

theorem Sound.step {a : Act} (hi : Sound s) (h : s.step a = some s') : Sound s' := by
  refine ⟨hi.alone.step h, ?_, ?_⟩
  · rcases calls_step hi.alone h with ⟨a', hc, -⟩ | ⟨hh, ht, hm, -⟩
    · exact hi.calls.step hc
    · exact hi.calls.congr hh ht hm
  · rcases messages_step hi.alone h with ⟨a', hc, -⟩ | ⟨hm, -⟩
    · exact hi.messages.step hc
    · rw [hm]
      exact hi.messages

/-- `Delegate::mutex_`, `NaClFs::mutex_` and `FileSystem::mutex_`. -/
inductive Mutex
  | delegate
  | naclfs
  | fileSystem
  deriving DecidableEq, Repr

/-- What is left of a callback is made of these. -/
inductive Statement
  | lock (m : Mutex)
  | signal (m : Mutex)
  | unlock (m : Mutex)
  deriving DecidableEq, Repr

/-- The next statement of the callback the main thread is in; none between two callbacks. -/
def nextStatement (s : Instance) : Option Statement :=
  match s.calls.main, s.messages.main with
  | .locking _, _ => some (.lock .delegate)
  | .signalling _, _ => some (.signal .delegate)
  | .unlocking, _ => some (.unlock .delegate)
  | .idle, .locking _ => some (.lock .naclfs)
  | .idle, .signalling _ => some (.signal .naclfs)
  | .idle, .unlocking => some (.unlock .naclfs)
  | .idle, .idle => if s.handling then some (.unlock .fileSystem) else none

/-- The mutex is locked. -/
def Locked (s : Instance) : Mutex → Prop
  | .delegate => s.calls.holder ≠ none
  | .naclfs => s.messages.holder ≠ none
  | .fileSystem => s.locked = true

/-- A worker has locked the mutex. `FileSystem::mutex_` is locked by one thread and unlocked by another,
so nobody holds it. -/
def Holds (s : Instance) (t : Nat) : Mutex → Prop
  | .delegate => s.calls.holder = some (.thread t)
  | .naclfs => s.messages.holder = some (.thread t)
  | .fileSystem => False

/-- The main thread is blocked on the mutex. -/
def Blocked (s : Instance) (m : Mutex) : Prop := s.nextStatement = some (.lock m) ∧ s.Locked m

/-- How many steps a worker that has locked the mutex takes until it unlocks it. -/
def toRelease (s : Instance) (t : Nat) : Mutex → Nat
  | .delegate => (s.calls.threads t).toRelease
  | .naclfs => (s.messages.threads t).toRelease
  | .fileSystem => 0

theorem Holds.toRelease_pos {t : Nat} {m : Mutex} (hi : Sound s) (h : s.Holds t m) :
    0 < s.toRelease t m := by
  cases m with
  | delegate => exact Pc.Locked.toRelease_pos ((hi.calls.thread t).1 h)
  | naclfs => exact Pc.Locked.toRelease_pos ((hi.messages.thread t).1 h)
  | fileSystem => exact h.elim

theorem toRelease_le (s : Instance) (t : Nat) (m : Mutex) : s.toRelease t m ≤ 2 := by
  cases m with
  | delegate => exact Pc.toRelease_le _
  | naclfs => exact Pc.toRelease_le _
  | fileSystem => exact Nat.zero_le 2

/-- A worker that has locked the mutex takes its next step without anybody else. -/
theorem Holds.next {t : Nat} {m : Mutex} (hi : Sound s) (h : s.Holds t m) :
    ∃ a s', a.worker = some t ∧ s.step a = some s' := by
  cases m with
  | delegate =>
    obtain ⟨a, calls, ha, hc⟩ := hi.calls.next (S := Delegate.service) h
    rcases ha with rfl | rfl | rfl
    · exact ⟨.calls (.post t), _, rfl, by simp only [step, Act.onward, if_true, hc]; rfl⟩
    · exact ⟨.calls (.wait t), _, rfl, by simp only [step, Act.onward, if_true, hc]; rfl⟩
    · exact ⟨.calls (.leave t), _, rfl, by simp only [step, hc]; rfl⟩
  | naclfs =>
    obtain ⟨a, messages, ha, hc⟩ := hi.messages.next (S := PostMessage.service) h
    have hon : a.onward = true := by rcases ha with rfl | rfl | rfl <;> rfl
    have hcaller : a.caller = some t := by rcases ha with rfl | rfl | rfl <;> rfl
    exact ⟨.messages a, _, hcaller, by simp only [step, hon, if_true, hc]; rfl⟩
  | fileSystem => exact h.elim

/-- It unlocks the mutex or comes closer to it with each of its own steps, and no other step takes the
mutex from it. -/
theorem Holds.step {t : Nat} {m : Mutex} {a : Act} (hi : Sound s) (hh : s.Holds t m)
    (h : s.step a = some s') : ¬ s'.Locked m ∨
      (s'.Holds t m ∧ s'.toRelease t m + (if a.worker = some t then 1 else 0) ≤ s.toRelease t m) := by
  cases m with
  | delegate =>
    rcases calls_step hi.alone h with ⟨a', hc, hw⟩ | ⟨hholder, ht, -, hw⟩
    · rw [← hw]
      rcases hi.calls.held_step hh hc with hn | hr
      · exact .inl (not_not_intro hn)
      · exact .inr hr
    · have hne : a.worker ≠ some t := fun hn =>
        Pc.Locked.ne_idle ((hi.calls.thread t).1 hh) (hw t hn)
      right
      refine ⟨hholder.trans hh, ?_⟩
      rw [if_neg hne]
      show (s'.calls.threads t).toRelease + 0 ≤ _
      rw [ht]
      exact Nat.le_refl _
  | naclfs =>
    rcases messages_step hi.alone h with ⟨a', hc, hw⟩ | ⟨hm, hw⟩
    · rw [← hw]
      rcases hi.messages.held_step hh hc with hn | hr
      · exact .inl (not_not_intro hn)
      · exact .inr hr
    · have hne : a.worker ≠ some t := fun hn =>
        Pc.Locked.ne_idle ((hi.messages.thread t).1 hh) (hw t hn)
      right
      refine ⟨?_, ?_⟩
      · show s'.messages.holder = _
        rw [hm]
        exact hh
      · rw [if_neg hne]
        show (s'.messages.threads t).toRelease + 0 ≤ _
        rw [hm]
        exact Nat.le_refl _
  | fileSystem => exact hh.elim

/-- A callback locks `Delegate::mutex_` or `NaClFs::mutex_`, after a final run for a call or a message. -/
theorem nextStatement_lock {m : Mutex} (h : s.nextStatement = some (.lock m)) :
    (m = .delegate ∧ ∃ c, s.calls.main = .locking c) ∨ (m = .naclfs ∧ ∃ c, s.messages.main = .locking c) := by
  unfold nextStatement at h
  cases hc : s.calls.main with
  | locking c =>
    rw [hc] at h
    cases h
    exact .inl ⟨rfl, c, rfl⟩
  | idle =>
    cases hm : s.messages.main with
    | locking c =>
      rw [hc, hm] at h
      cases h
      exact .inr ⟨rfl, c, rfl⟩
    | idle =>
      rw [hc, hm] at h
      simp only at h
      split at h <;> cases h
    | _ =>
      rw [hc, hm] at h
      cases h
  | _ =>
    rw [hc] at h
    cases h

/-- Whoever blocks the main thread is a worker. -/
theorem Blocked.holder {m : Mutex} (hi : Sound s) (hb : s.Blocked m) : ∃ t, s.Holds t m := by
  obtain ⟨hm, hl⟩ := hb
  rcases nextStatement_lock hm with ⟨rfl, c, hm⟩ | ⟨rfl, c, hm⟩
  · exact hi.calls.holder_of_locking hm hl
  · exact hi.messages.holder_of_locking hm hl

/-! ## Runs -/

theorem run_sound {w : World} {sent : Nat → Var} {as : List Act}
    (h : Run.run step (init w sent) as = some s) : Sound s :=
  Run.invariant_all (I := Sound) (fun _ _ _ hi h => hi.step h) (.init w sent) h

/-- In every state a run of any workers and any callbacks reaches: a mutex the main thread is blocked on
is held by a worker whose next step needs nobody else, and however the run goes on, the mutex is
unlocked by the time that worker has taken two steps. -/
theorem run_callbacks {w : World} {sent : Nat → Var} {as : List Act} {m : Mutex}
    (h : Run.run step (init w sent) as = some s) (hb : s.Blocked m) :
    ∃ t, s.Holds t m ∧ (∃ a s', a.worker = some t ∧ s.step a = some s') ∧
      ∀ bs s', Run.run step s bs = some s' → 2 ≤ bs.countP (fun a => a.worker = some t) →
        ∃ bs₁ bs₂ u, bs = bs₁ ++ bs₂ ∧ Run.run step s bs₁ = some u ∧ ¬ u.Locked m := by
  have hi := run_sound h
  obtain ⟨t, ht⟩ := hb.holder hi
  refine ⟨t, ht, ht.next hi, fun bs s' hr hn => ?_⟩
  refine Run.released Sound (fun s => s.Holds t m) (fun s => ¬ s.Locked m) (fun a => a.worker = some t)
    (fun s => s.toRelease t m) (fun _ _ _ hi h => hi.step h) (fun _ hi hh => hh.toRelease_pos hi) ?_ hi ht
    hr (Nat.le_trans (s.toRelease_le t m) hn)
  intro s a s' hi hh h
  rcases hh.step hi h with hn | hr
  · exact .inl hn
  · exact .inr (by simpa using hr)

/-- One worker's seek has run and is about to be signalled when another worker takes the mutex for its
own call. -/
def seekAndSeek : List Act :=
  [.call 0 ⟨0, .seek 7 seekSet⟩, .calls (.lock 0), .calls (.post 0), .calls (.wait 0),
    .proxy pendingAlways [], .call 1 ⟨1, .seek 5 seekSet⟩, .calls (.lock 1)]

theorem run_callbacks_two_seeks :
    ∃ s, Run.run step (init .blank fun _ => .other) seekAndSeek = some s ∧ s.Blocked .delegate ∧
      ∃ t, s.Holds t .delegate ∧ ∃ a s', a.worker = some t ∧ s.step a = some s' := by
  have hb : ∃ s, Run.run step (init .blank fun _ => .other) seekAndSeek = some s ∧ s.Blocked .delegate :=
    ⟨_, rfl, rfl, nofun⟩
  obtain ⟨s, h, hb⟩ := hb
  obtain ⟨t, ht, hnext, -⟩ := run_callbacks h hb
  exact ⟨s, h, hb, t, ht, hnext⟩

end Instance

end NaClFs
