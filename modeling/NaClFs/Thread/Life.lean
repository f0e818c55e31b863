/-
The main thread outside its callbacks: it calls `FileSystem` itself, as `Init` does, and it runs the
destructor of the instance, which joins the worker. Each operation answers at once on the main thread,
but the loop of `FileSystem::Read` over a device does not ask which thread it is on, and neither does
the destructor ask what the worker is waiting for.
-/
import NaClFs.FileSystem.Performed
import NaClFs.Thread.Instance

namespace NaClFs

open Rendezvous

/-! ## One operation on the main thread -/

/-- `Read` of the device has nothing to give: it is readable and blocking, and either it is asked for no
byte or no byte is there. -/
def PortFileSystem.Dry (this : PortFileSystem) (buffer : Str) (nbytes : Nat) : Prop :=
  0 ≤ this.id ∧ this.readable = true ∧ this.blocking = true ∧ (nbytes = 0 ∨ buffer = [])

namespace Process

variable {β : Type}

/-- The operation is a read of a device that has nothing to give. -/
def Dry (s : Process β) : Op → Prop
  | .read fildes _ nbytes => ∃ d, s.table.getDelegate fildes = some d ∧ s.table.kind d = .port ∧
      (s.ports d).Dry s.buffer nbytes
  | _ => False

variable {B : Backend β} {call : Nat}

/-- On the main thread a method answers. -/
theorem method_main (s : Process β) (d : Nat) (f : Function) :
    s.method B true call d f = some
      (match s.table.kind d with | .port => s.port d f | .html5 => (onMainThread f, s)) := by
  unfold method
  cases s.table.kind d with
  | port => rfl
  | html5 => rfl

theorem finish_ne_waits {o : Option (Result × Process β)} (h : ∃ x, o = some x)
    (k : Result → Process β → FileSystem × Returned) : finish o k ≠ .waits := by
  obtain ⟨x, rfl⟩ := h
  exact nofun

theorem onPath_main (s : Process β) (path : Str) (f : Str → Function)
    (k : Result → Process β → FileSystem × Returned) : s.onPath B true call path f k ≠ .waits :=
  finish_ne_waits ⟨_, method_main ..⟩ k

theorem onDescriptor_main (s : Process β) (fildes bad : Int) (f : Function)
    (k : Result → Process β → FileSystem × Returned) :
    s.onDescriptor B true call fildes bad f k ≠ .waits := by
  unfold onDescriptor
  cases s.table.getDelegate fildes with
  | none => exact nofun
  | some d => exact finish_ne_waits ⟨_, method_main ..⟩ k

theorem onDir_main (s : Process β) (dirp : Nat) (f : Function)
    (k : Result → Process β → FileSystem × Returned) : s.onDir B true call dirp f k ≠ .waits := by
  unfold onDir
  cases s.table.dirs[dirp]?.join with
  | none => exact nofun
  | some d => exact finish_ne_waits ⟨_, method_main ..⟩ k

/-- `Read` on the main thread waits on the -2 of a device, and on nothing of an HTML5 file. -/
theorem read_main (s : Process β) (fildes : Int) (buf nbytes : Nat) :
    s.read B true call fildes buf nbytes = .waits ↔ s.Dry (.read fildes buf nbytes) := by
  cases hg : s.table.getDelegate fildes with
  | none =>
    rw [read_none hg]
    refine iff_of_false nofun ?_
    rintro ⟨d, hd, -⟩
    rw [hg] at hd
    cases hd
  | some d =>
    have hdry : s.Dry (.read fildes buf nbytes) ↔
        s.table.kind d = .port ∧ (s.ports d).Dry s.buffer nbytes := by
      simp [Dry, hg]
    rw [hdry]
    cases hk : s.table.kind d with
    | html5 =>
      rw [read_file_main hg hk]
      refine iff_of_false nofun ?_
      rintro ⟨h, -⟩
      cases h
    | port =>
      rw [read_device hg hk, PortFileSystem.Dry, ← PortFileSystem.read_waits]
      simp only [true_and]
      by_cases h : ((s.ports d).read s.buffer nbytes).1 = -2
      · rw [if_pos h]
        exact iff_of_true rfl h
      · rw [if_neg h]
        exact iff_of_false nofun h

theorem Dispatch.main {s : Process β} {ends : Ends β} (hd : Dispatch B true call s ends) :
    ends ≠ .waits := by
  cases hd with
  | answers ret => exact nofun
  | faults => exact nofun
  | path path f k => exact onPath_main s path f k
  | descriptor fildes bad f k => exact onDescriptor_main s fildes bad f k
  | dir dirp f k => exact onDir_main s dirp f k

/-- On the main thread nothing waits but a read of a device that has nothing to give. -/
theorem perform_main (s : Process β) (op : Op) : s.perform B true call op = .waits ↔ s.Dry op := by
  by_cases hr : ∃ fildes buf nbytes, op = .read fildes buf nbytes
  · obtain ⟨fildes, buf, nbytes, rfl⟩ := hr
    exact read_main s fildes buf nbytes
  · simp only [not_exists] at hr
    refine iff_of_false (perform_dispatch s hr).main ?_
    cases op with
    | read fildes buf nbytes => exact absurd rfl (hr fildes buf nbytes)
    | _ => exact id

end Process

/-! ## Workers that wait -/

namespace Instance

/-- The worker waits for the main thread: for a `Proxy` run, for a `PostMessageFromMainThread` run, or
for a message of the page that unlocks `FileSystem::mutex_`. -/
def Waits (s : Instance) (t : Nat) : Prop :=
  (∃ c, s.calls.threads t = .waiting c) ∨ (∃ c, s.messages.threads t = .waiting c) ∨
    (∃ d buf nbytes, s.readers t = .locking d buf nbytes) ∧ s.locked = true

/-- The step leaves the worker waiting: its wait in a call or a message, the -2 of a read while
`FileSystem::mutex_` is locked, or another reader that takes the mutex. -/
def Parks (s : Instance) (t : Nat) : Act → Prop
  | .calls (.wait u) | .messages (.wait u) => u = t
  | .calls (.leave u) => u = t ∧ (∃ d buf nbytes, s.afterCall t = .locking d buf nbytes) ∧ s.locked = true
  | .turn u => u = t ∧ (∃ d buf nbytes, s.readers t = .turn d buf nbytes ∧ s.table.kind d = .port ∧
      (s.ports d).Dry s.buffer nbytes) ∧ s.locked = true
  | .lock u => u ≠ t ∧ ∃ d buf nbytes, s.readers t = .locking d buf nbytes
  | _ => False

/-- The main thread begins a callback. -/
def Act.begins : Act → Bool
  | .proxy _ _ | .postMessageFromMainThread | .handleMessage _ => true
  | _ => false

variable {s s' : Instance}

theorem afterRead_locking (this : PortFileSystem) (buffer : Str) (d buf nbytes : Nat) :
    (∃ d' buf' nbytes', afterRead (this.read buffer nbytes).1 d buf nbytes = .locking d' buf' nbytes') ↔
      this.Dry buffer nbytes := by
  rw [PortFileSystem.Dry, ← PortFileSystem.read_waits, afterRead]
  by_cases h : (this.read buffer nbytes).1 = -2
  · rw [if_neg (not_not_intro h)]
    exact iff_of_true ⟨_, _, _, rfl⟩ h
  · rw [if_pos h]
    refine iff_of_false ?_ h
    rintro ⟨d', buf', nbytes', he⟩
    cases he

/-! ### What a step does to a wait -/

theorem calls_waiting_iff {a : Act} (h : s.step a = some s') (t : Nat) :
    (∃ c, s'.calls.threads t = .waiting c) ↔
      a = .calls (.wait t) ∨ ((∃ c, s.calls.threads t = .waiting c) ∧ a ≠ .calls (.signal (some t))) := by
  cases step_spec h with
  | call u arguments calls hf hs => simpa using Sys.waiting_iff hs t
  | html5 u d buf nbytes calls hr hk hs => simpa [setReader] using Sys.waiting_iff hs t
  | leave u calls hs => simpa [setReader] using Sys.waiting_iff hs t
  | calls a calls ha hl hs => simpa using Sys.waiting_iff hs t
  | proxy imm lines posted calls hm hs => simpa using Sys.waiting_iff hs t
  | _ => simp [setReader]

theorem messages_waiting_iff {a : Act} (h : s.step a = some s') (t : Nat) :
    (∃ c, s'.messages.threads t = .waiting c) ↔
      a = .messages (.wait t) ∨
        ((∃ c, s.messages.threads t = .waiting c) ∧ a ≠ .messages (.signal (some t))) := by
  cases step_spec h with
  | post u message messages hf hs => simpa using Sys.waiting_iff hs t
  | messages a messages ha hs => simpa using Sys.waiting_iff hs t
  | postMessageFromMainThread messages hm hs => simpa using Sys.waiting_iff hs t
  | _ => simp [setReader]

/-- The step brings the worker to the lock of `FileSystem::Read`: the -2 of `delegate->Read`. -/
def ToLock (s : Instance) (t : Nat) : Act → Prop
  | .calls (.leave u) => u = t ∧ ∃ d buf nbytes, s.afterCall t = .locking d buf nbytes
  | .turn u => u = t ∧ ∃ d buf nbytes, s.readers t = .turn d buf nbytes ∧ s.table.kind d = .port ∧
      (s.ports d).Dry s.buffer nbytes
  | _ => False

/-- A worker that moves within its read is in the lock if it moved there. -/
theorem locking_setReader_iff (s : Instance) (t u : Nat) (r : Reading) :
    (∃ d buf nbytes, (s.setReader u r).readers t = .locking d buf nbytes) ↔
      (u = t ∧ ∃ d buf nbytes, r = .locking d buf nbytes) ∨
        (u ≠ t ∧ ∃ d buf nbytes, s.readers t = .locking d buf nbytes) := by
  rw [readers_setReader]
  by_cases htu : t = u
  · simp [htu]
  · simp [htu, Ne.symm htu]

/-- A worker is in the lock from its -2 until it locks. -/
theorem locking_iff {a : Act} (h : s.step a = some s') (t : Nat) :
    (∃ d buf nbytes, s'.readers t = .locking d buf nbytes) ↔
      s.ToLock t a ∨ ((∃ d buf nbytes, s.readers t = .locking d buf nbytes) ∧ a ≠ .lock t) := by
  -- A worker that is elsewhere in its read, or in none, is not in the lock.
  have hout : ∀ {u : Nat} {r : Reading}, s.readers u = r → (∀ d buf nbytes, r ≠ .locking d buf nbytes) →
      (∃ d buf nbytes, s.readers t = .locking d buf nbytes) → u ≠ t := by
    rintro u r hr hn ⟨d, buf, nbytes, ht⟩ rfl
    exact hn d buf nbytes (hr.symm.trans ht)
  cases step_spec h with
  | read u fildes buf nbytes d hf hg =>
    rw [locking_setReader_iff]
    have := hout hf.2.2 nofun
    simp only [ToLock]
    constructor
    · rintro (⟨-, d', buf', nbytes', he⟩ | ⟨-, h⟩)
      · cases he
      · exact .inr ⟨h, nofun⟩
    · rintro (h | ⟨h, -⟩)
      · exact h.elim
      · exact .inr ⟨this h, h⟩
  | port u d buf nbytes hr hk =>
    rw [locking_setReader_iff, afterRead_locking]
    have := hout hr nofun
    constructor
    · rintro (⟨rfl, h⟩ | ⟨-, h⟩)
      · exact .inl ⟨rfl, d, buf, nbytes, hr, hk, h⟩
      · exact .inr ⟨h, nofun⟩
    · rintro (⟨rfl, d', buf', nbytes', hr', -, h⟩ | ⟨h, -⟩)
      · rw [hr] at hr'
        cases hr'
        exact .inl ⟨rfl, h⟩
      · exact .inr ⟨this h, h⟩
  | html5 u d buf nbytes calls hr hk hs =>
    rw [locking_setReader_iff]
    have := hout hr nofun
    constructor
    · rintro (⟨-, d', buf', nbytes', he⟩ | ⟨-, h⟩)
      · cases he
      · exact .inr ⟨h, nofun⟩
    · rintro (⟨rfl, d', buf', nbytes', hr', hk', -⟩ | ⟨h, -⟩)
      · rw [hr] at hr'
        cases hr'
        rw [hk] at hk'
        cases hk'
      · exact .inr ⟨this h, h⟩
  | lock u d buf nbytes hr hl =>
    rw [locking_setReader_iff]
    constructor
    · rintro (⟨-, d', buf', nbytes', he⟩ | ⟨hne, h⟩)
      · cases he
      · exact .inr ⟨h, by simpa using hne⟩
    · rintro (h | ⟨h, hne⟩)
      · exact h.elim
      · exact .inr ⟨by simpa using hne, h⟩
  | leave u calls hs =>
    rw [locking_setReader_iff]
    constructor
    · rintro (⟨rfl, h⟩ | ⟨-, h⟩)
      · exact .inl ⟨rfl, h⟩
      · exact .inr ⟨h, nofun⟩
    · rintro (⟨rfl, h⟩ | ⟨⟨d, buf, nbytes, hr⟩, -⟩)
      · exact .inl ⟨rfl, h⟩
      · by_cases hut : u = t
        · subst hut
          -- No `Call` of this read returns.
          exact .inl ⟨rfl, d, buf, nbytes, by simp only [afterCall, hr]⟩
        · exact .inr ⟨hut, d, buf, nbytes, hr⟩
  | calls a calls ha hl hs =>
    have hn : ¬ s.ToLock t (.calls a) := by
      cases a with
      | leave u => exact absurd rfl (hl u)
      | _ => exact id
    simp [hn]
  | _ => simp [ToLock]

/-- `FileSystem::mutex_` is locked from a reader's lock until a message is handled. -/
theorem locked_iff {a : Act} (h : s.step a = some s') :
    s'.locked = true ↔ (∃ t, a = .lock t) ∨ (s.locked = true ∧ a ≠ .unlock) := by
  cases step_spec h with
  | lock t d buf nbytes hr => exact iff_of_true rfl (.inl ⟨t, rfl⟩)
  | unlock => simp
  | _ => simp [setReader]

theorem parks_iff (s : Instance) (t : Nat) (a : Act) :
    s.Parks t a ↔ a = .calls (.wait t) ∨ a = .messages (.wait t) ∨ (s.ToLock t a ∧ s.locked = true) ∨
      (∃ u, a = .lock u ∧ u ≠ t) ∧ ∃ d buf nbytes, s.readers t = .locking d buf nbytes := by
  cases a with
  | calls a => cases a <;> simp [Parks, ToLock, and_assoc]
  | messages a => cases a <;> simp [Parks, ToLock]
  | _ => simp [Parks, ToLock, and_assoc]

theorem ToLock.ne {t : Nat} {a : Act} (h : s.ToLock t a) : (∀ u, a ≠ .lock u) ∧ a ≠ .unlock := by
  cases a with
  | lock u => exact h.elim
  | unlock => exact h.elim
  | _ => exact ⟨nofun, nofun⟩

/-- A step leaves a worker waiting exactly where `Parks` says. -/
theorem waits_step {t : Nat} {a : Act} (hw : ¬ s.Waits t) (h : s.step a = some s') :
    s'.Waits t ↔ s.Parks t a := by
  obtain ⟨h1, h2, h3⟩ : (¬ ∃ c, s.calls.threads t = .waiting c) ∧
      (¬ ∃ c, s.messages.threads t = .waiting c) ∧
      ¬ ((∃ d buf nbytes, s.readers t = .locking d buf nbytes) ∧ s.locked = true) := by
    simpa only [Waits, not_or] using hw
  rw [Waits, parks_iff, calls_waiting_iff h, messages_waiting_iff h, locking_iff h, locked_iff h]
  refine or_congr (or_iff_left fun h => h1 h.1) (or_congr (or_iff_left fun h => h2 h.1) ?_)
  constructor
  · rintro ⟨ht | ⟨hr, hne⟩, ⟨u, rfl⟩ | ⟨hl, hu⟩⟩
    · exact absurd rfl (ht.ne.1 u)
    · exact .inl ⟨ht, hl⟩
    · exact .inr ⟨⟨u, rfl, fun hut => hne (congrArg _ hut)⟩, hr⟩
    · exact absurd ⟨hr, hl⟩ h3
  · rintro (⟨ht, hl⟩ | ⟨⟨u, rfl, hut⟩, hr⟩)
    · exact ⟨.inl ht, .inr ⟨hl, ht.ne.2⟩⟩
    · exact ⟨.inr ⟨hr, by simpa using hut⟩, .inl ⟨u, rfl⟩⟩

/-- A main thread that begins no callback stays in none. -/
theorem MainFree.step {a : Act} (hm : s.MainFree) (hb : a.begins = false) (h : s.step a = some s') :
    s'.MainFree := by
  obtain ⟨hc, hp, hh⟩ := hm
  cases step_spec h with
  | call t arguments calls hf hs => exact ⟨Sys.main_idle_of_step hs nofun hc, hp, hh⟩
  | post t message messages hf hs => exact ⟨hc, Sys.main_idle_of_step hs nofun hp, hh⟩
  | html5 t d buf nbytes calls hr hk hs => exact ⟨Sys.main_idle_of_step hs nofun hc, hp, hh⟩
  | leave t calls hs => exact ⟨Sys.main_idle_of_step hs nofun hc, hp, hh⟩
  | calls a calls ha hl hs => exact ⟨Sys.main_idle_of_step hs (Act.ne_run ha) hc, hp, hh⟩
  | messages a messages ha hs => exact ⟨hc, Sys.main_idle_of_step hs (Act.ne_run ha) hp, hh⟩
  | proxy => cases hb
  | postMessageFromMainThread => cases hb
  | handleMessage => cases hb
  | unlock => exact ⟨hc, hp, rfl⟩
  | _ => exact ⟨hc, hp, hh⟩

/-- Between two callbacks nothing is signalled and nothing unlocked. -/
theorem MainFree.ne_unlock {a : Act} (hm : s.MainFree) (h : s.step a = some s') : a ≠ .unlock := by
  rintro rfl
  cases step_spec h with
  | unlock hh =>
    rw [hm.2.2] at hh
    cases hh

theorem MainFree.ne_signal {a : Act} (hm : s.MainFree) (h : s.step a = some s') (t : Nat) :
    a ≠ .calls (.signal (some t)) ∧ a ≠ .messages (.signal (some t)) := by
  constructor
  · rintro rfl
    cases step_spec h with
    | calls a calls ha hl hs => exact Sys.not_signal_of_idle hs hm.1 t rfl
  · rintro rfl
    cases step_spec h with
    | messages a messages ha hs => exact Sys.not_signal_of_idle hs hm.2.1 t rfl

/-- While the main thread is in no callback, a worker that waits goes on waiting. -/
theorem MainFree.waits_step {t : Nat} {a : Act} (hm : s.MainFree) (hw : s.Waits t)
    (h : s.step a = some s') : s'.Waits t := by
  obtain ⟨hcalls, hmessages⟩ := hm.ne_signal h t
  rcases hw with hc | hp | ⟨hr, hl⟩
  · left
    exact (calls_waiting_iff h t).2 (.inr ⟨hc, hcalls⟩)
  · right
    left
    exact (messages_waiting_iff h t).2 (.inr ⟨hp, hmessages⟩)
  · right
    right
    refine ⟨(locking_iff h t).2 (.inr ⟨hr, ?_⟩), (locked_iff h).2 (.inr ⟨hl, hm.ne_unlock h⟩)⟩
    rintro rfl
    cases step_spec h with
    | lock u d buf nbytes hr' hl' =>
      rw [hl] at hl'
      cases hl'

end Instance

/-! ## The machine -/

/-- Where the main thread is outside its callbacks: nowhere, in `FileSystem::Read` before
`delegate->Read` or in the lock, or in the join of the destructor. -/
inductive MainOp
  | free
  | turn (delegate buf nbytes : Nat)
  | locking (delegate buf nbytes : Nat)
  | joining
  deriving DecidableEq, Repr

/-- An instance and its main thread. The destructor joins worker 0. -/
structure Life where
  inst : Instance
  main : MainOp := .free

namespace Life

/-- `NaClFsInstance` as its constructor leaves it. -/
def init (w : World) (sent : Nat → Var) : Life := { inst := .init w sent }

/-- What the operations of `FileSystem` work on. -/
def process (s : Life) : Process Unit where
  table := s.inst.table
  ports := s.inst.ports
  buffer := s.inst.buffer
  world := s.inst.calls.world
  backend := ()

/-- What an operation has left. -/
def put (s : Life) (p : Process Unit) : Life :=
  { s with inst := { s.inst with
      table := p.table
      ports := p.ports
      buffer := p.buffer
      calls := { s.inst.calls with world := p.world } } }

/-- A step of the workers, the backend or a callback; an operation of the main thread, and its `Read`
going on; and the destructor. -/
inductive Act
  | inst (a : Instance.Act)
  | op (op : Process.Op)
  | turn
  | lock
  | destroy

/-- One step; none where the action is not enabled. The main thread does one thing at a time. -/
def step (s : Life) : Act → Option Life
  | .inst a =>
    if a.begins ∧ s.main ≠ .free then none else (s.inst.step a).map ({ s with inst := · })
  | .op op =>
    if s.main = .free ∧ s.inst.MainFree then
      -- No request is made on the main thread, so any backend will do.
      match s.process.perform Process.refusing true 0 op with
      | .returns _ p => some (s.put p)
      | .faults => none
      | .waits =>
        match op with
        | .read fildes buf nbytes =>
          (s.inst.table.getDelegate fildes).map fun d => { s with main := .locking d buf nbytes }
        | _ => none
    else none
  | .turn =>
    match s.main with
    | .turn d buf nbytes =>
      let (result, bytes, buffer) := (s.inst.ports d).read s.inst.buffer nbytes
      let s := s.put { s.process with
        buffer := buffer, world := s.inst.calls.world.setBuffer buf bytes }
      some { s with main := if result ≠ -2 then .free else .locking d buf nbytes }
    | _ => none
  | .lock =>
    match s.main with
    | .locking d buf nbytes =>
      if s.inst.locked then none
      else some { s with inst := { s.inst with locked := true }, main := .turn d buf nbytes }
    | _ => none
  | .destroy =>
    if s.main = .free ∧ s.inst.MainFree then some { s with main := .joining } else none

/-- The main thread waits for what only it can produce: it is in the lock of `FileSystem::mutex_`, which
a message it handles unlocks, or it joins a worker that waits for it. -/
def MainWaits (s : Life) : Prop :=
  match s.main with
  | .locking _ _ _ => s.inst.locked = true
  | .joining => s.inst.Waits 0
  | _ => False

/-- The condition a step is taken under: an operation of the main thread is no read of a device that has
nothing to give while `FileSystem::mutex_` is locked, and no worker takes the mutex before a `Read` of
the main thread does; the destructor does not find the worker waiting, and the worker does not come to
wait after that. -/
def Unparked (s : Life) : Act → Prop
  | .op op => ¬ (s.process.Dry op ∧ s.inst.locked = true)
  | .turn => ¬ ((∃ d buf nbytes, s.main = .turn d buf nbytes ∧
      (s.inst.ports d).Dry s.inst.buffer nbytes) ∧ s.inst.locked = true)
  | .lock => True
  | .destroy => ¬ s.inst.Waits 0
  | .inst a =>
    match s.main with
    | .locking _ _ _ => ∀ t, a ≠ .lock t
    | .joining => ¬ s.inst.Parks 0 a
    | _ => True

variable {s s' : Life}

/-! ## One step -/

/-- Where the main thread is in none of its own operations it waits for nothing. -/
theorem not_mainWaits_of_free (h : s.main = .free) : ¬ s.MainWaits := by
  rw [MainWaits, h]
  exact id

theorem not_mainWaits_of_turn {d buf nbytes : Nat} (h : s.main = .turn d buf nbytes) :
    ¬ s.MainWaits := by
  rw [MainWaits, h]
  exact id

theorem mainWaits_of_locking {d buf nbytes : Nat} (h : s.main = .locking d buf nbytes) :
    s.MainWaits ↔ s.inst.locked = true := by
  rw [MainWaits, h]

theorem mainWaits_of_joining (h : s.main = .joining) : s.MainWaits ↔ s.inst.Waits 0 := by
  rw [MainWaits, h]

/-- What a step does. -/
inductive Step (s : Life) : Act → Life → Prop
  | inst (a : Instance.Act) (inst : Instance) (hb : a.begins = true → s.main = .free)
      (h : s.inst.step a = some inst) : Step s (.inst a) { s with inst := inst }
  | returns (op : Process.Op) (ret : Returned) (p : Process Unit) (hm : s.main = .free)
      (hf : s.inst.MainFree) (h : s.process.perform Process.refusing true 0 op = .returns ret p) :
      Step s (.op op) (s.put p)
  | waits (fildes : Int) (buf nbytes d : Nat) (hm : s.main = .free) (hf : s.inst.MainFree)
      (h : s.process.perform Process.refusing true 0 (.read fildes buf nbytes) = .waits)
      (hg : s.inst.table.getDelegate fildes = some d) :
      Step s (.op (.read fildes buf nbytes)) { s with main := .locking d buf nbytes }
  | turn (d buf nbytes : Nat) (p : Process Unit) (hm : s.main = .turn d buf nbytes) :
      Step s .turn { s.put p with
        main := if ((s.inst.ports d).read s.inst.buffer nbytes).1 ≠ -2 then .free
          else .locking d buf nbytes }
  | lock (d buf nbytes : Nat) (hm : s.main = .locking d buf nbytes) (hl : s.inst.locked = false) :
      Step s .lock { s with inst := { s.inst with locked := true }, main := .turn d buf nbytes }
  | destroy (hm : s.main = .free) (hf : s.inst.MainFree) : Step s .destroy { s with main := .joining }

theorem step_spec {a : Act} (h : s.step a = some s') : Step s a s' := by
  cases a with
  | inst a =>
    simp only [step, Option.ite_none_left_eq_some, Option.map_eq_some_iff] at h
    obtain ⟨hn, inst, h, rfl⟩ := h
    exact .inst a inst (fun hb => by_contra fun hm => hn ⟨hb, hm⟩) h
  | op op =>
    simp only [step, Option.ite_none_right_eq_some] at h
    obtain ⟨⟨hm, hf⟩, h⟩ := h
    cases hp : s.process.perform Process.refusing true 0 op with
    | returns ret p =>
      rw [hp] at h
      cases h
      exact .returns op ret p hm hf hp
    | faults =>
      rw [hp] at h
      cases h
    | waits =>
      rw [hp] at h
      cases op with
      | read fildes buf nbytes =>
        simp only [Option.map_eq_some_iff] at h
        obtain ⟨d, hg, rfl⟩ := h
        exact .waits fildes buf nbytes d hm hf hp hg
      | _ => cases h
  | turn =>
    cases hm : s.main with
    | turn d buf nbytes =>
      simp only [step, hm, Option.some.injEq] at h
      subst h
      exact .turn d buf nbytes _ hm
    | _ => simp [step, hm] at h
  | lock =>
    cases hm : s.main with
    | locking d buf nbytes =>
      simp only [step, hm, Option.ite_none_left_eq_some, Option.some.injEq] at h
      obtain ⟨hl, rfl⟩ := h
      exact .lock d buf nbytes hm (by simpa using hl)
    | _ => simp [step, hm] at h
  | destroy =>
    simp only [step, Option.ite_none_right_eq_some, Option.some.injEq] at h
    obtain ⟨⟨hm, hf⟩, rfl⟩ := h
    exact .destroy hm hf

/-- A step leaves the main thread with nothing to wait for exactly where the condition holds. -/
theorem mainWaits_step {a : Act} (hw : ¬ s.MainWaits) (h : s.step a = some s') :
    ¬ s'.MainWaits ↔ s.Unparked a := by
  cases step_spec h with
  | inst a inst hb hs =>
    cases hm : s.main with
    | free =>
      rw [Unparked, hm]
      exact iff_of_true (not_mainWaits_of_free rfl) trivial
    | turn d buf nbytes =>
      rw [Unparked, hm]
      exact iff_of_true (not_mainWaits_of_turn rfl) trivial
    | locking d buf nbytes =>
      rw [mainWaits_of_locking hm, Bool.not_eq_true] at hw
      rw [mainWaits_of_locking rfl, Unparked, hm]
      rw [Instance.locked_iff hs, hw]
      simp
    | joining =>
      rw [mainWaits_of_joining hm] at hw
      rw [mainWaits_of_joining rfl, Unparked, hm]
      rw [Instance.waits_step hw hs]
  | returns op ret p hm hf hp =>
    refine iff_of_true (not_mainWaits_of_free hm) ?_
    rintro ⟨hdry, -⟩
    rw [(Process.perform_main _ _).2 hdry] at hp
    cases hp
  | waits fildes buf nbytes d hm hf hp hg =>
    have hdry := (Process.perform_main _ _).1 hp
    rw [mainWaits_of_locking rfl, Unparked]
    exact not_congr (iff_and_self.2 fun _ => hdry)
  | turn d buf nbytes p hm =>
    have hex : (∃ d' buf' nbytes', s.main = .turn d' buf' nbytes' ∧
        (s.inst.ports d').Dry s.inst.buffer nbytes') ↔ (s.inst.ports d).Dry s.inst.buffer nbytes := by
      simp [hm]
    rw [Unparked, hex, PortFileSystem.Dry, ← PortFileSystem.read_waits]
    by_cases hr : ((s.inst.ports d).read s.inst.buffer nbytes).1 = -2
    · rw [mainWaits_of_locking (if_neg (not_not_intro hr))]
      exact not_congr (iff_and_self.2 fun _ => hr)
    · exact iff_of_true (not_mainWaits_of_free (if_pos hr)) fun h => hr h.1
  | lock d buf nbytes hm hl => exact iff_of_true (not_mainWaits_of_turn rfl) trivial
  | destroy hm hf =>
    rw [mainWaits_of_joining rfl]
    exact Iff.rfl

/-- In its own operations the main thread is in no callback. -/
def Quiet (s : Life) : Prop := s.main ≠ .free → s.inst.MainFree

theorem Quiet.step {a : Act} (hq : s.Quiet) (h : s.step a = some s') : s'.Quiet := by
  intro hm'
  cases step_spec h with
  | inst a inst hb hs =>
    have hn : a.begins = false := by
      rw [← Bool.not_eq_true]
      exact fun h => hm' (hb h)
    exact (hq hm').step hn hs
  | returns op ret p hm hf hp => exact absurd hm hm'
  | waits fildes buf nbytes d hm hf hp hg => exact hf
  | turn d buf nbytes p hm => exact hq (by simp [hm])
  | lock d buf nbytes hm hl => exact hq (by simp [hm])
  | destroy hm hf => exact hf

/-- A main thread that waits goes on waiting. -/
theorem MainWaits.step {a : Act} (hq : s.Quiet) (hw : s.MainWaits) (h : s.step a = some s') :
    s'.MainWaits := by
  have hne : s.main ≠ .free := fun hm => not_mainWaits_of_free hm hw
  have hmf := hq hne
  cases step_spec h with
  | inst a inst hb hs =>
    cases hm : s.main with
    | free => exact absurd hm hne
    | turn d buf nbytes => exact absurd hw (not_mainWaits_of_turn hm)
    | locking d buf nbytes =>
      rw [mainWaits_of_locking hm] at hw
      exact (mainWaits_of_locking rfl).2 ((Instance.locked_iff hs).2 (.inr ⟨hw, hmf.ne_unlock hs⟩))
    | joining =>
      rw [mainWaits_of_joining hm] at hw
      exact (mainWaits_of_joining rfl).2 (hmf.waits_step hw hs)
  | returns op ret p hm hf hp => exact absurd hm hne
  | waits fildes buf nbytes d hm hf hp hg => exact absurd hm hne
  | turn d buf nbytes p hm => exact absurd hw (not_mainWaits_of_turn hm)
  | lock d buf nbytes hm hl =>
    rw [mainWaits_of_locking hm, hl] at hw
    cases hw
  | destroy hm hf => exact absurd hm hne

/-! ## Runs -/

/-- In every run of an instance: the main thread waits for nothing that only it can produce, all along,
exactly if every step is taken under the condition; and where it does wait it waits for ever. What it
does by itself is an operation of `FileSystem`, which answers at once unless it is a read of a device
that has nothing to give. -/
theorem run_main {w : World} {sent : Nat → Var} {as : List Act}
    (h : Run.run step (init w sent) as = some s) :
    (Run.Along step (fun s => ¬ s.MainWaits) (init w sent) as ↔
      Run.Guarded step Unparked (init w sent) as) ∧
    (s.MainWaits → ∀ bs s', Run.run step s bs = some s' → s'.MainWaits) ∧
    ∀ (B : Backend Unit) (call : Nat) (op : Process.Op),
      s.process.perform B true call op = .waits ↔ s.process.Dry op := by
  have hquiet : ∀ s a s', Quiet s → step s a = some s' → Quiet s' := fun _ _ _ hq h => hq.step h
  have hinit : Quiet (init w sent) := fun hm => absurd rfl hm
  have hq : s.Quiet := Run.invariant_all hquiet hinit h
  refine ⟨?_, ?_, fun B call op => Process.perform_main _ op⟩
  · refine Run.along_iff_guarded hquiet ?_ hinit (not_mainWaits_of_free rfl) h
    intro s a s' _ hw h
    exact mainWaits_step hw h
  · intro hw bs s' hr
    -- That the main thread is in no callback carries the wait.
    have hboth : s'.Quiet ∧ s'.MainWaits := by
      refine Run.invariant_all (I := fun s => Quiet s ∧ MainWaits s) ?_ ⟨hq, hw⟩ hr
      rintro s a s' ⟨hq, hw⟩ h
      exact ⟨hq.step h, hw.step hq h⟩
    exact hboth.2

/-- `Init` opens stdin as 0. -/
def openStdin : Act := .op (.open_ (some (str "/dev/stdin")) oRdOnly 0)

theorem run_main_isATty :
    ∃ s, Run.run step (init .blank fun _ => .other) [openStdin, .op (.isatty 0), .destroy] = some s ∧
      Run.Along step (fun s => ¬ s.MainWaits) (init .blank fun _ => .other)
        [openStdin, .op (.isatty 0), .destroy] := by
  obtain ⟨s, h⟩ : ∃ s, Run.run step (init .blank fun _ => .other)
      [openStdin, .op (.isatty 0), .destroy] = some s := ⟨_, rfl⟩
  refine ⟨s, h, (run_main h).1.2 ?_⟩
  refine .cons (fun h => h.1) rfl (.cons (fun h => h.1) rfl (.cons ?_ rfl trivial))
  -- The worker has not begun anything.
  rintro (⟨c, hc⟩ | ⟨c, hc⟩ | ⟨⟨d, buf, nbytes, hr⟩, -⟩)
  · cases hc
  · cases hc
  · cases hr

/-- While no byte of stdin is there, a read of it by the main thread waits for a message that only the
main thread handles; and so does the destructor that finds the worker in such a read. -/
theorem read_and_destroy_wait :
    (∃ s, Run.run step (init .blank fun _ => .other) [openStdin, .op (.read 0 0 1)] = some s ∧
      s.MainWaits) ∧
    ∃ s, Run.run step (init .blank fun _ => .other)
      [openStdin, .inst (.read 0 0 0 1), .inst (.turn 0), .destroy] = some s ∧ s.MainWaits := by
  constructor
  · exact ⟨_, rfl, rfl⟩
  · exact ⟨_, rfl, .inr (.inr ⟨⟨0, 0, 1, rfl⟩, rfl⟩)⟩

end Life

end NaClFs
