/-
The terminal of the whole system: the bytes that messages push reach the readers of /dev/stdin, which is
what was typed where each key is one byte, and what is written to /dev/stdout and /dev/stderr is shown,
whatever else the threads do with files and DIRs in between and whatever is logged.
-/
import NaClFs.FileSystem.System
import NaClFs.Page.Console
import NaClFs.Port.Fifo

namespace NaClFs

/-! ## The devices of a process -/

namespace Process

variable {β : Type} {B : Backend β} {main : Bool} {call : Nat} {s s' t : Process β} {d : Nat} {f : Function}
  {answer : Result} {ret : Returned}

/-- The device a descriptor is open on. -/
def device (s : Process β) (fildes : Int) : Option PortFileSystem :=
  (s.table.getDelegate fildes).bind fun d =>
    match s.table.kind d with
    | .port => some (s.ports d)
    | .html5 => none

/-- A device that is writable is stdout or stderr. -/
def Labelled (port : PortFileSystem) : Prop := port.writable = true → port.id = 1 ∨ port.id = 2

theorem labelled_open {path : Str} {oflag : BitVec 32} : Labelled (PortFileSystem.open_ {} path oflag).1 := by
  intro h
  rcases Console.open_writable h with ⟨-, hid⟩ | ⟨-, hid⟩
  · exact .inl hid
  · exact .inr hid

theorem labelled_fcntl {port : PortFileSystem} (h : Labelled port) (cmd : Int) (ap : BitVec 32) :
    Labelled (port.fcntl cmd ap).1 := by
  unfold PortFileSystem.fcntl
  split
  · exact h
  · split <;> exact h

/-- Only `Open` and `Fcntl` change a delegate, and the first one does it to a new one. -/
theorem method_labelled (h : s.method B main call d f = some (answer, s')) (hl : ∀ d, Labelled (s.ports d))
    (hf : ∀ path oflag cmode, f = .open_ path oflag cmode → s.ports d = {}) : ∀ d, Labelled (s'.ports d) := by
  unfold method at h
  split at h
  · obtain rfl : (s.port d f).2 = s' := congrArg Prod.snd (Option.some.inj h)
    have hupdate {port : PortFileSystem} (hp : Labelled port) (d' : Nat) :
        Labelled (Function.update s.ports d port d') := by
      by_cases he : d' = d
      · rw [he, Function.update_self]
        exact hp
      · rw [Function.update_of_ne he]
        exact hl d'
    cases f with
    | open_ path oflag cmode =>
      apply hupdate
      rw [hf path oflag cmode rfl]
      exact labelled_open
    | fcntl cmd ap => exact hupdate (labelled_fcntl (hl d) cmd _)
    | stat path buf =>
      simp only [port]
      split <;> exact hl
    | _ => exact hl
  · split at h
    · cases h
      exact hl
    · split at h
      · cases h
        exact hl
      · cases h

/-- Only a `Read` takes what was pushed. -/
theorem method_buffer (h : s.method B main call d f = some (answer, s'))
    (hf : ∀ buf nbytes, f ≠ .read buf nbytes) :
    s'.buffer = s.buffer := by
  unfold method at h
  split at h
  · obtain rfl : (s.port d f).2 = s' := congrArg Prod.snd (Option.some.inj h)
    cases f with
    | read buf nbytes => exact absurd rfl (hf buf nbytes)
    | stat path buf =>
      simp only [port]
      split <;> rfl
    | _ => rfl
  · split at h
    · cases h
      rfl
    · split at h
      · cases h
        rfl
      · cases h

theorem create_labelled (hl : ∀ d, Labelled (s.ports d)) (path : Str) (d : Nat) :
    Labelled ((s.create path).1.ports d) := by
  show Labelled (Function.update s.ports s.table.delegates.length {} d)
  by_cases he : d = s.table.delegates.length
  · rw [he, Function.update_self]
    intro h
    cases h
  · rw [Function.update_of_ne he]
    exact hl d

/-- Every operation keeps the labels. -/
theorem performed_labelled (h : Performed B main call s ret t) (hl : ∀ d, Labelled (s.ports d)) :
    ∀ d, Labelled (t.ports d) := by
  induction h with
  | answered => exact hl
  | path hc hm ht =>
    have := method_labelled hm (create_labelled hl _) fun _ _ _ _ => Function.update_self ..
    exact this
  | descriptor hu hc hd hm =>
    refine method_labelled hm hl ?_
    rintro path oflag cmode rfl
    cases hu
  | again hd hm rest ih =>
    apply ih
    have := method_labelled hm hl fun _ _ _ he => by cases he
    exact this
  | close hd hm =>
    have := method_labelled hm hl fun _ _ _ he => by cases he
    exact this
  | dir hu hc hd hm =>
    refine method_labelled hm hl ?_
    rintro path oflag cmode rfl
    cases hu
  | closedir hd hm ht =>
    have := method_labelled hm hl fun _ _ _ he => by cases he
    exact this

/-! ## What operations take and post -/

theorem finish_buffer {o : Option (Result × Process β)} {k : Result → Process β → FileSystem × Returned}
    (h : finish o k = .returns ret t) : ∃ answer s', o = some (answer, s') ∧ t.buffer = s'.buffer := by
  obtain ⟨answer, s', ho, -, rfl⟩ := finish_world h
  exact ⟨answer, s', ho, rfl⟩

theorem onPath_buffer {path : Str} {f : Str → Function} {k : Result → Process β → FileSystem × Returned}
    (h : s.onPath B main call path f k = .returns ret t) (hf : ∀ path buf nbytes, f path ≠ .read buf nbytes) :
    t.buffer = s.buffer := by
  obtain ⟨answer, s', ho, ht⟩ := finish_buffer h
  rw [ht, method_buffer ho (hf _)]

theorem onDescriptor_buffer {fildes bad : Int} {k : Result → Process β → FileSystem × Returned}
    (h : s.onDescriptor B main call fildes bad f k = .returns ret t) (hf : ∀ buf nbytes, f ≠ .read buf nbytes) :
    t.buffer = s.buffer := by
  unfold onDescriptor at h
  split at h
  · cases h
    rfl
  · obtain ⟨answer, s', ho, ht⟩ := finish_buffer h
    rw [ht, method_buffer ho hf]

theorem onDir_buffer {dirp : Nat} {k : Result → Process β → FileSystem × Returned}
    (h : s.onDir B main call dirp f k = .returns ret t) (hf : ∀ buf nbytes, f ≠ .read buf nbytes) :
    t.buffer = s.buffer := by
  unfold onDir at h
  split at h
  · cases h
  · obtain ⟨answer, s', ho, ht⟩ := finish_buffer h
    rw [ht, method_buffer ho hf]

/-- Every operation but a read leaves what was pushed. -/
theorem perform_buffer {op : Op} (h : s.perform B main call op = .returns ret t)
    (hr : ∀ fildes buf nbytes, op ≠ .read fildes buf nbytes) : t.buffer = s.buffer := by
  cases op with
  | read fildes buf nbytes => exact absurd rfl (hr fildes buf nbytes)
  | open_ path oflag cmode =>
    cases path with
    | none =>
      cases h
      rfl
    | some path =>
      simp only [perform, open_] at h
      exact onPath_buffer h (by simp)
  | mkdir path mode =>
    cases path with
    | none =>
      cases h
      rfl
    | some path =>
      simp only [perform, mkDir] at h
      exact onPath_buffer h (by simp)
  | opendir path =>
    cases path with
    | none =>
      cases h
      rfl
    | some path =>
      simp only [perform, openDir] at h
      exact onPath_buffer h (by simp)
  | stat path buf =>
    cases path with
    | none => cases h
    | some path =>
      simp only [perform, stat] at h
      exact onPath_buffer h (by simp)
  | chdir path buf =>
    cases path with
    | none => cases h
    | some path =>
      simp only [perform, chDir] at h
      exact onPath_buffer h (by simp)
  | close | fstat | write | seek | isatty | fcntl => exact onDescriptor_buffer h (by simp)
  | rewinddir | readdir | closedir => exact onDir_buffer h (by simp)

/-- A method through a descriptor that is not a device's. -/
theorem device_none {fildes : Int} (h : s.device fildes = none) :
    s.table.getDelegate fildes = none ∨ ∃ d, s.table.getDelegate fildes = some d ∧ s.table.kind d = .html5 := by
  unfold device at h
  cases hd : s.table.getDelegate fildes with
  | none => exact .inl rfl
  | some d =>
    rw [hd, Option.bind_some] at h
    cases hk : s.table.kind d with
    | port =>
      rw [hk] at h
      cases h
    | html5 => exact .inr ⟨d, rfl, hk⟩

theorem device_some {fildes : Int} {port : PortFileSystem} (h : s.device fildes = some port) :
    ∃ d, s.table.getDelegate fildes = some d ∧ s.table.kind d = .port ∧ s.ports d = port := by
  obtain ⟨d, hd, h⟩ := Option.bind_eq_some_iff.1 h
  cases hk : s.table.kind d with
  | port =>
    rw [hk] at h
    exact ⟨d, hd, hk, Option.some.inj h⟩
  | html5 =>
    rw [hk] at h
    cases h

/-- A method of a file leaves the devices. -/
theorem method_html5 (hk : s.table.kind d = .html5) (h : s.method B main call d f = some (answer, s')) :
    s'.buffer = s.buffer ∧ s'.table = s.table ∧ s'.ports = s.ports := by
  unfold method at h
  rw [hk] at h
  dsimp only at h
  split at h
  · cases h
    exact ⟨rfl, rfl, rfl⟩
  · split at h
    · cases h
      exact ⟨rfl, rfl, rfl⟩
    · cases h

/-- What a read through a descriptor that is not a device's takes. -/
theorem ReadTurns.other {fildes : Int} {buf nbytes : Nat} (h : ReadTurns B main call fildes buf nbytes s ret t)
    (hd : s.device fildes = none) : t.buffer = s.buffer ∧ t.device fildes = none := by
  have hturn {s s' : Process β} {d : Nat} {answer : Result} (hd : s.device fildes = none)
      (hg : s.table.getDelegate fildes = some d)
      (hm : s.method B main call d (.read buf nbytes) = some (answer, s')) :
      s'.buffer = s.buffer ∧ s'.device fildes = none := by
    rcases device_none hd with hn | ⟨d', hs, hk⟩
    · rw [hg] at hn
      cases hn
    · rw [hg] at hs
      cases hs
      obtain ⟨hb, ht, hp⟩ := method_html5 hk hm
      refine ⟨hb, ?_⟩
      rw [← hd]
      simp only [device, ht, hp]
  induction h with
  | bad => exact ⟨rfl, hd⟩
  | last hg hm hv => exact hturn hd hg hm
  | again hg hm hl rest ih =>
    obtain ⟨hb, hd'⟩ := hturn hd hg hm
    obtain ⟨hb', hdevice⟩ := ih hd'
    exact ⟨hb'.trans hb, hdevice⟩

/-- What a read of a device takes. -/
theorem read_takes {fildes : Int} {buf nbytes : Nat} {port : PortFileSystem} (hd : s.device fildes = some port)
    (h : s.read B main call fildes buf nbytes = .returns ret t) :
    ret.result = (port.read s.buffer nbytes).1 ∧ t.buffer = (port.read s.buffer nbytes).2.2 ∧
      t.device fildes = some port ∧
      t.world.buffers buf = (port.read s.buffer nbytes).2.1 ++
        (s.world.buffers buf).drop (port.read s.buffer nbytes).2.1.length := by
  obtain ⟨d, hs, hk, rfl⟩ := device_some hd
  rw [read_device hs hk] at h
  split at h
  · cases h
  · cases h
    exact ⟨rfl, rfl, hd, Function.update_self ..⟩

/-- What a write posts, and what it returns. -/
theorem write_device {fildes : Int} {buf : Str} {port : PortFileSystem} (hd : s.device fildes = some port)
    (h : s.write B main call fildes buf = .returns ret t) :
    ret.result = (port.write buf).1 ∧ t.device fildes = some port ∧
      s.posts (.write fildes buf) = (port.write buf).2.toList := by
  obtain ⟨d, hs, hk, rfl⟩ := device_some hd
  unfold write at h
  rw [onDescriptor_pass hs (method_port hk _)] at h
  cases h
  refine ⟨rfl, hd, ?_⟩
  simp only [posts, hs, Option.map_some, Option.getD_some, posted, hk]

/-- Through any other descriptor nothing is posted. -/
theorem write_other {fildes : Int} {buf : Str} (hd : s.device fildes = none)
    (h : s.write B main call fildes buf = .returns ret t) :
    t.device fildes = none ∧ s.posts (.write fildes buf) = [] := by
  unfold write onDescriptor at h
  rcases device_none hd with hn | ⟨d, hs, hk⟩
  · rw [hn] at h
    cases h
    refine ⟨hd, ?_⟩
    simp only [posts, hn, Option.map_none, Option.getD_none]
  · rw [hs] at h
    obtain ⟨answer, s', ho, -, rfl⟩ := finish_world h
    obtain ⟨-, ht, hp⟩ := method_html5 hk ho
    constructor
    · rw [← hd]
      simp only [device, pass, ht, hp]
    · simp only [posts, hs, Option.map_some, Option.getD_some, posted, hk]

end Process

/-! ## Keys -/

namespace Page

/-- An event of the keyboard, with its `which`. -/
inductive Key
  | down (which : Char)
  | press (which : Char)
  deriving DecidableEq, Repr

/-- The message its handler posts. -/
def Key.message : Key → Option Var
  | .down which => (onkeydown which).1
  | .press which => some (onkeypress which)

/-- What it types: a character that is pressed, and a backspace that goes down. -/
def Key.typed : Key → Str
  | .down which => if which.toNat = 8 then String.utf8EncodeChar which else []
  | .press which => String.utf8EncodeChar which

/-- A character of one byte is pushed as it is. -/
theorem pushed_onkeypress {which : Char} (h : which.utf8Size = 1) :
    StdIn.pushed (onkeypress which) = String.utf8EncodeChar which := by
  have hl := String.length_utf8EncodeChar which
  rw [h] at hl
  obtain ⟨c, hc⟩ := List.length_eq_one_iff.1 hl
  rw [onkeypress, hc]
  rfl

/-- The messages of keys of one byte push what was typed. -/
theorem flatMap_pushed {keys : List Key} (h : ∀ which, .press which ∈ keys → which.utf8Size = 1) :
    (keys.filterMap Key.message).flatMap StdIn.pushed = keys.flatMap Key.typed := by
  induction keys with
  | nil => rfl
  | cons key keys ih =>
    have hkeys := ih fun which hmem => h which (List.mem_cons_of_mem _ hmem)
    cases key with
    | press which =>
      have hpushed := pushed_onkeypress (h which (List.mem_cons_self ..))
      simp only [List.filterMap_cons, Key.message, List.flatMap_cons, Key.typed, hpushed, hkeys]
    | down which =>
      by_cases h8 : which.toNat = 8
      · have h1 : which.utf8Size = 1 := by
          obtain rfl : which = Char.ofNat 8 := by rw [← h8, Char.ofNat_toNat]
          decide
        have hpushed : StdIn.pushed (.string (str "S0" ++ String.utf8EncodeChar which)) =
            String.utf8EncodeChar which := pushed_onkeypress h1
        simp only [List.filterMap_cons, Key.message, onkeydown, if_pos h8, List.flatMap_cons, Key.typed,
          hpushed, hkeys]
      · simp only [List.filterMap_cons, Key.message, onkeydown, if_neg h8, List.flatMap_cons, Key.typed,
          List.nil_append, hkeys]

end Page

/-! ## The page with log messages -/

namespace Page

/-- The page has the same streams, whatever it logged. -/
structure Alike (p q : Page) : Prop where
  outBuffer : p.outBuffer = q.outBuffer
  errBuffer : p.errBuffer = q.errBuffer
  warn : p.warn = q.warn
  error : p.error = q.error

variable {p q : Page}

theorem Alike.appendConsole (h : Alike p q) (message : Str) : Alike (p.appendConsole message) q :=
  ⟨h.outBuffer, h.errBuffer, h.warn, h.error⟩

theorem Alike.symm (h : Alike p q) : Alike q p :=
  ⟨h.outBuffer.symm, h.errBuffer.symm, h.warn.symm, h.error.symm⟩

theorem Alike.handleMessage (h : Alike p q) (data : Str) :
    Alike (p.handleMessage data) (q.handleMessage data) := by
  have hboth (message : Str) : Alike (p.appendConsole message) (q.appendConsole message) :=
    ((h.appendConsole message).symm.appendConsole message).symm
  unfold Page.handleMessage
  split
  · exact h
  · split
    · exact hboth _
    · split
      · dsimp only
        split
        · rw [appendStdOut_eq, appendStdOut_eq, h.outBuffer, h.warn]
          exact ⟨rfl, h.errBuffer, rfl, h.error⟩
        · split
          · rw [appendStdErr_eq, appendStdErr_eq, h.errBuffer, h.error]
            exact ⟨h.outBuffer, rfl, h.warn, rfl⟩
          · exact hboth _
      · exact h

/-- A log message changes neither stream. -/
theorem Alike.log (h : Alike p q) {data : Str} (hd : data.head? = some 69) :
    Alike (p.handleMessage data) q := by
  obtain ⟨rest, rfl⟩ := List.head?_eq_some_iff.1 hd
  have hlog : p.handleMessage (69 :: rest) = p.appendConsole rest := by
    simp [Page.handleMessage]
  rw [hlog]
  exact h.appendConsole rest

/-- Nor do any number of them between the other messages. -/
theorem Alike.foldl (messages : List Str) : ∀ {p q : Page}, Alike p q →
    Alike (messages.foldl Page.handleMessage p)
      ((messages.filter fun m => m.head? ≠ some 69).foldl Page.handleMessage q) := by
  induction messages with
  | nil => exact id
  | cons m messages ih =>
    intro p q h
    by_cases hm : m.head? = some 69
    · rw [List.filter_cons_of_neg (by simp [hm])]
      exact ih (h.log hm)
    · rw [List.filter_cons_of_pos (by simp [hm])]
      exact ih (h.handleMessage m)

end Page

/-! ## The terminal -/

namespace System

open Console

variable {β : Type} {B : Backend β} {s t : System β} {a : Act} {o : Option Returned}

/-- The byte a message adds to what the readers of /dev/stdin may have. -/
def pushed : Act → Str
  | .message message => StdIn.pushed message
  | .op _ _ _ => []

/-- The messages among the acts. -/
def received : Act → Option Var
  | .message message => some message
  | .op _ _ _ => none

theorem flatMap_pushed (as : List Act) :
    as.flatMap pushed = (as.filterMap received).flatMap StdIn.pushed := by
  induction as with
  | nil => rfl
  | cons a as ih =>
    cases a with
    | message message => simp only [List.flatMap_cons, pushed, List.filterMap_cons, received, ih]
    | op => simp only [List.flatMap_cons, pushed, List.nil_append, List.filterMap_cons, received, ih]

/-- What a step delivered to a reader of a device: the bytes its result counts, in its buffer. -/
def delivered : Act → Option Returned → System β → Str
  | .op _ _ (.read fildes buf _), some ret, s =>
    if (s.process.device fildes).isSome then (s.process.world.buffers buf).take ret.result.toNat else []
  | _, _, _ => []

/-- What a step wrote to a device, with the device's id. -/
def written : Act → Option Returned → System β → List (Int × Str)
  | .op _ _ (.write fildes buf), some ret, s =>
    match s.process.device fildes with
    | some port => if 0 ≤ ret.result then [(port.id, buf)] else []
    | none => []
  | _, _, _ => []

/-- What was written to the device with the id. -/
def output (id : Int) (chunks : List (Int × Str)) : Str :=
  chunks.flatMap fun chunk => if chunk.1 = id then chunk.2 else []

theorem output_append (id : Int) (chunks chunks' : List (Int × Str)) :
    output id (chunks ++ chunks') = output id chunks ++ output id chunks' := List.flatMap_append

/-- A step moves bytes from the buffer to a reader, and from a message to the buffer. -/
theorem step_input (h : step B s a = some (t, o)) :
    delivered a o t ++ t.process.buffer = s.process.buffer ++ pushed a := by
  cases a with
  | message message =>
    cases h
    have hpush := StdIn.handleMessage_eq s.process.buffer message
    show (PortFileSystem.handleMessage s.process.buffer message).2 = _
    rw [hpush]
    rfl
  | op main call op =>
    obtain ⟨ret, hp, rfl, -⟩ := step_op h
    by_cases hr : ∃ fildes buf nbytes, op = .read fildes buf nbytes
    · obtain ⟨fildes, buf, nbytes, rfl⟩ := hr
      cases hd : s.process.device fildes with
      | none =>
        obtain ⟨hbuffer, hdevice⟩ := (Process.read_turns hp).other hd
        simp only [delivered, hdevice, Option.isSome_none, Bool.false_eq_true, if_false, hbuffer, pushed,
          List.nil_append, List.append_nil]
      | some port =>
        obtain ⟨hresult, hbuffer, hdevice, hmemory⟩ := Process.read_takes hd hp
        obtain ⟨hsplit, hcounts, hkeeps⟩ := StdIn.read_ok port s.process.buffer nbytes
        dsimp only at hsplit hcounts hkeeps
        rw [← hresult] at hcounts hkeeps
        simp only [delivered, hdevice, Option.isSome_some, if_true, hmemory, hbuffer, pushed, List.append_nil]
        conv_rhs => rw [hsplit]
        congr 1
        by_cases h0 : 0 ≤ ret.result
        · obtain ⟨-, -, hlen⟩ := hcounts h0
          apply List.take_left'
          omega
        · have hneg : ret.result < 0 := by omega
          rw [(hkeeps hneg).1, Int.toNat_of_nonpos (by omega)]
          rfl
    · have hother : delivered (.op main call op) (some ret) t = [] := by
        cases op <;> first | rfl | exact absurd ⟨_, _, _, rfl⟩ hr
      rw [hother, Process.perform_buffer hp fun fildes buf nbytes he => hr ⟨fildes, buf, nbytes, he⟩]
      exact (List.append_nil _).symm

/-- The writable devices are stdout and stderr, and the page shows what was written to them. -/
structure Shown (s : System β) (chunks : List (Int × Str)) : Prop where
  labelled : ∀ d, Process.Labelled (s.process.ports d)
  page : PageShows (s.posted.foldl Page.handleMessage {}) (output 1 chunks) (output 2 chunks)

/-- A write to a device posts what the page appends to its stream. -/
theorem PageShows.write {page : Page} {out err buf : Str} {port : PortFileSystem} (hl : Process.Labelled port)
    (h : PageShows page out err) :
    PageShows ((port.write buf).2.toList.foldl Page.handleMessage page)
      (out ++ output 1 (if 0 ≤ (port.write buf).1 then [(port.id, buf)] else []))
      (err ++ output 2 (if 0 ≤ (port.write buf).1 then [(port.id, buf)] else [])) := by
  by_cases hw : port.id < 0 ∨ ¬ port.writable
  · have hwrite : port.write buf = (-1, none) := by
      unfold PortFileSystem.write
      rw [if_pos hw]
    rw [hwrite]
    simpa [output] using h
  · have hwrite : port.write buf = ((buf.length : Int), some (str "S" ++ str (toString port.id) ++ buf)) := by
      unfold PortFileSystem.write
      rw [if_neg hw]
    rw [hwrite]
    have h0 : (0 : Int) ≤ buf.length := Int.natCast_nonneg _
    rw [not_or, not_not] at hw
    show PageShows (page.handleMessage (str "S" ++ str (toString port.id) ++ buf)) _ _
    rcases hl hw.2 with hid | hid
    · rw [hid, handleMessage_stdOut, Page.appendStdOut_eq]
      constructor
      · simpa [output, h0] using h.out.append buf
      · simpa [output, h0] using h.err
    · rw [hid, handleMessage_stdErr, Page.appendStdErr_eq]
      constructor
      · simpa [output, h0] using h.out
      · simpa [output, h0] using h.err.append buf

theorem Shown.step {chunks : List (Int × Str)} (hi : Shown s chunks) (h : step B s a = some (t, o)) :
    Shown t (chunks ++ written a o t) := by
  cases a with
  | message message =>
    cases h
    refine ⟨hi.labelled, ?_⟩
    show PageShows _ (output 1 (chunks ++ [])) (output 2 (chunks ++ []))
    rw [List.append_nil]
    exact hi.page
  | op main call op =>
    obtain ⟨ret, hp, rfl, hposted⟩ := step_op h
    refine ⟨Process.performed_labelled (Process.perform_performed hp) hi.labelled, ?_⟩
    rw [output_append, output_append, hposted, List.foldl_append]
    by_cases hw : ∃ fildes buf, op = .write fildes buf
    · obtain ⟨fildes, buf, rfl⟩ := hw
      cases hd : s.process.device fildes with
      | none =>
        obtain ⟨hdevice, hposts⟩ := Process.write_other hd hp
        rw [hposts]
        simpa [written, hdevice, output] using hi.page
      | some port =>
        obtain ⟨hresult, hdevice, hposts⟩ := Process.write_device hd hp
        obtain ⟨d, -, -, hport⟩ := Process.device_some hd
        rw [hposts]
        simp only [written, hdevice, hresult]
        exact PageShows.write (hport ▸ hi.labelled d) hi.page
    · have hposts : s.process.posts op = [] := by
        cases op <;> first | rfl | exact absurd ⟨_, _, rfl⟩ hw
      have hother : written (.op main call op) (some ret) t = [] := by
        cases op <;> first | rfl | exact absurd ⟨_, _, rfl⟩ hw
      rw [hposts, hother]
      simpa [output] using hi.page

/-- In every run of the system, whatever the operations on files and DIRs between them and whatever is
logged: what the readers of devices were delivered, in order, and what is left are the bytes that the
messages pushed, which is what was typed where they are those of keys of one byte each; and the page that
handled the messages posted, with any log messages between them, passed on the lines of what was written to
stdout and to stderr, and keeps what follows the last of each. -/
theorem run_terminal {type : FileSystemType} {info : Nat → FileInfo} {arguments : Nat → Arguments}
    {stats : Nat → Stat} {buffers : Nat → Str} {b : β} {as : List Act} {os : List (Option Returned)}
    (h : Stream.run (step B) (init type info arguments stats buffers b) as = some (s, os)) :
    let read := Stream.collect (step B) delivered (init type info arguments stats buffers b) as
    read ++ s.process.buffer = as.flatMap pushed ∧
      (∀ keys : List Page.Key, as.filterMap received = keys.filterMap Page.Key.message →
        (∀ which, .press which ∈ keys → which.utf8Size = 1) →
        read ++ s.process.buffer = keys.flatMap Page.Key.typed) ∧
      ∀ messages : List Str, messages.filter (fun m => m.head? ≠ some 69) = s.posted →
        PageShows (messages.foldl Page.handleMessage {})
          (output 1 (Stream.collect (step B) written (init type info arguments stats buffers b) as))
          (output 2 (Stream.collect (step B) written (init type info arguments stats buffers b) as)) := by
  intro read
  have hread : read ++ s.process.buffer = as.flatMap pushed :=
    Stream.collect_balance (fun s => s.process.buffer) pushed delivered (fun _ _ _ _ => step_input) h
  refine ⟨hread, ?_, ?_⟩
  · intro keys hkeys hone
    rw [hread, flatMap_pushed, hkeys]
    exact Page.flatMap_pushed hone
  · intro messages hm
    have hinit : Shown (init type info arguments stats buffers b) [] := by
      refine ⟨fun d hw => ?_, shows_nil, shows_nil⟩
      cases hw
    have hshown : Shown s (Stream.collect (step B) written (init type info arguments stats buffers b) as) :=
      (Stream.guarded_true as _).collects written Shown (fun _ _ _ _ _ hi _ hs => hi.step hs) h hinit
    have halike := Page.Alike.foldl messages (p := {}) (q := {}) ⟨rfl, rfl, rfl, rfl⟩
    rw [hm] at halike
    refine ⟨⟨?_, ?_⟩, ?_, ?_⟩
    · rw [halike.warn]
      exact hshown.page.out.lines
    · rw [halike.outBuffer]
      exact hshown.page.out.buffer
    · rw [halike.error]
      exact hshown.page.err.lines
    · rw [halike.errBuffer]
      exact hshown.page.err.buffer

/-- Two keys are pressed, a third goes down, and one of them is read, between writes to stdout and to a
file. -/
def echo : List Act :=
  [.op true 0 (.open_ (some (str "/dev/stdin")) oRdOnly 0),
    .op true 1 (.open_ (some (str "/dev/../dev/stdout")) oWrOnly 0),
    .op false 2 (.open_ (some (str "a")) oRdWr 0), .message (Page.onkeypress 'h'),
    .message (Page.onkeypress 'i'), .op false 3 (.write 1 (str "o")), .op false 4 (.write 2 (str "z")),
    .op false 5 (.read 0 0 1), .op false 6 (.write 1 (str "h\n!"))]

theorem run_terminal_echo :
    ∃ s os, Stream.run (step failingReads) ⟨Process.blank (), []⟩ echo = some (s, os) ∧
      Stream.collect (step failingReads) delivered ⟨Process.blank (), []⟩ echo ++ s.process.buffer =
        [Page.Key.press 'h', .down 'i', .press 'i'].flatMap Page.Key.typed ∧
      PageShows ((s.posted ++ [str "Edone"]).foldl Page.handleMessage {}) (str "oh\n!") [] := by
  have hs : (Stream.run (step failingReads) ⟨Process.blank (), []⟩ echo).isSome = true := by
    decide +kernel
  obtain ⟨⟨s, os⟩, h⟩ := Option.isSome_iff_exists.1 hs
  obtain ⟨-, hin, hout⟩ := run_terminal h
  have hlog : (s.posted ++ [str "Edone"]).filter (fun m => m.head? ≠ some 69) = s.posted := by
    have hp : (Stream.run (step failingReads) ⟨Process.blank (), []⟩ echo).map (fun x => x.1.posted) =
        some [str "S1o", str "S1h\n!"] := by
      decide +kernel
    rw [h] at hp
    rw [show s.posted = [str "S1o", str "S1h\n!"] from Option.some.inj hp]
    decide
  have hpage := hout _ hlog
  have hwritten : Stream.collect (step failingReads) written ⟨Process.blank (), []⟩ echo =
      [(1, str "o"), (1, str "h\n!")] := by
    decide +kernel
  have hone (which : Char) (hw : .press which ∈ [Page.Key.press 'h', .down 'i', .press 'i']) :
      which.utf8Size = 1 := by
    simp only [List.mem_cons, Page.Key.press.injEq, reduceCtorEq, List.not_mem_nil, or_false, false_or] at hw
    rcases hw with rfl | rfl <;> rfl
  refine ⟨s, os, h, hin _ (by decide) hone, ?_⟩
  have hinit : init .localTemporary (fun _ => ⟨0, .regular, 0, 0, 0⟩) (fun _ => ⟨0, .close⟩) (fun _ => .zero)
      (fun _ => []) () = (⟨Process.blank (), []⟩ : System Unit) := rfl
  rw [hinit, hwritten] at hpage
  exact hpage

end System

end NaClFs
