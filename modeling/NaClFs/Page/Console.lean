/-
Console output from end to end: descriptors opened on the devices by any spelling of their paths,
Writes and Log messages of one thread, and the page that handles the messages in order. Such a thread
posts a message before its call returns, so the messages come in the order of the calls.
-/
import NaClFs.FileSystem.Table
import NaClFs.Page.Naclfs

namespace NaClFs

/-! ## The module -/

/-- The file system, the port delegates by name, and the messages posted. -/
structure Console where
  table : FileSystem := .init
  ports : Nat → PortFileSystem := fun _ => {}
  /-- The path each delegate was opened on. -/
  opened : Nat → Str := fun _ => []
  /-- What `Instance::PostMessage` got, in order. -/
  posted : List Str := []

namespace Console

inductive Action
  /-- `answer` is what the delegate answers if it is an HTML5 one. -/
  | open_ (path : Str) (oflag : BitVec 32) (answer : Int)
  | close (fildes : Int) (answer : Int)
  | chDir (path : Str) (answer : Int) (buf : Stat)
  | write (fildes : Int) (buf : Str)
  | log (message : Str)
  deriving DecidableEq, Repr

/-- `NaClFs::Log`: the message posted. -/
def logMessage (message : Str) : Str := str "E" ++ message

/-- One call. The output of a Write is the path its descriptor was opened on and the payload; there is
no step for a Write that fails or that goes to an HTML5 file. -/
def step (s : Console) : Action → Option (Console × Option (Str × Str))
  | .open_ path oflag answer =>
    let fullpath := createFullpath s.table.cwd path
    let (table, delegate) := s.table.createDelegate fullpath
    if table.delegates[delegate]? = some .port then
      let (port, result) := PortFileSystem.open_ {} fullpath oflag
      some ({ s with
        table := (s.table.open_ (some path) result).1
        ports := Function.update s.ports delegate port
        opened := Function.update s.opened delegate fullpath }, none)
    else some ({ s with table := (s.table.open_ (some path) answer).1 }, none)
  | .close fildes answer => some ({ s with table := (s.table.close fildes answer).1 }, none)
  | .chDir path answer buf => some ({ s with table := (s.table.chDir path answer buf).1 }, none)
  | .write fildes buf =>
    (s.table.getDelegate fildes).bind fun delegate =>
      ((s.ports delegate).write buf).2.map fun message =>
        ({ s with posted := s.posted ++ [message] }, some (s.opened delegate, buf))
  | .log message => some ({ s with posted := s.posted ++ [logMessage message] }, none)

/-- The page after it handled the messages. -/
def page (s : Console) : Page := s.posted.foldl Page.handleMessage {}

/-- What a step wrote to the device. -/
def payload (device : Str) (o : Option (Str × Str)) : Str :=
  (o.bind fun (path, buf) => if path = device then some buf else none).getD []

/-! ## Messages -/

theorem page_of_posted_eq {s s' : Console} (h : s'.posted = s.posted) : s'.page = s.page := by
  unfold page
  rw [h]

theorem page_of_posted_append {s s' : Console} {m : Str} (h : s'.posted = s.posted ++ [m]) :
    s'.page = s.page.handleMessage m := by
  unfold page
  rw [h, List.foldl_append, List.foldl_cons, List.foldl_nil]

theorem handleMessage_log (p : Page) (message : Str) :
    p.handleMessage (logMessage message) = p.appendConsole message := by
  have h : str "E" = [69] := by decide
  simp [Page.handleMessage, logMessage, h]

theorem handleMessage_stdOut (p : Page) (buf : Str) :
    p.handleMessage (str "S" ++ str (toString (1 : Int)) ++ buf) = p.appendStdOut buf := by
  have h : str "S" ++ str (toString (1 : Int)) = [83, 49] := by decide
  rw [h]
  simp [Page.handleMessage]

theorem handleMessage_stdErr (p : Page) (buf : Str) :
    p.handleMessage (str "S" ++ str (toString (2 : Int)) ++ buf) = p.appendStdErr buf := by
  have h : str "S" ++ str (toString (2 : Int)) = [83, 50] := by decide
  rw [h]
  simp [Page.handleMessage]

/-! ## The invariant -/

/-- The page shows `s` as the lines of a stream: the finished ones passed on, the last one kept. -/
structure Shows (lines : List Str) (buffer s : Str) : Prop where
  lines : lines = Lines.complete newline s
  buffer : buffer = Lines.pending newline s

theorem shows_nil : Shows [] [] [] := ⟨rfl, rfl⟩

/-- What is pending and a further chunk are split as the whole stream is. -/
theorem Shows.append {lines : List Str} {buffer s : Str} (h : Shows lines buffer s) (t : Str) :
    Shows (lines ++ Lines.complete newline (buffer ++ t)) (Lines.pending newline (buffer ++ t))
      (s ++ t) := by
  constructor
  · rw [h.lines, h.buffer, Lines.complete_append s t]
  · rw [h.buffer, Lines.pending_append s t]

/-- What the page shows of both devices. -/
structure PageShows (p : Page) (out err : Str) : Prop where
  out : Shows p.warn p.outBuffer out
  err : Shows p.error p.errBuffer err

/-- A writable port is one of the two devices, and its id says which. -/
def PortsInv (s : Console) : Prop :=
  ∀ d, (s.ports d).writable = true →
    (s.opened d = PortFileSystem.kStdOutPath ∧ (s.ports d).id = 1) ∨
    (s.opened d = PortFileSystem.kStdErrPath ∧ (s.ports d).id = 2)

theorem init_portsInv : PortsInv {} := by
  intro d h
  cases h

theorem open_writable {path : Str} {oflag : BitVec 32}
    (h : (PortFileSystem.open_ {} path oflag).1.writable = true) :
    (path = PortFileSystem.kStdOutPath ∧ (PortFileSystem.open_ {} path oflag).1.id = 1) ∨
    (path = PortFileSystem.kStdErrPath ∧ (PortFileSystem.open_ {} path oflag).1.id = 2) := by
  unfold PortFileSystem.open_ at h ⊢
  split at h
  · cases h
  · rename_i h0
    rw [if_neg h0]
    split at h
    · rename_i h1
      left
      rw [if_pos h1]
      exact ⟨h1, rfl⟩
    · rename_i h1
      split at h
      · rename_i h2
        right
        rw [if_neg h1, if_pos h2]
        exact ⟨h2, rfl⟩
      · cases h

theorem step_portsInv {s s' : Console} {a : Action} {o : Option (Str × Str)} (hi : PortsInv s)
    (h : s.step a = some (s', o)) : PortsInv s' := by
  cases a with
  | open_ path oflag answer =>
    simp only [step] at h
    split at h
    · cases h
      intro d hd
      by_cases he : d = s.table.delegates.length
      · subst he
        simp only [FileSystem.createDelegate, Function.update_self] at hd ⊢
        exact open_writable hd
      · simp only [FileSystem.createDelegate, Function.update_of_ne he] at hd ⊢
        exact hi d hd
    · cases h
      exact hi
  | close fildes answer =>
    cases h
    exact hi
  | chDir path answer buf =>
    cases h
    exact hi
  | write fildes buf =>
    obtain ⟨d, -, h⟩ := Option.bind_eq_some_iff.1 h
    obtain ⟨m, -, h⟩ := Option.map_eq_some_iff.1 h
    cases h
    exact hi
  | log message =>
    cases h
    exact hi

/-- A step posts nothing, a log message, or the payload for the device of the descriptor. -/
theorem step_page {s s' : Console} {a : Action} {o : Option (Str × Str)} (hi : PortsInv s)
    (h : s.step a = some (s', o)) {out err : Str} (hp : PageShows s.page out err) :
    PageShows s'.page (out ++ payload PortFileSystem.kStdOutPath o)
      (err ++ payload PortFileSystem.kStdErrPath o) := by
  have silent (hpost : s'.posted = s.posted) (ho : o = none) :
      PageShows s'.page (out ++ payload PortFileSystem.kStdOutPath o)
        (err ++ payload PortFileSystem.kStdErrPath o) := by
    rw [page_of_posted_eq hpost, ho]
    simpa [payload] using hp
  cases a with
  | open_ path oflag answer =>
    simp only [step] at h
    split at h <;> cases h <;> exact silent rfl rfl
  | close fildes answer =>
    cases h
    exact silent rfl rfl
  | chDir path answer buf =>
    cases h
    exact silent rfl rfl
  | write fildes buf =>
    obtain ⟨d, -, h⟩ := Option.bind_eq_some_iff.1 h
    obtain ⟨m, hm, h⟩ := Option.map_eq_some_iff.1 h
    cases h
    -- A write that posts anything comes from a writable port.
    obtain ⟨hw, hm⟩ : (s.ports d).writable = true ∧
        str "S" ++ str (toString (s.ports d).id) ++ buf = m := by
      unfold PortFileSystem.write at hm
      split at hm
      · cases hm
      · rename_i hn
        rw [not_or, not_not] at hn
        exact ⟨hn.2, Option.some.inj hm⟩
    rw [page_of_posted_append (s := s) (m := m) rfl]
    rcases hi d hw with ⟨ho, hid⟩ | ⟨ho, hid⟩
    · rw [← hm, hid, handleMessage_stdOut, Page.appendStdOut_eq]
      constructor
      · simpa [payload, ho] using hp.out.append buf
      · simpa [payload, ho, show PortFileSystem.kStdOutPath ≠ PortFileSystem.kStdErrPath by decide]
          using hp.err
    · rw [← hm, hid, handleMessage_stdErr, Page.appendStdErr_eq]
      constructor
      · simpa [payload, ho, show PortFileSystem.kStdErrPath ≠ PortFileSystem.kStdOutPath by decide]
          using hp.out
      · simpa [payload, ho] using hp.err.append buf
  | log message =>
    cases h
    rw [page_of_posted_append (s := s) (m := logMessage message) rfl, handleMessage_log]
    constructor
    · simpa [payload, Page.appendConsole] using hp.out
    · simpa [payload, Page.appendConsole] using hp.err

theorem run_page {as : List Action} {s t : Console} {os : List (Option (Str × Str))}
    (hi : PortsInv s) {out err : Str} (hp : PageShows s.page out err)
    (h : Stream.run step s as = some (t, os)) :
    PageShows t.page (out ++ os.flatMap (payload PortFileSystem.kStdOutPath))
      (err ++ os.flatMap (payload PortFileSystem.kStdErrPath)) := by
  induction as generalizing s os out err with
  | nil =>
    obtain ⟨rfl, rfl⟩ := Stream.run_nil.1 h
    simpa using hp
  | cons a as ih =>
    obtain ⟨s', o, os', hs, hr, rfl⟩ := Stream.run_cons.1 h
    have := ih (step_portsInv hi hs) (step_page hi hs hp) hr
    simpa using this

/-! ## The whole channel -/

/-- However the output was cut into Writes and whatever was logged between them: the page passed to
`console.warn` all lines of what was written to /dev/stdout but the last and keeps that one, and the
same for /dev/stderr and `console.error`. -/
theorem run_console (as : List Action) (s : Console) (os : List (Option (Str × Str)))
    (h : Stream.run step {} as = some (s, os)) :
    let out := os.flatMap (payload PortFileSystem.kStdOutPath)
    let err := os.flatMap (payload PortFileSystem.kStdErrPath)
    (s.page.warn = (out.splitOn newline).dropLast ∧
      some s.page.outBuffer = (out.splitOn newline).getLast?) ∧
    s.page.error = (err.splitOn newline).dropLast ∧
      some s.page.errBuffer = (err.splitOn newline).getLast? := by
  intro out err
  have h0 : PageShows ({} : Console).page [] [] := ⟨shows_nil, shows_nil⟩
  obtain ⟨ho, he⟩ := run_page init_portsInv h0 h
  rw [List.nil_append] at ho he
  refine ⟨⟨ho.lines, ?_⟩, he.lines, ?_⟩
  · rw [ho.buffer, List.getLast?_eq_some_getLast (List.splitOn_ne_nil _ _)]
    rfl
  · rw [he.buffer, List.getLast?_eq_some_getLast (List.splitOn_ne_nil _ _)]
    rfl

/-- A line that three chunks make up, with a log message and the other device in between. -/
theorem run_console_chunks :
    ∃ s os, Stream.run step {} [.open_ (str "dev/./stdout") oWrOnly 0,
        .open_ (str "//dev/x/../stderr") oWrOnly 0, .write 0 (str "he"), .write 1 (str "e\n"),
        .log (str "!"), .write 0 (str "llo\nwor"), .write 0 []] = some (s, os) ∧
      s.page.warn = [str "hello"] ∧ some s.page.outBuffer = some (str "wor") ∧
      s.page.error = [str "e"] := by
  refine ⟨_, _, rfl, ?_⟩
  have h := run_console [.open_ (str "dev/./stdout") oWrOnly 0,
    .open_ (str "//dev/x/../stderr") oWrOnly 0, .write 0 (str "he"), .write 1 (str "e\n"),
    .log (str "!"), .write 0 (str "llo\nwor"), .write 0 []] _ _ rfl
  exact ⟨h.1.1.trans (by decide), h.1.2.trans (by decide), h.2.1.trans (by decide)⟩

end Console

end NaClFs
