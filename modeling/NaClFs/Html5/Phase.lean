/-
What is seen of a world between two runs for a call: the store, and which phase the flags of the
delegate say comes next. The rules for one run of the main thread compare it with a program.
-/
import NaClFs.Html5.Line

namespace NaClFs

/-! ## Stores -/

namespace World

@[simp] theorem store_setDelegate (w : World) (d : Nat) (this : Html5FileSystem) :
    (w.setDelegate d this).store =
      { w.store with files := Function.update w.store.files d this.toOpenFile } := by
  simp only [store, setDelegate, Store.mk.injEq, true_and, and_true]
  funext d'
  by_cases h : d' = d
  · subst h; simp
  · simp [Function.update_of_ne h]

@[simp] theorem store_setStat (w : World) (buf : Nat) (st : Stat) :
    (w.setStat buf st).store = { w.store with stats := Function.update w.store.stats buf st } := rfl

@[simp] theorem store_setBuffer (w : World) (buf : Nat) (data : Str) :
    (w.setBuffer buf data).store = { w.store with
      buffers := Function.update w.store.buffers buf
        (data ++ (w.store.buffers buf).drop data.length) } := rfl

@[simp] theorem store_files (w : World) (d : Nat) : w.store.files d = (w.delegates d).toOpenFile := rfl

@[simp] theorem update_files (w : World) (d : Nat) :
    Function.update w.store.files d (w.delegates d).toOpenFile = w.store.files :=
  Function.update_eq_self d _

@[simp] theorem store_setInfo (w : World) (d : Nat) (info : Option FileInfo) :
    (w.setInfo d info).store = { w.store with
      files := Function.update w.store.files d
        { w.store.files d with fileInfo := info.getD (w.store.files d).fileInfo } } := by
  cases info with
  | none => simp only [setInfo, Option.getD_none, Function.update_eq_self]
  | some info => simp [setInfo, store_files]

@[simp] theorem store_setDir (w : World) (dirp : Nat) (dir : Option Html5FileSystemDir) :
    (w.setDir dirp dir).store = { w.store with
      dirs := w.store.dirs.set dirp (dir.map Html5FileSystemDir.toListing) } := by
  simp [store, setDir, List.map_set]

@[simp] theorem store_issued (w : World) (call : Nat) (request : Request) :
    (w.record (.issued call request)).store =
      { w.store with requests := w.store.requests ++ [request] } := by
  simp [store, record, Event.request]

@[simp] theorem store_delivered (w : World) (p : Completion) (answer : Answer) :
    (w.record (.delivered p answer)).store = w.store := by
  simp [store, record, Event.request]

@[simp] theorem store_enter (w : World) (call : Nat) (arguments : Arguments) :
    (w.enter call arguments).store = w.store := by
  simp only [store, enter, Store.mk.injEq, true_and, and_true]
  funext d'
  by_cases h : d' = arguments.delegate
  · subst h; simp
  · simp [Function.update_of_ne h]

theorem store_filesystemType (w : World) : w.store.filesystemType = w.filesystemType := rfl

theorem store_filesystem (w : World) : w.store.filesystem = w.filesystem := rfl

theorem store_resources (w : World) : w.store.resources = w.resources := rfl

@[simp] theorem store_initialized (w : World) (filesystem : Option Nat) (resources : Nat) :
    ({ w with filesystem := filesystem, resources := resources } : World).store =
      { w.store with filesystem := filesystem, resources := resources } := rfl

theorem dir_setDir {w : World} {dirp : Nat} {dir : Html5FileSystemDir} (h : w.dir dirp = some dir)
    (dir' : Html5FileSystemDir) : (w.setDir dirp (some dir')).dir dirp = some dir' := by
  obtain ⟨hl, -⟩ := List.getElem?_eq_some_iff.1 (dir_some.1 h)
  rw [dir_some, setDir, List.getElem?_set_self hl]

theorem store_dir (w : World) (dirp : Nat) :
    w.store.dirs[dirp]?.join = (w.dir dirp).map Html5FileSystemDir.toListing := by
  simp only [store, dir, List.getElem?_map]
  cases w.dirs[dirp]? with
  | none => rfl
  | some dir => cases dir <;> rfl

end World

/-! ## Phases -/

/-- No phase flag is set. -/
structure Quiet (this : Html5FileSystem) : Prop where
  waiting : this.waiting = false
  querying : this.querying = false

/-- Between calls no delegate has a phase flag set. -/
def Quiescent (w : World) : Prop := ∀ d, Quiet (w.delegates d)

theorem init_quiescent (type : FileSystemType) (info : Nat → FileInfo) (arguments : Nat → Arguments)
    (stats : Nat → Stat) (buffers : Nat → Str) :
    Quiescent (World.init type info arguments stats buffers) := fun _ => ⟨rfl, rfl⟩

theorem blank_quiescent : Quiescent World.blank := init_quiescent _ _ _ _ _

/-- Between two runs for a call: the flags of its delegate are given, the others' are not set. -/
structure Phase (w : World) (call d : Nat) (f : Function) (waiting querying : Bool) : Prop where
  others : ∀ d', d' ≠ d → Quiet (w.delegates d')
  arguments : w.arguments call = ⟨d, f⟩
  callback : (w.delegates d).callback = some call
  waiting : (w.delegates d).waiting = waiting
  querying : (w.delegates d).querying = querying

variable {w : World} {call d : Nat} {f : Function} {v q : Bool}

theorem Phase.quiescent (h : Phase w call d f false false) : Quiescent w := by
  intro d'
  by_cases hd : d' = d
  · subst hd
    exact ⟨h.waiting, h.querying⟩
  · exact h.others d' hd

theorem Phase.of_eq {u : World} (h : Phase w call d f v q) (hd : u.delegates = w.delegates)
    (ha : u.arguments = w.arguments) : Phase u call d f v q where
  others d' hne := by rw [hd]; exact h.others d' hne
  arguments := by rw [ha]; exact h.arguments
  callback := by rw [hd]; exact h.callback
  waiting := by rw [hd]; exact h.waiting
  querying := by rw [hd]; exact h.querying

theorem Phase.set {y x v' q' : Bool} {file : OpenFile} (h : Phase w call d f v q) (hv : y = v')
    (hq : x = q') :
    Phase (w.setDelegate d ⟨file, y, x, (w.delegates d).callback⟩) call d f v' q' where
  others d' hne := by rw [World.setDelegate_of_ne w hne]; exact h.others d' hne
  arguments := h.arguments
  callback := by rw [World.setDelegate_self]; exact h.callback
  waiting := by rw [World.setDelegate_self]; exact hv
  querying := by rw [World.setDelegate_self]; exact hq

theorem Phase.setInfo (h : Phase w call d f v q) (info : Option FileInfo) :
    Phase (w.setInfo d info) call d f v q := by
  cases info with
  | none => exact h
  | some info =>
    exact h.set h.waiting h.querying

theorem Quiescent.enter (hq : Quiescent w) (call d : Nat) (f : Function) :
    Phase (w.enter call ⟨d, f⟩) call d f false false where
  others d' hne := by simp only [World.enter, Function.update_of_ne hne]; exact hq d'
  arguments := World.enter_self ..
  callback := by simp [World.enter]
  waiting := by simp [World.enter, (hq d).waiting]
  querying := by simp [World.enter, (hq d).querying]

/-! ## One run of the main thread -/

variable {β : Type} {B : Backend β} {b : β} {n : Nat} {result : Int} {e : Entry}

theorem serve_done (ha : w.arguments call = ⟨d, f⟩)
    (he : Html5FileSystem.switch (B.imm b) w d result f = e) (hc : e.chaining = false) :
    serve B (n + 1) w b call result =
      .returned e.result (e.world.issue call e.request) (B.after b e.request) := by
  subst he
  rw [serve]
  simp only [proxy, ha, hc, Bool.false_eq_true, not_false_eq_true, if_true]

theorem serve_chains {request : Request} {p : Completion} {answer : Answer} {c : Nat}
    (ha : w.arguments call = ⟨d, f⟩)
    (he : Html5FileSystem.switch (B.imm b) w d result f = e) (hc : e.chaining = true)
    (hr : e.request = some request) (hp : e.completion = some p)
    (hB : (B b request).1 = .completes answer)
    (hd : (deliver (e.world.record (.issued call request)) p answer).2 = some c) :
    serve B (n + 1) w b call result =
      serve B n (deliver (e.world.record (.issued call request)) p answer).1 (B b request).2 c
        answer.code := by
  subst he
  rcases hx : deliver ((Html5FileSystem.switch (B.imm b) w d result f).world.record
      (.issued call request)) p answer with ⟨w', c'⟩
  rw [hx] at hd
  obtain rfl : c' = some c := hd
  rw [serve]
  simp only [proxy, ha, hc, hr, hp, Backend.answer, hB, Backend.after, World.issue, hx,
    not_true_eq_false, if_false]

/-- More fuel changes nothing once it is enough. -/
theorem serve_succ (B : Backend β) : ∀ (n : Nat) (w : World) (b : β) (call : Nat) (result : Int),
    serve B n w b call result ≠ .spent →
      serve B (n + 1) w b call result = serve B n w b call result
  | 0, _, _, _, _, h => absurd rfl h
  | n + 1, w, b, call, result, h => by
    rw [serve] at h ⊢
    conv => rhs; rw [serve]
    -- Both sides make the same first run, and differ in the fuel left for the next one.
    split
    · rfl
    · rename_i hc
      rw [if_neg hc] at h
      cases hp : (proxy (B.imm b) w call result).completion with
      | none => rfl
      | some p =>
        cases ha : B.answer b (proxy (B.imm b) w call result).request with
        | none => rfl
        | some answer =>
          rw [hp, ha] at h
          simp only at h ⊢
          split
          · rfl
          · rename_i w' c hd
            rw [hd] at h
            exact serve_succ B n w' _ c answer.code h

/-- The runs of a call end as its program does, and leave no flag set when it returns. -/
def Agrees (o : Outcome β) (l : Option Result × Store × β) : Prop :=
  match o with
  | .returned result w b => l = (some result, w.store, b) ∧ Quiescent w
  | .blocked w b => l = (none, w.store, b)
  | .spent => False

theorem Agrees.done {l : Option Result × Store × β} (ha : w.arguments call = ⟨d, f⟩)
    (he : Html5FileSystem.switch (B.imm b) w d result f = e) (hc : e.chaining = false)
    (hq : Quiescent e.world)
    (h : (some e.result, (e.world.issue call e.request).store, B.after b e.request) = l) :
    Agrees (serve B (n + 1) w b call result) l := by
  rw [serve_done ha he hc]
  refine ⟨h.symm, ?_⟩
  intro d'
  cases e.request <;> exact hq d'

theorem Agrees.hangs {l : Option Result × Store × β} (ha : w.arguments call = ⟨d, f⟩)
    (he : Html5FileSystem.switch (B.imm b) w d result f = e) (hc : e.chaining = true)
    (hp : e.completion = none)
    (h : (none, (e.world.issue call e.request).store, B.after b e.request) = l) :
    Agrees (serve B (n + 1) w b call result) l := by
  subst he
  rw [serve]
  simp only [proxy, ha]
  rw [if_neg (not_not_intro hc), hp]
  exact h.symm

theorem Agrees.chains {l : Option Result × Store × β} {request : Request} {p : Completion}
    {answer : Answer} {c : Nat} (ha : w.arguments call = ⟨d, f⟩)
    (he : Html5FileSystem.switch (B.imm b) w d result f = e) (hc : e.chaining = true)
    (hr : e.request = some request) (hp : e.completion = some p)
    (hB : (B b request).1 = .completes answer)
    (hd : (deliver (e.world.record (.issued call request)) p answer).2 = some c)
    (h : ∀ w', (deliver (e.world.record (.issued call request)) p answer).1 = w' →
      Agrees (serve B n w' (B b request).2 c answer.code) l) :
    Agrees (serve B (n + 1) w b call result) l := by
  rw [serve_chains ha he hc hr hp hB hd]
  exact h _ rfl

theorem Agrees.succ {l : Option Result × Store × β} (h : Agrees (serve B n w b call result) l) :
    Agrees (serve B (n + 1) w b call result) l := by
  rw [serve_succ]
  · exact h
  · intro hs
    rw [hs] at h
    exact h

/-! ## Running a program -/

@[simp] theorem Line.ask_run (B : Backend β) (request : Request) (s : Store) (b : β) :
    Line.ask B request s b =
      (some (B b request).1, { s with requests := s.requests ++ [request] }, (B b request).2) := rfl

@[simp] theorem Line.get_run (s : Store) (b : β) : (Line.get : Line β Store) s b = (some s, s, b) := rfl

@[simp] theorem Line.modify_run (g : Store → Store) (s : Store) (b : β) :
    (Line.modify g : Line β Unit) s b = (some (), g s, b) := rfl

@[simp] theorem Line.wait_run {α : Type} (s : Store) (b : β) :
    (Line.wait : Line β α) s b = (none, s, b) := rfl

/-- The store after a new file of the delegate was asked to be opened. -/
def Store.withFile (s : Store) (d : Nat) (ref : FileRef) (flags : BitVec 32) : Store :=
  { s with
    resources := s.resources + 1
    files := Function.update s.files d
      { s.files d with fileRef := some ref, fileIo := some s.resources }
    requests := s.requests ++ [.fileOpen s.resources ref flags] }

@[simp] theorem Store.withFile_files (s : Store) (d : Nat) (ref : FileRef) (flags : BitVec 32) :
    (s.withFile d ref flags).files d =
      { s.files d with fileRef := some ref, fileIo := some s.resources } := Function.update_self ..

/-- The store after a query of the delegate's file delivered some information, or none. -/
def Store.withInfo (s : Store) (d : Nat) (info : Option FileInfo) : Store :=
  { s with
    files := Function.update s.files d
      { s.files d with fileInfo := info.getD (s.files d).fileInfo }
    requests := s.requests ++ [.query (s.files d).fileIo] }

@[simp] theorem Store.withInfo_files (s : Store) (d : Nat) (info : Option FileInfo) :
    (s.withInfo d info).files d =
      { s.files d with fileInfo := info.getD (s.files d).fileInfo } := Function.update_self ..

section Bind

variable {α : Type} {s : Store}

/-- A filesystem that is open is not opened again. -/
theorem Line.needFileSystem_open {filesystem : Nat} (h : s.filesystem = some filesystem) :
    Line.needFileSystem B s b = (some (filesystem, 0), s, b) := by
  unfold Line.needFileSystem
  rw [Line.bind_run, Line.get_run]
  dsimp only
  rw [h]
  rfl

theorem Line.openFile_bind (ref : FileRef) (flags : BitVec 32) (k : Reply → Line β α) :
    (Line.openFile B d ref flags >>= k) s b =
      k (B b (.fileOpen s.resources ref flags)).1 (s.withFile d ref flags)
        (B b (.fileOpen s.resources ref flags)).2 := rfl

/-- A program that waits for a query that is refused waits forever. -/
theorem Line.query_bind_refused {code : Int} {hc : code ≠ ppOkCompletionPending}
    (h : (B b (.query (s.files d).fileIo)).1 = .refused code hc) (k : Int → Line β α) :
    (Line.query B d >>= k) s b = (none, { s with requests := s.requests ++ [.query (s.files d).fileIo] },
      (B b (.query (s.files d).fileIo)).2) := by
  simp only [Line.query, Line.bind_run, Line.get_run, Line.ask_run, h, Line.wait_run]

theorem Line.query_bind_completes {answer : Answer}
    (h : (B b (.query (s.files d).fileIo)).1 = .completes answer) (k : Int → Line β α) :
    (Line.query B d >>= k) s b =
      k answer.code (s.withInfo d answer.info) (B b (.query (s.files d).fileIo)).2 := by
  simp only [Line.query, Line.bind_run, Line.get_run, Line.ask_run, h]
  rfl

end Bind

theorem imm_completes {request : Request} {answer : Answer} (h : (B b request).1 = .completes answer) :
    B.imm b request = ppOkCompletionPending := by
  rw [Backend.imm, h, Reply.code]

theorem imm_refused {request : Request} {code : Int} {hc : code ≠ ppOkCompletionPending}
    (h : (B b request).1 = .refused code hc) : B.imm b request = code := by
  rw [Backend.imm, h, Reply.code]

theorem Agrees.of_eq {o : Outcome β} {l l' : Option Result × Store × β} (h : Agrees o l)
    (he : l = l') : Agrees o l' := he ▸ h

end NaClFs
