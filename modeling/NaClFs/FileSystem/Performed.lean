/-
What an operation that returned has done: whose method it called, what the method left, and what became
of the table. What every operation keeps is read off this once.
-/
import NaClFs.FileSystem.Descriptors
import NaClFs.FileSystem.Process
import NaClFs.Html5.Rules

namespace NaClFs

namespace Process

/-! ## Methods -/

variable {β : Type} {B : Backend β} {main : Bool} {call : Nat} {s s' : Process β} {d : Nat} {f : Function}
  {answer : Result}

/-- What a method that returned has done: a device keeps its own state, the caller's memory and errno;
on the main thread a file does nothing; on a worker it runs its program. -/
inductive Did (B : Backend β) (main : Bool) (s : Process β) (d : Nat) (f : Function) :
    Result → Process β → Prop
  | port (hk : s.table.kind d = .port) : Did B main s d f (s.port d f).1 (s.port d f).2
  | main (hk : s.table.kind d = .html5) (hm : main = true) : Did B main s d f (onMainThread f) s
  | file (hk : s.table.kind d = .html5) (hm : main = false) {answer : Result} {w : World} {b : β}
      (hp : Line.program B d f s.world.store s.backend = (some answer, w.store, b)) (hq : Quiescent w) :
      Did B main s d f answer { s with world := w, backend := b }

theorem method_did (hq : Quiescent s.world) (h : s.method B main call d f = some (answer, s')) :
    Did B main s d f answer s' := by
  unfold method at h
  split at h
  · rename_i hk
    obtain rfl : (s.port d f).1 = answer := congrArg Prod.fst (Option.some.inj h)
    obtain rfl : (s.port d f).2 = s' := congrArg Prod.snd (Option.some.inj h)
    exact .port hk
  · rename_i hk
    split at h
    · rename_i hm
      cases h
      exact .main hk hm
    · rename_i hm
      have ha := call_agrees (B := B) (b := s.backend) hq call ⟨d, f⟩
      split at h
      · rename_i result w b ho
        rw [ho] at ha
        cases h
        exact .file hk (by simpa using hm) ha.1 ha.2
      · cases h

/-- The table after a method: only a device's `Fcntl` touches it, and only errno. -/
theorem Did.table (h : Did B main s d f answer s') :
    ∃ errno, s'.table = { s.table with errno := errno } := by
  cases h with
  | main | file => exact ⟨_, rfl⟩
  | port =>
    cases f with
    | fcntl cmd ap => exact ⟨_, rfl⟩
    | stat path buf =>
      simp only [Process.port]
      split <;> exact ⟨_, rfl⟩
    | _ => exact ⟨_, rfl⟩

/-- A device leaves the files, the DIRs and the backend. -/
theorem port_store (s : Process β) (d : Nat) (f : Function) :
    ∃ stats buffers, (s.port d f).2.world.store = { s.world.store with stats := stats, buffers := buffers } ∧
      (s.port d f).2.backend = s.backend := by
  cases f with
  | stat path buf =>
    simp only [port]
    split <;> exact ⟨_, _, rfl, rfl⟩
  | _ => exact ⟨_, _, rfl, rfl⟩

/-- A device leaves the others. -/
theorem port_ports (s : Process β) (d : Nat) (f : Function) {d' : Nat} (hd : d' ≠ d) :
    (s.port d f).2.ports d' = s.ports d' := by
  cases f with
  | open_ | fcntl => exact Function.update_of_ne hd ..
  | stat path buf =>
    simp only [port]
    split <;> rfl
  | _ => rfl

/-- Only a `Read` takes from the buffer. -/
theorem port_buffer (s : Process β) (d : Nat) (hu : f.use = .path) : (s.port d f).2.buffer = s.buffer := by
  cases f with
  | stat path buf =>
    simp only [port]
    split <;> rfl
  | read => cases hu
  | _ => rfl

/-- The delegates there were stay. -/
theorem create_delegates (s : Process β) (path : Str) {d : Nat}
    (hd : d ≠ s.table.delegates.length) :
    (s.create path).1.world.delegates d = s.world.delegates d :=
  World.setDelegate_of_ne _ hd _

/-! ## Operations -/

/-- The call on the table that goes with a method of a new delegate. -/
inductive PathCall (cwd path : Str) (stats : Nat → Stat) : Function → Result → FileSystem.Op → Prop
  | open_ (oflag cmode : BitVec 32) (answer : Result) :
      PathCall cwd path stats (.open_ (createFullpath cwd path) oflag cmode) answer
        (.open_ (some path) answer.toInt)
  | stat (buf : Nat) (answer : Result) :
      PathCall cwd path stats (.stat (createFullpath cwd path) buf) answer (.stat path answer.toInt)
  | mkdir (mode : BitVec 32) (answer : Result) :
      PathCall cwd path stats (.mkdir (createFullpath cwd path) mode) answer (.mkDir (some path) answer.toInt)
  | opendir (answer : Result) :
      PathCall cwd path stats (.opendir (createFullpath cwd path)) answer (.openDir (some path) answer.isDir)
  | chdir (buf : Nat) (answer : Result) :
      PathCall cwd path stats (.stat (createFullpath cwd path) buf) answer
        (.chDir path answer.toInt (stats buf))

/-- What an operation that returned has done. A read may have taken a turn before that ended in the lock
of `mutex_`, which was free. -/
inductive Performed (B : Backend β) (main : Bool) (call : Nat) : Process β → Returned → Process β → Prop
  | answered (s : Process β) (ret : Returned) : Performed B main call s ret s
  | path {s s' : Process β} {path : Str} {f : Function} {answer : Result} {op : FileSystem.Op}
      {table : FileSystem} {ret : FileSystem.Ret} (hc : PathCall s.table.cwd path s'.world.stats f answer op)
      (hm : (s.create (createFullpath s.table.cwd path)).1.method B main call s.table.delegates.length f =
        some (answer, s')) (ht : s.table.call op = some (table, ret)) :
      Performed B main call s { ret with } { s' with table := table }
  | descriptor {s s' : Process β} {fildes : Int} {d : Nat} {f : Function} {answer : Result}
      (hu : f.use = .descriptor) (hc : f ≠ .close) (hd : s.table.getDelegate fildes = some d)
      (hm : s.method B main call d f = some (answer, s')) :
      Performed B main call s { result := answer.toInt } s'
  | again {s s' t : Process β} {fildes : Int} {d buf nbytes : Nat} {ret : Returned}
      (hd : s.table.getDelegate fildes = some d)
      (hm : s.method B main call d (.read buf nbytes) = some (.int (-2), s'))
      (rest : Performed B main call { s' with locked := true } ret t) : Performed B main call s ret t
  | close {s s' : Process β} {fildes : Int} {d : Nat} {answer : Result}
      (hd : s.table.getDelegate fildes = some d)
      (hm : s.method B main call d .close = some (answer, s')) :
      Performed B main call s { (s.table.close fildes answer.toInt).2 with }
        { s' with table := (s.table.close fildes answer.toInt).1 }
  | dir {s s' : Process β} {dirp d : Nat} {f : Function} {answer : Result} {ret : Returned}
      (hu : f.use = .dir) (hc : f ≠ .closedir dirp) (hd : s.table.dirs[dirp]?.join = some d)
      (hm : s.method B main call d f = some (answer, s')) : Performed B main call s ret s'
  | closedir {s s' : Process β} {dirp d : Nat} {answer : Result} {table : FileSystem}
      {ret : FileSystem.Ret} (hd : s.table.dirs[dirp]?.join = some d)
      (hm : s.method B main call d (.closedir dirp) = some (answer, s'))
      (ht : s.table.closeDir dirp answer.toInt = some (table, ret)) :
      Performed B main call s { ret with } { s' with table := table }

section Classes

variable {t : Process β} {ret : Returned}

theorem onPath_performed {path : Str} {f : Str → Function}
    {k : Result → Process β → FileSystem × Returned}
    (h : s.onPath B main call path f k = .returns ret t)
    (hk : ∀ answer s', ∃ op ret,
      PathCall s.table.cwd path s'.world.stats (f (createFullpath s.table.cwd path)) answer op ∧
      s.table.call op = some ((k answer s').1, ret) ∧ (k answer s').2 = { ret with }) :
    Performed B main call s ret t := by
  obtain ⟨answer, s', hm, rfl, rfl⟩ := finish_world h
  obtain ⟨op, ret, hc, ht, hr⟩ := hk answer s'
  rw [hr]
  exact .path hc hm ht

theorem onDescriptor_performed {fildes bad : Int} (hu : f.use = .descriptor) (hc : f ≠ .close)
    (h : s.onDescriptor B main call fildes bad f pass = .returns ret t) :
    Performed B main call s ret t := by
  unfold onDescriptor at h
  split at h
  · cases h
    exact .answered _ _
  · rename_i d hd
    obtain ⟨answer, s', hm, rfl, rfl⟩ := finish_world h
    exact .descriptor hu hc hd hm

theorem onDir_performed {dirp : Nat} {k : Result → Process β → FileSystem × Returned}
    (hu : f.use = .dir) (hc : f ≠ .closedir dirp) (hk : ∀ answer s', (k answer s').1 = s'.table)
    (h : s.onDir B main call dirp f k = .returns ret t) : Performed B main call s ret t := by
  unfold onDir at h
  split at h
  · cases h
  · rename_i d hd
    obtain ⟨answer, s', hm, rfl, rfl⟩ := finish_world h
    rw [hk]
    exact .dir hu hc hd hm

theorem ReadTurns.performed {fildes : Int} {buf nbytes : Nat}
    (h : ReadTurns B main call fildes buf nbytes s ret t) :
    Performed B main call s ret t := by
  induction h with
  | bad => exact .answered _ _
  | last hd hm hv => exact .descriptor (f := .read buf nbytes) rfl (by simp) hd hm
  | again hd hm hl rest ih => exact .again hd hm ih

theorem close_performed {fildes : Int} (h : s.close B main call fildes = .returns ret t) :
    Performed B main call s ret t := by
  unfold close onDescriptor at h
  split at h
  · cases h
    exact .answered _ _
  · rename_i d hd
    obtain ⟨answer, s', hm, rfl, rfl⟩ := finish_world h
    exact .close hd hm

theorem closeDir_performed {dirp : Nat} (h : s.closeDir B main call dirp = .returns ret t) :
    Performed B main call s ret t := by
  unfold closeDir onDir at h
  split at h
  · cases h
  · rename_i d hd
    obtain ⟨answer, s', hm, rfl, rfl⟩ := finish_world h
    obtain ⟨table, ret, ht⟩ : ∃ table ret, s.table.closeDir dirp answer.toInt = some (table, ret) := by
      unfold FileSystem.closeDir
      rw [hd]
      dsimp only
      split <;> exact ⟨_, _, rfl⟩
    rw [ht]
    exact .closedir hd hm ht

theorem perform_performed {op : Op} (h : s.perform B main call op = .returns ret t) :
    Performed B main call s ret t := by
  cases op with
  | open_ path oflag cmode =>
    cases path with
    | none =>
      cases h
      exact .answered _ _
    | some path =>
      simp only [perform, open_] at h
      exact onPath_performed h fun answer _ => ⟨_, _, .open_ oflag cmode answer, rfl, rfl⟩
  | stat path buf =>
    cases path with
    | none => cases h
    | some path =>
      simp only [perform, stat] at h
      exact onPath_performed h fun answer _ => ⟨_, _, .stat buf answer, rfl, rfl⟩
  | mkdir path mode =>
    cases path with
    | none =>
      cases h
      exact .answered _ _
    | some path =>
      simp only [perform, mkDir] at h
      exact onPath_performed h fun answer _ => ⟨_, _, .mkdir mode answer, rfl, rfl⟩
  | opendir dirname =>
    cases dirname with
    | none =>
      cases h
      exact .answered _ _
    | some dirname =>
      simp only [perform, openDir] at h
      exact onPath_performed h fun answer _ => ⟨_, _, .opendir answer, rfl, rfl⟩
  | chdir path buf =>
    cases path with
    | none => cases h
    | some path =>
      simp only [perform, chDir] at h
      exact onPath_performed h fun answer _ => ⟨_, _, .chdir buf answer, rfl, rfl⟩
  | close fildes => exact close_performed h
  | read fildes buf nbytes => exact (read_turns h).performed
  | fstat fildes buf => exact onDescriptor_performed rfl (by simp) h
  | write fildes buf => exact onDescriptor_performed rfl (by simp) h
  | seek fildes offset whence => exact onDescriptor_performed rfl (by simp) h
  | isatty fildes => exact onDescriptor_performed rfl (by simp) h
  | fcntl fildes cmd ap => exact onDescriptor_performed rfl (by simp) h
  | rewinddir dirp => exact onDir_performed rfl (by simp) (fun _ _ => rfl) h
  | readdir dirp => exact onDir_performed rfl (by simp) (fun _ _ => rfl) h
  | closedir dirp => exact closeDir_performed h

end Classes

/-! ## Reads -/

section Reads

variable {fildes : Int} {buf nbytes : Nat}

theorem read_none (hd : s.table.getDelegate fildes = none) :
    s.read B main call fildes buf nbytes = .returns { result := -1 } s := by
  rw [read, readLoop, readTurn_none hd]

/-- Where a message has unlocked `mutex_`, a turn that ends in the lock is followed by a read that finds it
locked. -/
theorem read_of_unlocked (hd : s.table.getDelegate fildes = some d)
    (hm : s.method B main call d (.read buf nbytes) = some (.int (-2), s')) (hl : s'.locked = false) :
    s.read B main call fildes buf nbytes =
      ({ s' with locked := true } : Process β).read B main call fildes buf nbytes := by
  have hlocked : ({ s' with locked := true } : Process β).locked = true := rfl
  conv_lhs => rw [read, readLoop, readTurn_of_method hd hm]
  rw [read, readLoop_locked 1 hlocked]
  exact if_neg (by rw [hl]; decide)

/-- A device gives what it has, or is waited for; a second turn finds no more. -/
theorem read_device (hd : s.table.getDelegate fildes = some d) (hk : s.table.kind d = .port) :
    s.read B main call fildes buf nbytes =
      if ((s.ports d).read s.buffer nbytes).1 = -2 then .waits
      else .returns { result := ((s.ports d).read s.buffer nbytes).1 } (s.port d (.read buf nbytes)).2 := by
  have hm (u : Process β) (hku : u.table.kind d = .port) : u.method B main call d (.read buf nbytes) =
      some (.int ((u.ports d).read u.buffer nbytes).1, (u.port d (.read buf nbytes)).2) :=
    method_port hku _
  by_cases h2 : ((s.ports d).read s.buffer nbytes).1 = -2
  · rw [if_pos h2]
    have hm₁ := hm s hk
    rw [h2] at hm₁
    cases hl : s.locked with
    | true => exact read_of_locked hd hm₁ hl
    | false =>
      rw [read_of_unlocked hd hm₁ hl]
      -- Nothing was taken, so the device answers the same again.
      have hbuffer : ((s.ports d).read s.buffer nbytes).2.2 = s.buffer := PortFileSystem.read_waits_buffer h2
      have h2' : ((s.ports d).read ((s.ports d).read s.buffer nbytes).2.2 nbytes).1 = -2 := by
        rw [hbuffer]
        exact h2
      have hm₂ := hm { (s.port d (.read buf nbytes)).2 with locked := true } hk
      rw [show (({ (s.port d (.read buf nbytes)).2 with locked := true } : Process β).ports d).read
        ({ (s.port d (.read buf nbytes)).2 with locked := true } : Process β).buffer nbytes =
          (s.ports d).read ((s.ports d).read s.buffer nbytes).2.2 nbytes from rfl, h2'] at hm₂
      exact read_of_locked hd hm₂ rfl
  · rw [if_neg h2]
    exact read_of_method hd (hm s hk) h2

/-- On the main thread a file is not read. -/
theorem read_file_main (hd : s.table.getDelegate fildes = some d) (hk : s.table.kind d = .html5) :
    s.read B true call fildes buf nbytes = .returns { result := -1 } s :=
  read_of_method hd (method_file_main hk _) (by decide)

/-- What a turn of a worker's read of a file leaves. -/
structure FileTurn (B : Backend β) (s : Process β) (d buf nbytes : Nat) (s' : Process β) : Prop where
  table : s'.table = s.table
  locked : s'.locked = s.locked
  quiet : Quiescent s'.world
  backend : s'.backend = (B s.backend (Line.readRequest s.world.store d buf nbytes)).2
  requests : s'.world.store.requests =
    s.world.store.requests ++ [Line.readRequest s.world.store d buf nbytes]
  /-- A code that is no count does not move the offset. -/
  request : Line.count (B s.backend (Line.readRequest s.world.store d buf nbytes)).1 ≤ 0 →
    Line.readRequest s'.world.store d buf nbytes = Line.readRequest s.world.store d buf nbytes

theorem method_read_file (B : Backend β) (call : Nat) (hq : Quiescent s.world)
    (hk : s.table.kind d = .html5) (buf nbytes : Nat) :
    ∃ s', s.method B false call d (.read buf nbytes) =
        some (.int (Line.count (B s.backend (Line.readRequest s.world.store d buf nbytes)).1), s') ∧
      FileTurn B s d buf nbytes s' := by
  obtain ⟨st, hs, hfiles, hreq⟩ := Line.read_run s.world.store s.backend d buf nbytes
  obtain ⟨w, hm, rfl, hq'⟩ := method_returns (f := .read buf nbytes) call hq hk hs
  refine ⟨_, hm, rfl, rfl, hq', rfl, hreq, fun h0 => ?_⟩
  have hfile : w.store.files d = s.world.store.files d := by
    rw [hfiles, Function.update_self]
    cases hr : (B s.backend (Line.readRequest s.world.store d buf nbytes)).1 with
    | refused code hc => rfl
    | completes answer =>
      rw [hr] at h0
      have hn : ¬ 0 < answer.code := Int.not_lt.2 h0
      simp only [Line.afterRead, OpenFile.advance, if_neg hn]
  simp only [Line.readRequest, hfile]

/-- A worker's read of a file: one request, whose code is the result; where that is -2, the lock, and where
it was free, the request once more. -/
theorem read_file (B : Backend β) (call : Nat) (hq : Quiescent s.world)
    (hd : s.table.getDelegate fildes = some d)
    (hk : s.table.kind d = .html5) (buf nbytes : Nat) :
    let request := Line.readRequest s.world.store d buf nbytes
    let code := Line.count (B s.backend request).1
    let code' := Line.count (B (B s.backend request).2 request).1
    (code ≠ -2 ∧ ∃ t, s.read B false call fildes buf nbytes = .returns { result := code } t ∧
      t.world.store.requests = s.world.store.requests ++ [request]) ∨
    (code = -2 ∧ (s.locked = true ∨ code' = -2) ∧ s.read B false call fildes buf nbytes = .waits) ∨
    (code = -2 ∧ s.locked = false ∧ code' ≠ -2 ∧
      ∃ t, s.read B false call fildes buf nbytes = .returns { result := code' } t ∧
        t.world.store.requests = s.world.store.requests ++ [request, request]) := by
  intro request code code'
  obtain ⟨s', hm, ht⟩ := method_read_file B call hq hk buf nbytes
  by_cases h2 : code = -2
  · have h2' : Line.count (B s.backend (Line.readRequest s.world.store d buf nbytes)).1 = -2 := h2
    rw [h2'] at hm
    cases hl : s.locked with
    | true => exact .inr (.inl ⟨h2, .inl rfl, read_of_locked hd hm (ht.locked.trans hl)⟩)
    | false =>
      have hread := read_of_unlocked hd hm (ht.locked.trans hl)
      have hd' : ({ s' with locked := true } : Process β).table.getDelegate fildes = some d := by
        rw [show ({ s' with locked := true } : Process β).table = s.table from ht.table]
        exact hd
      have hk' : ({ s' with locked := true } : Process β).table.kind d = .html5 := by
        rw [show ({ s' with locked := true } : Process β).table = s.table from ht.table]
        exact hk
      have hquiet : Quiescent ({ s' with locked := true } : Process β).world := ht.quiet
      obtain ⟨t, hm', ht'⟩ := method_read_file B call hquiet hk' buf nbytes
      have hrequest : Line.readRequest s'.world.store d buf nbytes = request :=
        ht.request (by rw [h2']; decide)
      have hcode : Line.count (B s'.backend (Line.readRequest s'.world.store d buf nbytes)).1 = code' := by
        rw [hrequest, ht.backend]
      have hreq : t.world.store.requests = s.world.store.requests ++ [request, request] := by
        rw [ht'.requests]
        show s'.world.store.requests ++ [Line.readRequest s'.world.store d buf nbytes] = _
        rw [ht.requests, hrequest, List.append_assoc]
        rfl
      rw [show Line.count (B ({ s' with locked := true } : Process β).backend (Line.readRequest
        ({ s' with locked := true } : Process β).world.store d buf nbytes)).1 = code' from hcode] at hm'
      rw [hread]
      by_cases h3 : code' = -2
      · rw [h3] at hm'
        exact .inr (.inl ⟨h2, .inr h3, read_of_locked hd' hm' ht'.locked⟩)
      · exact .inr (.inr ⟨h2, rfl, h3, t, read_of_method hd' hm' h3, hreq⟩)
  · exact .inl ⟨h2, s', read_of_method hd hm h2, ht.requests⟩

end Reads

end Process

end NaClFs
