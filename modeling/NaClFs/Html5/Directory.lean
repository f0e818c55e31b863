/-
Reading a directory. A DIR asks for its listing on the first `readdir`, and again until it gets one;
from then on it is a list of names and a place in it that `rewinddir` sets back. The delegate's `waiting_`
and the callback of the DIR do not show in what the calls return.
-/
import NaClFs.Html5.Session
import Mathlib.Data.List.TakeWhile

namespace NaClFs

/-! ## The entry -/

/-- `strncpy` into a buffer of `n` bytes. -/
def strncpy (src : Str) (n : Nat) : Str :=
  let copied := (src.takeWhile (· ≠ 0)).take n
  copied ++ List.replicate (n - copied.length) 0

/-- The bytes of `dirent_.d_name` after `ReadDirNext` has copied a name. -/
def dNameBytes (name : Str) : Str :=
  let bytes := strncpy name 256
  if 255 < name.length then bytes.set 255 0 else bytes

/-- The C string at the front of a buffer. -/
def cString (bytes : Str) : Str := bytes.takeWhile (· ≠ 0)

theorem cString_append {s t : Str} (h : ∀ c ∈ s, c ≠ 0) : cString (s ++ 0 :: t) = s := by
  unfold cString
  rw [List.takeWhile_append_of_pos (by simpa using h)]
  simp

theorem mem_takeWhile_ne {name : Str} {c : UInt8} (h : c ∈ name.takeWhile (· ≠ 0)) : c ≠ 0 := by
  simpa using List.mem_takeWhile_imp h

/-- The part of the name that is kept, and a NUL behind it. -/
theorem dNameBytes_eq (name : Str) : ∃ rest, dNameBytes name = dName name ++ 0 :: rest := by
  unfold dNameBytes strncpy dName
  generalize hs : name.takeWhile (· ≠ 0) = s
  have hlen : s.length ≤ name.length := by
    rw [← hs]
    exact (List.takeWhile_sublist _).length_le
  dsimp only
  rw [List.length_take]
  by_cases hl : s.length ≤ 255
  · -- The copy ends in NULs, and another one at its end changes nothing.
    obtain ⟨k, hk⟩ : ∃ k, 256 - min 256 s.length = k + 1 := ⟨255 - min 256 s.length, by omega⟩
    have h256 : s.take 256 = s := List.take_of_length_le (by omega)
    rw [h256, hk, List.take_of_length_le hl, List.replicate_succ]
    split
    · by_cases hz : s.length = 255
      · refine ⟨List.replicate k 0, ?_⟩
        rw [List.set_append_right _ _ (by omega), hz, Nat.sub_self, List.set_cons_zero]
      · obtain ⟨j, hj⟩ : ∃ j, 255 - s.length = j + 1 := ⟨254 - s.length, by omega⟩
        refine ⟨(List.replicate k 0).set j 0, ?_⟩
        rw [List.set_append_right _ _ (by omega), hj, List.set_cons_succ]
    · exact ⟨List.replicate k 0, rfl⟩
  · -- The copy fills the buffer, and its last byte is cut.
    have hk : 256 - min 256 s.length = 0 := by omega
    rw [hk, List.replicate_zero, List.append_nil, if_pos (by omega)]
    obtain ⟨c, ht⟩ : ∃ c, s.take 256 = s.take 255 ++ [c] :=
      ⟨_, List.take_succ_eq_append_getElem (by omega)⟩
    refine ⟨[], ?_⟩
    have hl' : (s.take 255).length = 255 := by
      rw [List.length_take]
      omega
    rw [ht, List.set_append_right _ _ (by omega), hl', Nat.sub_self, List.set_cons_zero]

/-- `d_name` is NUL-terminated within its 256 bytes, and its string is the first 255 bytes of the name
up to its first NUL. -/
theorem dNameBytes_cString (name : Str) :
    0 ∈ dNameBytes name ∧ cString (dNameBytes name) = (cString name).take 255 := by
  obtain ⟨rest, h⟩ := dNameBytes_eq name
  rw [h]
  refine ⟨by simp, cString_append fun c hc => ?_⟩
  exact mem_takeWhile_ne (List.mem_of_mem_take hc)

theorem cString_of_not_mem {name : Str} (h : 0 ∉ name) : cString name = name := by
  refine List.takeWhile_eq_self_iff.2 fun c hc => decide_eq_true ?_
  rintro rfl
  exact h hc

/-! ## What a DIR is for -/

inductive DirCall
  | readdir
  | rewinddir
  deriving DecidableEq, Repr

def DirCall.function (dirp : Nat) : DirCall → Function
  | .readdir => .readdir dirp
  | .rewinddir => .rewinddir dirp

/-- One call on a DIR of the delegate. -/
def Session.dirStep {β : Type} (B : Backend β) (d dirp : Nat) (s : Session β) (call : DirCall) :
    Option (Session β × Result) := s.step B ⟨d, call.function dirp⟩

/-- The listing once there is one, and how many `readdir`s there were since it came or since the last
`rewinddir`; how often it was asked for, and the backend. -/
structure Enumeration (β : Type) where
  listing : Option (List Str) := none
  count : Nat := 0
  attempts : Nat := 0
  backend : β

namespace Enumeration

variable {β : Type}

/-- One call. A listing is asked for as long as there is none; an attempt that fails returns NULL. -/
def step (B : Backend β) (ref : FileRef) (t : Enumeration β) :
    DirCall → Option (Enumeration β × Result)
  | .rewinddir => some ({ t with count := 0 }, .callback 0)
  | .readdir =>
    match t.listing with
    | some names =>
      some ({ t with count := t.count + 1 }, .dirent (names[t.count]?.map dName))
    | none =>
      let request := .readDirectoryEntries ref
      let failed := { t with attempts := t.attempts + 1, backend := (B t.backend request).2 }
      match (B t.backend request).1 with
      | .refused _ _ => some (failed, .dirent none)
      | .completes answer =>
        if answer.code = ppOk then
          some ({ failed with listing := some answer.entries, count := 1 },
            .dirent (answer.entries[0]?.map dName))
        else some (failed, .dirent none)

variable (B : Backend β) (ref : FileRef)

/-- `readdir`s of a listing go through its names in order, then return NULL. -/
theorem run_readdir {names : List Str} (m : Nat) {t : Enumeration β} (h : t.listing = some names) :
    Stream.run (step B ref) t (List.replicate m .readdir) =
      some ({ t with count := t.count + m },
        (List.range m).map fun i => .dirent (names[t.count + i]?.map dName)) := by
  induction m generalizing t with
  | zero => rfl
  | succ m ih =>
    have hs : step B ref t .readdir =
        some ({ t with count := t.count + 1 }, .dirent (names[t.count]?.map dName)) := by
      simp only [step, h]
    have hr := ih (t := { t with count := t.count + 1 }) h
    simp only [Nat.add_assoc, Nat.add_comm 1] at hr
    rw [List.replicate_succ, Stream.run_cons]
    refine ⟨_, _, _, hs, hr, ?_⟩
    -- The names behind the first are counted from one.
    rw [List.range_succ_eq_map, List.map_cons, List.map_map, Nat.add_zero]
    rfl

/-- A pass over the directory. -/
theorem run_pass {names : List Str} (m : Nat) {t : Enumeration β} (h : t.listing = some names) :
    Stream.run (step B ref) t (.rewinddir :: List.replicate m .readdir) =
      some ({ t with count := m },
        .callback 0 :: (List.range m).map fun i => .dirent (names[i]?.map dName)) := by
  have hr := run_readdir B ref m (t := { t with count := 0 }) h
  simp only [Nat.zero_add] at hr
  exact Stream.run_cons.2 ⟨_, _, _, rfl, hr, rfl⟩

end Enumeration

/-! ## The DIR as an enumeration -/

section Refinement

variable {β : Type} {B : Backend β} {ref : FileRef} {dirp : Nat} {asked : List Request}

/-- What a DIR holds when it has been read so far. -/
structure Listing.Shows (dir : Listing) (ref : FileRef) (t : Enumeration β) : Prop where
  directoryRef : dir.directoryRef = ref
  read : dir.read = t.listing.isSome
  entries : dir.entries = t.listing.getD []
  offset : dir.offset = min t.count dir.entries.length

/-- The store and the backend when a DIR has been read so far; `asked` are the requests from before. -/
structure Enumeration.Refines (ref : FileRef) (dirp : Nat) (asked : List Request) (st : Store) (b : β)
    (t : Enumeration β) : Prop where
  dir : ∃ dir, st.dirs[dirp]? = some (some dir) ∧ dir.Shows ref t
  requests : st.requests = asked ++ List.replicate t.attempts (.readDirectoryEntries ref)
  backend : b = t.backend

/-- The next entry of a listing, and the place behind it. -/
theorem Listing.Shows.readDirNext {dir : Listing} {t : Enumeration β} {names : List Str}
    (h : dir.Shows ref t) (hl : t.listing = some names) :
    dir.readDirNext.2 = names[t.count]?.map dName ∧
      dir.readDirNext.1.Shows ref { t with count := t.count + 1 } := by
  have he : dir.entries = names := by
    rw [h.entries, hl, Option.getD_some]
  have ho := h.offset
  rw [he] at ho
  by_cases hlt : t.count < names.length
  · have hoff : dir.offset = t.count := by omega
    have hnext : dir.readDirNext =
        ({ dir with offset := t.count + 1 }, some (dName names[t.count])) := by
      unfold Listing.readDirNext
      rw [he, hoff, List.getElem?_eq_getElem hlt]
    rw [hnext, List.getElem?_eq_getElem hlt]
    refine ⟨rfl, h.directoryRef, h.read, h.entries, ?_⟩
    show t.count + 1 = min (t.count + 1) dir.entries.length
    rw [he]
    omega
  · -- At the end it stays.
    have hoff : dir.offset = names.length := by omega
    have hnext : dir.readDirNext = (dir, none) := by
      unfold Listing.readDirNext
      rw [he, hoff, List.getElem?_eq_none (Nat.le_refl _)]
    rw [hnext, List.getElem?_eq_none (Nat.le_of_not_lt hlt)]
    refine ⟨rfl, h.directoryRef, h.read, h.entries, ?_⟩
    show dir.offset = min (t.count + 1) dir.entries.length
    rw [he]
    omega

theorem Listing.Shows.rewind {dir : Listing} {t : Enumeration β} (h : dir.Shows ref t) :
    dir.rewind.Shows ref { t with count := 0 } := by
  refine ⟨h.directoryRef, h.read, h.entries, ?_⟩
  show 0 = min 0 dir.entries.length
  omega

/-- A DIR without a listing has nothing to return and no place to lose. -/
theorem Listing.Shows.unlisted {dir : Listing} {t : Enumeration β} (h : dir.Shows ref t)
    (hl : t.listing = none) : dir.read = false ∧ dir.entries = [] ∧ dir.rewind = dir := by
  have he : dir.entries = [] := by
    rw [h.entries, hl, Option.getD_none]
  have ho : dir.offset = 0 := by
    rw [h.offset, he]
    exact Nat.min_zero _
  refine ⟨?_, he, ?_⟩
  · rw [h.read, hl]
    rfl
  · unfold Listing.rewind
    rw [← ho]

namespace Enumeration

/-- The DIR changes in place. -/
theorem Refines.setDir {st : Store} {b : β} {t t' : Enumeration β} {dir' : Listing}
    (h : Refines ref dirp asked st b t) (hs : dir'.Shows ref t') (ha : t'.attempts = t.attempts)
    (hb : t'.backend = t.backend) :
    Refines ref dirp asked { st with dirs := st.dirs.set dirp (some dir') } b t' := by
  obtain ⟨dir, hd, -⟩ := h.dir
  obtain ⟨hlt, -⟩ := List.getElem?_eq_some_iff.1 hd
  refine ⟨⟨dir', List.getElem?_set_self hlt, hs⟩, ?_, ?_⟩
  · rw [ha]
    exact h.requests
  · rw [hb]
    exact h.backend

/-- The listing is asked for once more. -/
theorem Refines.asks {st : Store} {b : β} {t : Enumeration β} (h : Refines ref dirp asked st b t) :
    Refines ref dirp asked { st with requests := st.requests ++ [.readDirectoryEntries ref] }
      (B b (.readDirectoryEntries ref)).2
      { t with attempts := t.attempts + 1, backend := (B t.backend (.readDirectoryEntries ref)).2 } := by
  obtain ⟨dir, hd, hs⟩ := h.dir
  refine ⟨⟨dir, hd, hs.directoryRef, hs.read, hs.entries, hs.offset⟩, ?_, ?_⟩
  · dsimp only
    rw [h.requests, List.replicate_succ', List.append_assoc]
  · rw [h.backend]

variable {st : Store} {b : β} {t : Enumeration β}

/-- `ReadDir` of the program. -/
theorem readDir_refines (h : Refines ref dirp asked st b t) :
    ∃ st' b' t' o, Line.readDir B dirp st b = (some o, st', b') ∧
      t.step B ref .readdir = some (t', o) ∧ Refines ref dirp asked st' b' t' := by
  obtain ⟨dir, hd, hs⟩ := h.dir
  have hj : st.dirs[dirp]?.join = some dir := by rw [hd, Option.join_some]
  cases hl : t.listing with
  | some names =>
    have hread : dir.read = true := by
      rw [hs.read, hl]
      rfl
    obtain ⟨hout, hnext⟩ := hs.readDirNext hl
    refine ⟨_, b, { t with count := t.count + 1 }, .dirent (names[t.count]?.map dName), ?_, ?_,
      h.setDir hnext rfl rfl⟩
    · simp only [Line.readDir, Line.bind_run, Line.get_run, hj, hread, if_true, Line.readDirNext,
        Line.setDir, Line.modify_run, Line.pure_run, hout]
    · simp only [step, hl]
  | none =>
    obtain ⟨hread, hent, hrw⟩ := hs.unlisted hl
    have hasks := h.asks (B := B)
    have hkeep : dir.Shows ref { t with
        attempts := t.attempts + 1
        backend := (B t.backend (.readDirectoryEntries ref)).2 } :=
      ⟨hs.directoryRef, hs.read, hs.entries, hs.offset⟩
    cases hB : (B t.backend (.readDirectoryEntries ref)).1 with
    | refused code hc =>
      have hnone : dir.readDirNext = (dir, none) := by
        unfold Listing.readDirNext
        rw [hent]
        rfl
      refine ⟨_, _, _, .dirent none, ?_, by simp only [step, hl, hB], hasks.setDir hkeep rfl rfl⟩
      simp only [Line.readDir, Line.bind_run, Line.get_run, hj, hread, Bool.false_eq_true, if_false,
        Line.ask_run, hs.directoryRef, h.backend, hB, hrw]
      -- Refused with `PP_OK` or not, there is no entry.
      split
      · simp only [Line.readDirNext, Line.bind_run, Line.setDir, Line.modify_run, Line.pure_run, hnone]
      · simp only [Line.bind_run, Line.setDir, Line.modify_run, Line.pure_run]
    | completes answer =>
      by_cases hcode : answer.code = ppOk
      · -- The listing comes, and its first entry is returned.
        have hlisted : (dir.onReadDirectoryEntries answer.code answer.entries).Shows ref {
            listing := some answer.entries
            attempts := t.attempts + 1
            backend := (B t.backend (.readDirectoryEntries ref)).2 } := by
          unfold Listing.onReadDirectoryEntries
          rw [if_pos hcode, hent, List.nil_append]
          refine ⟨hs.directoryRef, rfl, rfl, ?_⟩
          show dir.offset = min 0 answer.entries.length
          rw [hs.offset, hent, List.length_nil, Nat.min_zero, Nat.zero_min]
        obtain ⟨hout, hnext⟩ := hlisted.readDirNext rfl
        refine ⟨_, _, _, .dirent (answer.entries[0]?.map dName), ?_, ?_, hasks.setDir hnext rfl rfl⟩
        · simp only [Line.readDir, Line.bind_run, Line.get_run, hj, hread, Bool.false_eq_true, if_false,
            Line.ask_run, hs.directoryRef, h.backend, hB, hrw]
          have h0 : answer.code = 0 := hcode
          rw [if_neg (not_not_intro h0)]
          simp only [Line.readDirNext, Line.bind_run, Line.setDir, Line.modify_run, Line.pure_run, hout]
        · simp only [step, hl, hB, hcode, if_true]
      · have hsame : dir.onReadDirectoryEntries answer.code answer.entries = dir := by
          unfold Listing.onReadDirectoryEntries
          rw [if_neg hcode]
        refine ⟨_, _, _, .dirent none, ?_, by simp only [step, hl, hB, if_neg hcode],
          hasks.setDir hkeep rfl rfl⟩
        simp only [Line.readDir, Line.bind_run, Line.get_run, hj, hread, Bool.false_eq_true, if_false,
          Line.ask_run, hs.directoryRef, h.backend, hB, hrw, hsame]
        have h0 : answer.code ≠ 0 := hcode
        rw [if_pos h0]
        simp only [Line.bind_run, Line.setDir, Line.modify_run, Line.pure_run]

/-- `RewindDir` of the program. -/
theorem rewindDir_refines (h : Refines ref dirp asked st b t) :
    ∃ st', (Line.rewindDir dirp : Line β Result) st b = (some (.callback 0), st', b) ∧
      Refines ref dirp asked st' b { t with count := 0 } := by
  obtain ⟨dir, hd, hs⟩ := h.dir
  have hj : st.dirs[dirp]?.join = some dir := by rw [hd, Option.join_some]
  refine ⟨_, ?_, h.setDir hs.rewind rfl rfl⟩
  simp only [Line.rewindDir, Line.bind_run, Line.get_run, hj, Line.setDir, Line.modify_run,
    Line.pure_run]

/-- A session whose worker is between calls on the DIR. -/
def Follows (ref : FileRef) (dirp : Nat) (asked : List Request) (s : Session β) (t : Enumeration β) :
    Prop := Quiescent s.world ∧ Refines ref dirp asked s.world.store s.backend t

/-- One call on the DIR. -/
theorem step_follows (d : Nat) {s : Session β} (call : DirCall) (h : Follows ref dirp asked s t) :
    ∃ s' t' o, s.dirStep B d dirp call = some (s', o) ∧ t.step B ref call = some (t', o) ∧
      Follows ref dirp asked s' t' := by
  obtain ⟨hq, h⟩ := h
  cases call with
  | readdir =>
    obtain ⟨st', b', t', o, hp, ht, hr⟩ := readDir_refines (B := B) h
    obtain ⟨w, hw, hs, hq'⟩ := Session.step_of_program (d := d) (f := .readdir dirp) hq hp
    exact ⟨_, t', o, hw, ht, hq', by rw [hs]; exact hr⟩
  | rewinddir =>
    obtain ⟨st', hp, hr⟩ := rewindDir_refines h
    obtain ⟨w, hw, hs, hq'⟩ := Session.step_of_program (B := B) (d := d) (f := .rewinddir dirp) hq hp
    exact ⟨_, _, _, hw, rfl, hq', by rw [hs]; exact hr⟩

/-- Any calls on the DIR. -/
theorem run_follows (d : Nat) {s : Session β} (calls : List DirCall)
    (h : Follows ref dirp asked s t) :
    ∃ s' t' results, Stream.run (Session.dirStep B d dirp) s calls = some (s', results) ∧
      Stream.run (step B ref) t calls = some (t', results) ∧ Follows ref dirp asked s' t' := by
  have hstep (s : Session β) (t : Enumeration β) (call : DirCall) (h : Follows ref dirp asked s t)
      (_ : True) : ∃ s' t' call' o, s.dirStep B d dirp call = some (s', o) ∧ id call' = call ∧
        t.step B ref call' = some (t', o) ∧ Follows ref dirp asked s' t' := by
    obtain ⟨s', t', o, hs, ht, hf⟩ := step_follows (B := B) d call h
    exact ⟨s', t', call, o, hs, rfl, ht, hf⟩
  obtain ⟨s', t', calls', results, hs, hv, ht, hf⟩ :=
    Stream.simulation hstep h (Stream.guarded_true calls s)
  rw [List.map_id] at hv
  subst hv
  exact ⟨s', t', results, hs, ht, hf⟩

end Enumeration

/-- A DIR that was just opened. -/
theorem openDir_fresh {d : Nat} {dirname : Str} {st st' : Store} {b b' : β}
    (h : Line.openDir B d dirname st b = (some (.dir (some dirp)), st', b')) :
    ∃ ref, ref.path = dirname ∧
      st'.dirs[dirp]? = some (some { delegate := d, directoryRef := ref }) := by
  unfold Line.openDir at h
  rw [Line.bind_run] at h
  rcases hn : Line.needFileSystem B st b with ⟨_ | ⟨filesystem, code⟩, st₁, b₁⟩
  · rw [hn] at h
    cases h
  · rw [hn] at h
    simp only [Line.newDir, Line.bind_run, Line.get_run, Line.modify_run, Line.pure_run, Prod.mk.injEq,
      Option.some.injEq, Result.dir.injEq] at h
    obtain ⟨rfl, rfl, -⟩ := h
    exact ⟨⟨filesystem, dirname⟩, rfl, List.getElem?_concat_length⟩

end Refinement

/-! ## Whole runs -/

/-- A DIR that was opened, under any sequence of `readdir` and `rewinddir`, over any backend: every call
returns what the enumeration returns, and the listing is asked for as often as it asks. Once there is a
listing, a `rewinddir` and any number of `readdir`s return its names in order, then NULL, and ask for
nothing. An entry is NUL-terminated and holds the first 255 bytes of its name, which ends at a NUL. -/
theorem run_directory {β : Type} (B : Backend β) (s₀ s : Session β) (d : Nat) (dirname : Str)
    (dirp : Nat) (hq : Quiescent s₀.world)
    (ho : s₀.step B ⟨d, .opendir dirname⟩ = some (s, .dir (some dirp))) :
    ∃ ref, ref.path = dirname ∧
      (∀ calls, ∃ s' t results,
        Stream.run (Session.dirStep B d dirp) s calls = some (s', results) ∧
        Stream.run (Enumeration.step B ref) { backend := s.backend } calls = some (t, results) ∧
        s'.backend = t.backend ∧
        s'.world.store.requests =
          s.world.store.requests ++ List.replicate t.attempts (.readDirectoryEntries ref) ∧
        ∀ names, t.listing = some names → ∀ m, ∃ s'',
          Stream.run (Session.dirStep B d dirp) s' (.rewinddir :: List.replicate m .readdir) =
            some (s'', .callback 0 :: (List.range m).map fun i => .dirent (names[i]?.map dName)) ∧
          s''.world.store.requests = s'.world.store.requests) ∧
      ∀ name, 0 ∈ dNameBytes name ∧ cString (dNameBytes name) = dName name ∧
        dName name = (cString name).take 255 ∧ (0 ∉ name → dName name = name.take 255) := by
  obtain ⟨hp, hq'⟩ := Session.step_program hq ho
  obtain ⟨ref, hpath, hdir⟩ := openDir_fresh hp
  have hfresh : Enumeration.Follows ref dirp s.world.store.requests s { backend := s.backend } := by
    refine ⟨hq', ⟨_, hdir, rfl, rfl, rfl, rfl⟩, ?_, rfl⟩
    rw [List.replicate_zero, List.append_nil]
  refine ⟨ref, hpath, fun calls => ?_, fun name => ?_⟩
  · obtain ⟨s', t, results, hs, ht, hf⟩ := Enumeration.run_follows (B := B) d calls hfresh
    refine ⟨s', t, results, hs, ht, hf.2.backend, hf.2.requests, fun names hn m => ?_⟩
    obtain ⟨s'', t', results', hs', ht', hf'⟩ :=
      Enumeration.run_follows (B := B) d (.rewinddir :: List.replicate m .readdir) hf
    -- The enumeration makes a pass, and so the DIR does.
    have hpass := Enumeration.run_pass B ref m hn
    rw [ht'] at hpass
    simp only [Option.some.injEq, Prod.mk.injEq] at hpass
    obtain ⟨rfl, rfl⟩ := hpass
    refine ⟨s'', hs', ?_⟩
    rw [hf'.2.requests, hf.2.requests]
  · obtain ⟨hz, hc⟩ := dNameBytes_cString name
    refine ⟨hz, hc, rfl, fun h0 => ?_⟩
    show (cString name).take 255 = name.take 255
    rw [cString_of_not_mem h0]

/-- A backend that fails the first listing, and then delivers two names. -/
def listsSecond : Backend Bool := fun failed request =>
  match request with
  | .readDirectoryEntries _ =>
    if failed then (.completes { code := 0, entries := [str "a", str "b"] }, true)
    else (.completes { code := ppErrorFailed }, true)
  | _ => (.completes { code := 0 }, failed)

theorem run_directory_second :
    ∃ s, Session.step listsSecond ⟨World.blank, false, 0⟩ ⟨0, .opendir (str "/")⟩ =
        some (s, .dir (some 0)) ∧
      ∃ ref s' t results, Stream.run (Session.dirStep listsSecond 0 0) s
          [.readdir, .readdir, .rewinddir, .readdir] = some (s', results) ∧
        Stream.run (Enumeration.step listsSecond ref) { backend := s.backend }
          [.readdir, .readdir, .rewinddir, .readdir] = some (t, results) := by
  refine ⟨_, rfl, ?_⟩
  obtain ⟨ref, -, h, -⟩ := run_directory listsSecond ⟨World.blank, false, 0⟩ _ 0 (str "/") 0
    blank_quiescent rfl
  obtain ⟨s', t, results, hs, ht, -⟩ := h [.readdir, .readdir, .rewinddir, .readdir]
  exact ⟨ref, s', t, results, hs, ht⟩

/-- A backend with one entry in every directory, whose name has a NUL in it. -/
def listsNul : Backend Unit := fun b request =>
  match request with
  | .readDirectoryEntries _ => (.completes { code := 0, entries := [[97, 0, 98]] }, b)
  | _ => (.completes { code := 0 }, b)

/-- The entry of a name with a NUL ends there. -/
theorem readdir_nul :
    ∃ s s', Session.step listsNul ⟨World.blank, (), 0⟩ ⟨0, .opendir (str "/")⟩ =
        some (s, .dir (some 0)) ∧
      Stream.run (Session.dirStep listsNul 0 0) s [.readdir] = some (s', [.dirent (some [97])]) ∧
      ([97] : Str) ≠ ([97, 0, 98] : Str).take (min 3 255) ∧
      (dNameBytes [97, 0, 98]).take (min 3 255) = [97, 0, 0] :=
  ⟨_, _, rfl, rfl, by decide, by decide⟩

end NaClFs
