/-
The contents of the files over whole runs: a file stays as it is while nothing is opened to make it
anew and nobody writes it, reads and writes through one descriptor go on where the last one ended, and
what was written is read back. Each is shown of a step of the machine and carried to the runs of the
system.
-/
import NaClFs.Html5.SharedFile
import NaClFs.Unix.Refine

namespace NaClFs

open Bytes

namespace Unix

variable {main : Bool} {m m' : Machine} {op : Process.Op} {ret : Returned} {fildes : Int} {x : Description}
  {path : Str} {l : Label} {o : Option Returned}

/-! ## What a step does -/

theorem Machine.descriptor_some :
    m.descriptor fildes = some x ↔ 0 ≤ fildes ∧ m.descriptors[fildes.toNat]? = some (some x) := by
  unfold Machine.descriptor
  by_cases h0 : fildes < 0
  · rw [if_pos h0]
    constructor
    · intro h
      cases h
    · rintro ⟨h, -⟩
      omega
  · rw [if_neg h0, Option.join_eq_some_iff]
    constructor
    · intro h
      exact ⟨by omega, h⟩
    · exact fun h => h.2

theorem Machine.setDescriptor_self {y : Description} (hx : m.descriptor fildes = some x)
    (hd : m'.descriptors = m.descriptors) : (m'.setDescriptor fildes (some y)).descriptor fildes = some y := by
  obtain ⟨h0, hm⟩ := descriptor_some.1 hx
  obtain ⟨hlt, -⟩ := List.getElem?_eq_some_iff.1 hm
  apply descriptor_some.2
  refine ⟨h0, ?_⟩
  show (m'.descriptors.set fildes.toNat (some y))[fildes.toNat]? = some (some y)
  rw [hd, List.getElem?_set_self hlt]

theorem Machine.setDescriptor_of_ne {fildes' : Int} {y : Option Description} (hx : m.descriptor fildes = some x)
    (h0 : 0 ≤ fildes') (hne : fildes' ≠ fildes) : (m.setDescriptor fildes' y).descriptor fildes = some x := by
  obtain ⟨h, hm⟩ := descriptor_some.1 hx
  apply descriptor_some.2
  refine ⟨h, ?_⟩
  show (m.descriptors.set fildes'.toNat y)[fildes.toNat]? = some (some x)
  rw [List.getElem?_set_ne (by omega), hm]

theorem Acts.descriptors {f : Function} {result : Int} {x' : Description} (h : Acts main m x f result x' m') :
    m'.descriptors = m.descriptors := by
  cases h <;> rfl

/-- A read leaves the files. -/
theorem Acts.read_files {buf nbytes : Nat} {result : Int} {x' : Description}
    (h : Acts main m x (.read buf nbytes) result x' m') : m'.files = m.files := by
  cases h <;> rfl

/-- What a step does to the files: nothing, or to the one that is opened, or that is written. -/
inductive Rewrites (m : Machine) : Process.Op → (Str → Option Str) → Prop
  | nothing (op : Process.Op) : Rewrites m op m.files
  | opens {path content : Str} {oflag cmode : BitVec 32}
      (ho : Opens (openFlags oflag) (m.files (m.fullpath path)) content) :
      Rewrites m (.open_ (some path) oflag cmode) (Function.update m.files (m.fullpath path) (some content))
  | writes {fildes position : Int} {buf : Str} {h : Handle} {info : FileInfo} (content : Str)
      (hx : m.descriptor fildes = some (.file h position info)) (hw : h.writable) :
      Rewrites m (.write fildes buf) (Function.update m.files h.path (some content))

theorem Looks.files {buf : Nat} {result : Int} (h : Looks main m path buf result m') : m'.files = m.files := by
  cases h <;> rfl

theorem Looks.descriptors {buf : Nat} {result : Int} (h : Looks main m path buf result m') :
    m'.descriptors = m.descriptors := by
  cases h <;> rfl

theorem Step.rewrites (h : Step main m op ret m') : Rewrites m op m'.files := by
  cases h with
  | descriptor ho hx ha =>
    cases ha with
    | @write h position info buf content k _ hc _ hw =>
      obtain ⟨fildes, rfl⟩ : ∃ fildes, op = .write fildes buf := by
        cases op with
        | write fildes =>
          cases ho
          exact ⟨_, rfl⟩
        | _ => cases ho
      cases ho
      exact .writes _ hx hw
    | _ => exact .nothing op
  | readAgain _ hw ha =>
    have hfiles := ha.read_files.trans hw.read_files
    refine cast (congrArg (Rewrites m _) ?_) (Rewrites.nothing _)
    exact hfiles.symm
  | openFile _ _ ho => exact .opens ho
  | openLate _ _ ho => exact .opens ho
  | stat hl =>
    rw [hl.files]
    exact .nothing _
  | chdirFails hl =>
    rw [hl.files]
    exact .nothing _
  | chdirNotDir hl =>
    rw [hl.files]
    exact .nothing _
  | chdir hl =>
    show Rewrites m _ (Machine.files _)
    rw [hl.files]
    exact .nothing _
  | _ => exact .nothing _

/-- A descriptor a step does not name stays as it is. -/
theorem Step.keeps_descriptor (h : Step main m op ret m') (hx : m.descriptor fildes = some x)
    (hn : (throughDescriptor op).map Prod.fst ≠ some fildes) : m'.descriptor fildes = some x := by
  have hopen {fildes' : Int} {y : Description} (hy : m.descriptor fildes' = some y) : 0 ≤ fildes' :=
    (Machine.descriptor_some.1 hy).1
  have hsame {m₁ : Machine} (hd : m₁.descriptors = m.descriptors) : m₁.descriptor fildes = some x := by
    rw [← hx]
    unfold Machine.descriptor
    rw [hd]
  have hbind {m₁ : Machine} {y : Description} (hd : m₁.descriptors = m.descriptors) :
      (m₁.bind y).descriptor fildes = some x := by
    obtain ⟨h0, hm⟩ := Machine.descriptor_some.1 hx
    obtain ⟨hlt, -⟩ := List.getElem?_eq_some_iff.1 hm
    apply Machine.descriptor_some.2
    refine ⟨h0, ?_⟩
    show (m₁.descriptors ++ [some y])[fildes.toNat]? = some (some x)
    rw [hd, List.getElem?_append_left hlt, hm]
  cases h with
  | descriptor ho hy ha =>
    apply Machine.setDescriptor_of_ne (hsame ha.descriptors) (hopen hy)
    rintro rfl
    exact hn (by rw [ho]; rfl)
  | readAgain hy hw ha =>
    apply Machine.setDescriptor_of_ne (hsame (ha.descriptors.trans hw.descriptors)) (hopen hy)
    rintro rfl
    exact hn rfl
  | close hy =>
    apply Machine.setDescriptor_of_ne hx (hopen hy)
    rintro rfl
    exact hn rfl
  | openDevice => exact hbind rfl
  | openFile => exact hbind rfl
  | stat hl => exact hsame hl.descriptors
  | chdirFails hl => exact hsame hl.descriptors
  | chdirNotDir hl => exact hsame hl.descriptors
  | chdir hl => exact hsame hl.descriptors
  | _ => exact hsame rfl

/-- A step through an open descriptor is one of what it is open on, where a read may find the buffer as an
earlier turn left it, or closes it. -/
theorem Step.through {bad : Int} {f : Function} (h : Step main m op ret m')
    (ho : throughDescriptor op = some (fildes, bad, f)) (hx : m.descriptor fildes = some x) :
    (∃ m₀ result x' m₁, m₀.files = m.files ∧ m₀.descriptors = m.descriptors ∧ Acts main m₀ x f result x' m₁ ∧
      ret = { result := result } ∧ m' = m₁.setDescriptor fildes (some x')) ∨ op = .close fildes := by
  cases h with
  | descriptor ho' hy ha =>
    rw [ho] at ho'
    cases ho'
    rw [hx] at hy
    cases hy
    exact .inl ⟨m, _, _, _, rfl, rfl, ha, rfl, rfl⟩
  | readAgain hy hw ha =>
    cases ho
    rw [hx] at hy
    cases hy
    exact .inl ⟨_, _, _, _, hw.read_files, hw.descriptors, ha, rfl, rfl⟩
  | close =>
    cases ho
    exact .inr rfl
  | badDescriptor ho' hy =>
    rw [ho] at ho'
    cases ho'
    rw [hx] at hy
    cases hy
  | dirMain _ ho' =>
    cases op with
    | rewinddir | readdir | closedir => cases ho
    | _ => cases ho'
  | _ => cases ho

/-! ## Files that are left alone -/

/-- A descriptor that is open on the path for writing. -/
def Description.writes (path : Str) : Description → Prop
  | .device _ => False
  | .file h _ _ => h.path = path ∧ h.writable

instance (path : Str) : ∀ x : Description, Decidable (x.writes path)
  | .device _ => inferInstanceAs (Decidable False)
  | .file _ _ _ => inferInstanceAs (Decidable (_ ∧ _))

/-- What an operation opens, and how. -/
def opened : Label → Option (Str × BitVec 32)
  | .op _ (.open_ path oflag _) => path.map (·, oflag)
  | _ => none

/-- The descriptor an operation reads from. -/
def reads : Label → Option Int
  | .op _ (.read fildes _ _) => some fildes
  | _ => none

/-- The descriptor an operation writes to. -/
def writes : Label → Option Int
  | .op _ (.write fildes _) => some fildes
  | _ => none

/-- The descriptor an operation gives another place in its file, or closes. -/
def moves : Label → Option Int
  | .op _ (.seek fildes _ _) | .op _ (.close fildes) => some fildes
  | _ => none

/-- What may change the file at a path: it is opened to be created or emptied, or it is written. -/
def Machine.Touches (m : Machine) (path : Str) (l : Label) : Prop :=
  (∃ x ∈ opened l, m.fullpath x.1 = path ∧
    (openFlags x.2 &&& ppFileOpenFlagCreate ≠ 0 ∨ openFlags x.2 &&& ppFileOpenFlagTruncate ≠ 0)) ∨
  ∃ fildes ∈ writes l, ∃ x ∈ m.descriptor fildes, x.writes path

instance (m : Machine) (path : Str) (l : Label) : Decidable (m.Touches path l) :=
  inferInstanceAs (Decidable (_ ∨ _))

theorem Behaves.untouched (h : Behaves m l o m') (ht : ¬ m.Touches path l) : m'.files path = m.files path := by
  cases h with
  | message => rfl
  | op h =>
    obtain ⟨files, hf⟩ : ∃ files, files = m'.files := ⟨_, rfl⟩
    have hr := h.rewrites
    rw [← hf] at hr ⊢
    cases hr with
    | nothing => rfl
    | @opens path' content oflag cmode ho =>
      by_cases he : m.fullpath path' = path
      · subst he
        rw [Function.update_self]
        have hsame := ho.same (not_not.1 fun hc => ht (.inl ⟨_, rfl, rfl, .inl hc⟩))
          (not_not.1 fun hc => ht (.inl ⟨_, rfl, rfl, .inr hc⟩))
        exact hsame.symm
      · rw [Function.update_of_ne (Ne.symm he)]
    | writes content hx hw =>
      rw [Function.update_of_ne]
      rintro rfl
      exact ht (.inr ⟨_, rfl, _, hx, rfl, hw⟩)

/-! ## Through one descriptor -/

variable {h : Handle} {position : Int} {info : FileInfo}

/-- What a function does to the position in a file and to the files. -/
inductive OnFile (m : Machine) (h : Handle) (position : Int) : Function → Int → Int → Machine → Prop
  | stays {f : Function} {result : Int} {m' : Machine} (hf : m'.files = m.files)
      (hr : (∃ buf nbytes, f = .read buf nbytes) ∨ (∃ buf, f = .write buf) → result < 0) :
      OnFile m h position f result position m'
  | reads {buf nbytes k : Nat} {content : Str} (hc : m.files h.path = some content) (h0 : 0 ≤ position)
      (hk : k ≤ content.length - position.toNat)
      (he : k = 0 → toInt nbytes ≤ 0 ∨ content.length ≤ position.toNat) :
      OnFile m h position (.read buf nbytes) k (position + k) (m.setBuffer buf (slice content position.toNat k))
  | writes {buf content : Str} {k : Nat} (hc : m.files h.path = some content) (h0 : 0 ≤ position)
      (hw : h.writable) (hn : (k : Int) ≤ toInt buf.length) :
      OnFile m h position (.write buf) k (position + k)
        (m.setFile h.path (overlay 0 content position.toNat (buf.take k)))
  | seeks (offset whence position' : Int) : OnFile m h position (.seek offset whence) position' position' m

theorem Acts.onFile {f : Function} {result : Int} {x' : Description}
    (ha : Acts main m (.file h position info) f result x' m') :
    ∃ position' info', x' = .file h position' info' ∧ OnFile m h position f result position' m' := by
  cases ha with
  | main =>
    refine ⟨_, _, rfl, .stays rfl ?_⟩
    rintro (⟨buf, nbytes, rfl⟩ | ⟨buf, rfl⟩)
    · show (-1 : Int) < 0
      decide
    · show (-1 : Int) < 0
      decide
  | fstatRefused => exact ⟨_, _, rfl, .stays rfl (by simp)⟩
  | fstat => exact ⟨_, _, rfl, .stays rfl (by simp)⟩
  | readFails _ _ hr => exact ⟨_, _, rfl, .stays rfl fun _ => hr⟩
  | read _ hc h0 _ _ hk he => exact ⟨_, _, rfl, .reads hc h0 hk he⟩
  | writeFails _ hr => exact ⟨_, _, rfl, .stays rfl fun _ => hr⟩
  | write _ hc h0 hw hn => exact ⟨_, _, rfl, .writes hc h0 hw hn⟩
  | seekNowhere => exact ⟨_, _, rfl, .stays rfl (by simp)⟩
  | seek => exact ⟨_, _, rfl, .seeks ..⟩
  | isatty => exact ⟨_, _, rfl, .stays rfl (by simp)⟩
  | fcntl => exact ⟨_, _, rfl, .stays rfl (by simp)⟩

/-- The reads and the writes through the descriptor. -/
def Transfers (fildes : Int) (l : Label) : Prop := reads l = some fildes ∨ writes l = some fildes

theorem Transfers.cases (ht : Transfers fildes l) :
    (∃ main buf nbytes, l = .op main (.read fildes buf nbytes)) ∨
      ∃ main buf, l = .op main (.write fildes buf) := by
  rcases ht with ht | ht
  · unfold reads at ht
    split at ht
    · cases ht
      exact .inl ⟨_, _, _, rfl⟩
    · cases ht
  · unfold writes at ht
    split at ht
    · cases ht
      exact .inr ⟨_, _, rfl⟩
    · cases ht

/-- What happens through a descriptor that is open on a file while its place is not changed. -/
inductive Goes (m : Machine) (fildes : Int) (h : Handle) (position : Int) (m' : Machine) :
    Label → Option Returned → Int → Prop
  | stays {l : Label} {o : Option Returned} (hf : Transfers fildes l → m'.files = m.files)
      (hr : Transfers fildes l → ∃ ret, o = some ret ∧ ret.result < 0) :
      Goes m fildes h position m' l o position
  | reads {main : Bool} {buf nbytes k : Nat} {content : Str} (hc : m.files h.path = some content)
      (h0 : 0 ≤ position) (hk : k ≤ content.length - position.toNat)
      (he : k = 0 → toInt nbytes ≤ 0 ∨ content.length ≤ position.toNat)
      (hb : (m'.buffers buf).take k = slice content position.toNat k) :
      Goes m fildes h position m' (.op main (.read fildes buf nbytes)) (some { result := (k : Int) })
        (position + k)
  | writes {main : Bool} {buf content : Str} {k : Nat} (hc : m.files h.path = some content)
      (h0 : 0 ≤ position) (hw : h.writable) (hn : k ≤ buf.length)
      (hf : m'.files = Function.update m.files h.path (some (overlay 0 content position.toNat (buf.take k)))) :
      Goes m fildes h position m' (.op main (.write fildes buf)) (some { result := (k : Int) }) (position + k)

theorem Behaves.goes (hb : Behaves m l o m') (hx : m.descriptor fildes = some (.file h position info))
    (hm : moves l ≠ some fildes) : ∃ position' info', m'.descriptor fildes = some (.file h position' info') ∧
      Goes m fildes h position m' l o position' := by
  cases hb with
  | message message =>
    have hnot : ¬ Transfers fildes (.message message) := by
      intro ht
      rcases ht with ht | ht <;> cases ht
    exact ⟨position, info, hx, .stays (fun ht => absurd ht hnot) fun ht => absurd ht hnot⟩
  | @op main op ret _ hs =>
    by_cases hn : (throughDescriptor op).map Prod.fst = some fildes
    · obtain ⟨⟨_, bad, f⟩, ho, rfl⟩ := Option.map_eq_some_iff.1 hn
      rcases hs.through ho hx with ⟨m₀, result, x', m₁, hfiles, hdesc, ha, rfl, rfl⟩ | rfl
      · obtain ⟨position', info', rfl, hon⟩ := ha.onFile
        refine ⟨position', info', Machine.setDescriptor_self hx (ha.descriptors.trans hdesc), ?_⟩
        cases hon with
        | stays hf hr =>
          refine .stays (fun _ => hf.trans hfiles) fun ht => ⟨_, rfl, hr ?_⟩
          rcases ht.cases with ⟨_, buf, nbytes, he⟩ | ⟨_, buf, he⟩
          · cases he
            cases ho
            exact .inl ⟨_, _, rfl⟩
          · cases he
            cases ho
            exact .inr ⟨_, rfl⟩
        | @reads buf nbytes k content hc h0 hk he =>
          have hl := length_slice content position.toNat k
          rw [hfiles] at hc
          cases op with
          | read =>
            cases ho
            refine .reads hc h0 hk he ?_
            show ((Function.update m₀.buffers buf _) buf).take k = _
            rw [Function.update_self]
            apply List.take_left'
            omega
          | _ => cases ho
        | @writes buf content k hc h0 hw hn' =>
          have hle := toInt_le buf.length
          rw [hfiles] at hc
          cases op with
          | write =>
            cases ho
            refine .writes hc h0 hw (by omega) ?_
            show Function.update m₀.files h.path _ = _
            rw [hfiles]
          | _ => cases ho
        | seeks =>
          cases op with
          | seek =>
            cases ho
            exact absurd rfl hm
          | _ => cases ho
      · exact absurd rfl hm
    · have hnot : ¬ Transfers fildes (.op main op) := by
        intro ht
        rcases ht.cases with ⟨_, buf, nbytes, he⟩ | ⟨_, buf, he⟩
        · cases he
          exact hn rfl
        · cases he
          exact hn rfl
      exact ⟨position, info, hs.keeps_descriptor hx hn,
        .stays (fun ht => absurd ht hnot) fun ht => absurd ht hnot⟩

/-- A read through the descriptor fails, or counts what it stores in the buffer. -/
theorem Goes.read {position' : Int} {buf nbytes : Nat}
    (hg : Goes m fildes h position m' (.op main (.read fildes buf nbytes)) (some ret) position') :
    ret.result < 0 ∨ ∃ content k, m.files h.path = some content ∧ 0 ≤ position ∧
      k ≤ content.length - position.toNat ∧ (k = 0 → toInt nbytes ≤ 0 ∨ content.length ≤ position.toNat) ∧
      ret.result = (k : Nat) ∧ (m'.buffers buf).take k = slice content position.toNat k := by
  generalize ho : some ret = o at hg
  generalize hl : Label.op main (.read fildes buf nbytes) = l at hg
  cases hg with
  | stays _ hr =>
    obtain ⟨ret', he, hlt⟩ := hr (by rw [← hl]; exact .inl rfl)
    rw [← ho] at he
    cases he
    exact .inl hlt
  | reads hc h0 hk he hb =>
    cases hl
    cases ho
    exact .inr ⟨_, _, hc, h0, hk, he, rfl, hb⟩
  | writes => cases hl

/-- A write through the descriptor fails, or counts what it lays over the file. -/
theorem Goes.write {position' : Int} {buf : Str}
    (hg : Goes m fildes h position m' (.op main (.write fildes buf)) (some ret) position') :
    ret.result < 0 ∨ ∃ content k, m.files h.path = some content ∧ 0 ≤ position ∧ k ≤ buf.length ∧
      ret.result = (k : Nat) ∧
      m'.files = Function.update m.files h.path (some (overlay 0 content position.toNat (buf.take k))) := by
  generalize ho : some ret = o at hg
  generalize hl : Label.op main (.write fildes buf) = l at hg
  cases hg with
  | stays _ hr =>
    obtain ⟨ret', he, hlt⟩ := hr (by rw [← hl]; exact .inr rfl)
    rw [← ho] at he
    cases he
    exact .inl hlt
  | writes hc h0 _ hn hf =>
    cases hl
    cases ho
    exact .inr ⟨_, _, hc, h0, hn, rfl, hf⟩
  | reads => cases hl

/-- The bytes a read through the descriptor delivers. -/
def delivered (fildes : Int) : Label → Option Returned → Machine → Str
  | .op _ (.read fildes' buf _), some ret, m' =>
    if fildes' = fildes then (m'.buffers buf).take ret.result.toNat else []
  | _, _, _ => []

/-- The bytes a write through the descriptor accepts. -/
def accepted (fildes : Int) : Label → Option Returned → Str
  | .op _ (.write fildes' buf), some ret => if fildes' = fildes then buf.take ret.result.toNat else []
  | _, _ => []

theorem delivered_none (hr : Transfers fildes l → ∃ ret, o = some ret ∧ ret.result < 0) :
    delivered fildes l o m' = [] := by
  unfold delivered
  split
  · split
    · rename_i he
      obtain ⟨ret, ho, hlt⟩ := hr (.inl (congrArg some he))
      cases ho
      rw [Int.toNat_of_nonpos (Int.le_of_lt hlt), List.take_zero]
    · rfl
  · rfl

theorem accepted_none (hr : Transfers fildes l → ∃ ret, o = some ret ∧ ret.result < 0) :
    accepted fildes l o = [] := by
  unfold accepted
  split
  · split
    · rename_i he
      obtain ⟨ret, ho, hlt⟩ := hr (.inr (congrArg some he))
      cases ho
      rw [Int.toNat_of_nonpos (Int.le_of_lt hlt), List.take_zero]
    · rfl
  · rfl

/-- `xs` of the file were read since `start`. -/
structure ReadTo (fildes : Int) (h : Handle) (start : Int) (content : Str) (m : Machine) (xs : Str) : Prop where
  descriptor : ∃ info, m.descriptor fildes = some (.file h (start + xs.length) info)
  file : m.files h.path = some content
  slice : xs = slice content start.toNat xs.length
  start : 0 ≤ start ∨ xs = []

/-- What may happen while a file is read through a descriptor. -/
def Reading (fildes : Int) (path : Str) (m : Machine) (l : Label) : Prop :=
  ¬ m.Touches path l ∧ moves l ≠ some fildes

instance (fildes : Int) (path : Str) (m : Machine) (l : Label) : Decidable (Reading fildes path m l) :=
  inferInstanceAs (Decidable (_ ∧ _))

theorem ReadTo.step {start : Int} {content xs : Str} (hi : ReadTo fildes h start content m xs)
    (hl : Reading fildes h.path m l) (hb : Behaves m l o m') :
    ReadTo fildes h start content m' (xs ++ delivered fildes l o m') := by
  obtain ⟨info, hx⟩ := hi.descriptor
  obtain ⟨position', info', hx', hg⟩ := hb.goes hx hl.2
  have hfile : m'.files h.path = some content := (hb.untouched hl.1).trans hi.file
  cases hg with
  | stays _ hr =>
    rw [delivered_none hr, List.append_nil]
    exact ⟨⟨info', hx'⟩, hfile, hi.slice, hi.start⟩
  | @reads main buf nbytes k content' hc h0 hk he hb' =>
    rw [hi.file] at hc
    cases hc
    have hgot : delivered fildes (.op main (.read fildes buf nbytes)) (some { result := (k : Int) }) m' =
        Bytes.slice content (start + xs.length).toNat k := by
      show (if fildes = fildes then _ else _) = _
      rw [if_pos rfl]
      exact hb'
    have hlen := length_slice content (start + xs.length).toNat k
    -- The first read that counts shows where it started.
    have hstart : 0 ≤ start := by
      rcases hi.start with hs | rfl
      · exact hs
      · simpa using h0
    have hat : (start + xs.length).toNat = start.toNat + xs.length := by omega
    rw [hgot]
    refine ⟨⟨info', ?_⟩, hfile, ?_, .inl hstart⟩
    · rw [hx', List.length_append, hlen, Nat.min_eq_left hk, Int.natCast_add, Int.add_assoc]
    · rw [List.length_append, hlen, Nat.min_eq_left hk, ← slice_append, ← hi.slice, hat]
  | writes _ _ hw => exact absurd (.inr ⟨_, rfl, _, hx, rfl, hw⟩) hl.1

/-- A read that asks for something and counts nothing found the end. -/
theorem ReadTo.atEnd {start : Int} {content xs : Str} {buf nbytes : Nat}
    (hi : ReadTo fildes h start content m xs)
    (hb : Behaves m (.op main (.read fildes buf nbytes)) (some ret) m') (h0 : ret.result = 0)
    (hn : 0 < toInt nbytes) : xs = content.drop start.toNat := by
  obtain ⟨info, hx⟩ := hi.descriptor
  obtain ⟨position', _, _, hg⟩ := hb.goes hx (by simp [moves])
  rcases hg.read with hlt | ⟨content', k, hc, hpos, hk, he, hret, -⟩
  · omega
  · rw [hi.file] at hc
    cases hc
    have hend := he (by omega)
    have hstart : 0 ≤ start := by
      rcases hi.start with hs | rfl
      · exact hs
      · simpa using hpos
    rw [hi.slice, Bytes.slice]
    apply List.take_of_length_le
    rw [List.length_drop]
    omega

/-- `xs` were written into the file since it had `content` and the descriptor was at `start`. -/
structure WrittenTo (fildes : Int) (h : Handle) (start : Int) (content : Str) (m : Machine) (xs : Str) :
    Prop where
  descriptor : ∃ info, m.descriptor fildes = some (.file h (start + xs.length) info)
  file : m.files h.path = some (overlay 0 content start.toNat xs)
  start : 0 ≤ start ∨ xs = []

/-- What may happen while a file is written through a descriptor. -/
def Writing (fildes : Int) (path : Str) (m : Machine) (l : Label) : Prop :=
  (m.Touches path l → Transfers fildes l) ∧ moves l ≠ some fildes ∧
    reads l ≠ some fildes

instance (fildes : Int) (path : Str) (m : Machine) (l : Label) : Decidable (Writing fildes path m l) :=
  inferInstanceAs (Decidable ((_ → _ ∨ _) ∧ _ ∧ _))

theorem WrittenTo.step {start : Int} {content xs : Str} (hi : WrittenTo fildes h start content m xs)
    (hl : Writing fildes h.path m l) (hb : Behaves m l o m') :
    WrittenTo fildes h start content m' (xs ++ accepted fildes l o) := by
  obtain ⟨info, hx⟩ := hi.descriptor
  obtain ⟨position', info', hx', hg⟩ := hb.goes hx hl.2.1
  cases hg with
  | stays hf hr =>
    rw [accepted_none hr, List.append_nil]
    refine ⟨⟨info', hx'⟩, ?_, hi.start⟩
    by_cases ht : m.Touches h.path l
    · rw [hf (hl.1 ht)]
      exact hi.file
    · rw [hb.untouched ht]
      exact hi.file
  | reads => exact absurd rfl hl.2.2
  | @writes main buf content' k hc h0 hw hn hf =>
    rw [hi.file] at hc
    cases hc
    have htook : accepted fildes (.op main (.write fildes buf)) (some { result := (k : Int) }) =
        buf.take k := by
      show (if fildes = fildes then _ else _) = _
      rw [if_pos rfl]
      rfl
    have hlen : (buf.take k).length = k := List.length_take_of_le hn
    have hstart : 0 ≤ start := by
      rcases hi.start with hs | rfl
      · exact hs
      · simpa using h0
    have hat : (start + xs.length).toNat = start.toNat + xs.length := by omega
    rw [htook]
    refine ⟨⟨info', ?_⟩, ?_, .inl hstart⟩
    · rw [hx', List.length_append, hlen, Int.natCast_add, Int.add_assoc]
    · rw [hf, Function.update_self, hat, overlay_append]

/-! ## Runs of the system -/

variable {β : Type} {B : Backend β} {disk : Disk B}

/-- What the steps of the machine keep of it and of what is collected, the runs of the system keep. -/
theorem run_collects {E : Type*} (P : Machine → List E → Prop) (ok : Machine → Label → Prop)
    (out : Label → Option Returned → Machine → List E)
    (hstep : ∀ {m l o m' xs}, P m xs → ok m l → Behaves m l o m' → P m' (xs ++ out l o m')) {s t : System β}
    {as : List System.Act} {os : List (Option Returned)} (hs : Sound disk s.process)
    (hg : Stream.Guarded (System.step B) (fun u a => ok (ofSystem disk u) (label a)) s as)
    (hr : Stream.run (System.step B) s as = some (t, os)) (hp : P (ofSystem disk s) []) :
    Sound disk t.process ∧ P (ofSystem disk t)
      (Stream.collect (System.step B) (fun a o u => out (label a) o (ofSystem disk u)) s as) := by
  have h := Stream.Guarded.collects (fun a o u => out (label a) o (ofSystem disk u))
    (fun u xs => Sound disk u.process ∧ P (ofSystem disk u) xs) ?_ hg hr ⟨hs, hp⟩
  · exact h
  · rintro u a u' o xs ⟨hu, hpu⟩ hok hsu
    obtain ⟨hu', hb⟩ := step_behaves hu hsu
    exact ⟨hu', hstep hpu hok hb⟩

/-! ## A copy in memory -/

/-- Where a run over the memory ends, with its outputs. -/
def Memory.after (s : System Memory) (as : List System.Act) : System Memory × List (Option Returned) :=
  (Stream.run (System.step Memory.backend) s as).getD (s, [])

theorem Memory.run_after {s : System Memory} {as : List System.Act}
    (h : (Stream.run (System.step Memory.backend) s as).isSome = true) :
    Stream.run (System.step Memory.backend) s as = some ((Memory.after s as).1, (Memory.after s as).2) := by
  obtain ⟨x, hx⟩ := Option.isSome_iff_exists.1 h
  rw [Memory.after, hx]
  rfl

/-- The state after an act that is enabled. -/
def Memory.next (s : System Memory) (a : System.Act) : System Memory :=
  ((System.step Memory.backend s a).map Prod.fst).getD s

theorem Memory.step_next {s : System Memory} {a : System.Act} {o : Option Returned}
    (h : (System.step Memory.backend s a).map Prod.snd = some o) :
    System.step Memory.backend s a = some (Memory.next s a, o) := by
  obtain ⟨x, hx, rfl⟩ := Option.map_eq_some_iff.1 h
  rw [Memory.next, hx]
  rfl

/-- A file is made and written, and another one is made. -/
def makeTwo : List System.Act :=
  [.op false 0 (.open_ (some (str "a")) (oRdWr ||| oCreat) 0), .op false 1 (.write 0 (str "hello")),
    .op false 2 (.seek 0 0 seekSet), .op false 3 (.open_ (some (str "b")) (oRdWr ||| oCreat) 0)]

/-- The first one is copied into the other one, in two chunks. -/
def copyChunks : List System.Act :=
  [.op false 4 (.read 0 7 3), .op false 5 (.write 1 (str "hel")), .op true 6 (.fstat 0 0),
    .op false 7 (.read 0 7 3), .message (.string (str "S0x")), .op false 8 (.write 1 (str "lo"))]

@[irreducible] def made : System Memory × List (Option Returned) :=
  Memory.after ⟨.blank Memory.empty, []⟩ makeTwo

@[irreducible] def copied : System Memory × List (Option Returned) := Memory.after made.1 copyChunks

/-- What the two runs come to, evaluated once. -/
theorem copy_evaluates :
    (Stream.run (System.step Memory.backend) ⟨.blank Memory.empty, []⟩ makeTwo).isSome = true ∧
    (Stream.run (System.step Memory.backend) made.1 copyChunks).isSome = true ∧
    (ofSystem Memory.disk made.1).descriptor 0 = some (.file ⟨str "/a", 7⟩ 0 ⟨5, .regular, 0, 0, 0⟩) ∧
    (ofSystem Memory.disk made.1).descriptor 1 = some (.file ⟨str "/b", 7⟩ 0 ⟨0, .regular, 0, 0, 0⟩) ∧
    Memory.disk.files made.1.process.backend (str "/a") = some (str "hello") ∧
    Memory.disk.files made.1.process.backend (str "/b") = some [] ∧
    Stream.collect (System.step Memory.backend)
      (fun a o u => delivered 0 (label a) o (ofSystem Memory.disk u)) made.1 copyChunks = str "hello" ∧
    Stream.collect (System.step Memory.backend) (fun a o _ => accepted 1 (label a) o) made.1 copyChunks =
      str "hello" ∧
    Stream.Guarded (System.step Memory.backend) (fun u a =>
      Reading 0 (str "/a") (ofSystem Memory.disk u) (label a) ∧
        Writing 1 (str "/b") (ofSystem Memory.disk u) (label a)) made.1 copyChunks ∧
    (System.step Memory.backend copied.1 (.op false 9 (.read 0 7 3))).map Prod.snd =
      some (some { result := 0 }) := by
  decide +kernel

theorem made_run : Stream.run (System.step Memory.backend) ⟨.blank Memory.empty, []⟩ makeTwo =
    some (made.1, made.2) := by
  have hmade : made = Memory.after ⟨.blank Memory.empty, []⟩ makeTwo := by
    unfold made
    rfl
  rw [hmade]
  exact Memory.run_after copy_evaluates.1

theorem copied_run : Stream.run (System.step Memory.backend) made.1 copyChunks = some (copied.1, copied.2) := by
  have hcopied : copied = Memory.after made.1 copyChunks := by
    unfold copied
    rfl
  rw [hcopied]
  exact Memory.run_after copy_evaluates.2.1

/-! ## Files of the system -/

section

variable (disk) (type : FileSystemType) (info : Nat → FileInfo) (arguments : Nat → Arguments)
  (stats : Nat → Stat) (buffers : Nat → Str) (b : β) {before as : List System.Act} {s t : System β}
  {os os' : List (Option Returned)}

theorem reached_sound
    (h : Stream.run (System.step B) (.init type info arguments stats buffers b) before = some (s, os)) :
    Sound disk s.process := (run_behaves (init_sound disk type info arguments stats buffers b) h).1

/-- Nobody opens the file of a path to make it anew, and nobody writes it: then, whatever else is done
on the main thread and on workers, it is what it was. -/
theorem run_untouched
    (h : Stream.run (System.step B) (.init type info arguments stats buffers b) before = some (s, os))
    (path : Str)
    (hg : Stream.Guarded (System.step B) (fun u a => ¬ (ofSystem disk u).Touches path (label a)) s as)
    (hr : Stream.run (System.step B) s as = some (t, os')) :
    disk.files t.process.backend path = disk.files s.process.backend path := by
  have hsound := reached_sound disk type info arguments stats buffers b h
  have hkept := run_collects (fun m _ => m.files path = disk.files s.process.backend path)
    (fun m l => ¬ m.Touches path l) (fun _ _ _ => ([] : Str))
    (fun hp ht hb => (hb.untouched ht).trans hp) hsound hg hr rfl
  exact hkept.2

theorem run_untouched_copyChunks :
    Memory.disk.files copied.1.process.backend (str "/a") =
      Memory.disk.files made.1.process.backend (str "/a") :=
  have ⟨_, _, _, _, _, _, _, _, hg, _⟩ := copy_evaluates
  run_untouched Memory.disk .localTemporary _ _ _ _ Memory.empty made_run (str "/a")
    (hg.mono fun _ _ h => h.1.1) copied_run

/-- While nobody touches the file and the descriptor is given no other place, what the reads through it
deliver is, one after the other, the file from the place the first one started at; the next one goes on
where they ended; and when one that asks for something counts nothing, they have delivered the rest of
the file. -/
theorem run_reads
    (h : Stream.run (System.step B) (.init type info arguments stats buffers b) before = some (s, os))
    {fildes start : Int} {file : Handle} {known : FileInfo} {content : Str}
    (hx : (ofSystem disk s).descriptor fildes = some (.file file start known))
    (hc : disk.files s.process.backend file.path = some content)
    (hg : Stream.Guarded (System.step B) (fun u a => Reading fildes file.path (ofSystem disk u) (label a)) s as)
    (hr : Stream.run (System.step B) s as = some (t, os')) :
    let got := Stream.collect (System.step B) (fun a o u => delivered fildes (label a) o (ofSystem disk u)) s as
    got = slice content start.toNat got.length ∧
      (∃ known', (ofSystem disk t).descriptor fildes = some (.file file (start + got.length) known')) ∧
      ∀ main call buf nbytes u ret, System.step B t (.op main call (.read fildes buf nbytes)) =
        some (u, some ret) →
        ret.result = 0 → 0 < toInt nbytes → got = content.drop start.toNat := by
  intro got
  have hsound := reached_sound disk type info arguments stats buffers b h
  obtain ⟨hsound', hread⟩ := run_collects (ReadTo fildes file start content) (Reading fildes file.path)
    (delivered fildes) (fun hp hl hb => hp.step hl hb) hsound hg hr
    ⟨⟨known, by simpa using hx⟩, hc, by simp [slice], .inr rfl⟩
  refine ⟨hread.slice, hread.descriptor, fun main call buf nbytes u ret hs h0 hn => ?_⟩
  exact hread.atEnd (step_behaves hsound' hs).2 h0 hn

theorem run_reads_copyChunks :
    Stream.collect (System.step Memory.backend)
      (fun a o u => delivered 0 (label a) o (ofSystem Memory.disk u)) made.1 copyChunks =
        slice (str "hello") 0 5 := by
  obtain ⟨-, -, hsource, -, hfile, -, hgot, -, hg, -⟩ := copy_evaluates
  have h := run_reads Memory.disk .localTemporary _ _ _ _ Memory.empty made_run hsource hfile
    (hg.mono fun _ _ h => h.1) copied_run
  rw [h.1, hgot]
  rfl

/-- While nobody else touches the file and the descriptor is only written through, what its writes accept
is laid over the file one after the other, from the place the first one started at. -/
theorem run_writes
    (h : Stream.run (System.step B) (.init type info arguments stats buffers b) before = some (s, os))
    {fildes start : Int} {file : Handle} {known : FileInfo} {content : Str}
    (hx : (ofSystem disk s).descriptor fildes = some (.file file start known))
    (hc : disk.files s.process.backend file.path = some content)
    (hg : Stream.Guarded (System.step B) (fun u a => Writing fildes file.path (ofSystem disk u) (label a)) s as)
    (hr : Stream.run (System.step B) s as = some (t, os')) :
    let put := Stream.collect (System.step B) (fun a o _ => accepted fildes (label a) o) s as
    disk.files t.process.backend file.path = some (overlay 0 content start.toNat put) ∧
      ∃ known', (ofSystem disk t).descriptor fildes = some (.file file (start + put.length) known') := by
  intro put
  have hsound := reached_sound disk type info arguments stats buffers b h
  obtain ⟨-, hwritten⟩ := run_collects (WrittenTo fildes file start content) (Writing fildes file.path)
    (fun l o _ => accepted fildes l o) (fun hp hl hb => hp.step hl hb) hsound hg hr
    ⟨⟨known, by simpa using hx⟩, hc.trans (congrArg some (if_pos rfl).symm), .inr rfl⟩
  exact ⟨hwritten.file, hwritten.descriptor⟩

theorem run_writes_copyChunks : ∃ known', (ofSystem Memory.disk copied.1).descriptor 1 =
    some (.file ⟨str "/b", 7⟩ 5 known') := by
  obtain ⟨-, -, -, htarget, -, hfile, -, hput, hg, -⟩ := copy_evaluates
  have h := run_writes Memory.disk .localTemporary _ _ _ _ Memory.empty made_run htarget hfile
    (hg.mono fun _ _ h => h.2) copied_run
  rw [hput] at h
  exact h.2

/-- A file is copied when one is read from its start to its end, an empty one is written from its start,
and what was written is what was read, in chunks of any sizes and with anything else in between that
touches neither file and names neither descriptor. -/
theorem run_copies
    (h : Stream.run (System.step B) (.init type info arguments stats buffers b) before = some (s, os))
    {source target : Int} {file file' : Handle} {known known' : FileInfo} {content : Str}
    (hx : (ofSystem disk s).descriptor source = some (.file file 0 known))
    (hx' : (ofSystem disk s).descriptor target = some (.file file' 0 known'))
    (hc : disk.files s.process.backend file.path = some content)
    (hc' : disk.files s.process.backend file'.path = some [])
    (hg : Stream.Guarded (System.step B) (fun u a => Reading source file.path (ofSystem disk u) (label a) ∧
      Writing target file'.path (ofSystem disk u) (label a)) s as)
    (hr : Stream.run (System.step B) s as = some (t, os'))
    (he : Stream.collect (System.step B) (fun a o _ => accepted target (label a) o) s as =
      Stream.collect (System.step B) (fun a o u => delivered source (label a) o (ofSystem disk u)) s as)
    {main : Bool} {call buf nbytes : Nat} {u : System β} {ret : Returned}
    (hs : System.step B t (.op main call (.read source buf nbytes)) = some (u, some ret))
    (h0 : ret.result = 0) (hn : 0 < toInt nbytes) :
    disk.files t.process.backend file'.path = some content := by
  have hsound := reached_sound disk type info arguments stats buffers b h
  obtain ⟨hsound', hread⟩ := run_collects (ReadTo source file 0 content) (Reading source file.path)
    (delivered source) (fun hp hl hb => hp.step hl hb) hsound (hg.mono fun _ _ hok => hok.1) hr
    ⟨⟨known, hx⟩, hc, rfl, .inr rfl⟩
  obtain ⟨-, hwritten⟩ := run_collects (WrittenTo target file' 0 []) (Writing target file'.path)
    (fun l o _ => accepted target l o) (fun hp hl hb => hp.step hl hb) hsound (hg.mono fun _ _ hok => hok.2) hr
    ⟨⟨known', hx'⟩, hc', .inr rfl⟩
  have hgot := hread.atEnd (step_behaves hsound' hs).2 h0 hn
  have hput := hwritten.file
  rw [he, hgot] at hput
  exact hput.trans (congrArg some (overlay_end 0 [] content))

theorem run_copies_copyChunks : Memory.disk.files copied.1.process.backend (str "/b") = some (str "hello") := by
  obtain ⟨-, -, hsource, htarget, hfile, hfile', hgot, hput, hg, hlast⟩ := copy_evaluates
  obtain ⟨⟨u, o⟩, hs, ho⟩ := Option.map_eq_some_iff.1 hlast
  cases ho
  exact run_copies Memory.disk .localTemporary _ _ _ _ Memory.empty made_run hsource htarget hfile hfile' hg
    copied_run (hput.trans hgot.symm) hs rfl (by decide)

/-- A write is read back through any descriptor on the same path, after anything that does not touch the
file: where the read meets what was written it delivers that, and elsewhere what was there before. -/
theorem run_reads_back
    (h : Stream.run (System.step B) (.init type info arguments stats buffers b) before = some (s, os))
    {main main' : Bool} {call call' buf nbytes : Nat} {fildes fildes' place place' : Int} {data content : Str}
    {file file' : Handle} {known known' : FileInfo} {s' t' : System β} {wrote got : Returned}
    (hx : (ofSystem disk s).descriptor fildes = some (.file file place known))
    (hc : disk.files s.process.backend file.path = some content)
    (hw : System.step B s (.op main call (.write fildes data)) = some (s', some wrote)) (h0 : 0 ≤ wrote.result)
    (hg : Stream.Guarded (System.step B) (fun u a => ¬ (ofSystem disk u).Touches file.path (label a)) s' as)
    (hr : Stream.run (System.step B) s' as = some (t, os'))
    (hx' : (ofSystem disk t).descriptor fildes' = some (.file file' place' known'))
    (hp : file'.path = file.path)
    (hs : System.step B t (.op main' call' (.read fildes' buf nbytes)) = some (t', some got)) {i : Nat}
    (hi : i < got.result) :
    (place ≤ place' + i ∧ place' + i < place + wrote.result →
      (t'.process.world.buffers buf)[i]? = data[(place' + i - place).toNat]?) ∧
    ((place' + i < place ∨ place + wrote.result ≤ place' + i) ∧ place' + i < content.length →
      (t'.process.world.buffers buf)[i]? = content[(place' + i).toNat]?) := by
  have hsound := reached_sound disk type info arguments stats buffers b h
  obtain ⟨hsound', hb⟩ := step_behaves hsound hw
  obtain ⟨_, _, _, hgo⟩ := hb.goes hx (by simp [label, moves])
  rcases hgo.write with hlt | ⟨content', k, hc', hpos, hk, hret, hfiles⟩
  · omega
  · obtain rfl : content = content' := Option.some.inj (hc.symm.trans hc')
    have hmiddle := run_collects (fun m _ => m.files file.path = (ofSystem disk s').files file.path)
      (fun m l => ¬ m.Touches file.path l) (fun _ _ _ => ([] : Str))
      (fun hp ht hb => (hb.untouched ht).trans hp)
      hsound' hg hr rfl
    have hfile : (ofSystem disk t).files file'.path = some (overlay 0 content place.toNat (data.take k)) := by
      rw [hp, hmiddle.2, hfiles, Function.update_self]
    obtain ⟨_, _, _, hgo'⟩ := (step_behaves hmiddle.1 hs).2.goes hx' (by simp [label, moves])
    rcases hgo'.read with hlt | ⟨content', j, hc'', hpos', -, -, hret', hbuf⟩
    · omega
    · rw [hfile] at hc''
      cases hc''
      have hlen : (data.take k).length = k := List.length_take_of_le hk
      have hat : (t'.process.world.buffers buf)[i]? =
          (overlay 0 content place.toNat (data.take k))[place'.toNat + i]? := by
        have hget := congrArg (fun xs => xs[i]?) hbuf
        rw [List.getElem?_take_of_lt (by omega), getElem?_slice _ _ (by omega)] at hget
        exact hget
      rw [hat]
      constructor
      · rintro ⟨hle, hlt⟩
        rw [getElem?_overlay _ _ _ (by omega) (by omega), List.getElem?_take_of_lt (by omega)]
        congr 1
        omega
      · rintro ⟨hout, hlt⟩
        rw [getElem?_overlay_of_not _ _ _ (by omega) (by omega)]
        congr 1
        omega

/-- The second file, when it was written, and when its descriptor was set on its second byte. -/
@[irreducible] def written : System Memory := Memory.next made.1 (.op false 4 (.write 1 (str "hel")))

@[irreducible] def sought : System Memory × List (Option Returned) :=
  Memory.after written [.op true 5 (.isatty 0), .op false 6 (.seek 1 1 seekSet)]

theorem sought_evaluates :
    (System.step Memory.backend made.1 (.op false 4 (.write 1 (str "hel")))).map Prod.snd =
      some (some { result := 3 }) ∧
    Stream.Guarded (System.step Memory.backend)
      (fun u a => ¬ (ofSystem Memory.disk u).Touches (str "/b") (label a)) written
      [.op true 5 (.isatty 0), .op false 6 (.seek 1 1 seekSet)] ∧
    (Stream.run (System.step Memory.backend) written
      [.op true 5 (.isatty 0), .op false 6 (.seek 1 1 seekSet)]).isSome = true ∧
    (ofSystem Memory.disk sought.1).descriptor 1 = some (.file ⟨str "/b", 7⟩ 1 ⟨3, .regular, 0, 0, 0⟩) ∧
    (System.step Memory.backend sought.1 (.op false 7 (.read 1 7 5))).map Prod.snd =
      some (some { result := 2 }) := by
  decide +kernel

theorem run_reads_back_sought :
    ((Memory.next sought.1 (.op false 7 (.read 1 7 5))).process.world.buffers 7)[0]? = some 101 := by
  obtain ⟨-, -, -, htarget, -, hfile, -⟩ := copy_evaluates
  obtain ⟨hwrite, hg, hrun, hx, hread⟩ := sought_evaluates
  have hw : System.step Memory.backend made.1 (.op false 4 (.write 1 (str "hel"))) =
      some (written, some { result := 3 }) := by
    unfold written
    exact Memory.step_next hwrite
  have hr : Stream.run (System.step Memory.backend) written
      [.op true 5 (.isatty 0), .op false 6 (.seek 1 1 seekSet)] = some (sought.1, sought.2) := by
    have hsought : sought = Memory.after written [.op true 5 (.isatty 0), .op false 6 (.seek 1 1 seekSet)] := by
      unfold sought
      rfl
    rw [hsought]
    exact Memory.run_after hrun
  have hs : System.step Memory.backend sought.1 (.op false 7 (.read 1 7 5)) =
      some (Memory.next sought.1 (.op false 7 (.read 1 7 5)), some { result := 2 }) := Memory.step_next hread
  have hback := run_reads_back Memory.disk .localTemporary _ _ _ _ Memory.empty made_run htarget
    hfile hw (by decide) hg hr hx rfl hs (show ((0 : Nat) : Int) < 2 by decide)
  exact hback.1 (by decide)

end

end Unix

end NaClFs
