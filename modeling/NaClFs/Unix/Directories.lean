/-
The DIRs over whole runs: a DIR asks for its directory until one request is answered with the listing,
and from then on its reads go through the names of that answer, whatever is done in between with other
DIRs, descriptors and paths. What a step does to a DIR is said once, with the requests it makes; what the
visits tell of the DIR is carried from there to the runs of the system.
-/
import NaClFs.Unix.Refine

namespace NaClFs

/-- One act, with what it returns and the exchanges it made with the backend. -/
def System.asking {β : Type} (B : Backend β) (s : System (β × List Exchange)) (a : Act) :
    Option (System (β × List Exchange) × Option Returned × List Exchange) :=
  (step B.recorded s a).map fun (t, o) => (t, o, t.process.backend.2.drop s.process.backend.2.length)

namespace Unix

variable {main : Bool} {m m' : Machine} {op : Process.Op} {ret : Returned} {dirp : Nat} {l : Label}
  {o : Option Returned}

/-! ## What is seen of a DIR -/

/-- It is opened on a path, read, or rewound. A read has the exchanges it made and the entry it
delivered. -/
inductive Visit
  | opened (path : Str)
  | read (asked : List Exchange) (dirent : Option Str)
  | rewound
  deriving DecidableEq, Repr

/-- The visit of a DIR that an act makes, with what it returned and the exchanges it made, where it leaves
the current directory. What returns nothing on the main thread is none. -/
def seen (dirp : Nat) (cwd : Str) : Label → Option Returned → List Exchange → List Visit
  | .op _ (.opendir (some dirname)), some ret, _ =>
    if ret.dirp = some dirp then [.opened (createFullpath cwd dirname)] else []
  | .op main (.readdir dirp'), some ret, asked =>
    if dirp' = dirp ∧ ¬ (main = true ∧ ret.dirent = none ∧ asked = []) then [.read asked ret.dirent] else []
  | .op false (.rewinddir dirp'), some _, _ => if dirp' = dirp then [.rewound] else []
  | _, _, _ => []

/-- A visit of a DIR on a path that has no listing: its request was not answered with one, and there is no
entry. -/
def Visit.Vain (path : Str) : Visit → Prop
  | .opened _ => False
  | .read asked dirent => dirent = none ∧ ∃ ref reply, asked = [(.readDirectoryEntries ref, reply)] ∧
      ref.path = path ∧ reply.ok = false
  | .rewound => True

/-- The place after a visit of a DIR with a listing, as the number of reads since it was rewound; none for a
visit that is not of it: a read asks for nothing and delivers the name at its place, or none behind the
last. -/
def turn (names : List Str) (i : Nat) : Visit → Option Nat
  | .opened _ => none
  | .read asked dirent => if asked = [] ∧ dirent = names[i]?.map dName then some (i + 1) else none
  | .rewound => some 0

/-- What the visits of a DIR tell: the path, the listing once there is one, and the place in it. -/
inductive Told (path : Str) : List Visit → Option (List Str) → Nat → Prop
  | unlisted {vain : List Visit} (hv : ∀ v ∈ vain, v.Vain path) : Told path (.opened path :: vain) none 0
  | listed {vain tail : List Visit} {ref : FileRef} {answer : Answer} {i : Nat} (hv : ∀ v ∈ vain, v.Vain path)
      (hr : ref.path = path) (hc : answer.code = ppOk) (ht : Run.run (turn answer.entries) 1 tail = some i) :
      Told path (.opened path :: (vain ++ .read [(.readDirectoryEntries ref, .completes answer)]
        (answer.entries[0]?.map dName) :: tail)) (some answer.entries) i

/-! ## What a step does to a DIR -/

/-- What becomes of a DIR, with what is seen of it. -/
inductive Visits (dirp : Nat) (m m' : Machine) : List Visit → Prop
  | kept (hd : m'.dirs[dirp]? = m.dirs[dirp]?) : Visits dirp m m' []
  | opened {path : Str} (hn : m.dirs[dirp]? = none) (hd : m'.dirs[dirp]? = some (some { path := path })) :
      Visits dirp m m' [.opened path]
  | closed {x : Cursor} (hx : m.dirs[dirp]?.join = some x) (hd : m'.dirs[dirp]? = some none) :
      Visits dirp m m' []
  | rewound {x : Cursor} (hx : m.dirs[dirp]?.join = some x)
      (hd : m'.dirs[dirp]? = some (some { x with next := 0 })) : Visits dirp m m' [.rewound]
  | read {x x' : Cursor} {reply : Option Reply} {dirent : Option Str} {ref : FileRef}
      (hx : m.dirs[dirp]?.join = some x) (hr : x.Reads reply dirent x') (hp : ref.path = x.path)
      (hd : m'.dirs[dirp]? = some (some x')) :
      Visits dirp m m' [.read (reply.toList.map fun reply => (.readDirectoryEntries ref, reply)) dirent]

variable {x x' : Cursor} {names : List Str} {xs : List Visit} {path : Str} {known : Option (List Str)}
  {i : Nat}

theorem Acts.dirs {x x' : Description} {f : Function} {result : Int} (h : Acts main m x f result x' m') :
    m'.dirs = m.dirs := by
  cases h <;> rfl

theorem Looks.dirs {path : Str} {buf : Nat} {result : Int} (h : Looks main m path buf result m') :
    m'.dirs = m.dirs := by
  cases h <;> rfl

theorem Machine.setDir_self {y : Option Cursor} (hx : m.dirs[dirp]?.join = some x) :
    (m.setDir dirp y).dirs[dirp]? = some y := by
  obtain ⟨hlt, -⟩ := List.getElem?_eq_some_iff.1 (Option.join_eq_some_iff.1 hx)
  exact List.getElem?_set_self hlt

theorem Machine.setDir_of_ne {dirp' : Nat} (hne : dirp' ≠ dirp) (y : Option Cursor) :
    (m.setDir dirp' y).dirs[dirp]? = m.dirs[dirp]? := List.getElem?_set_ne hne

/-- What is not a read of the DIR leaves it, or opens, rewinds or closes it. -/
theorem Step.visits (dirp : Nat) (h : Step main m op ret m') (hop : op ≠ .readdir dirp)
    (asked : List Exchange) :
    Visits dirp m m' (seen dirp m'.cwd (.op main op) (some ret) asked) := by
  -- Where the DIRs stay it was kept.
  have hkept {m₁ : Machine} (hd : m₁.dirs = m.dirs) : Visits dirp m m₁ [] := .kept (by rw [hd])
  -- A read of another DIR is not seen.
  have hother {dirp' : Nat} {main : Bool} {ret : Returned} {cwd : Str} (hne : dirp' ≠ dirp) :
      seen dirp cwd (.op main (.readdir dirp')) (some ret) asked = [] := if_neg fun h => hne h.1
  cases h with
  | descriptor ho _ ha =>
    cases op with
    | open_ | stat | mkdir | opendir | chdir | rewinddir | readdir | closedir => cases ho
    | _ => exact hkept ha.dirs
  | badDescriptor ho =>
    cases op with
    | open_ | stat | mkdir | opendir | chdir | rewinddir | readdir | closedir => cases ho
    | _ => exact hkept rfl
  | dirMain hm ho =>
    subst hm
    cases op with
    | readdir dirp' =>
      rw [hother (by rintro rfl; exact hop rfl)]
      exact hkept rfl
    | rewinddir | closedir => exact hkept rfl
    | _ => cases ho
  | readAgain _ hw ha => exact hkept (ha.dirs.trans hw.dirs)
  | stat hl => exact hkept hl.dirs
  | chdirFails hl => exact hkept hl.dirs
  | chdirNotDir hl => exact hkept hl.dirs
  | chdir hl => exact hkept hl.dirs
  | @opendir path hm hd =>
    by_cases he : m.dirs.length = dirp
    · subst he
      simp only [seen, if_true]
      apply Visits.opened
      · exact List.getElem?_eq_none (Nat.le_refl _)
      · exact List.getElem?_concat_length
    · have hnone : seen dirp m.cwd (.op main (.opendir (some path)))
          (some { result := 0, dirp := some m.dirs.length }) asked = [] := if_neg fun h => he (Option.some.inj h)
      refine cast (congrArg _ hnone.symm) (Visits.kept ?_)
      show (m.dirs ++ _)[dirp]? = m.dirs[dirp]?
      rcases Nat.lt_or_ge dirp m.dirs.length with hlt | hge
      · exact List.getElem?_append_left hlt
      · rw [List.getElem?_eq_none hge, List.getElem?_eq_none]
        simp only [List.length_append, List.length_cons, List.length_nil]
        omega
  | opendirFails => exact hkept rfl
  | @rewinddir dirp' x hm hx =>
    subst hm
    by_cases he : dirp' = dirp
    · subst he
      simp only [seen, if_true]
      exact .rewound hx (Machine.setDir_self hx)
    · simp only [seen, if_neg he]
      exact .kept (Machine.setDir_of_ne he _)
  | @readdir dirp' x x' name hm hx hr =>
    have hne : dirp' ≠ dirp := by
      rintro rfl
      exact hop rfl
    rw [hother hne]
    exact .kept (Machine.setDir_of_ne hne _)
  | @closedir dirp' x hm hx =>
    subst hm
    by_cases he : dirp' = dirp
    · subst he
      exact .closed hx (Machine.setDir_self hx)
    · exact .kept (Machine.setDir_of_ne he _)
  | _ => exact hkept rfl

/-! ## What the visits tell -/

/-- A DIR that is rewound is at its first name. -/
theorem Told.rewound (h : Told path xs known i) : Told path (xs ++ [.rewound]) known 0 := by
  cases h with
  | unlisted hv =>
    rw [List.cons_append]
    apply Told.unlisted
    intro v hmem
    rcases List.mem_append.1 hmem with hmem | hmem
    · exact hv v hmem
    · rw [List.mem_singleton.1 hmem]
      trivial
  | listed hv hr hc ht =>
    rw [List.cons_append, List.append_assoc, List.cons_append]
    exact .listed hv hr hc (Run.run_append.2 ⟨_, ht, rfl⟩)

/-- A read that is not answered with a listing tells nothing. -/
theorem Told.vain (h : Told path xs none i) {v : Visit} (hv : v.Vain path) : Told path (xs ++ [v]) none i := by
  cases h with
  | unlisted hvain =>
    rw [List.cons_append]
    apply Told.unlisted
    intro v' hmem
    rcases List.mem_append.1 hmem with hmem | hmem
    · exact hvain v' hmem
    · rw [List.mem_singleton.1 hmem]
      exact hv

/-- The first read that is answered with a listing delivers its first name. -/
theorem Told.lists (h : Told path xs none i) {ref : FileRef} {answer : Answer} (hr : ref.path = path)
    (hc : answer.code = ppOk) :
    Told path (xs ++ [.read [(.readDirectoryEntries ref, .completes answer)] (answer.entries[0]?.map dName)])
      (some answer.entries) 1 := by
  cases h with
  | unlisted hv =>
    rw [List.cons_append]
    exact .listed hv hr hc rfl

/-- The reads after it go on. -/
theorem Told.reads (h : Told path xs (some names) i) :
    Told path (xs ++ [.read [] (names[i]?.map dName)]) (some names) (i + 1) := by
  cases h with
  | @listed vain tail ref answer i hv hr hc ht =>
    rw [List.cons_append, List.append_assoc, List.cons_append]
    have hturn : turn answer.entries i (.read [] (answer.entries[i]?.map dName)) = some (i + 1) :=
      if_pos ⟨rfl, rfl⟩
    exact .listed hv hr hc (Run.run_append.2 ⟨i, ht, Run.run_cons_some.2 ⟨_, hturn, rfl⟩⟩)

/-- A DIR that was not opened was not visited; one that was is where the visits tell, and stands behind the
last name once it was read to the end. -/
structure Follows (dirp : Nat) (m : Machine) (xs : List Visit) : Prop where
  unopened : m.dirs[dirp]? = none → xs = []
  opened : ∀ o, m.dirs[dirp]? = some o → ∃ path known i, Told path xs known i ∧
    ∀ x, o = some x → x.path = path ∧ x.names = known ∧ x.next = min i (known.getD []).length

theorem Follows.told (h : Follows dirp m xs) (hx : m.dirs[dirp]?.join = some x) :
    ∃ i, Told x.path xs x.names i ∧ x.next = min i (x.names.getD []).length := by
  obtain ⟨path, known, i, ht, hi⟩ := h.opened _ (Option.join_eq_some_iff.1 hx)
  obtain ⟨rfl, rfl, hn⟩ := hi x rfl
  exact ⟨i, ht, hn⟩

/-- A DIR that is open after a step. -/
theorem Follows.of_told (hd : m'.dirs[dirp]? = some (some x)) (ht : Told x.path xs x.names i)
    (hn : x.next = min i (x.names.getD []).length) : Follows dirp m' xs := by
  constructor
  · intro h
    rw [hd] at h
    cases h
  · intro o h
    rw [hd] at h
    cases h
    refine ⟨x.path, x.names, i, ht, ?_⟩
    rintro y ⟨⟩
    exact ⟨rfl, rfl, hn⟩

/-- The name at the place of a DIR is the one at the number of its reads. -/
theorem getElem?_place (hn : x.next = min i names.length) : names[x.next]? = names[i]? := by
  rw [hn]
  rcases Nat.le_total i names.length with hle | hle
  · rw [Nat.min_eq_left hle]
  · rw [Nat.min_eq_right hle, List.getElem?_eq_none (Nat.le_refl _), List.getElem?_eq_none hle]

theorem placeAfter_place (hn : x.next = min i names.length) :
    placeAfter names x.next = min (i + 1) names.length := by
  unfold placeAfter
  split <;> omega

/-- A read of a DIR. -/
theorem Follows.read (h : Follows dirp m xs) (hx : m.dirs[dirp]?.join = some x) {reply : Option Reply}
    {dirent : Option Str} {ref : FileRef} (hr : x.Reads reply dirent x') (hp : ref.path = x.path)
    (hd : m'.dirs[dirp]? = some (some x')) :
    Follows dirp m'
      (xs ++ [.read (reply.toList.map fun reply => (.readDirectoryEntries ref, reply)) dirent]) := by
  obtain ⟨i, ht, hn⟩ := h.told hx
  cases hr with
  | @listed names hl =>
    rw [hl] at ht
    rw [hl, Option.getD_some] at hn
    rw [getElem?_place hn]
    refine .of_told hd (i := i + 1) ?_ ?_
    · dsimp only
      rw [hl]
      exact ht.reads
    · dsimp only
      rw [hl, Option.getD_some]
      exact placeAfter_place hn
  | @lists answer hl hc =>
    rw [hl] at ht
    rw [hl, Option.getD_none, List.length_nil, Nat.min_zero] at hn
    rw [hn]
    refine .of_told hd (i := 1) (ht.lists hp hc) ?_
    show placeAfter answer.entries x.next = min (0 + 1) answer.entries.length
    exact placeAfter_place (hn.trans (Nat.zero_min _).symm)
  | @fails reply hl hok =>
    rw [hl] at ht
    refine .of_told hd (i := i) ?_ hn
    rw [hl]
    exact ht.vain ⟨rfl, ref, reply, rfl, hp, hok⟩

/-- What becomes of a DIR keeps what its visits tell. -/
theorem Follows.visits (h : Follows dirp m xs) {vs : List Visit} (hv : Visits dirp m m' vs) :
    Follows dirp m' (xs ++ vs) := by
  cases hv with
  | kept hd =>
    rw [List.append_nil]
    exact ⟨by rw [hd]; exact h.unopened, by rw [hd]; exact h.opened⟩
  | opened hn hd =>
    rw [h.unopened hn, List.nil_append]
    exact .of_told hd (.unlisted (by simp)) rfl
  | closed hx hd =>
    obtain ⟨i, ht, -⟩ := h.told hx
    rw [List.append_nil]
    constructor
    · intro hn
      rw [hd] at hn
      cases hn
    · intro o ho
      rw [hd] at ho
      cases ho
      refine ⟨_, _, i, ht, ?_⟩
      rintro y ⟨⟩
  | rewound hx hd =>
    obtain ⟨i, ht, -⟩ := h.told hx
    exact .of_told hd ht.rewound (Nat.zero_min _).symm
  | read hx hr hp hd => exact h.read hx hr hp hd

/-! ## Steps of the system -/

section

variable {β : Type} {B : Backend β}

/-- The disk behind a backend whose exchanges are recorded. -/
def recordedDisk (disk : Disk B) : Disk B.recorded where
  files b := disk.files b.1
  handle b := disk.handle b.1
  files_same b := disk.files_same b.1
  handle_same b := disk.handle_same b.1
  openFails b := disk.openFails b.1
  opens b := disk.opens b.1
  queries b := disk.queries b.1
  reads b := disk.reads b.1
  writes b := disk.writes b.1

variable {disk : Disk B} {s t : System (β × List Exchange)}

/-- A read of a DIR. -/
theorem readdir_visits {call : Nat} (h : Sound (recordedDisk disk) s.process)
    (hs : System.step B.recorded s (.op main call (.readdir dirp)) = some (t, o)) :
    Visits dirp (ofSystem (recordedDisk disk) s) (ofSystem (recordedDisk disk) t)
      (seen dirp t.process.table.cwd (.op main (.readdir dirp)) o
        (t.process.backend.2.drop s.process.backend.2.length)) := by
  obtain ⟨ret, hperform, rfl, -⟩ := System.step_op hs
  obtain ⟨d, answer, s', hd, hk, hdid, rfl, ht⟩ := onDir_simulated h hperform
  obtain ⟨-, dir, hdir, hu, hx⟩ := h.dir [] hd
  cases hdid with
  | port hk' =>
    rw [hk] at hk'
    cases hk'
  | main _ hm =>
    -- The call is not made.
    subst hm
    rw [ht]
    dsimp only
    rw [List.drop_length]
    have hnone : seen dirp s.process.table.cwd (.op true (.readdir dirp))
        (some { result := 0, dirent := none }) [] = [] := if_neg fun hc => hc.2 ⟨rfl, rfl, rfl⟩
    refine cast (congrArg _ hnone.symm) (Visits.kept ?_)
    simp only [ofSystem, ht]
    rfl
  | @file _ hm _ w b hp hq =>
    subst hm
    obtain ⟨-, reply, dirent, dir', rfl, hdirs, -, hread, hasked⟩ :=
      (readDir_reads (recordedDisk disk) d hdir hu).apply hp
    -- What was added to the exchanges is the one of this read.
    have hlog : b.2.drop s.process.backend.2.length =
        reply.toList.map fun reply => (.readDirectoryEntries dir.directoryRef, reply) := by
      rcases hasked with ⟨rfl, rfl⟩ | ⟨rfl, rfl⟩
      · exact List.drop_length
      · exact List.drop_left
    have hdirs' : (ofSystem (recordedDisk disk) t).dirs[dirp]? = some (some (.of dir')) := by
      simp only [ofSystem, machine, ht, hdirs]
      rw [List.getElem?_map, List.getElem?_set_self
        (List.getElem?_eq_some_iff.1 (Option.join_eq_some_iff.1 hdir)).1]
      rfl
    have hv : Visits dirp (ofSystem (recordedDisk disk) s) (ofSystem (recordedDisk disk) t)
        [.read (reply.toList.map fun reply => (.readDirectoryEntries dir.directoryRef, reply)) dirent] :=
      .read hx hread rfl hdirs'
    rw [ht]
    dsimp only
    rw [hlog]
    have hseen : seen dirp s.process.table.cwd (.op false (.readdir dirp))
        (some { result := 0, dirent := dirent })
        (reply.toList.map fun reply => (.readDirectoryEntries dir.directoryRef, reply)) =
        [.read (reply.toList.map fun reply => (.readDirectoryEntries dir.directoryRef, reply)) dirent] :=
      if_pos ⟨rfl, fun hc => Bool.false_ne_true hc.1⟩
    rw [hseen]
    exact hv

theorem step_visits {a : System.Act} (dirp : Nat) (h : Sound (recordedDisk disk) s.process)
    (hs : System.step B.recorded s a = some (t, o)) :
    Visits dirp (ofSystem (recordedDisk disk) s) (ofSystem (recordedDisk disk) t)
      (seen dirp t.process.table.cwd (label a) o (t.process.backend.2.drop s.process.backend.2.length)) := by
  cases a with
  | message message =>
    cases hs
    exact .kept rfl
  | op main call op =>
    by_cases hop : op = .readdir dirp
    · subst hop
      exact readdir_visits h hs
    · obtain ⟨ret, -, rfl, -⟩ := System.step_op hs
      have hb := (step_behaves h hs).2
      cases hb with
      | op hstep => exact hstep.visits dirp hop _

theorem asking_step {a : System.Act} {x : Option Returned × List Exchange}
    (h : System.asking B s a = some (t, x)) :
    ∃ o, System.step B.recorded s a = some (t, o) ∧
      x = (o, t.process.backend.2.drop s.process.backend.2.length) := by
  obtain ⟨⟨t', o⟩, hs, he⟩ := Option.map_eq_some_iff.1 h
  cases he
  exact ⟨o, hs, rfl⟩

/-! ## Runs of the system -/

/-- Whatever is done on the main thread and on workers, and whatever other DIRs there are, a DIR that was
opened on a path makes requests for the entries of that path, one in each read, as long as they are not
answered with a listing, and delivers nothing so far. The first one that is answered with a listing delivers
its first name, and from then on nothing is asked: each read delivers the name of that answer at the number of
the reads since the listing came or the DIR was rewound, and none behind the last. -/
theorem run_lists (disk : Disk B) (type : FileSystemType) (info : Nat → FileInfo)
    (arguments : Nat → Arguments) (stats : Nat → Stat) (buffers : Nat → Str) (b : β)
    (as : List System.Act) (s : System (β × List Exchange)) (os : List (Option Returned × List Exchange))
    (h : Stream.run (System.asking B) (.init type info arguments stats buffers (b, [])) as = some (s, os))
    (dirp : Nat) :
    let xs := Stream.collect (System.asking B) (fun a o t => seen dirp t.process.table.cwd (label a) o.1 o.2)
      (.init type info arguments stats buffers (b, [])) as
    xs = [] ∨ ∃ path known i, Told path xs known i := by
  have hstart : Follows dirp
      (ofSystem (recordedDisk disk) (.init type info arguments stats buffers (b, []))) [] := by
    refine ⟨fun _ => rfl, ?_⟩
    intro o ho
    cases ho
  obtain ⟨-, hf⟩ := (Stream.guarded_true as _).collects
    (fun a o t => seen dirp t.process.table.cwd (label a) o.1 o.2)
    (fun u xs => Sound (recordedDisk disk) u.process ∧ Follows dirp (ofSystem (recordedDisk disk) u) xs) (by
      rintro u a u' x xs ⟨hu, hf⟩ - hx
      obtain ⟨o, hs, rfl⟩ := asking_step hx
      exact ⟨(step_behaves hu hs).1, hf.visits (step_visits dirp hu hs)⟩) h
    ⟨init_sound (recordedDisk disk) type info arguments stats buffers (b, []), hstart⟩
  rw [List.nil_append] at hf
  cases hd : (ofSystem (recordedDisk disk) s).dirs[dirp]? with
  | none => exact .inl (hf.unopened hd)
  | some o =>
    obtain ⟨path, known, i, ht, -⟩ := hf.opened o hd
    exact .inr ⟨path, known, i, ht⟩

end

/-! ## A listing in memory -/

/-- A backend that lists every directory with the same names. -/
def listing {β : Type} (B : Backend β) (names : List Str) : Backend β := fun b request =>
  match request with
  | .readDirectoryEntries _ => (.completes { code := ppOk, entries := names }, b)
  | request => B b request

/-- It keeps the files of the backend. -/
def listingDisk {β : Type} {B : Backend β} (disk : Disk B) (names : List Str) : Disk (listing B names) where
  files := disk.files
  handle := disk.handle
  files_same b request hc := by
    cases request with
    | readDirectoryEntries => rfl
    | _ => exact disk.files_same b _ hc
  handle_same b request r hn := by
    cases request with
    | readDirectoryEntries => rfl
    | _ => exact disk.handle_same b _ r hn
  openFails := disk.openFails
  opens := disk.opens
  queries := disk.queries
  reads := disk.reads
  writes := disk.writes

/-- A DIR is read, rewound, and read to its end, with reads in between that do not count. -/
def readTwice : List System.Act :=
  [.op false 0 (.opendir (some (str "d"))), .op false 1 (.opendir (some (str "e"))), .op false 2 (.readdir 0),
    .op false 3 (.rewinddir 0), .op false 4 (.readdir 1), .op true 5 (.readdir 0), .op false 6 (.readdir 0),
    .op true 7 (.rewinddir 0), .op false 8 (.readdir 0), .op false 9 (.readdir 0)]

/-- The memory with two names in every directory. -/
def twoNames : Backend Memory := listing Memory.backend [str "a", str "b"]

def twoNamesDisk : Disk twoNames := listingDisk Memory.disk _

theorem readTwice_evaluates :
    (Stream.run (System.asking twoNames) ⟨.blank (Memory.empty, []), []⟩ readTwice).isSome = true ∧
    Stream.collect (System.asking twoNames) (fun a o t => seen 0 t.process.table.cwd (label a) o.1 o.2)
        ⟨.blank (Memory.empty, []), []⟩ readTwice =
      [.opened (str "/d"), .read [(.readDirectoryEntries ⟨0, str "/d"⟩,
          .completes { code := 0, entries := [str "a", str "b"] })] (some (str "a")), .rewound,
        .read [] (some (str "a")), .read [] (some (str "b")), .read [] none] := by
  decide +kernel

theorem run_lists_readTwice : ∃ path known i,
    Told path [.opened (str "/d"), .read [(.readDirectoryEntries ⟨0, str "/d"⟩,
        .completes { code := 0, entries := [str "a", str "b"] })] (some (str "a")), .rewound,
      .read [] (some (str "a")), .read [] (some (str "b")), .read [] none] known i := by
  obtain ⟨hrun, hseen⟩ := readTwice_evaluates
  obtain ⟨⟨s, os⟩, h⟩ := Option.isSome_iff_exists.1 hrun
  rcases run_lists twoNamesDisk .localTemporary _ _ _ _ Memory.empty readTwice s os h 0 with hnil | htold
  · exact absurd (hseen.symm.trans hnil) (by simp)
  · rw [← hseen]
    exact htold

end Unix

end NaClFs
