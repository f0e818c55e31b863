/-
`__wrap_access` beside `__wrap_stat`. The one hands its path to `Stat` as it is and compares `amode` with
the permissions of the others, the other one refuses the empty path; so they differ on the empty path
and on the devices, whose owner alone has permissions.
-/
import NaClFs.Port.Mode
import NaClFs.Wrap.Stat

namespace NaClFs

namespace Libc

/-! ## The entry point -/

def rOk : BitVec 32 := 4
def wOk : BitVec 32 := 2
def xOk : BitVec 32 := 1

/-- `__wrap_stat`, with the address of the caller's buffer. -/
def wrapStat {β : Type} (B : Backend β) (main : Bool) (call : Nat) (s : Process β)
    (path : Option Str) (buf : Option Nat) : Ends β :=
  match path, buf with
  | none, _ | _, none => .returns { result := efault } s
  | some path, some buf =>
    if path = [] then .returns { result := enoent } s else s.stat B main call (some path) buf

/-- The permission bits of the owner, where `amode` has its bits. -/
def ownerBits (mode : BitVec 32) : BitVec 32 := mode >>> (6 : Nat)

/-! ## Permission bits -/

/-- A mode with all permissions grants whatever is asked for, to the owner and to the others. -/
theorem grants_of_all {mode amode : BitVec 32} (hmode : mode &&& allPermissions = allPermissions)
    (ha : amode &&& 7 = amode) : mode &&& amode = amode ∧ ownerBits mode &&& amode = amode := by
  have hlow : allPermissions &&& 7 = 7 := by decide
  have hhigh : allPermissions >>> (6 : Nat) = 7 := by decide
  have hall : allPermissions &&& amode = amode := by
    rw [← ha, BitVec.and_comm amode, ← BitVec.and_assoc, hlow]
  constructor
  · calc mode &&& amode = (mode &&& allPermissions) &&& amode := by rw [BitVec.and_assoc, hall]
      _ = amode := by rw [hmode, hall]
  · have hown : ownerBits mode &&& 7 = 7 := by
      rw [ownerBits, ← hhigh, ← BitVec.ushiftRight_and_distrib, hmode]
    rw [← ha, BitVec.and_comm amode, ← BitVec.and_assoc, hown]

/-- A device grants nothing to the others, and to its owner all but execution. -/
theorem grants_of_device {amode : BitVec 32} (ha : amode &&& 7 = amode) :
    (PortFileSystem.deviceStat.mode &&& amode = amode ↔ amode = 0) ∧
      (ownerBits PortFileSystem.deviceStat.mode &&& amode = amode ↔ amode &&& xOk = 0) := by
  have hlt : amode.toNat < 8 := by
    rw [← ha, BitVec.toNat_and]
    exact Nat.lt_succ_of_le Nat.and_le_right
  obtain ⟨n, hn, rfl⟩ : ∃ n : Nat, n < 8 ∧ amode = BitVec.ofNat 32 n :=
    ⟨amode.toNat, hlt, BitVec.eq_of_toNat_eq (by rw [BitVec.toNat_ofNat]; omega)⟩
  clear ha hlt
  revert n
  decide

/-! ## What Stat comes to -/

section Stat

variable {β : Type} (B : Backend β) (main : Bool) (call : Nat)

/-- The reply that decides a `Stat` of the path is `PP_ERROR_FILENOTFOUND`: to the opening of the file,
refused or completed, or to the query of the file that was opened. -/
def StatNotFound (w : World) (b : β) (path : Str) : Prop :=
  match afterInitialize B w b with
  | none => False
  | some (filesystem, file, b') =>
    match B b' (.fileOpen file ⟨filesystem, path⟩ 0) with
    | (.refused code _, _) => code = ppErrorFileNotFound
    | (.completes opened, b'') => opened.code = ppErrorFileNotFound ∨
        opened.code = 0 ∧ ∃ answer, (B b'' (.query (some file))).1 = .completes answer ∧
          answer.code = ppErrorFileNotFound

theorem ppErrorToErrNo_enoent (code : Int) :
    ppErrorToErrNo code = enoent ↔ code = ppErrorFileNotFound := by
  have h1 : eacces ≠ enoent := by decide
  have h2 : enomem ≠ enoent := by decide
  have h3 : enospc ≠ enoent := by decide
  have h4 : eexist ≠ enoent := by decide
  have h5 : efbig ≠ enoent := by decide
  have h6 : enosys ≠ enoent := by decide
  constructor
  · intro h
    unfold ppErrorToErrNo at h
    split_ifs at h with _ _ _ _ hc
    · exact absurd h h1
    · exact absurd h h2
    · exact absurd h h3
    · exact absurd h h3
    · exact hc
    · exact absurd h h4
    · exact absurd h h5
    · exact absurd h h6
  · rintro rfl
    decide

/-- `Stat` of a file fails with ENOENT exactly on that reply. -/
theorem statAnswer_enoent (w : World) (b : β) (d : Nat) (path : Str) :
    (statAnswer B w b d path).map Prod.fst = some enoent ↔ StatNotFound B w b path := by
  have hne : (0 : Int) ≠ enoent := by decide
  unfold statAnswer StatNotFound
  cases afterInitialize B w b with
  | none => simp
  | some p =>
    obtain ⟨filesystem, file, b'⟩ := p
    dsimp only
    rcases B b' (.fileOpen file ⟨filesystem, path⟩ 0) with ⟨⟨code, hc⟩ | ⟨opened⟩, b''⟩
    · simp [ppErrorToErrNo_enoent]
    · dsimp only
      by_cases hna : opened.code = ppErrorNotAFile
      · -- A directory is found.
        rw [if_pos hna, hna]
        simp only [Option.map_some, Option.some.injEq, hne, false_iff]
        rintro (h | ⟨h, -⟩)
        · exact absurd h (by decide)
        · exact absurd h (by decide)
      · rw [if_neg hna]
        by_cases h0 : opened.code = 0
        · rw [if_neg (not_not_intro h0), h0]
          have hz : (0 : Int) ≠ ppErrorFileNotFound := by decide
          simp only [hz, false_or, true_and]
          rcases (B b'' (.query (some file))).1 with ⟨code, hc⟩ | ⟨answer⟩
          · simp
          · by_cases hcode : answer.code = 0
            · simp [hcode, hne, hz]
            · simp [hcode, ppErrorToErrNo_enoent]
        · simp [h0, ppErrorToErrNo_enoent]

variable {B main call} {s : Process β}

/-- What `Stat` of a path comes to: it waits, it fails, with ENOENT on the one reply, or it fills the
buffer for a file or for a device. -/
inductive StatEnds (B : Backend β) (main : Bool) (s : Process β) (path : Str) (buf : Nat) : Ends β → Prop
  | waits (hd : ¬ IsDevice path)
      (h : ¬ (main = false ∧ kindOf path = .html5 ∧ StatNotFound B s.world s.backend path)) :
      StatEnds B main s path buf .waits
  | fails (errno : Int) (t : Process β) (hne : errno ≠ 0) (hd : ¬ IsDevice path)
      (h : errno = enoent ↔ main = false ∧ kindOf path = .html5 ∧
        StatNotFound B s.world s.backend path) :
      StatEnds B main s path buf (.returns { result := errno } t)
  | file (t : Process β) (hd : ¬ IsDevice path) (h : ¬ StatNotFound B s.world s.backend path)
      (mode : (t.world.stats buf).mode &&& allPermissions = allPermissions) :
      StatEnds B main s path buf (.returns { result := 0 } t)
  | device (t : Process β) (hd : IsDevice path) (hk : kindOf path = .port)
      (st : t.world.stats buf = PortFileSystem.deviceStat) :
      StatEnds B main s path buf (.returns { result := 0 } t)

/-- A path of a device is one of a port. -/
theorem kindOf_device {path : Str} (h : IsDevice path) : kindOf path = .port := by
  rcases h with rfl | rfl | rfl <;> decide

/-- A failure of a file leaves the buffer; a success tells all permissions. -/
theorem statAnswer_cases {w : World} {b : β} {d : Nat} {path : Str} {a : Int × Option Stat}
    (h : statAnswer B w b d path = some a) :
    (0 < a.1 ∧ a.2 = none) ∨ ∃ st, a = (0, some st) ∧ st.mode &&& allPermissions = allPermissions := by
  unfold statAnswer at h
  split at h
  · cases h
  · split at h
    · rw [← Option.some.inj h]
      exact .inl ⟨ppErrorToErrNo_pos _, rfl⟩
    · split at h
      · exact .inr ⟨_, (Option.some.inj h).symm, by decide⟩
      · split at h
        · rw [← Option.some.inj h]
          exact .inl ⟨ppErrorToErrNo_pos _, rfl⟩
        · split at h
          · cases h
          · split at h
            · rw [← Option.some.inj h]
              exact .inl ⟨ppErrorToErrNo_pos _, rfl⟩
            · rename_i answer _ _
              refine .inr ⟨_, (Option.some.inj h).symm, ?_⟩
              show (allPermissions ||| FileType.mode _) &&& allPermissions = allPermissions
              cases (answer.info.getD (w.delegates d).fileInfo).type <;> decide

theorem not_isDevice_of_html5 {path : Str} (h : kindOf path = .html5) : ¬ IsDevice path := by
  intro hd
  rw [kindOf_device hd] at h
  cases h

variable (B main call)

/-- `Stat` of a port. -/
theorem stat_port (s : Process β) {path : Str} (hk : kindOf (createFullpath s.table.cwd path) = .port)
    (buf : Nat) : StatEnds B main s (createFullpath s.table.cwd path) buf
      (s.stat B main call (some path) buf) := by
  have hkind := (create_kind s (createFullpath s.table.cwd path)).trans hk
  by_cases hd : IsDevice (createFullpath s.table.cwd path)
  · have hst : PortFileSystem.stat (createFullpath s.table.cwd path) =
        (0, some PortFileSystem.deviceStat) := by
      refine if_neg ?_
      rintro ⟨h1, h2, h3⟩
      rcases hd with h | h | h
      · exact h1 h
      · exact h2 h
      · exact h3 h
    simp only [Process.stat, Process.onPath, Process.method, hkind, Process.port, hst, Process.finish]
    exact .device _ hd hk (Function.update_self ..)
  · have hst : PortFileSystem.stat (createFullpath s.table.cwd path) = (enodev, none) := by
      unfold IsDevice at hd
      rw [not_or, not_or] at hd
      exact if_pos hd
    simp only [Process.stat, Process.onPath, Process.method, hkind, Process.port, hst, Process.finish]
    refine .fails enodev _ (by decide) hd (iff_of_false (by decide) ?_)
    rintro ⟨-, h, -⟩
    rw [hk] at h
    cases h

/-- `Stat` on any thread, of any path. -/
theorem stat_spec (hq : Quiescent s.world) (path : Str) (buf : Nat) :
    StatEnds B main s (createFullpath s.table.cwd path) buf
      (s.stat B main call (some path) buf) := by
  cases hk : kindOf (createFullpath s.table.cwd path) with
  | port => exact stat_port B main call s hk buf
  | html5 =>
    have hd := not_isDevice_of_html5 hk
    cases main with
    | true =>
      have hkind := (create_kind s (createFullpath s.table.cwd path)).trans hk
      simp only [Process.stat, Process.onPath, Process.method, hkind, if_true, onMainThread,
        Process.finish]
      refine .fails eio _ (by decide) hd (iff_of_false (by decide) ?_)
      rintro ⟨h, -⟩
      cases h
    | false =>
      have hw := stat_worker (B := B) call hq hk buf
      have hnf := statAnswer_enoent B s.world s.backend s.table.delegates.length
        (createFullpath s.table.cwd path)
      cases ha : statAnswer B s.world s.backend s.table.delegates.length
          (createFullpath s.table.cwd path) with
      | none =>
        rw [ha] at hw hnf
        dsimp only at hw
        rw [hw]
        exact .waits hd fun h => absurd (hnf.2 h.2.2) (by simp)
      | some a =>
        rw [ha] at hw hnf
        obtain ⟨t, ht, hstats⟩ := hw
        rw [ht]
        simp only [Option.map_some, Option.some.injEq] at hnf
        rcases statAnswer_cases ha with ⟨hpos, -⟩ | ⟨st, rfl, hmode⟩
        · refine .fails a.1 t (by omega) hd (hnf.trans ?_)
          exact ⟨fun h => ⟨rfl, hk, h⟩, fun h => h.2.2⟩
        · refine .file t hd (fun h => absurd (hnf.2 h) (by dsimp only; decide)) ?_
          rw [hstats, filled, Function.update_self]
          exact hmode

end Stat

/-! ## Access and stat -/

section Access

variable {β : Type}

/-- What `__wrap_access` leaves agrees with what `__wrap_stat` does: it returns 0 exactly when that
does and the owner has all the permissions asked for; otherwise -1, with the errno of `__wrap_stat`, or
with EACCES when that succeeds. They wait alike. -/
def AccessAgrees (amode : BitVec 32) (buf : Nat) (stat access : Ends β) : Prop :=
  match stat, access with
  | .returns ret t, .returns ret' t' =>
    (ret'.result = 0 ↔ ret.result = 0 ∧ ownerBits (t.world.stats buf).mode &&& amode = amode) ∧
    (ret'.result ≠ 0 → ret'.result = -1 ∧
      t'.table.errno = if ret.result ≠ 0 then ret.result else eacces)
  | .waits, .waits => True
  | _, _ => False

/-- Where they agree: on a path that is not empty, unless it is a device's and the permissions asked
for are some but execution; on the empty path where the current directory is a file of a worker that
the backend does not find. -/
def AccessWhen (B : Backend β) (main : Bool) (s : Process β) (path : Str) (amode : BitVec 32) : Prop :=
  let fullpath := createFullpath s.table.cwd path
  if path = [] then
    main = false ∧ kindOf fullpath = .html5 ∧ StatNotFound B s.world s.backend fullpath
  else ¬ (IsDevice fullpath ∧ amode ≠ 0 ∧ amode &&& xOk = 0)

variable (B : Backend β) (main : Bool) (call : Nat) {s : Process β}

/-- What `__wrap_access` makes of a `Stat` that returns. -/
theorem wrapAccess_of_returns {path : Str} {buf : Nat} {errno : Int} {t : Process β}
    (h : s.stat B main call (some path) buf = .returns { result := errno } t) (amode : BitVec 32) :
    wrapAccess B main call s (some path) amode buf =
      if errno ≠ 0 then .returns { result := -1 } (t.setErrno errno)
      else if (t.world.stats buf).mode &&& amode ≠ amode then
        .returns { result := -1 } (t.setErrno eacces)
      else .returns { result := 0 } t := by
  simp only [wrapAccess, h]

theorem wrapAccess_of_waits {path : Str} {buf : Nat}
    (h : s.stat B main call (some path) buf = .waits) (amode : BitVec 32) :
    wrapAccess B main call s (some path) amode buf = .waits := by
  simp only [wrapAccess, h]

/-- On a device they agree when nothing or execution is asked for. -/
theorem access_agrees_device {path : Str} {amode : BitVec 32} (ha : amode &&& 7 = amode) {buf : Nat}
    {t : Process β} (st : t.world.stats buf = PortFileSystem.deviceStat)
    (he : s.stat B main call (some path) buf = .returns { result := 0 } t) :
    AccessAgrees amode buf (.returns { result := 0 } t)
        (wrapAccess B main call s (some path) amode buf) ↔ ¬ (amode ≠ 0 ∧ amode &&& xOk = 0) := by
  obtain ⟨hall, hown⟩ := grants_of_device ha
  rw [wrapAccess_of_returns B main call he, if_neg (not_not_intro rfl), st]
  by_cases h0 : amode = 0
  · -- `F_OK` asks for nothing.
    rw [if_neg (not_not_intro (hall.2 h0))]
    have hx : ownerBits PortFileSystem.deviceStat.mode &&& amode = amode := by
      rw [h0]
      decide
    unfold AccessAgrees
    dsimp only
    rw [st]
    apply iff_of_true
    · constructor
      · exact iff_of_true rfl ⟨rfl, hx⟩
      · intro h
        exact absurd rfl h
    · intro h
      exact h.1 h0
  · rw [if_pos fun h => h0 (hall.1 h)]
    have hne : ¬ (-1 : Int) = 0 := by decide
    unfold AccessAgrees
    dsimp only
    rw [st, hown]
    constructor
    · rintro ⟨h, -⟩ ⟨-, hx⟩
      exact hne (h.2 ⟨rfl, hx⟩)
    · intro h
      constructor
      · exact iff_of_false hne fun hx => h ⟨h0, hx.2⟩
      · intro _
        exact ⟨rfl, rfl⟩

/-- A path that is not empty, which both hand to `Stat` as it is. -/
theorem access_agrees_path (hq : Quiescent s.world) (path : Str) {amode : BitVec 32}
    (ha : amode &&& 7 = amode) (buf : Nat) :
    AccessAgrees amode buf (s.stat B main call (some path) buf)
        (wrapAccess B main call s (some path) amode buf) ↔
      ¬ (IsDevice (createFullpath s.table.cwd path) ∧ amode ≠ 0 ∧ amode &&& xOk = 0) := by
  have hspec := stat_spec B main call hq path buf
  generalize he : s.stat B main call (some path) buf = ends at hspec
  cases hspec with
  | waits hd h =>
    rw [wrapAccess_of_waits B main call he]
    exact iff_of_true trivial fun h => hd h.1
  | fails errno t hne hd h =>
    rw [wrapAccess_of_returns B main call he, if_pos hne]
    have hne' : ¬ (-1 : Int) = 0 := by decide
    apply iff_of_true
    · constructor
      · exact iff_of_false hne' fun h => hne h.1
      · intro _
        exact ⟨rfl, (if_pos hne).symm⟩
    · intro h
      exact hd h.1
  | file t hd h mode =>
    obtain ⟨hall, hown⟩ := grants_of_all mode ha
    rw [wrapAccess_of_returns B main call he, if_neg (not_not_intro rfl), if_neg (not_not_intro hall)]
    apply iff_of_true
    · constructor
      · exact iff_of_true rfl ⟨rfl, hown⟩
      · intro h
        exact absurd rfl h
    · intro h
      exact hd h.1
  | device t hd hk st =>
    rw [access_agrees_device B main call ha st he]
    exact not_congr (and_iff_right hd).symm

/-- The empty path, which `__wrap_access` takes for the current directory. -/
theorem access_agrees_empty (hq : Quiescent s.world) (amode : BitVec 32) (buf : Nat) :
    AccessAgrees amode buf (wrapStat B main call s (some []) (some buf))
        (wrapAccess B main call s (some []) amode buf) ↔
      main = false ∧ kindOf (createFullpath s.table.cwd []) = .html5 ∧
        StatNotFound B s.world s.backend (createFullpath s.table.cwd []) := by
  have hspec := stat_spec B main call hq [] buf
  have hne : enoent ≠ 0 := by decide
  have hstat : wrapStat B main call s (some []) (some buf) = .returns { result := enoent } s := rfl
  rw [hstat]
  generalize he : s.stat B main call (some []) buf = ends at hspec
  -- Where `Stat` succeeds, the result is 0 or the errno is EACCES.
  have hfound {t : Process β} (he : s.stat B main call (some []) buf = .returns { result := 0 } t) :
      ¬ AccessAgrees amode buf (.returns { result := enoent } s)
        (wrapAccess B main call s (some []) amode buf) := by
    rw [wrapAccess_of_returns B main call he, if_neg (not_not_intro rfl)]
    split
    · rintro ⟨-, h⟩
      have herrno : eacces = if enoent ≠ 0 then enoent else eacces := (h (by decide)).2
      rw [if_pos hne] at herrno
      exact absurd herrno (by decide)
    · rintro ⟨h, -⟩
      exact hne (h.1 rfl).1
  cases hspec with
  | waits hd h =>
    rw [wrapAccess_of_waits B main call he]
    exact iff_of_false id h
  | fails errno t hne' hd h =>
    rw [wrapAccess_of_returns B main call he, if_pos hne', ← h]
    constructor
    · rintro ⟨-, h⟩
      have herrno : errno = if enoent ≠ 0 then enoent else eacces := (h (by decide)).2
      rw [if_pos hne] at herrno
      exact herrno
    · rintro rfl
      constructor
      · exact iff_of_false (by decide) fun h => hne h.1
      · intro _
        exact ⟨rfl, (if_pos hne).symm⟩
  | file t hd h mode => exact iff_of_false (hfound he) fun hf => h hf.2.2
  | device t hd hk st =>
    refine iff_of_false (hfound he) fun hf => ?_
    rw [hk] at hf
    cases hf.2.1

/-- In every state a run of the file system reaches, on any thread, over any backend, for every path and
every combination of `R_OK`, `W_OK` and `X_OK`: `__wrap_access` agrees with `__wrap_stat` exactly where
`AccessWhen` says. -/
theorem access_agrees_iff (hs : s.Reachable B) (path : Str) (amode : BitVec 32)
    (ha : amode &&& (rOk ||| wOk ||| xOk) = amode) (buf : Nat) :
    AccessAgrees amode buf (wrapStat B main call s (some path) (some buf))
        (wrapAccess B main call s (some path) amode buf) ↔ AccessWhen B main s path amode := by
  unfold AccessWhen
  by_cases hp : path = []
  · subst hp
    rw [if_pos rfl]
    exact access_agrees_empty B main call hs.quiescent amode buf
  · have hstat : wrapStat B main call s (some path) (some buf) = s.stat B main call (some path) buf :=
      if_neg hp
    rw [if_neg hp, hstat]
    exact access_agrees_path B main call hs.quiescent path ha buf

end Access

/-- A process whose memory is blank is one that is reached. -/
theorem blank_reachable {B : Backend Unit} : blank.Reachable B := ⟨_, _, _, _, _, _, [], rfl⟩

theorem access_agrees_iff_stdin :
    AccessAgrees xOk 0 (wrapStat Process.refusing false 0 blank (some (str "/dev/stdin")) (some 0))
        (wrapAccess Process.refusing false 0 blank (some (str "/dev/stdin")) xOk 0) ↔
      AccessWhen Process.refusing false blank (str "/dev/stdin") xOk :=
  access_agrees_iff Process.refusing false 0 blank_reachable (str "/dev/stdin") xOk (by decide) 0

/-- The standard input has the owner's permission to read, but access to it is refused; and the empty
path may be read, although there is no such file. -/
theorem access_differs :
    (∃ t t', wrapStat Process.refusing false 0 blank (some (str "/dev/stdin")) (some 0) =
        .returns { result := 0 } t ∧
      ownerBits (t.world.stats 0).mode &&& rOk = rOk ∧
      wrapAccess Process.refusing false 0 blank (some (str "/dev/stdin")) rOk 0 =
        .returns { result := -1 } t' ∧ t'.table.errno = eacces) ∧
    ∃ t', wrapStat threeBytes false 0 blank (some []) (some 0) = .returns { result := enoent } blank ∧
      wrapAccess threeBytes false 0 blank (some []) rOk 0 = .returns { result := 0 } t' :=
  ⟨⟨_, _, rfl, by decide, rfl, rfl⟩, _, rfl, rfl⟩

end Libc

end NaClFs
