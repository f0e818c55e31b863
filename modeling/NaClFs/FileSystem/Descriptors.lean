/-
The descriptor table over whole runs. Each delegate made by `CreateDelegate` is owned by a
descriptor, by a DIR, or by the call that made it and deletes it before it returns; the table only
grows, and a slot is emptied by the `Close` that deletes its delegate.
-/
import NaClFs.FileSystem.Table
import NaClFs.Lib.Run
import NaClFs.Lib.Slots
import Mathlib.Algebra.Group.Nat.Defs
import Mathlib.Data.List.Induction

namespace NaClFs

open Slots

namespace FileSystem

/-! ## Owners -/

/-- What a call does with delegates: the tables, how many were made, and which were deleted. -/
structure Owners where
  descriptors : List (Option Nat)
  dirs : List (Option Nat)
  made : Nat
  deleted : List Nat
  deriving DecidableEq

def owners (fs : FileSystem) : Owners :=
  ⟨fs.descriptors, fs.dirs, fs.delegates.length, fs.deleted⟩

/-- The effect of one call on the owners. -/
inductive Effect (o : Owners) : Op → Ret → Owners → Prop
  | bind (path : Str) :
      Effect o (.open_ (some path) 0)
        { result := 0, newfd := some (toInt o.descriptors.length) }
        { o with descriptors := o.descriptors ++ [some o.made], made := o.made + 1 }
  | release (fildes : Int) (d : Nat) (h0 : 0 ≤ fildes)
      (h : o.descriptors[fildes.toNat]? = some (some d)) :
      Effect o (.close fildes 0) { result := 0 }
        { o with descriptors := o.descriptors.set fildes.toNat none, deleted := o.deleted ++ [d] }
  | bindDir (dirname : Str) :
      Effect o (.openDir (some dirname) true) { result := 0, dirp := some o.dirs.length }
        { o with dirs := o.dirs ++ [some o.made], made := o.made + 1 }
  | releaseDir (dirp d : Nat) (h : o.dirs[dirp]? = some (some d)) :
      Effect o (.closeDir dirp 0) { result := 0 }
        { o with dirs := o.dirs.set dirp none, deleted := o.deleted ++ [d] }
  /-- The delegate made for one call is deleted by it. -/
  | discard (op : Op) (ret : Ret) (hn : ret.newfd = none) (hc : ∀ fildes a, op ≠ .close fildes a) :
      Effect o op ret { o with made := o.made + 1, deleted := o.deleted ++ [o.made] }
  | nothing (op : Op) (ret : Ret) (hn : ret.newfd = none)
      (hc : ∀ fildes a, op = .close fildes a → ret.result ≠ 0) : Effect o op ret o

theorem getDelegate_some {fs : FileSystem} {fildes : Int} {d : Nat} :
    fs.getDelegate fildes = some d ↔
      0 ≤ fildes ∧ fs.descriptors[fildes.toNat]? = some (some d) := by
  unfold getDelegate
  split
  · rename_i h
    simp only [reduceCtorEq, false_iff, not_and]
    intro h0 hs
    obtain ⟨hl, -⟩ := List.getElem?_eq_some_iff.1 hs
    omega
  · rename_i h
    rw [Option.join_eq_some_iff]
    constructor
    · intro hs
      exact ⟨by omega, hs⟩
    · rintro ⟨-, hs⟩
      exact hs

theorem stat_effect (fs : FileSystem) (path : Str) (answer : Int) {op : Op} {ret : Ret}
    (hn : ret.newfd = none) (hc : ∀ fildes a, op ≠ .close fildes a) :
    Effect fs.owners op ret (fs.stat path answer).1.owners := by
  have h := Effect.discard (o := fs.owners) op ret hn hc
  simpa [owners, stat, createDelegate, hand, delete] using h

theorem call_effect {fs fs' : FileSystem} {op : Op} {ret : Ret}
    (h : fs.call op = some (fs', ret)) : Effect fs.owners op ret fs'.owners := by
  cases op with
  | open_ path answer =>
    cases path with
    | none => cases h; exact .nothing _ _ rfl (by simp)
    | some path =>
      simp only [call, open_, Option.some.injEq] at h
      split at h
      · cases h
        exact stat_effect fs path answer rfl (by simp)
      · rename_i ha
        obtain rfl : answer = 0 := by simpa using ha
        cases h
        have h := Effect.bind (o := fs.owners) path
        simpa [owners, createDelegate, hand, bindToDescriptor] using h
  | stat path answer => cases h; exact stat_effect fs path answer rfl (by simp)
  | close fildes answer =>
    simp only [call, close, Option.some.injEq] at h
    split at h
    · cases h
      exact .nothing _ _ rfl fun _ _ _ => by simp [ebadf]
    · rename_i d hd
      split at h
      · rename_i ha
        cases h
        exact .nothing _ _ rfl fun _ _ _ => ha
      · rename_i ha
        obtain rfl : answer = 0 := by simpa using ha
        cases h
        obtain ⟨h0, hs⟩ := getDelegate_some.1 hd
        have h := Effect.release (o := fs.owners) fildes d h0 hs
        simpa [owners, deleteDescriptor, hd, delete] using h
  | mkDir path answer =>
    cases path with
    | none => cases h; exact .nothing _ _ rfl (by simp)
    | some path => cases h; exact stat_effect fs path answer rfl (by simp)
  | openDir dirname answer =>
    cases dirname with
    | none => cases h; exact .nothing _ _ rfl (by simp)
    | some path =>
      simp only [call, openDir, Option.some.injEq] at h
      cases answer with
      | false => cases h; exact stat_effect fs path 0 rfl (by simp)
      | true =>
        cases h
        have h := Effect.bindDir (o := fs.owners) path
        simpa [owners, createDelegate, hand] using h
  | closeDir dirp answer =>
    simp only [call, closeDir] at h
    split at h
    · cases h
    · rename_i d hd
      split at h
      · rename_i ha
        subst ha
        cases h
        exact Effect.releaseDir (o := fs.owners) dirp d (Option.join_eq_some_iff.1 hd)
      · cases h
        exact .nothing _ _ rfl (by simp)
  | chDir path answer buf =>
    have he := Option.some.inj h
    have h1 : fs'.owners = (fs.stat path answer).1.owners := by
      have : fs' = (fs.chDir path answer buf).1 := by rw [he]
      rw [this]
      unfold chDir
      simp only
      split
      · rfl
      · split <;> rfl
    have h2 : ret.newfd = none := by
      have : ret = (fs.chDir path answer buf).2 := by rw [he]
      rw [this]
      unfold chDir
      simp only
      split
      · rfl
      · split <;> rfl
    rw [h1]
    exact stat_effect fs path answer h2 (by simp)

/-! ## Who owns what -/

/-- The invariant: nothing is deleted twice, and the owned delegates are exactly those made and not
deleted, each with one owner. -/
structure Owners.Inv (o : Owners) : Prop where
  nodup : (entries o.descriptors ++ entries o.dirs ++ o.deleted).Nodup
  mem : ∀ d, d ∈ entries o.descriptors ++ entries o.dirs ++ o.deleted ↔ d < o.made

theorem Owners.Inv.of_perm {o o' : Owners} (hi : o.Inv) (hm : o'.made = o.made)
    (hp : (entries o'.descriptors ++ entries o'.dirs ++ o'.deleted).Perm
      (entries o.descriptors ++ entries o.dirs ++ o.deleted)) : o'.Inv :=
  ⟨hp.nodup_iff.2 hi.nodup, fun d => by rw [hp.mem_iff, hi.mem, hm]⟩

theorem Owners.Inv.of_perm_made {o o' : Owners} (hi : o.Inv) (hm : o'.made = o.made + 1)
    (hp : (entries o'.descriptors ++ entries o'.dirs ++ o'.deleted).Perm
      (o.made :: (entries o.descriptors ++ entries o.dirs ++ o.deleted))) : o'.Inv := by
  have hn : o.made ∉ entries o.descriptors ++ entries o.dirs ++ o.deleted := by
    intro h
    have := (hi.mem _).1 h
    omega
  constructor
  · exact hp.nodup_iff.2 (List.nodup_cons.2 ⟨hn, hi.nodup⟩)
  · intro d
    rw [hp.mem_iff, List.mem_cons, hi.mem, hm]
    omega

theorem effect_inv {o o' : Owners} {op : Op} {ret : Ret} (hi : o.Inv)
    (h : Effect o op ret o') : o'.Inv := by
  cases h with
  | bind path =>
    refine hi.of_perm_made rfl (List.perm_iff_count.2 fun a => ?_)
    simp only [entries_append_some, List.count_append, List.count_cons, List.count_nil]
    omega
  | release fildes d h0 h =>
    refine hi.of_perm rfl (List.perm_iff_count.2 fun a => ?_)
    have hp := (perm_entries_set h).count_eq a
    simp only [List.count_append, List.count_cons, List.count_nil] at hp ⊢
    omega
  | bindDir dirname =>
    refine hi.of_perm_made rfl (List.perm_iff_count.2 fun a => ?_)
    simp only [entries_append_some, List.count_append, List.count_cons, List.count_nil]
    omega
  | releaseDir dirp d h =>
    refine hi.of_perm rfl (List.perm_iff_count.2 fun a => ?_)
    have hp := (perm_entries_set h).count_eq a
    simp only [List.count_append, List.count_cons, List.count_nil] at hp ⊢
    omega
  | discard op ret hn hc =>
    refine hi.of_perm_made rfl (List.perm_iff_count.2 fun a => ?_)
    simp only [List.count_append, List.count_cons, List.count_nil]
    omega
  | nothing op ret hn hc => exact hi

theorem init_inv : (owners init).Inv := ⟨by simp [owners, init], by simp [owners, init]⟩

theorem run_inv {ops : List Op} {fs : FileSystem} (h : Run.run step init ops = some fs) :
    fs.owners.Inv := by
  refine Run.invariant_all (I := fun fs => fs.owners.Inv) ?_ init_inv h
  intro s op s' hi hs
  obtain ⟨ret, hc⟩ := step_some.1 hs
  exact effect_inv hi (call_effect hc)

/-- The delegates made and not deleted. -/
def alive (fs : FileSystem) : List Nat :=
  (List.range fs.delegates.length).filter fun d => d ∉ fs.deleted

/-- The delegates alive are those in the table and one for each DIR not closed, each owned once. -/
theorem alive_perm {fs : FileSystem} (hi : fs.owners.Inv) :
    fs.alive.Perm (entries fs.descriptors ++ entries fs.dirs) := by
  have hn := hi.nodup
  rw [List.nodup_append] at hn
  refine (List.perm_ext_iff_of_nodup ((List.nodup_range).filter _) hn.1).2 fun d => ?_
  simp only [List.mem_filter, List.mem_range, decide_eq_true_eq]
  have hm := hi.mem d
  rw [List.mem_append] at hm
  constructor
  · rintro ⟨h1, h2⟩
    exact (hm.2 h1).resolve_right h2
  · intro h
    exact ⟨hm.1 (.inl h), fun h2 => hn.2.2 d h d h2 rfl⟩

/-! ## Slots -/

theorem toInt_of_lt {n : Nat} (h : n < 2 ^ 31) : toInt n = n := by
  unfold toInt
  rw [BitVec.toInt_eq_toNat_of_lt] <;> rw [BitVec.toNat_ofNat] <;> omega

/-- The slot of a descriptor nobody closes stays. -/
theorem effect_slot {o o' : Owners} {op : Op} {ret : Ret} (h : Effect o op ret o') {n : Nat}
    {d : Option Nat} (hs : o.descriptors[n]? = some d)
    (hc : ∀ a, op = .close n a → ret.result ≠ 0) : o'.descriptors[n]? = some d := by
  cases h with
  | bind path => exact getElem?_append_of_some hs
  | release fildes d' h0 h =>
    have hne : fildes.toNat ≠ n := by
      rintro rfl
      exact hc 0 (by rw [Int.toNat_of_nonneg h0]) rfl
    simpa [List.getElem?_set_ne hne] using hs
  | _ => exact hs

/-- An empty slot stays empty. -/
theorem effect_hole {o o' : Owners} {op : Op} {ret : Ret} (h : Effect o op ret o') {n : Nat}
    (hs : o.descriptors[n]? = some none) : o'.descriptors[n]? = some none := by
  cases h with
  | release fildes d h0 h =>
    have hne : fildes.toNat ≠ n := by
      rintro rfl
      rw [h] at hs
      cases hs
    simpa [List.getElem?_set_ne hne] using hs
  | bind path => exact getElem?_append_of_some hs
  | _ => exact hs

/-- A `Close` that returns 0 empties the slot. -/
theorem effect_close {o o' : Owners} {n : Nat} {a : Int} {ret : Ret}
    (h : Effect o (.close n a) ret o') (hr : ret.result = 0) : o'.descriptors[n]? = some none := by
  cases h with
  | release _ d h0 h =>
    obtain ⟨hl, -⟩ := List.getElem?_eq_some_iff.1 h
    rw [Int.toNat_natCast] at hl ⊢
    exact List.getElem?_set_self hl
  | discard _ _ hn hc => exact absurd rfl (hc n a)
  | nothing _ _ hn hc => exact absurd hr (hc n a rfl)

theorem effect_length {o o' : Owners} {op : Op} {ret : Ret} (h : Effect o op ret o') :
    o'.descriptors.length = o.descriptors.length + if ret.newfd.isSome then 1 else 0 := by
  cases h with
  | bind path => simp
  | release fildes d h0 h => simp
  | bindDir dirname => simp
  | releaseDir dirp d h => simp
  | discard op ret hn hc => simp [hn]
  | nothing op ret hn hc => simp [hn]

/-- A call that returns a descriptor is a successful `Open`: it returns the index of a new slot,
which holds the delegate it made. -/
theorem effect_open {o o' : Owners} {op : Op} {ret : Ret} (h : Effect o op ret o') {fd : Int}
    (hf : ret.newfd = some fd) :
    (∃ path, op = .open_ (some path) 0) ∧ ret = { result := 0, newfd := some fd } ∧
      fd = toInt o.descriptors.length ∧
      o'.descriptors[o.descriptors.length]? = some (some o.made) := by
  cases h with
  | bind path =>
    simp only [Option.some.injEq] at hf
    subst hf
    exact ⟨⟨path, rfl⟩, rfl, rfl, by simp⟩
  | release => cases hf
  | bindDir => cases hf
  | releaseDir => cases hf
  | discard op ret hn hc => rw [hn] at hf; cases hf
  | nothing op ret hn hc => rw [hn] at hf; cases hf

/-! ## Lifetimes -/

/-- A `Close` of the descriptor in the run from `s` returns 0. -/
def ClosedIn (s : FileSystem) (ops : List Op) (fd : Int) : Prop :=
  ∃ pre a post t, ops = pre ++ .close fd a :: post ∧ Run.run step s pre = some t ∧
    (t.close fd a).2.result = 0

/-- In the run `ops` from the constructor's state, the `Open` after `pre` takes `s` to `s'` and
returns `fd`. -/
structure OpenedAt (ops : List Op) (fd : Int) (pre post : List Op) (s s' : FileSystem) : Prop where
  before : Run.run step init pre = some s
  split : ∃ path answer, ops = pre ++ .open_ path answer :: post ∧
    s.open_ path answer = (s', { result := 0, newfd := some fd })

theorem closedIn_cons {s u : FileSystem} {op : Op} {ops : List Op} {fd : Int}
    (hs : s.step op = some u) : ClosedIn s (op :: ops) fd ↔
      (∃ a, op = .close fd a ∧ (s.close fd a).2.result = 0) ∨ ClosedIn u ops fd := by
  constructor
  · rintro ⟨pre, a, post, t, he, hr, hc⟩
    cases pre with
    | nil =>
      simp only [List.nil_append, List.cons.injEq] at he
      cases hr
      exact .inl ⟨a, he.1, hc⟩
    | cons op' pre =>
      simp only [List.cons_append, List.cons.injEq] at he
      obtain ⟨rfl, he⟩ := he
      obtain ⟨u', hu, hr⟩ := Run.run_cons_some.1 hr
      rw [hs] at hu
      cases hu
      exact .inr ⟨pre, a, post, t, he, hr, hc⟩
  · rintro (⟨a, rfl, hc⟩ | ⟨pre, a, post, t, rfl, hr, hc⟩)
    · exact ⟨[], a, ops, s, rfl, rfl, hc⟩
    · exact ⟨op :: pre, a, post, t, rfl, Run.run_cons_some.2 ⟨u, hs, hr⟩, hc⟩

theorem run_hole {ops : List Op} {s fs : FileSystem} {n : Nat}
    (h : s.descriptors[n]? = some none) (hr : Run.run step s ops = some fs) :
    fs.descriptors[n]? = some none := by
  refine Run.invariant_all (I := fun fs => fs.descriptors[n]? = some none) ?_ h hr
  intro s op s' hi hs
  obtain ⟨ret, hc⟩ := step_some.1 hs
  exact effect_hole (call_effect hc) hi

/-- An occupied slot keeps its delegate until the `Close` that returns 0, and is empty ever after. -/
theorem run_slot {ops : List Op} {s fs : FileSystem} {n d : Nat}
    (h : s.descriptors[n]? = some (some d)) (hr : Run.run step s ops = some fs) :
    (ClosedIn s ops n ∧ fs.descriptors[n]? = some none) ∨
    (¬ ClosedIn s ops n ∧ fs.descriptors[n]? = some (some d)) := by
  induction ops generalizing s with
  | nil =>
    cases hr
    refine .inr ⟨?_, h⟩
    rintro ⟨pre, a, post, t, he, -⟩
    cases pre <;> cases he
  | cons op ops ih =>
    obtain ⟨u, hs, hr'⟩ := Run.run_cons_some.1 hr
    obtain ⟨ret, hc⟩ := step_some.1 hs
    have he := call_effect hc
    rw [closedIn_cons hs]
    -- Only this call empties the slot, and once it is empty it stays so.
    by_cases hclose : ∃ a, op = .close n a ∧ ret.result = 0
    · obtain ⟨a, rfl, hr0⟩ := hclose
      have hret : ret = (s.close n a).2 := by rw [Option.some.inj hc]
      exact .inl ⟨.inl ⟨a, rfl, hret ▸ hr0⟩, run_hole (effect_close he hr0) hr'⟩
    · have hu : u.descriptors[n]? = some (some d) :=
        effect_slot he h fun a ha hr0 => hclose ⟨a, ha, hr0⟩
      have hno : ¬ ∃ a, op = .close n a ∧ (s.close n a).2.result = 0 := by
        rintro ⟨a, rfl, hr0⟩
        have hret : ret = (s.close n a).2 := by rw [Option.some.inj hc]
        exact hclose ⟨a, rfl, hret ▸ hr0⟩
      rw [or_iff_right hno]
      exact ih hu hr'

theorem run_length_le {ops : List Op} {s fs : FileSystem} (hr : Run.run step s ops = some fs) :
    s.descriptors.length ≤ fs.descriptors.length := by
  refine Run.invariant_all (I := fun t => s.descriptors.length ≤ t.descriptors.length)
    (fun t op t' hi hs => ?_) (Nat.le_refl _) hr
  obtain ⟨ret, hc⟩ := step_some.1 hs
  have := effect_length (call_effect hc)
  simp only [owners] at this
  omega

/-- What an `Open` that returns a descriptor did. -/
theorem OpenedAt.spec {ops pre post : List Op} {fd : Int} {s s' fs : FileSystem}
    (ho : OpenedAt ops fd pre post s s') (hr : Run.run step init ops = some fs) :
    fd = toInt s.descriptors.length ∧ s.descriptors.length < s'.descriptors.length ∧
      s'.descriptors[s.descriptors.length]? = some (some s.delegates.length) ∧
      Run.run step s' post = some fs := by
  obtain ⟨path, answer, rfl, he⟩ := ho.split
  have hc : s.call (.open_ path answer) = some (s', { result := 0, newfd := some fd }) := by
    rw [call, he]
  obtain ⟨-, -, h1, h2⟩ := effect_open (call_effect hc) rfl
  obtain ⟨t, ht, hr⟩ := Run.run_append.1 hr
  rw [ho.before] at ht
  cases ht
  obtain ⟨u, hu, hr⟩ := Run.run_cons_some.1 hr
  rw [step_some.2 ⟨_, hc⟩] at hu
  cases hu
  exact ⟨h1, (List.getElem?_eq_some_iff.1 h2).1, h2, hr⟩

/-- Every slot of the table was made by an `Open` that returned its index. -/
theorem run_opened {ops : List Op} {fs : FileSystem} (hr : Run.run step init ops = some fs) {n : Nat}
    (hn : n < fs.descriptors.length) : ∃ pre post s s', OpenedAt ops (toInt n) pre post s s' := by
  induction ops using List.reverseRecOn generalizing fs with
  | nil => cases hr; simp [init] at hn
  | append_singleton ops op ih =>
    obtain ⟨t, ht, hu⟩ := Run.run_append.1 hr
    obtain ⟨u, hs, hu⟩ := Run.run_cons_some.1 hu
    cases hu
    -- The slot was there before the last call, or the last call is the `Open` that made it.
    by_cases hlt : n < t.descriptors.length
    · obtain ⟨pre, post, s, s', ho⟩ := ih ht hlt
      obtain ⟨path, answer, rfl, he⟩ := ho.split
      exact ⟨pre, post ++ [op], s, s', ho.before, path, answer, by simp, he⟩
    · obtain ⟨ret, hc⟩ := step_some.1 hs
      have he := call_effect hc
      have hl := effect_length he
      simp only [owners] at hl
      cases hf : ret.newfd with
      | none => rw [hf] at hl; simp at hl; omega
      | some fd =>
        rw [hf] at hl
        simp only [Option.isSome_some, if_true] at hl
        obtain rfl : n = t.descriptors.length := by omega
        obtain ⟨⟨path, rfl⟩, rfl, rfl, -⟩ := effect_open he hf
        exact ⟨ops, [], t, fs, ht, some path, 0, by simp, Option.some.inj hc⟩

/-! ## The law of the table -/

/-- How many of the calls are an `Open` that returns a descriptor. -/
def opens (fs : FileSystem) : List Op → Nat
  | [] => 0
  | op :: ops =>
    match fs.call op with
    | none => 0
    | some (fs', ret) => (if ret.newfd.isSome then 1 else 0) + opens fs' ops

theorem run_opens {ops : List Op} {s fs : FileSystem} (hr : Run.run step s ops = some fs) :
    fs.descriptors.length = s.descriptors.length + opens s ops := by
  induction ops generalizing s with
  | nil => cases hr; rfl
  | cons op ops ih =>
    obtain ⟨u, hs, hr'⟩ := Run.run_cons_some.1 hr
    obtain ⟨ret, hc⟩ := step_some.1 hs
    have hl := effect_length (call_effect hc)
    simp only [owners] at hl
    rw [ih hr', opens, hc]
    simp only
    omega

/-- The call reports failure: NULL from `OpenDir`, a result other than 0 from the rest. -/
def Fails : Op → Ret → Prop
  | .openDir _ _, ret => ret.dirp = none
  | _, ret => ret.result ≠ 0

theorem effect_fails {o o' : Owners} {op : Op} {ret : Ret} (h : Effect o op ret o')
    (hf : Fails op ret) : o'.descriptors = o.descriptors := by
  cases h with
  | bind path => exact absurd rfl hf
  | release fildes d h0 h => exact absurd rfl hf
  | _ => rfl

theorem close_of_getDelegate {fs : FileSystem} {fd : Int} (h : fs.getDelegate fd = none) (a : Int) :
    fs.close fd a = (fs, { result := ebadf }) := by
  unfold close
  rw [h]

theorem getDelegate_of_slot {fs : FileSystem} {n : Nat} {d : Option Nat}
    (h : fs.descriptors[n]? = some d) : fs.getDelegate n = d := by
  obtain ⟨hl, -⟩ := List.getElem?_eq_some_iff.1 h
  unfold getDelegate
  rw [if_neg (by omega), Int.toNat_natCast, h]
  rfl

theorem closedIn_slot {ops : List Op} {s fs : FileSystem} {fd : Int} (h : ClosedIn s ops fd)
    (hr : Run.run step s ops = some fs) : fs.getDelegate fd = none := by
  obtain ⟨pre, a, post, t, rfl, ht, hc⟩ := h
  obtain ⟨t', ht', hr2⟩ := Run.run_append.1 hr
  rw [ht] at ht'
  cases ht'
  obtain ⟨u, hu, hr3⟩ := Run.run_cons_some.1 hr2
  obtain ⟨ret, hcall⟩ := step_some.1 hu
  have hret : ret = (t.close fd a).2 := by rw [Option.some.inj hcall]
  cases hg : t.getDelegate fd with
  | none =>
    rw [close_of_getDelegate hg] at hc
    exact absurd hc (show ¬ ebadf = 0 by decide)
  | some d =>
    obtain ⟨h0, -⟩ := getDelegate_some.1 hg
    obtain ⟨n, rfl⟩ := Int.eq_ofNat_of_zero_le h0
    exact getDelegate_of_slot (run_hole (effect_close (call_effect hcall) (hret ▸ hc)) hr3)

/-- An earlier `Open` took an earlier slot, and the descriptor is the index of its slot as long as `int`
holds it. -/
theorem OpenedAt.ne_of_before {ops pre post pre' post' : List Op} {fs s s' t t' : FileSystem} {fd fd' : Int}
    (hr : Run.run step init ops = some fs) (hlen : fs.descriptors.length < 2 ^ 31)
    (ho : OpenedAt ops fd pre post s s') (ho' : OpenedAt pre fd' pre' post' t t') : fd' ≠ fd := by
  obtain ⟨hfd, hlt, -, hpost⟩ := ho.spec hr
  obtain ⟨hfd', hlt', -, hpost'⟩ := ho'.spec ho.before
  have hle := run_length_le hpost
  have hle' := run_length_le hpost'
  rw [toInt_of_lt (by omega)] at hfd hfd'
  omega

/-- A negative, never opened or already closed descriptor denotes nothing. -/
theorem getDelegate_of_not_open {ops : List Op} {fs : FileSystem} {fd : Int}
    (hr : Run.run step init ops = some fs) (hlen : fs.descriptors.length < 2 ^ 31)
    (h : fd < 0 ∨ (∀ pre post s s', ¬ OpenedAt ops fd pre post s s') ∨ ClosedIn init ops fd) :
    fs.getDelegate fd = none := by
  rcases h with h | h | h
  · unfold getDelegate
    rw [if_pos (.inl h)]
  · unfold getDelegate
    split
    · rfl
    · rename_i hb
      obtain ⟨pre, post, s, s', ho⟩ := run_opened hr (n := fd.toNat) (by omega)
      rw [toInt_of_lt (by omega), Int.toNat_of_nonneg (by omega)] at ho
      exact absurd ho (h pre post s s')
  · exact closedIn_slot h hr

/-- After every run of calls with fewer than 2^31 successful `Open`s, whatever the delegates
answered: (1) an `Open` that succeeded returned a descriptor no earlier `Open` returned, which
denotes the delegate it made unless a later `Close` of it returned 0, and NULL if one did; (2) a
call that fails leaves the table, and every call leaves the slots of descriptors it does not
close; (3) `Close` of a negative, never opened or already closed descriptor answers EBADF and
changes nothing; (4) no delegate is deleted twice, and those alive are those in the table and one
for each DIR not closed, each with one owner. -/
theorem run_descriptors (ops : List Op) (fs : FileSystem) (hr : Run.run step init ops = some fs)
    (hlt : opens init ops < 2 ^ 31) :
    (∀ fd pre post s s', OpenedAt ops fd pre post s s' →
      (∀ fd' pre' post' t t', OpenedAt pre fd' pre' post' t t' → fd' ≠ fd) ∧
      (¬ ClosedIn s' post fd → fs.getDelegate fd = some s.delegates.length) ∧
      (ClosedIn s' post fd → fs.getDelegate fd = none)) ∧
    (∀ op fs' ret, fs.call op = some (fs', ret) →
      (Fails op ret → fs'.descriptors = fs.descriptors) ∧
      ∀ n : Nat, n < fs.descriptors.length → (∀ a, op ≠ .close n a) →
        fs'.descriptors[n]? = fs.descriptors[n]?) ∧
    (∀ fd a, fd < 0 ∨ (∀ pre post s s', ¬ OpenedAt ops fd pre post s s') ∨ ClosedIn init ops fd →
      fs.close fd a = (fs, { result := ebadf })) ∧
    fs.deleted.Nodup ∧ (∀ d ∈ fs.deleted, d < fs.delegates.length) ∧
    fs.alive.Perm (entries fs.descriptors ++ entries fs.dirs) ∧
    (entries fs.descriptors ++ entries fs.dirs).Nodup := by
  have hinv := run_inv hr
  have hlen : fs.descriptors.length < 2 ^ 31 := by
    have := run_opens hr
    simp only [init, List.length_nil] at this
    rw [this, Nat.zero_add]
    exact hlt
  have hnodup := hinv.nodup
  rw [List.nodup_append] at hnodup
  refine ⟨?_, fun op fs' ret hc => ⟨?_, ?_⟩, ?_, hnodup.2.1, ?_, alive_perm hinv, hnodup.1⟩
  · intro fd pre post s s' ho
    obtain ⟨hfd, hlt', hslot, hpost⟩ := ho.spec hr
    have hle := run_length_le hpost
    refine ⟨fun fd' pre' post' t t' ho' => ho.ne_of_before hr hlen ho', ?_,
      fun hcl => closedIn_slot hcl hpost⟩
    intro hno
    rw [toInt_of_lt (by omega)] at hfd
    subst hfd
    have hs := (run_slot hslot hpost).resolve_left fun h => hno h.1
    exact getDelegate_of_slot hs.2
  · exact effect_fails (call_effect hc)
  · intro n hn hne
    obtain ⟨o, hs⟩ : ∃ o, fs.descriptors[n]? = some o := ⟨_, List.getElem?_eq_getElem hn⟩
    rw [hs]
    exact effect_slot (call_effect hc) hs fun a ha => absurd ha (hne a)
  · intro fd a h
    exact close_of_getDelegate (getDelegate_of_not_open hr hlen h) a
  · intro d hd
    exact (hinv.mem d).1 (by simp [owners, hd])

theorem run_descriptors_reopen :
    ∃ fs, Run.run step init [.open_ (some (str "a")) 0, .close 0 0, .open_ (some (str "b")) 0,
        .openDir (some (str "d")) true] = some fs ∧
      fs.close 0 0 = (fs, { result := ebadf }) ∧
      fs.alive.Perm (entries fs.descriptors ++ entries fs.dirs) := by
  refine ⟨_, rfl, ?_⟩
  obtain ⟨-, -, h3, -, -, h6, -⟩ := run_descriptors
    [.open_ (some (str "a")) 0, .close 0 0, .open_ (some (str "b")) 0,
      .openDir (some (str "d")) true] _ rfl (by decide)
  exact ⟨h3 0 0 (.inr (.inr ⟨[.open_ (some (str "a")) 0], 0, _, _, rfl, rfl, rfl⟩)), h6⟩

end FileSystem

end NaClFs
