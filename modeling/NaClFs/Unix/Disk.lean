/-
What is asked of the disk behind the HTML5 filesystem: it keeps regular files by their paths, each file
resource is open on one of them, and what a request that completed did to the files is what it says. A
request may always fail.
-/
import NaClFs.Html5.Resources
import NaClFs.Lib.Bytes

namespace NaClFs

open Bytes

/-! ## Replies -/

/-- What a file resource was opened on, and how. -/
structure Handle where
  path : Str
  flags : BitVec 32
  deriving DecidableEq, Repr

def Handle.readable (h : Handle) : Prop := h.flags &&& ppFileOpenFlagRead ≠ 0

def Handle.writable (h : Handle) : Prop := h.flags &&& ppFileOpenFlagWrite ≠ 0

instance (h : Handle) : Decidable h.readable := inferInstanceAs (Decidable (_ ≠ _))

instance (h : Handle) : Decidable h.writable := inferInstanceAs (Decidable (_ ≠ _))

/-- The content of the file an opening with some flags succeeds on, before it and after. -/
inductive Opens (flags : BitVec 32) : Option Str → Str → Prop
  | kept {content : Str} (hx : flags &&& ppFileOpenFlagCreate = 0 ∨ flags &&& ppFileOpenFlagExclusive = 0)
      (ht : flags &&& ppFileOpenFlagTruncate = 0 ∨ flags &&& ppFileOpenFlagWrite = 0) :
      Opens flags (some content) content
  | truncated {content : Str}
      (hx : flags &&& ppFileOpenFlagCreate = 0 ∨ flags &&& ppFileOpenFlagExclusive = 0)
      (ht : flags &&& ppFileOpenFlagTruncate ≠ 0) : Opens flags (some content) []
  | created (hc : flags &&& ppFileOpenFlagCreate ≠ 0) : Opens flags none []

/-- The information tells the file. -/
structure FileInfo.Describes (info : FileInfo) (content : Str) : Prop where
  size : info.size = content.length
  type : info.type = .regular

/-- What becomes of a read. Only at the end of the file does it count nothing. -/
inductive Reads (h : Handle) (content : Str) (offset n : Int) : Reply → Prop
  | refused (code : Int) (hc : code ≠ ppOkCompletionPending) : Reads h content offset n (.refused code hc)
  | failed {answer : Answer} (hc : answer.code < 0) : Reads h content offset n (.completes answer)
  | count {answer : Answer} {k : Nat} (hc : answer.code = k) (h0 : 0 ≤ offset) (hr : h.readable)
      (hn : (k : Int) ≤ n) (hk : k ≤ content.length - offset.toNat)
      (hd : answer.data = slice content offset.toNat k)
      (he : k = 0 → n ≤ 0 ∨ content.length ≤ offset.toNat) : Reads h content offset n (.completes answer)

/-- What becomes of a write, and of the content. -/
inductive Writes (h : Handle) (content : Str) (offset : Int) (buf : Str) (n : Int) : Reply → Str → Prop
  | refused (code : Int) (hc : code ≠ ppOkCompletionPending) :
      Writes h content offset buf n (.refused code hc) content
  | failed {answer : Answer} (hc : answer.code < 0) : Writes h content offset buf n (.completes answer) content
  | count {answer : Answer} {k : Nat} (hc : answer.code = k) (h0 : 0 ≤ offset) (hw : h.writable)
      (hn : (k : Int) ≤ n) :
      Writes h content offset buf n (.completes answer) (overlay 0 content offset.toNat (buf.take k))

/-- What a query delivers. -/
inductive Queries (content : Str) : Reply → Prop
  | refused (code : Int) (hc : code ≠ ppOkCompletionPending) : Queries content (.refused code hc)
  | failed {answer : Answer} (hc : answer.code ≠ 0) (hi : answer.info = none) :
      Queries content (.completes answer)
  | known {answer : Answer} {info : FileInfo} (hi : answer.info = some info) (hd : info.Describes content) :
      Queries content (.completes answer)

/-! ## Disks -/

/-- The requests that may change a file. -/
def Request.mayChange : Request → Bool
  | .fileOpen _ _ _ | .write _ _ _ _ => true
  | _ => false

/-- A backend that keeps regular files. -/
structure Disk {β : Type} (B : Backend β) where
  files : β → Str → Option Str
  handle : β → Nat → Option Handle
  files_same : ∀ b request, request.mayChange = false → files (B b request).2 = files b
  handle_same : ∀ b request r, (∀ ref flags, request ≠ .fileOpen r ref flags) →
    handle (B b request).2 r = handle b r
  /-- An opening that fails changes no file, and one that fails for a directory finds no file. -/
  openFails : ∀ b r ref flags, (B b (.fileOpen r ref flags)).1.ok = false →
    files (B b (.fileOpen r ref flags)).2 = files b ∧
      ∀ answer, (B b (.fileOpen r ref flags)).1 = .completes answer → answer.code = ppErrorNotAFile →
        files b ref.path = none
  opens : ∀ b r ref flags, (B b (.fileOpen r ref flags)).1.ok = true →
    handle (B b (.fileOpen r ref flags)).2 r = some ⟨ref.path, flags⟩ ∧
      ∃ content, Opens flags (files b ref.path) content ∧
        files (B b (.fileOpen r ref flags)).2 = Function.update (files b) ref.path (some content)
  queries : ∀ b r h content, handle b r = some h → files b h.path = some content →
    Queries content (B b (.query (some r))).1
  reads : ∀ b r h content offset buf n, handle b r = some h → files b h.path = some content →
    Reads h content offset n (B b (.read (some r) offset buf n)).1
  writes : ∀ b r h content offset buf n, handle b r = some h → files b h.path = some content →
    ∃ content', Writes h content offset buf n (B b (.write (some r) offset buf n)).1 content' ∧
      files (B b (.write (some r) offset buf n)).2 = Function.update (files b) h.path (some content')

/-- An opening that neither creates nor truncates changes nothing. -/
theorem Opens.same {flags : BitVec 32} {old : Option Str} {new : Str} (h : Opens flags old new)
    (hc : flags &&& ppFileOpenFlagCreate = 0) (ht : flags &&& ppFileOpenFlagTruncate = 0) :
    old = some new := by
  cases h with
  | kept => rfl
  | truncated _ ht' => exact absurd ht ht'
  | created hc' => exact absurd hc hc'

namespace Disk

variable {β : Type} {B : Backend β} (disk : Disk B)

/-- No file is removed. -/
def Keeps (b b' : β) : Prop := ∀ path, (disk.files b path).isSome → (disk.files b' path).isSome

theorem Keeps.of_update {disk : Disk B} {b b' : β} {path content : Str}
    (h : disk.files b' = Function.update (disk.files b) path (some content)) : disk.Keeps b b' := by
  intro path' hp
  rw [h]
  by_cases he : path' = path
  · rw [he, Function.update_self]
    rfl
  · rw [Function.update_of_ne he]
    exact hp

theorem Keeps.of_eq {disk : Disk B} {b b' : β} (h : disk.files b' = disk.files b) : disk.Keeps b b' := by
  intro path' hp
  rw [h]
  exact hp

end Disk

/-! ## A disk in memory -/

structure Memory where
  files : Str → Option Str
  handles : Nat → Option Handle

namespace Memory

/-- The content of the file behind a resource. -/
def content (b : Memory) (file : Option Nat) : Option (Handle × Str) := do
  let h ← b.handles (← file)
  let content ← b.files h.path
  pure (h, content)

/-- A file is opened on a resource. -/
def open_ (b : Memory) (r : Nat) (h : Handle) (content : Str) : Memory where
  files := Function.update b.files h.path (some content)
  handles := Function.update b.handles r (some h)

/-- The content an opening succeeds with, or its error. -/
def opening (b : Memory) (path : Str) (flags : BitVec 32) : Except Int Str :=
  match b.files path with
  | none => if flags &&& ppFileOpenFlagCreate = 0 then .error ppErrorFileNotFound else .ok []
  | some content =>
    if flags &&& ppFileOpenFlagCreate ≠ 0 ∧ flags &&& ppFileOpenFlagExclusive ≠ 0 then
      .error ppErrorFileExists
    else if flags &&& ppFileOpenFlagTruncate ≠ 0 ∧ flags &&& ppFileOpenFlagWrite ≠ 0 then .ok []
    else .ok content

/-- A backend that fails no request it can do. Closing is no concern of it. -/
def backend : Backend Memory := fun b request =>
  match request with
  | .fileOpen r ref flags =>
    match b.opening ref.path flags with
    | .error code => (.completes { code := code }, b)
    | .ok content => (.completes { code := ppOk }, b.open_ r ⟨ref.path, flags⟩ content)
  | .query file =>
    match b.content file with
    | none => (.completes { code := ppErrorFailed }, b)
    | some (_, content) => (.completes { code := ppOk, info := some ⟨content.length, .regular, 0, 0, 0⟩ }, b)
  | .read file offset _ n =>
    match b.content file with
    | none => (.completes { code := ppErrorFailed }, b)
    | some (h, content) =>
      if h.readable ∧ 0 ≤ offset ∧ 0 ≤ n then
        let data := slice content offset.toNat n.toNat
        (.completes { code := data.length, data := data }, b)
      else (.completes { code := ppErrorNoAccess }, b)
  | .write file offset buf n =>
    match b.content file with
    | none => (.completes { code := ppErrorFailed }, b)
    | some (h, content) =>
      if h.writable ∧ 0 ≤ offset ∧ 0 ≤ n then
        (.completes { code := n }, { b with
          files := Function.update b.files h.path (some (overlay 0 content offset.toNat (buf.take n.toNat))) })
      else (.completes { code := ppErrorNoAccess }, b)
  | _ => (.completes { code := ppOk }, b)

/-- The memory without files. -/
def empty : Memory := ⟨fun _ => none, fun _ => none⟩

theorem content_some {b : Memory} {r : Nat} {h : Handle} {content : Str} (hh : b.handles r = some h)
    (hc : b.files h.path = some content) : b.content (some r) = some (h, content) := by
  simp [Memory.content, hh, hc]

theorem opening_ok {b : Memory} {path content : Str} {flags : BitVec 32}
    (h : b.opening path flags = .ok content) : Opens flags (b.files path) content := by
  unfold opening at h
  split at h
  · rename_i hf
    rw [hf]
    split at h
    · cases h
    · rename_i hc
      cases h
      exact .created hc
  · rename_i old hf
    rw [hf]
    split at h
    · cases h
    · rename_i hx
      rw [not_and_or, not_not, not_not] at hx
      split at h
      · rename_i ht
        cases h
        exact .truncated hx ht.1
      · rename_i ht
        rw [not_and_or, not_not, not_not] at ht
        cases h
        exact .kept hx ht

theorem opening_error {b : Memory} {path : Str} {flags : BitVec 32} {code : Int}
    (h : b.opening path flags = .error code) : code ≠ 0 ∧ code ≠ ppErrorNotAFile := by
  unfold opening at h
  split at h
  · split at h
    · cases h
      decide
    · cases h
  · split at h
    · cases h
      decide
    · split at h <;> cases h

theorem open_cases (b : Memory) (r : Nat) (ref : FileRef) (flags : BitVec 32) :
    (∃ code, code ≠ 0 ∧ code ≠ ppErrorNotAFile ∧
      backend b (.fileOpen r ref flags) = (.completes { code := code }, b)) ∨
    ∃ content, Opens flags (b.files ref.path) content ∧
      backend b (.fileOpen r ref flags) =
        (.completes { code := ppOk }, b.open_ r ⟨ref.path, flags⟩ content) := by
  cases ho : b.opening ref.path flags with
  | error code =>
    obtain ⟨h0, hn⟩ := opening_error ho
    exact .inl ⟨code, h0, hn, by simp only [backend, ho]⟩
  | ok content => exact .inr ⟨content, opening_ok ho, by simp only [backend, ho]⟩

/-- The memory is a disk. -/
def disk : Disk backend where
  files := files
  handle := handles
  files_same b request hc := by
    cases request with
    | fileOpen | write => cases hc
    | query file =>
      unfold backend
      dsimp only
      split <;> rfl
    | read file =>
      unfold backend
      dsimp only
      split
      · rfl
      · split <;> rfl
    | _ => rfl
  handle_same b request r hn := by
    cases request with
    | fileOpen r' ref flags =>
      rcases open_cases b r' ref flags with ⟨code, -, -, he⟩ | ⟨content, -, he⟩
      · rw [he]
      · rw [he]
        refine Function.update_of_ne ?_ ..
        rintro rfl
        exact hn ref flags rfl
    | query file =>
      unfold backend
      dsimp only
      split <;> rfl
    | read file | write file =>
      unfold backend
      dsimp only
      split
      · rfl
      · split <;> rfl
    | _ => rfl
  openFails b r ref flags hok := by
    rcases open_cases b r ref flags with ⟨code, h0, hn, he⟩ | ⟨content, -, he⟩
    · rw [he]
      refine ⟨rfl, fun answer ha hna => ?_⟩
      cases ha
      exact absurd hna hn
    · rw [he] at hok
      cases hok
  opens b r ref flags hok := by
    rcases open_cases b r ref flags with ⟨code, h0, hn, he⟩ | ⟨content, ho, he⟩
    · rw [he] at hok
      exact absurd (by simpa [Reply.ok] using hok) h0
    · rw [he]
      exact ⟨Function.update_self .., content, ho, rfl⟩
  queries b r h content hh hc := by
    simp only [backend, content_some hh hc]
    exact .known rfl ⟨rfl, rfl⟩
  reads b r h content offset buf n hh hc := by
    simp only [backend, content_some hh hc]
    by_cases hr : h.readable ∧ 0 ≤ offset ∧ 0 ≤ n
    · rw [if_pos hr]
      obtain ⟨hr, h0, hn⟩ := hr
      have hl := length_slice content offset.toNat n.toNat
      refine .count (congrArg Nat.cast hl) h0 hr ?_ (Nat.min_le_right ..) ?_ ?_
      · omega
      · exact (slice_min content offset.toNat n.toNat).symm
      · omega
    · rw [if_neg hr]
      exact .failed (by decide)
  writes b r h content offset buf n hh hc := by
    simp only [backend, content_some hh hc]
    by_cases hw : h.writable ∧ 0 ≤ offset ∧ 0 ≤ n
    · rw [if_pos hw]
      obtain ⟨hw, h0, hn⟩ := hw
      have hcount : n = n.toNat := (Int.toNat_of_nonneg hn).symm
      exact ⟨_, .count hcount h0 hw (Int.le_of_eq hcount.symm), rfl⟩
    · rw [if_neg hw]
      refine ⟨content, .failed (by decide), ?_⟩
      rw [← hc, Function.update_eq_self]

end Memory

end NaClFs
