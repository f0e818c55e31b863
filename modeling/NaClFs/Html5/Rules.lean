/-
Weakest preconditions of the straight-line programs: one rule for each way they touch the store and the
backend, and one for each part that several operations share.
-/
import NaClFs.Html5.Session
import NaClFs.Lib.Waiting

namespace NaClFs

open Waiting

/-! ## Calls -/

/-- What a method is called through. -/
inductive Use
  | path
  | descriptor
  | dir
  deriving DecidableEq, Repr

/-- The operations make the call of a delegate through one kind of name each. -/
def Function.use : Function → Use
  | .open_ _ _ _ | .stat _ _ | .mkdir _ _ | .opendir _ => .path
  | .close | .fstat _ | .read _ _ | .write _ | .seek _ _ | .isatty | .fcntl _ _ => .descriptor
  | .rewinddir _ | .readdir _ | .closedir _ => .dir

namespace Line

variable {β α γ : Type} {B : Backend β} {s : Store} {b : β}

/-- Where the program returns, the postcondition holds. -/
def wp (m : Line β α) (Q : α → Store → β → Prop) (s : Store) (b : β) : Prop := Holds Q (m s b)

theorem wp.apply {m : Line β α} {Q : α → Store → β → Prop} (h : wp m Q s b) {a : α} {s' : Store} {b' : β}
    (hr : m s b = (some a, s', b')) : Q a s' b' := holds_iff.1 h a s' b' hr

theorem wp.mono {m : Line β α} {Q Q' : α → Store → β → Prop} (h : wp m Q s b)
    (hq : ∀ a s b, Q a s b → Q' a s b) : wp m Q' s b := Holds.mono h hq

theorem wp_of_forall {m : Line β α} {Q : α → Store → β → Prop} (h : ∀ a s b, Q a s b) : wp m Q s b :=
  holds_iff.2 fun a s b _ => h a s b

/-! ## Steps -/

theorem wp_pure (a : α) (Q : α → Store → β → Prop) : wp (pure a : Line β α) Q s b ↔ Q a s b := Iff.rfl

theorem wp_bind (m : Line β α) (k : α → Line β γ) (Q : γ → Store → β → Prop) :
    wp (m >>= k) Q s b ↔ wp m (fun a => wp (k a) Q) s b := by
  have h : (m >>= k) s b = andThen (m s b) k := by
    rw [bind_run]
    rcases m s b with ⟨_ | a, s', b'⟩
    · rfl
    · rfl
  unfold wp
  rw [h]
  exact holds_andThen

theorem wp_get (Q : Store → Store → β → Prop) : wp (get : Line β Store) Q s b ↔ Q s s b := Iff.rfl

theorem wp_modify (f : Store → Store) (Q : Unit → Store → β → Prop) :
    wp (modify f : Line β Unit) Q s b ↔ Q () (f s) b := Iff.rfl

theorem wp_ask (request : Request) (Q : Reply → Store → β → Prop) :
    wp (ask B request) Q s b ↔
      Q (B b request).1 { s with requests := s.requests ++ [request] } (B b request).2 := Iff.rfl

theorem wp_modifyFile (d : Nat) (f : OpenFile → OpenFile) (Q : Unit → Store → β → Prop) :
    wp (modifyFile d f : Line β Unit) Q s b ↔
      Q () { s with files := Function.update s.files d (f (s.files d)) } b := Iff.rfl

/-! ## Parts -/

/-- The filesystem is there, or is opened by a request that was accepted. -/
theorem wp_needFileSystem {Q : Nat × Int → Store → β → Prop}
    (hopen : ∀ filesystem, s.filesystem = some filesystem → Q (filesystem, 0) s b)
    (hnew : s.filesystem = none → ∀ request answer,
      request = .fileSystemOpen s.resources s.filesystemType Html5FileSystem.expectedSize →
      (B b request).1 = .completes answer → Q (s.resources, answer.code)
        { s with
          filesystem := some s.resources
          resources := s.resources + 1
          requests := s.requests ++ [request] } (B b request).2) :
    wp (needFileSystem B) Q s b := by
  unfold needFileSystem
  rw [wp_bind, wp_get]
  cases hf : s.filesystem with
  | some filesystem => exact hopen filesystem hf
  | none =>
    dsimp only
    rw [wp_bind, wp_modify, wp_bind, wp_ask]
    cases hr : (B b (.fileSystemOpen s.resources s.filesystemType Html5FileSystem.expectedSize)).1 with
    | refused code hc => trivial
    | completes answer => exact hnew hf _ answer rfl hr

/-- A new file of the delegate. -/
theorem wp_openFile (d : Nat) (ref : FileRef) (flags : BitVec 32) (Q : Reply → Store → β → Prop) :
    wp (openFile B d ref flags) Q s b ↔
      Q (B b (.fileOpen s.resources ref flags)).1 (s.withFile d ref flags)
        (B b (.fileOpen s.resources ref flags)).2 := Iff.rfl

/-- A query that returned was accepted. -/
theorem wp_query (d : Nat) {Q : Int → Store → β → Prop}
    (h : ∀ answer, (B b (.query (s.files d).fileIo)).1 = .completes answer →
      Q answer.code (s.withInfo d answer.info) (B b (.query (s.files d).fileIo)).2) :
    wp (query B d) Q s b := by
  unfold query
  rw [wp_bind, wp_get, wp_bind, wp_ask]
  cases hr : (B b (.query (s.files d).fileIo)).1 with
  | refused code hc => trivial
  | completes answer => exact h answer hr

end Line

end NaClFs
