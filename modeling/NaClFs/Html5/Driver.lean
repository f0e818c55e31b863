/-
One worker and the main thread: `Delegate::Call` posts `Proxy`, and the main thread runs it for the
call and for each completion until a run does not chain, which releases the worker. The backend is
any function of the requests it was asked so far.
-/
import NaClFs.Html5.Calls

namespace NaClFs

/-! ## The backend -/

/-- What becomes of a request: refused at once, or accepted and completed later, once. -/
inductive Reply
  | refused (code : Int) (h : code ≠ ppOkCompletionPending)
  | completes (answer : Answer)
  deriving DecidableEq, Repr

/-- The immediate code of the request. -/
def Reply.code : Reply → Int
  | .refused code _ => code
  | .completes _ => ppOkCompletionPending

/-- The backend in the state `β`. -/
abbrev Backend (β : Type) := β → Request → Reply × β

namespace Backend

variable {β : Type} (B : Backend β)

/-- The immediate codes in a state. -/
def imm (b : β) (request : Request) : Int := (B b request).1.code

/-- The state after a run that issued the request, or none. -/
def after (b : β) : Option Request → β
  | none => b
  | some request => (B b request).2

/-- The state after the same request was issued `n` times. -/
def asked (request : Request) : Nat → β → β
  | 0, b => b
  | n + 1, b => asked request n (B b request).2

/-- The answer an accepted request completes with. -/
def answer (b : β) : Option Request → Option Answer
  | none => none
  | some request =>
    match (B b request).1 with
    | .refused _ _ => none
    | .completes answer => some answer

end Backend

/-! ## Serving a call -/

/-- How a call ends: it returns its result, or its worker waits for a completion that never comes.
The main thread serves at most `fuel` runs. -/
inductive Outcome (β : Type)
  | returned (result : Result) (w : World) (b : β)
  | blocked (w : World) (b : β)
  | spent

/-- The result of a call that returned. -/
def Outcome.result {β : Type} : Outcome β → Option Result
  | .returned result _ _ => some result
  | _ => none

/-- The runs of the main thread for one call, from the `Proxy` of `call` with `result` on. -/
def serve {β : Type} (B : Backend β) : Nat → World → β → Nat → Int → Outcome β
  | 0, _, _, _, _ => .spent
  | fuel + 1, w, b, call, result =>
    let e := proxy (B.imm b) w call result
    let b' := B.after b e.request
    if ¬ e.chaining then .returned e.result e.world b'
    else
      match e.completion with
      | none => .blocked e.world b'
      | some p =>
        match B.answer b e.request with
        | none => .blocked e.world b'
        | some answer =>
          match deliver e.world p answer with
          | (w, none) => .blocked w b'
          | (w, some call) => serve B fuel w b' call answer.code

/-- `Delegate::Call`: a call runs `Proxy` at most four times. -/
def Delegate.call {β : Type} (B : Backend β) (w : World) (b : β) (call : Nat)
    (arguments : Arguments) : Outcome β :=
  serve B 4 (w.enter call arguments) b call ppOk

/-- What a worker has seen when it made some calls one after the other: their results, whether the
last one never returned, and what is left behind. -/
structure Trace (σ β : Type) where
  results : List Result
  blocked : Bool
  state : σ
  backend : β

/-- A worker's calls, numbered from `call` on; none when the main thread ran out of fuel. -/
def Delegate.run {β : Type} (B : Backend β) :
    World → β → Nat → List Arguments → Option (Trace World β)
  | w, b, _, [] => some ⟨[], false, w, b⟩
  | w, b, call, arguments :: rest =>
    match Delegate.call B w b call arguments with
    | .spent => none
    | .blocked w b => some ⟨[], true, w, b⟩
    | .returned result w b =>
      (Delegate.run B w b (call + 1) rest).map fun t => { t with results := result :: t.results }

end NaClFs
