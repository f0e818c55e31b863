/-
naclfs.js: the page's side of the message channel. A JavaScript string is the byte string the module
sent; what the page passes to its console is kept in order, one list a method.
-/
import NaClFs.Port.PortFileSystem
import NaClFs.Lib.Stream

namespace NaClFs

/-- '\n'. -/
def newline : UInt8 := 10

/-- The `naclfs` object, and the calls on `console`. -/
structure Page where
  /-- `_out_buffer`. -/
  outBuffer : Str := []
  /-- `_err_buffer`. -/
  errBuffer : Str := []
  /-- The arguments of `console.warn`. -/
  warn : List Str := []
  /-- The arguments of `console.error`. -/
  error : List Str := []
  /-- The arguments of `console.log`. -/
  log : List Str := []
  deriving DecidableEq, Repr

namespace Page

/-! ## From the module -/

def appendConsole (this : Page) (message : Str) : Page := { this with log := this.log ++ [message] }

/-- `appendStdOut`: the loop passes all lines but the last to `console.warn` and leaves `i` at the
last. -/
def appendStdOut (this : Page) (message : Str) : Page :=
  let lines := (this.outBuffer ++ message).splitOn newline
  { this with
    warn := this.warn ++ lines.take (lines.length - 1)
    outBuffer := lines.getD (lines.length - 1) [] }

/-- `appendStdErr`. -/
def appendStdErr (this : Page) (message : Str) : Page :=
  let lines := (this.errBuffer ++ message).splitOn newline
  { this with
    error := this.error ++ lines.take (lines.length - 1)
    errBuffer := lines.getD (lines.length - 1) [] }

/-- `handleMessage` of the data of an event. `1 == id` holds of the character '1' only. -/
def handleMessage (this : Page) (data : Str) : Page :=
  if data = [] then this
  else if data[0]? = some 69 then this.appendConsole (data.drop 1)
  else if data[0]? = some 83 then
    let id := data[1]?
    if id = some 49 then this.appendStdOut (data.drop 2)
    else if id = some 50 then this.appendStdErr (data.drop 2)
    else this.appendConsole
      (str "port " ++ (id.map ([·])).getD (str "undefined") ++ str ": " ++ data.drop 2)
  else this

/-! ## To the module -/

/-- `onkeypress` of the character `String.fromCharCode(e.which)`: the message posted, which the
module receives in UTF-8. -/
def onkeypress (which : Char) : Var := .string (str "S0" ++ String.utf8EncodeChar which)

/-- `onkeydown`: the message posted and the result. Only backspace is sent. -/
def onkeydown (which : Char) : Option Var × Bool :=
  if which.toNat = 8 then (some (.string (str "S0" ++ String.utf8EncodeChar which)), false)
  else (none, true)

/-! ## The line splitters -/

/-- What a splitter keeps is what is pending. -/
theorem getD_splitOn (s : Str) :
    (s.splitOn newline).getD ((s.splitOn newline).length - 1) [] = Lines.pending newline s := by
  unfold Lines.pending
  rw [List.getLast_eq_getElem, List.getD_eq_getElem?_getD, List.getElem?_eq_getElem, Option.getD_some]

theorem appendStdOut_eq (this : Page) (message : Str) :
    this.appendStdOut message = { this with
      warn := this.warn ++ Lines.complete newline (this.outBuffer ++ message)
      outBuffer := Lines.pending newline (this.outBuffer ++ message) } := by
  unfold appendStdOut Lines.complete
  simp only [getD_splitOn, ← List.dropLast_eq_take]

theorem appendStdErr_eq (this : Page) (message : Str) :
    this.appendStdErr message = { this with
      error := this.error ++ Lines.complete newline (this.errBuffer ++ message)
      errBuffer := Lines.pending newline (this.errBuffer ++ message) } := by
  unfold appendStdErr Lines.complete
  simp only [getD_splitOn, ← List.dropLast_eq_take]

end Page

end NaClFs
