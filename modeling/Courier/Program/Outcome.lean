import Courier.CommandLine.Form
import Courier.Endpoint.Network

/-!
# How programs end

A program refuses its command line, fails with a report on the console, panics, comes to its end,
or goes on waiting for connections.

* `Program.report`: what is printed of a failure, its causes one below the other.
-/

namespace Courier.Program

/-- A text with every line but the first moved in by `width` blanks. -/
def indented (width : Nat) (text : String) : String :=
  String.ofList (text.toList.flatMap fun c =>
    if c = '\n' then '\n' :: List.replicate width ' ' else [c])

/-- A cause in a list of several, with its number in front. -/
def numberedCause (number : Nat) (text : String) : String :=
  let digits := Decimal.digits number
  let lead := List.replicate (5 - digits.length) ' ' ++ digits
  s!"\n{String.ofList lead}: {indented 7 text}"

/-- The causes of a failure, the outermost first. A single one has no number. -/
def causes : List String → String
  | [] => ""
  | [text] => s!"\n\nCaused by:\n    {indented 4 text}"
  | texts =>
    "\n\nCaused by:" ++ String.join (texts.zipIdx.map fun (text, i) => numberedCause i text)

/-- What is printed of a failure: what was being done, and what is behind it. -/
def report : List String → String
  | [] => "Error: "
  | text :: rest => s!"Error: {text}{causes rest}"

inductive Outcome where
  | refused (refusal : Refusal)
  | failed
  | panicked
  | done
  /-- The program listens; its place among the listeners of the network. -/
  | serving (place : Nat)
deriving DecidableEq, Repr, Inhabited

/-- The exit code, once the program has ended. -/
def Outcome.exitCode? : Outcome → Option Nat
  | .refused r => some r.exitCode
  | .failed => some 1
  | .panicked => some 101
  | .done => some 0
  | .serving _ => none

/-- The end of a program that failed. -/
def fail (texts : List String) (n : Network) (m : Machine) : Outcome × Network × Machine :=
  (.failed, n, m.warn (report texts))

/-- The end of a program whose transfer came to nothing; `doing` says what it was to do. -/
def failTransfer (doing : String) (error : TransferError) (n : Network) (m : Machine) :
    Outcome × Network × Machine :=
  match error with
  | .panicked => (.panicked, n, m)
  | error => fail (doing :: error.texts) n m

/-- The exit code of a program that the user interrupts. -/
def interruptCode : Nat := 130

/-- What both programs print when they are asked for their version. -/
def version : String :=
  "ferry 0.1.0"

end Courier.Program
