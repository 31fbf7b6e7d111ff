import Courier.Path
import Courier.Text.Decimal

/-!
# Forms of a command line

A form lists the options and the operands that a program takes, each with the kind of its
value. Reading a command line against a form goes from left to right. A value given apart from
its option is looked at only when the next option or operand comes, or at the end, so that
faults found on the way there come first.

* `Form.read`: all arguments of a form, or the words that follow one of its commands;
* `Refusal`: why a command line is not carried out.
-/

namespace Courier

/-- Why a command line is not carried out; the first two are what was asked for. -/
inductive Refusal where
  | helpAsked
  | versionAsked
  | helpForNothing
  | missingCommand
  | missingOperand
  | unknownArgument
  | unknownCommand
  | missingValue
  | badNumber
  | repeated
  | unneededValue
deriving DecidableEq, Repr, Inhabited

/-- The exit code of a program that ends so. -/
def Refusal.exitCode : Refusal → Nat
  | .helpAsked | .versionAsked => 0
  | _ => 2

namespace CommandLine

inductive Kind where
  | path
  | text
  | word32
  | word64
deriving DecidableEq, Repr, Inhabited

inductive Value where
  | path (p : Path)
  | text (s : String)
  | number (n : Nat)
  | on
deriving DecidableEq, Repr, Inhabited

/-- An option; one without a kind takes no value. -/
structure OptionForm where
  name : String
  letter : Option Char := none
  kind : Option Kind
deriving Repr, Inhabited

structure Form where
  options : List OptionForm
  operands : List (String × Kind) := []
  /-- The words that hand the rest of the line over to another form. -/
  commands : List String := []
  hasVersion : Bool := true
deriving Repr, Inhabited

/-! ## Values -/

/-- A number of 32 bits; a minus sign is let pass in front of zero. -/
def word32? (cs : List Char) : Option Nat :=
  match cs with
  | '-' :: ds => (Decimal.value? ds).filter (· = 0)
  | cs => Decimal.unsigned? (UInt32.size - 1) cs

def Kind.value (kind : Kind) (s : String) : Except Refusal Value :=
  match kind with
  | .path => if s.isEmpty then .error .missingValue else .ok (.path (.of s))
  | .text => .ok (.text s)
  | .word32 =>
    match word32? s.toList with
    | some n => .ok (.number n)
    | none => .error .badNumber
  | .word64 =>
    match Decimal.unsigned? (UInt64.size - 1) s.toList with
    | some n => .ok (.number n)
    | none => .error .badNumber

/-! ## Reading -/

/-- An argument whose value is not looked at yet. -/
inductive Pending where
  | nothing
  | option (name : String) (kind : Kind) (value : Option String)
  | operand (name : String) (kind : Kind) (value : String)
deriving Repr, Inhabited

structure Reading where
  /-- What was given, by name, latest in front. -/
  given : List (String × Value) := []
  pending : Pending := .nothing
  /-- How many operands were read. -/
  operands : Nat := 0
  /-- After `--` all that comes is an operand. -/
  operandsOnly : Bool := false
deriving Repr, Inhabited

namespace Reading

/-- Whether an option waits for its value. -/
def awaitsValue (r : Reading) : Bool :=
  match r.pending with
  | .option _ _ none => true
  | _ => false

def give (r : Reading) (name : String) (v : Value) : Except Refusal Reading :=
  if (r.given.lookup name).isSome then .error .repeated
  else .ok { r with given := (name, v) :: r.given }

/-- Takes an option whose value is known. That it is repeated is found before that its value
is bad. -/
def giveOption (r : Reading) (name : String) (kind : Kind) (value : String) :
    Except Refusal Reading :=
  if (r.given.lookup name).isSome then .error .repeated
  else do r.give name (← kind.value value)

/-- Looks at the pending value. -/
def settle (r : Reading) : Except Refusal Reading :=
  let settled := { r with pending := .nothing }
  match r.pending with
  | .nothing => .ok r
  | .option _ _ none => .error .missingValue
  | .option name kind (some value) => settled.giveOption name kind value
  | .operand name kind value => do settled.give name (← kind.value value)

end Reading

namespace Form

inductive Found where
  | help
  | version
  | option (o : OptionForm)

def byName? (f : Form) (name : String) : Option Found :=
  if name = "help" then some .help
  else if name = "version" ∧ f.hasVersion then some .version
  else (f.options.find? (·.name = name)).map .option

def byLetter? (f : Form) (c : Char) : Option Found :=
  if c = 'h' then some .help
  else if c = 'V' ∧ f.hasVersion then some .version
  else (f.options.find? (·.letter = some c)).map .option

/-- Takes something that has no value. -/
def takeSwitch (r : Reading) : Found → Except Refusal Reading
  | .help => do
    let _ ← r.settle
    .error .helpAsked
  | .version => do
    let _ ← r.settle
    .error .versionAsked
  | .option o => do (← r.settle).give o.name .on

/-- Takes an option with the value attached to it, or else lets it wait for one. -/
def takeValued (r : Reading) (name : String) (kind : Kind) (attached : Option String) :
    Except Refusal Reading := do
  let r ← r.settle
  match attached with
  | some value => r.giveOption name kind value
  | none => return { r with pending := .option name kind none }

def kindOf : Found → Option (String × Kind)
  | .option o => o.kind.map (o.name, ·)
  | _ => none

/-- Takes an argument with two hyphens, its name and what follows an equals sign. -/
def takeLong (f : Form) (r : Reading) (cs : List Char) : Except Refusal Reading :=
  let (name, rest) := cs.span (· ≠ '=')
  let attached := if rest.isEmpty then none else some (String.ofList (rest.drop 1))
  match f.byName? (String.ofList name) with
  | none => .error .unknownArgument
  | some found =>
    match kindOf found, attached with
    | some (name, kind), attached => takeValued r name kind attached
    | none, some _ => .error .unneededValue
    | none, none => takeSwitch r found

/-- Takes an argument with one hyphen: letters, the last of which may have a value attached. -/
def takeLetters (f : Form) (r : Reading) : List Char → Except Refusal Reading
  | [] => .ok r
  | c :: rest =>
    match f.byLetter? c with
    | none => .error .unknownArgument
    | some found =>
      match kindOf found with
      | some (name, kind) =>
        let attached := match rest with
          | [] => none
          | '=' :: value => some (String.ofList value)
          | value => some (String.ofList value)
        takeValued r name kind attached
      | none => do f.takeLetters (← takeSwitch r found) rest

/-- Takes an argument that is neither an option nor the value of one. -/
def takeOperand (f : Form) (r : Reading) (arg : String) : Except Refusal Reading :=
  match f.operands[r.operands]? with
  | some (name, kind) => do
    let r ← r.settle
    return { r with pending := .operand name kind arg, operands := r.operands + 1 }
  | none =>
    if f.commands.isEmpty ∨ (r.operandsOnly ∧ arg ∈ f.commands) then .error .unknownArgument
    else .error .unknownCommand

/-- Takes one argument that is no command. -/
def take (f : Form) (r : Reading) (arg : String) : Except Refusal Reading :=
  if r.operandsOnly then f.takeOperand r arg
  else
    match arg.toList with
    | ['-', '-'] => .ok { r with operandsOnly := true }
    | '-' :: '-' :: cs => f.takeLong r cs
    | '-' :: c :: cs => f.takeLetters r (c :: cs)
    | _ =>
      match r.pending with
      | .option name kind none => .ok { r with pending := .option name kind (some arg) }
      | _ => f.takeOperand r arg

/-- Reads arguments up to a command, or all of them. -/
def readFrom (f : Form) (r : Reading) : List String → Except Refusal (Reading × List String)
  | [] => .ok (r, [])
  | arg :: rest =>
    if ¬ r.operandsOnly ∧ ¬ r.awaitsValue ∧ arg ∈ f.commands then .ok (r, arg :: rest)
    else do f.readFrom (← f.take r arg) rest

/-- The reading before the first argument. -/
def read (f : Form) (args : List String) : Except Refusal (Reading × List String) :=
  f.readFrom {} args

/-- Reads arguments of which none may be missing or left over. -/
def readAll (f : Form) (args : List String) : Except Refusal (List (String × Value)) := do
  let (r, _) ← f.read args
  let r ← r.settle
  if r.operands < f.operands.length then .error .missingOperand else .ok r.given

end Form

/-! ## What was given -/

def path? (given : List (String × Value)) (name : String) : Option Path :=
  match given.lookup name with
  | some (.path p) => some p
  | _ => none

def text? (given : List (String × Value)) (name : String) : Option String :=
  match given.lookup name with
  | some (.text s) => some s
  | _ => none

def number? (given : List (String × Value)) (name : String) : Option Nat :=
  match given.lookup name with
  | some (.number n) => some n
  | _ => none

def isOn (given : List (String × Value)) (name : String) : Bool :=
  (given.lookup name).isSome

end CommandLine

end Courier
