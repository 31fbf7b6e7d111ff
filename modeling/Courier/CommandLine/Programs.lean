import Courier.CommandLine.Form
import Courier.Settings.File

/-!
# The two command lines

The client sends or fetches one file; the daemon serves a folder. Both take the options that
override the settings file.
-/

namespace Courier.CommandLine

/-! ## Options of both programs -/

def tuningOptions : List OptionForm :=
  [{ name := "config", kind := some .path },
    { name := "max-retries", kind := some .word32 },
    { name := "retry-delay-ms", kind := some .word64 },
    { name := "base-rate", kind := some .word64 }]

def tuningOf (given : List (String × Value)) : Tuning :=
  { config := path? given "config"
    maxRetries := (number? given "max-retries").map Nat.toUInt32
    retryDelayMillis := (number? given "retry-delay-ms").map Nat.toUInt64
    baseRate := (number? given "base-rate").map Nat.toUInt64 }

/-! ## The client -/

inductive ClientCommand where
  | push (file : Path) (remote : String)
  | pull (remote : String) (file : Path) (print : Bool)
deriving DecidableEq, Repr, Inhabited

structure ClientOptions where
  command : ClientCommand
  tuning : Tuning
deriving DecidableEq, Repr, Inhabited

namespace ClientOptions

def form : Form :=
  { options := tuningOptions, commands := ["push", "pull", "help"] }

def pushForm : Form :=
  { options := [], operands := [("local", .path), ("remote", .text)], hasVersion := false }

def pullForm : Form :=
  { options := [{ name := "print", kind := none }]
    operands := [("remote", .text), ("local", .path)]
    hasVersion := false }

/-- Help on a command, which has no commands of its own, or on the program. -/
def help (words : List String) : Refusal :=
  match words with
  | [] => .helpAsked
  | [word] => if word ∈ form.commands then .helpAsked else .unknownCommand
  | _ => .unknownCommand

def commandOf (word : String) (args : List String) : Except Refusal ClientCommand :=
  if word = "push" then do
    let given ← pushForm.readAll args
    return .push ((path? given "local").getD ⟨[]⟩) ((text? given "remote").getD "")
  else if word = "pull" then do
    let given ← pullForm.readAll args
    return .pull ((text? given "remote").getD "") ((path? given "local").getD ⟨[]⟩)
      (isOn given "print")
  else .error (help args)

def parse (args : List String) : Except Refusal ClientOptions := do
  match ← form.read args with
  | (r, []) =>
    let r ← r.settle
    .error (if r.given.isEmpty then .helpForNothing else .missingCommand)
  | (r, word :: rest) =>
    let command ← commandOf word rest
    let r ← r.settle
    return { command, tuning := tuningOf r.given }

end ClientOptions

/-! ## The daemon -/

structure DaemonOptions where
  bind : String
  root : Path
  workers : Option UInt64
  logFile : Option Path
  journal : Option Path
  tuning : Tuning
deriving DecidableEq, Repr, Inhabited

namespace DaemonOptions

def form : Form :=
  { options :=
      [{ name := "bind", kind := some .text },
        { name := "root", kind := some .path },
        { name := "workers", letter := some 'w', kind := some .word64 },
        { name := "log-file", kind := some .path },
        { name := "journal", kind := some .path }] ++ tuningOptions }

def parse (args : List String) : Except Refusal DaemonOptions := do
  let given ← form.readAll args
  return {
    bind := (text? given "bind").getD "0.0.0.0:8080"
    root := (path? given "root").getD (.of "./archive")
    workers := (number? given "workers").map Nat.toUInt64
    logFile := path? given "log-file"
    journal := path? given "journal"
    tuning := tuningOf given }

end DaemonOptions

end Courier.CommandLine
