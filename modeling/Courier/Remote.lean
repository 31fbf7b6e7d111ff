import Courier.Text.Blank
import Courier.Text.Decimal

/-!
# Remote addresses

A remote file is named by `ferry://host:port/path`: the scheme in any letter case, the two
slashes optional, the port optional. Blanks around the whole are ignored; everything else is
taken as written.
-/

namespace Courier

structure Remote where
  host : String
  port : Nat
  /-- The path under the listener's root; may be empty. -/
  path : String
deriving DecidableEq, Repr, Inhabited

namespace Remote

def defaultPort : Nat := 8080

inductive Flaw where
  | otherScheme (address : String)
  | noHost (address : String)
  | badPort (port address : String)
deriving DecidableEq, Repr, Inhabited

def Flaw.text : Flaw → String
  | .otherScheme address => s!"not a ferry:// URL: {address}"
  | .noHost address => s!"missing host in {address}"
  | .badPort port address => s!"invalid port '{port}' in {address}"

/-- What follows `lead` at the start of a text, in which letter case does not count. -/
def afterLead? : List Char → List Char → Option (List Char)
  | [], rest => some rest
  | _ :: _, [] => none
  | l :: lead, c :: rest => if c.toLower = l then afterLead? lead rest else none

/-- The texts before and after the last colon. -/
def splitLastColon? (cs : List Char) : Option (List Char × List Char) :=
  if ':' ∈ cs then
    let (after, before) := cs.reverse.span (· ≠ ':')
    some ((before.drop 1).reverse, after.reverse)
  else none

def port? (cs : List Char) : Option Nat :=
  (Decimal.unsigned? 65535 cs).filter (· ≠ 0)

def parseChars (address : List Char) : Except Flaw Remote :=
  let shown := String.ofList address
  match afterLead? "ferry:".toList address with
  | none => .error (.otherScheme shown)
  | some rest =>
    -- the slashes before the host may be left out
    let rest := match rest with
      | '/' :: '/' :: rest => rest
      | rest => rest
    let (authority, path) := rest.span (· ≠ '/')
    let path := String.ofList (path.drop 1)
    if authority.isEmpty then .error (.noHost shown)
    else
      match splitLastColon? authority with
      | none => .ok ⟨String.ofList authority, defaultPort, path⟩
      | some (host, port) =>
        match port? port with
        | none => .error (.badPort (String.ofList port) shown)
        | some port =>
          if host.isEmpty then .error (.noHost shown) else .ok ⟨String.ofList host, port, path⟩

def parse (address : String) : Except Flaw Remote :=
  parseChars (Text.trim address.toList)

end Remote

end Courier
