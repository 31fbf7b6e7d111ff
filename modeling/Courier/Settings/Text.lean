import Courier.Settings.Basic
import Courier.Text.Quoted
import Courier.Toml.Reader

/-!
# Settings as text

Settings are kept as TOML, a whole number under each of four keys. A key that is not there
leaves its field as it is without a file; keys of other names are passed over.

* `Settings.render?`: the text for settings, as long as TOML can hold their numbers;
* `Settings.parse`: the settings in a text.
-/

namespace Courier.Settings

/-! ## Writing -/

/-- The largest number that TOML holds. -/
def tomlLimit : Nat := UInt64.size / 2 - 1

def fields (s : Settings) : List (String × Nat) :=
  [("max_retries", s.maxRetries.toNat), ("retry_delay_ms", s.retryDelayMillis.toNat),
    ("base_rate", s.baseRate.toNat), ("workers", s.workers.toNat)]

def line (key : String) (n : Nat) : List Char :=
  key.toList ++ " = ".toList ++ Decimal.digits n ++ ['\n']

def render? (s : Settings) : Option (List Char) :=
  if s.fields.all fun (_, n) => n ≤ tomlLimit then
    some (s.fields.flatMap fun (key, n) => line key n)
  else none

/-! ## Reading -/

/-- What is said of a value that is no whole number. -/
def unexpected : Toml.Value → String
  | .string text => s!"string {Quoted.render (bytes text)}"
  | .integer n => s!"integer `{n}`"
  | .float literal => s!"floating point `{literal}`"
  | .boolean b => s!"boolean `{b}`"
  | .array => "sequence"
  | .dateTime => "map"
  | .inlineTable => "map"

/-- A number from 0 to `limit`; `kind` is the name of such numbers in messages. -/
def numberOf (kind : String) (limit : Nat) : Toml.Node → Except Toml.Problem Nat
  | .value (.integer n) span =>
    if 0 ≤ n ∧ n ≤ limit then .ok n.toNat
    else .error ⟨some span, s!"invalid value: integer `{n}`, expected {kind}"⟩
  | .value v span => .error ⟨some span, s!"invalid type: {unexpected v}, expected {kind}"⟩
  | .table .. => .error ⟨none, s!"invalid type: map, expected {kind}"⟩
  | .tables _ => .error ⟨none, s!"invalid type: sequence, expected {kind}"⟩

/-- Settings with the field of one key set. -/
def withMember (s : Settings) (key : String) (node : Toml.Node) : Except Toml.Problem Settings :=
  if key = "max_retries" then
    return { s with maxRetries := (← numberOf "u32" (UInt32.size - 1) node).toUInt32 }
  else if key = "retry_delay_ms" then
    return { s with retryDelayMillis := (← numberOf "u64" (UInt64.size - 1) node).toUInt64 }
  else if key = "base_rate" then
    return { s with baseRate := (← numberOf "u64" (UInt64.size - 1) node).toUInt64 }
  else if key = "workers" then
    return { s with workers := (← numberOf "usize" (UInt64.size - 1) node).toUInt64 }
  else .ok s

def ofMembers (ms : Toml.Members) : Except Toml.Problem Settings :=
  ms.foldlM (fun s (key, node) => s.withMember key node) {}

def parse (text : List Char) : Except Toml.Problem Settings :=
  Toml.parse text >>= ofMembers

end Courier.Settings
