import Courier.Text.Printable
import Courier.Text.Utf8

/-!
# Quoted names

A name between double quotes, with everything escaped that would not show: quotes and
backslashes by a backslash, what has no printed form by its number, octets that are no text
as two hexadecimal digits.
-/

namespace Courier.Quoted

def hexDigit (c : Char) (n : Nat) : Char :=
  if n < 10 then Char.ofNat ('0'.toNat + n) else Char.ofNat (c.toNat + (n - 10))

/-- A number in hexadecimal, without leading zeros. -/
def hex (n : Nat) : List Char :=
  if n < 16 then [hexDigit 'a' n] else hex (n / 16) ++ [hexDigit 'a' (n % 16)]

def ofChar (c : Char) : List Char :=
  if c = '\x00' then ['\\', '0']
  else if c = '\t' then ['\\', 't']
  else if c = '\r' then ['\\', 'r']
  else if c = '\n' then ['\\', 'n']
  else if c = '\'' ∨ c = '"' ∨ c = '\\' then ['\\', c]
  else if Text.isExtending c ∨ !Text.isPrintable c then
    ['\\', 'u', '\x7b'] ++ hex c.toNat ++ ['\x7d']
  else [c]

def ofOctet (b : UInt8) : List Char :=
  ['\\', 'x', hexDigit 'A' (b.toNat / 16), hexDigit 'A' (b.toNat % 16)]

/-- What is written for some octets. -/
def body : Bytes → List Char
  | [] => []
  | b :: rest =>
    let later := (Utf8.next b rest).2
    let here :=
      match (Utf8.next b rest).1 with
      | some c => ofChar c
      | none => ((b :: rest).take (rest.length + 1 - later.length)).flatMap ofOctet
    here ++ body later
termination_by bs => bs.length
decreasing_by
  have := Utf8.next_length b rest
  simp only [List.length_cons]
  omega

def render (bs : Bytes) : String :=
  String.ofList ('"' :: body bs ++ ['"'])

end Courier.Quoted
