import Courier.Json.Text

/-!
# JSON values

A reader for one JSON value. Numbers are kept as they are written and strings unjoined, so
that what no one asks for is held only to the grammar.
-/

namespace Courier

inductive Json where
  | null
  | bool (b : Bool)
  | number (literal : List Char)
  | string (units : List Json.Unit16)
  | array (items : List Json)
  | object (members : List (List Json.Unit16 × Json))
deriving Repr, Inhabited

namespace Json

def isBlank (c : Char) : Bool :=
  c = ' ' || c = '\t' || c = '\n' || c = '\r'

def skip (cs : List Char) : List Char :=
  cs.dropWhile isBlank

/-! ## Numbers -/

def digitsOf (cs : List Char) : List Char × List Char :=
  cs.span Char.isDigit

/-- The digits before the point: none in front of another one may be a zero. -/
def wholePart? (cs : List Char) : Option (List Char × List Char) :=
  match digitsOf cs with
  | ([], _) => none
  | ('0' :: _ :: _, _) => none
  | found => some found

def fractionPart? : List Char → Option (List Char × List Char)
  | '.' :: cs =>
    match digitsOf cs with
    | ([], _) => none
    | (ds, rest) => some ('.' :: ds, rest)
  | cs => some ([], cs)

def exponentPart? : List Char → Option (List Char × List Char)
  | [] => some ([], [])
  | e :: cs =>
    if e = 'e' ∨ e = 'E' then
      let (sign, cs) := match cs with
        | '+' :: cs => (['+'], cs)
        | '-' :: cs => (['-'], cs)
        | cs => ([], cs)
      match digitsOf cs with
      | ([], _) => none
      | (ds, rest) => some (e :: sign ++ ds, rest)
    else some ([], e :: cs)

def number? (cs : List Char) : Option (List Char × List Char) := do
  let (sign, cs) := match cs with
    | '-' :: cs => (['-'], cs)
    | cs => ([], cs)
  let (whole, cs) ← wholePart? cs
  let (fraction, cs) ← fractionPart? cs
  let (exponent, cs) ← exponentPart? cs
  return (sign ++ whole ++ fraction ++ exponent, cs)

/-! ## Values -/

/-- What follows a word that stands at the start. -/
def afterWord? (word cs : List Char) : Option (List Char) :=
  if word.isPrefixOf cs then some (cs.drop word.length) else none

mutual

/-- One value and what follows it, found in at most `fuel` calls one inside the other. -/
def value? (fuel : Nat) (cs : List Char) : Option (Json × List Char) :=
  match fuel with
  | 0 => none
  | fuel + 1 =>
    match skip cs with
    | '"' :: rest => (scanString [] rest).map fun (units, rest) => (.string units, rest)
    | '[' :: rest =>
      match skip rest with
      | ']' :: rest => some (.array [], rest)
      | rest => (items? fuel [] rest).map fun (items, rest) => (.array items, rest)
    | '\x7b' :: rest =>
      match skip rest with
      | '\x7d' :: rest => some (.object [], rest)
      | rest => (members? fuel [] rest).map fun (members, rest) => (.object members, rest)
    | 'n' :: rest => (afterWord? "ull".toList rest).map fun rest => (.null, rest)
    | 't' :: rest => (afterWord? "rue".toList rest).map fun rest => (.bool true, rest)
    | 'f' :: rest => (afterWord? "alse".toList rest).map fun rest => (.bool false, rest)
    | rest => (number? rest).map fun (literal, rest) => (.number literal, rest)
termination_by structural fuel

/-- The items of an array up to its closing bracket, after `read` with the newest in front. -/
def items? (fuel : Nat) (read : List Json) (cs : List Char) : Option (List Json × List Char) :=
  match fuel with
  | 0 => none
  | fuel + 1 =>
    match value? fuel cs with
    | none => none
    | some (item, rest) =>
      match skip rest with
      | ',' :: rest => items? fuel (item :: read) rest
      | ']' :: rest => some ((item :: read).reverse, rest)
      | _ => none
termination_by structural fuel

/-- The members of an object up to its closing brace, after `read` with the newest in front. -/
def members? (fuel : Nat) (read : List (List Unit16 × Json)) (cs : List Char) :
    Option (List (List Unit16 × Json) × List Char) :=
  match fuel with
  | 0 => none
  | fuel + 1 =>
    match skip cs with
    | '"' :: rest =>
      match scanString [] rest with
      | none => none
      | some (key, rest) =>
        match skip rest with
        | ':' :: rest =>
          match value? fuel rest with
          | none => none
          | some (item, rest) =>
            match skip rest with
            | ',' :: rest => members? fuel ((key, item) :: read) rest
            | '\x7d' :: rest => some (((key, item) :: read).reverse, rest)
            | _ => none
        | _ => none
    | _ => none
termination_by structural fuel

end

/-- The one value that a text holds. No two calls deep inside each other start at the same
character, so twice the length of the text is fuel enough. -/
def parse? (cs : List Char) : Option Json :=
  match value? (2 * cs.length + 2) cs with
  | some (json, rest) => if (skip rest).isEmpty then some json else none
  | none => none

end Json

end Courier
