import Courier.Json.Text
import Courier.Text.Decimal
import Courier.Toml.Table

/-!
# TOML scalars

Readers for keys, strings, numbers and dates. A reader takes characters off the front of a
text or fails; a failure that is final keeps the text from being read in any other way.
-/

namespace Courier.Toml

structure Failure where
  /-- What was still to be read. -/
  rest : List Char
  message : String
  isFinal : Bool := true
deriving Repr, Inhabited

variable {α : Type}

abbrev Reader (α : Type) := List Char → Except Failure (α × List Char)

def fail (message : String) (rest : List Char) : Except Failure α :=
  .error ⟨rest, message, true⟩

/-- A failure that leaves room for another reading. -/
def miss (message : String) (rest : List Char) : Except Failure α :=
  .error ⟨rest, message, false⟩

/-! ## Characters -/

def isBlank (c : Char) : Bool :=
  c = ' ' || c = '\t'

def skipBlanks (cs : List Char) : List Char :=
  cs.dropWhile isBlank

/-- A character of a comment, and of a string unless it has a meaning there. -/
def isPlain (c : Char) : Bool :=
  c = '\t' || (0x20 ≤ c.toNat && c.toNat ≠ 0x7F)

def skipComment : List Char → List Char
  | '#' :: rest => rest.dropWhile isPlain
  | cs => cs

/-- Skips blanks, ends of lines and comments up to their ends. -/
def skipLines (inComment : Bool) : List Char → List Char
  | [] => []
  | '\n' :: rest => skipLines false rest
  | '\r' :: '\n' :: rest => skipLines false rest
  | c :: rest =>
    if inComment then if isPlain c then skipLines true rest else c :: rest
    else if isBlank c then skipLines false rest
    else if c = '#' then skipLines true rest
    else c :: rest

def isHexDigit (c : Char) : Bool :=
  (Json.hexValue? c).isSome

/-! ## Strings -/

/-- The character with a number given in hexadecimal, if there is one. -/
def charOfHex? (ds : List Char) : Option Char := do
  let n ← ds.foldlM (fun n d => (Json.hexValue? d).map (16 * n + ·)) 0
  if n < 0xD800 ∨ (0xDFFF < n ∧ n < 0x110000) then some (Char.ofNat n) else none

def shortEscape? (c : Char) : Option Char :=
  match c with
  | 'b' => some '\x08'
  | 't' => some '\t'
  | 'n' => some '\n'
  | 'f' => some '\x0c'
  | 'r' => some '\r'
  | '"' => some '"'
  | '\\' => some '\\'
  | _ => none

def badEscape : String :=
  "invalid escape sequence\nexpected `b`, `f`, `n`, `r`, `t`, `u`, `U`, `\\`, `\"`"

/-- The character of an escape whose backslash is already read. -/
def escaped : Reader Char
  | 'u' :: rest =>
    match charOfHex? (rest.take 4), decide (4 ≤ rest.length) with
    | some c, true => .ok (c, rest.drop 4)
    | _, _ => fail "invalid unicode 4-digit hex code" rest
  | 'U' :: rest =>
    match charOfHex? (rest.take 8), decide (8 ≤ rest.length) with
    | some c, true => .ok (c, rest.drop 8)
    | _, _ => fail "invalid unicode 8-digit hex code" rest
  | c :: rest =>
    match shortEscape? c with
    | some e => .ok (e, rest)
    | none => fail badEscape rest
  | [] => fail badEscape []

/-- How many quotes stand in front, and what follows them. -/
def quotes (quote : Char) (cs : List Char) : Nat × List Char :=
  let (qs, rest) := cs.span (· = quote)
  (qs.length, rest)

/-- The end of a string over several lines: three quotes close it, and up to two more right
before them belong to the string. -/
def closing? (quote : Char) (read : List Char) (cs : List Char) : Option (String × List Char) :=
  let n := (quotes quote cs).1
  if n < 3 then none
  else
    let inside := min 2 (n - 3)
    some (String.ofList (List.replicate inside quote ++ read).reverse, cs.drop (inside + 3))

def skipBlankLines : List Char → List Char
  | [] => []
  | '\n' :: rest => skipBlankLines rest
  | '\r' :: '\n' :: rest => skipBlankLines rest
  | c :: rest => if isBlank c then skipBlankLines rest else c :: rest

/-- What follows a backslash at the end of a line, on the next line that is not blank. -/
def afterFold? (cs : List Char) : Option (List Char) :=
  match skipBlanks cs with
  | '\n' :: rest => some (skipBlankLines rest)
  | '\r' :: '\n' :: rest => some (skipBlankLines rest)
  | _ => none

/-- The rest of a string between double quotes; `long` ones go over several lines. `read` holds
what was read before, the newest in front. -/
def basicRest (long : Bool) : Nat → List Char → Reader String
  | 0, _, cs => fail "invalid basic string" cs
  | fuel + 1, read, cs =>
    match long, closing? '"' read cs, cs with
    | true, some found, _ => .ok found
    | false, _, '"' :: rest => .ok (String.ofList read.reverse, rest)
    | _, _, '\\' :: rest =>
      match long, afterFold? rest with
      | true, some rest => basicRest long fuel read rest
      | _, _ =>
        match escaped rest with
        | .ok (c, rest) => basicRest long fuel (c :: read) rest
        | .error f => .error f
    | true, _, '\n' :: rest => basicRest long fuel ('\n' :: read) rest
    | true, _, '\r' :: '\n' :: rest => basicRest long fuel ('\n' :: read) rest
    | _, _, c :: rest =>
      if isPlain c then basicRest long fuel (c :: read) rest
      else fail (if long then "invalid multiline basic string" else "invalid basic string") cs
    | _, _, [] =>
      fail (if long then "invalid multiline basic string" else "invalid basic string") []

/-- The rest of a string between single quotes, in which a backslash is a character. -/
def literalRest (long : Bool) : Nat → List Char → Reader String
  | 0, _, cs => fail "invalid literal string" cs
  | fuel + 1, read, cs =>
    match long, closing? '\'' read cs, cs with
    | true, some found, _ => .ok found
    | false, _, '\'' :: rest => .ok (String.ofList read.reverse, rest)
    | true, _, '\n' :: rest => literalRest long fuel ('\n' :: read) rest
    | true, _, '\r' :: '\n' :: rest => literalRest long fuel ('\n' :: read) rest
    | _, _, c :: rest =>
      if isPlain c then literalRest long fuel (c :: read) rest
      else fail (if long then "invalid multiline literal string" else "invalid literal string") cs
    | _, _, [] =>
      fail (if long then "invalid multiline literal string" else "invalid literal string") []

/-- A line end right after the opening quotes is no part of the string. -/
def dropLineEnd : List Char → List Char
  | '\n' :: rest => rest
  | '\r' :: '\n' :: rest => rest
  | cs => cs

def string : Reader String
  | '"' :: '"' :: '"' :: rest => basicRest true (rest.length + 1) [] (dropLineEnd rest)
  | '"' :: rest => basicRest false (rest.length + 1) [] rest
  | '\'' :: '\'' :: '\'' :: rest => literalRest true (rest.length + 1) [] (dropLineEnd rest)
  | '\'' :: rest => literalRest false (rest.length + 1) [] rest
  | cs => miss "" cs

/-! ## Keys -/

/-- One part of a key: quoted, on one line, or bare. -/
def simpleKey : Reader String
  | '"' :: rest => basicRest false (rest.length + 1) [] rest
  | '\'' :: rest => literalRest false (rest.length + 1) [] rest
  | cs =>
    match cs.span isBareChar with
    | ([], _) => miss "invalid key" cs
    | (key, rest) => .ok (String.ofList key, rest)

/-- The parts after the first, after `read` with the newest in front. A point that no part
follows is left. -/
def moreKeys : Nat → List String → List Char → Except Failure (List String × List Char)
  | 0, read, cs => .ok (read.reverse, cs)
  | fuel + 1, read, cs =>
    match skipBlanks cs with
    | '.' :: rest =>
      match simpleKey (skipBlanks rest) with
      | .ok (key, rest) => moreKeys fuel (key :: read) rest
      | .error f => if f.isFinal then .error f else .ok (read.reverse, '.' :: rest)
    | cs => .ok (read.reverse, cs)

/-- No more tables than this are put inside each other. -/
def maxDepth : Nat := 80

/-- A key of one part or more, with the blanks around it. -/
def key : Reader (List String) := fun cs =>
  match simpleKey (skipBlanks cs) with
  | .error f => .error f
  | .ok (first, rest) =>
    match moreKeys rest.length [first] rest with
    | .error f => .error f
    | .ok (path, rest) =>
      if path.length < maxDepth then .ok (path, rest) else miss Trouble.tooDeep.text cs

/-! ## Numbers -/

/-- Digits that may have single underscores between them, after `read` with the newest in
front. -/
def digitsOnto (isDigit : Char → Bool) (read : List Char) : Reader (List Char)
  | '_' :: c :: rest =>
    if isDigit c then digitsOnto isDigit (c :: read) rest
    else fail "invalid integer\nexpected digit" (c :: rest)
  | ['_'] => fail "invalid integer\nexpected digit" []
  | c :: rest =>
    if isDigit c then digitsOnto isDigit (c :: read) rest else .ok (read.reverse, c :: rest)
  | [] => .ok (read.reverse, [])

/-- Digits of which there has to be one. -/
def someDigits (isDigit : Char → Bool) : Reader (List Char)
  | c :: rest =>
    if isDigit c then digitsOnto isDigit [c] rest
    else fail "invalid integer\nexpected digit" (c :: rest)
  | [] => fail "invalid integer\nexpected digit" []

/-- A decimal number without a sign: no zero in front of other digits. -/
def wholeDigits : Reader (List Char)
  | '0' :: rest => .ok (['0'], rest)
  | c :: rest =>
    if c.isDigit then digitsOnto Char.isDigit [c] rest else miss "invalid integer" (c :: rest)
  | [] => miss "invalid integer" []

def valueOf (base : Nat) (ds : List Char) : Nat :=
  ds.foldl (fun n d => base * n + (Json.hexValue? d).getD 0) 0

def tooLarge : String := "number too large to fit in target type"

def integerOf (negative : Bool) (n : Nat) (rest : List Char) : Except Failure (Value × List Char) :=
  if negative then
    if n ≤ UInt64.size / 2 then .ok (.integer (-n), rest)
    else fail "number too small to fit in target type" rest
  else if n < UInt64.size / 2 then .ok (.integer n, rest)
  else fail tooLarge rest

/-- Whether a decimal number is too large for a double: the digits `ds`, of which the last has
the place `exponent`. -/
def isTooLarge (ds : List Char) (exponent : Int) : Bool :=
  let ds := ds.dropWhile (· = '0')
  let size := ds.length + exponent
  if ds.isEmpty ∨ size < 300 then false
  else if 320 < size then true
  else
    let n := valueOf 10 ds
    let limit : Nat := (1 <<< 1024) - (1 <<< 970)
    if 0 ≤ exponent then decide (limit ≤ n * Decimal.tens exponent.toNat)
    else decide (limit * Decimal.tens (-exponent).toNat ≤ n)

def signOf : List Char → Option Char × List Char
  | '+' :: rest => (some '+', rest)
  | '-' :: rest => (some '-', rest)
  | cs => (none, cs)

/-- The exponent of a float, with the letter already read. -/
def exponentOf (cs : List Char) : Except Failure (Int × List Char) := do
  let (sign, cs) := signOf cs
  let (ds, cs) ← someDigits Char.isDigit cs
  let n := (valueOf 10 ds : Int)
  return (if sign = some '-' then -n else n, cs)

/-- What follows the whole part of a float. -/
def floatRest (sign : Option Char) (whole : List Char) (shown : List Char) (cs : List Char) :
    Except Failure (Value × List Char) := do
  let (fraction, cs) ← match cs with
    | '.' :: rest => someDigits Char.isDigit rest
    | cs => .ok ([], cs)
  let (exponent, rest) ← match cs with
    | e :: rest => if e = 'e' ∨ e = 'E' then exponentOf rest else .ok (0, e :: rest)
    | [] => .ok (0, [])
  if sign ≠ some '-' ∧ isTooLarge (whole ++ fraction) (exponent - fraction.length) then
    fail "invalid floating-point number" rest
  else
    let decimals := if fraction.isEmpty then [] else '.' :: fraction
    return (.float (String.ofList (shown ++ decimals)), rest)

/-- A number with `0x`, `0o` or `0b` in front. -/
def basedInteger (base : Nat) (isDigit : Char → Bool) (cs : List Char) :
    Except Failure (Value × List Char) := do
  let (ds, rest) ← someDigits isDigit cs
  integerOf false (valueOf base ds) rest

def isOctal (c : Char) : Bool :=
  '0' ≤ c && c ≤ '7'

def isBinary (c : Char) : Bool :=
  c = '0' || c = '1'

def decimal (cs : List Char) : Except Failure (Value × List Char) := do
  let (sign, body) := signOf cs
  match body with
  | 'i' :: 'n' :: 'f' :: rest => return (.float "inf", rest)
  | 'n' :: 'a' :: 'n' :: rest => return (.float "nan", rest)
  | _ =>
    let (whole, rest) ← wholeDigits body
    let shown := (if sign = some '-' then ['-'] else []) ++ whole
    match rest with
    | c :: _ =>
      if c = '.' ∨ c = 'e' ∨ c = 'E' then floatRest sign whole shown rest
      else integerOf (sign = some '-') (valueOf 10 whole) rest
    | [] => integerOf (sign = some '-') (valueOf 10 whole) rest

def number : Reader Value
  | '0' :: 'x' :: rest => basedInteger 16 isHexDigit rest
  | '0' :: 'o' :: rest => basedInteger 8 isOctal rest
  | '0' :: 'b' :: rest => basedInteger 2 isBinary rest
  | cs => decimal cs

/-! ## Dates and times -/

def digitsExactly? (n : Nat) (cs : List Char) : Option (Nat × List Char) :=
  let ds := cs.take n
  if ds.length = n ∧ ds.all Char.isDigit then some (valueOf 10 ds, cs.drop n) else none

/-- Two digits for a number between `low` and `high`. -/
def twoDigits? (low high : Nat) (cs : List Char) : Option (Nat × List Char) :=
  (digitsExactly? 2 cs).filter fun (n, _) => low ≤ n && n ≤ high

def expect (found : Option (α × List Char)) (cs : List Char) : Except Failure (α × List Char) :=
  match found with
  | some found => .ok found
  | none => fail "invalid date-time" cs

def after? (c : Char) : List Char → Option (Unit × List Char)
  | d :: rest => if d = c then some ((), rest) else none
  | [] => none

def isLeapYear (year : Nat) : Bool :=
  year % 4 = 0 && (year % 100 ≠ 0 || year % 400 = 0)

def daysIn (year month : Nat) : Nat :=
  if month = 2 then if isLeapYear year then 29 else 28
  else if month = 4 ∨ month = 6 ∨ month = 9 ∨ month = 11 then 30
  else 31

/-- A date; no other reading is tried once a year and a hyphen are read. -/
def date (cs : List Char) : Except Failure (Unit × List Char) :=
  match digitsExactly? 4 cs with
  | some (year, '-' :: rest) => do
    let (month, rest) ← expect (twoDigits? 1 12 rest) rest
    let (_, rest) ← expect (after? '-' rest) rest
    let (_, rest) ← expect (twoDigits? 1 (daysIn year month) rest) rest
    return ((), rest)
  | _ => miss "" cs

/-- A time of day; no other reading is tried once an hour and a colon are read. -/
def time (cs : List Char) : Except Failure (Unit × List Char) :=
  match twoDigits? 0 23 cs with
  | some (_, ':' :: rest) => do
    let (_, rest) ← expect (twoDigits? 0 59 rest) rest
    let (_, rest) ← expect (after? ':' rest) rest
    let (_, rest) ← expect (twoDigits? 0 60 rest) rest
    match rest with
    | '.' :: c :: fraction =>
      if c.isDigit then return ((), fraction.dropWhile Char.isDigit) else return ((), rest)
    | _ => return ((), rest)
  | _ => miss "" cs

/-- The distance from UTC, if one is given. -/
def offset (cs : List Char) : Except Failure (Unit × List Char) :=
  match cs with
  | c :: rest =>
    if c = 'Z' ∨ c = 'z' then .ok ((), rest)
    else if c = '+' ∨ c = '-' then do
      let (_, rest) ← expect (twoDigits? 0 23 rest) rest
      let (_, rest) ← expect (after? ':' rest) rest
      let (_, rest) ← expect (twoDigits? 0 59 rest) rest
      return ((), rest)
    else .ok ((), cs)
  | [] => .ok ((), [])

/-- What may follow a date: a mark, a time and an offset. -/
def timeAfterDate (cs : List Char) : Except Failure (Unit × List Char) :=
  match cs with
  | c :: rest =>
    if c = 'T' ∨ c = 't' ∨ c = ' ' then
      match time rest with
      | .ok (_, rest) => offset rest
      | .error f => if f.isFinal then .error f else .ok ((), cs)
    else .ok ((), cs)
  | [] => .ok ((), [])

def dateTime : Reader Value := fun cs =>
  match date cs with
  | .ok (_, rest) => do
    let (_, rest) ← timeAfterDate rest
    return (.dateTime, rest)
  | .error f =>
    if f.isFinal then .error f
    else do
      let (_, rest) ← time cs
      return (.dateTime, rest)

/-- A date or time, or else a number. -/
def numberOrDate : Reader Value := fun cs =>
  match dateTime cs with
  | .ok found => .ok found
  | .error f => if f.isFinal then .error f else number cs

end Courier.Toml
