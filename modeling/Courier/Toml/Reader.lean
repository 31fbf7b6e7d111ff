import Courier.Toml.Scalar
import Courier.Text.Utf8

/-!
# TOML documents

The reader of whole documents, line by line: a key with its value, the header of a table, or
nothing but a comment.

* `Toml.value`: a value, at most so many arrays and braces deep;
* `Toml.parse`: the members of a document, or the first problem found in it;
* `Problem.text`: what is said of a problem, with the line it is in.
-/

namespace Courier.Toml

/-! ## Values -/

def badArray : String := "invalid array\nexpected `]`"

/-- The braces are escaped where they are text. -/
def badInlineTable : String := "invalid inline table\nexpected `\x7d`"

def badWord : String := "invalid string\nexpected `\"`, `'`"

def badKeyEnd : String := "expected `.`, `=`"

def badLineEnd : String := "expected newline, `#`"

/-- Passes over the items of an array; the comma after the last is optional. -/
def arrayItems (item : Reader Value) : Nat → List Char → Except Failure (List Char)
  | 0, cs => .ok cs
  | fuel + 1, cs =>
    match item (skipLines false cs) with
    | .error f => if f.isFinal then .error f else .ok cs
    | .ok (_, rest) =>
      match skipLines false rest with
      | ',' :: rest => arrayItems item fuel rest
      | rest => .ok rest

/-- A key, the equals sign and the blanks after it. -/
def keyAndEquals : Reader (List String) := fun cs =>
  match key cs with
  | .error f => .error f
  | .ok (path, '=' :: rest) => .ok (path, skipBlanks rest)
  | .ok (_, rest) => fail badKeyEnd rest

/-- A failure after which no other reading is tried. -/
def commit {α : Type} (r : Except Failure α) : Except Failure α :=
  r.mapError fun f => { f with isFinal := true }

/-- One member of a table in braces, added to those before it. -/
def inlineMember (item : Reader Value) (ms : Members) (cs : List Char) :
    Except Failure (Members × List Char) :=
  match keyAndEquals cs with
  | .error f => .error f
  | .ok (path, rest) =>
    match commit (item rest) with
    | .error f => .error f
    | .ok (v, rest) =>
      match addValue [] path.dropLast (path.getLast?.getD "") (.value v ⟨0, 0⟩) ms with
      | .error trouble => fail trouble.text cs
      | .ok ms => .ok (ms, skipBlanks rest)

/-- The members that follow a comma each. -/
def moreMembers (item : Reader Value) : Nat → Members → List Char →
    Except Failure (Members × List Char)
  | 0, ms, cs => .ok (ms, cs)
  | fuel + 1, ms, cs =>
    match cs with
    | ',' :: rest =>
      match inlineMember item ms rest with
      | .error f => if f.isFinal then .error f else .ok (ms, cs)
      | .ok (ms, rest) => moreMembers item fuel ms rest
    | cs => .ok (ms, cs)

/-- The members of a table in braces. No comma may follow the last. -/
def inlineMembers (item : Reader Value) (cs : List Char) : Except Failure (Members × List Char) :=
  match inlineMember item [] cs with
  | .error f => if f.isFinal then .error f else .ok ([], skipBlanks cs)
  | .ok (ms, rest) => moreMembers item rest.length ms rest

/-- What may stand for a value inside `depth` more arrays and braces. -/
def value : Nat → Reader Value
  | 0, cs => fail Trouble.tooDeep.text cs
  | depth + 1, cs =>
    match cs with
    | [] => miss "" []
    | '[' :: rest => do
      match skipLines false (← arrayItems (value depth) rest.length rest) with
      | ']' :: rest => return (.array, rest)
      | rest => fail badArray rest
    | '\x7b' :: rest => do
      match ← inlineMembers (value depth) rest with
      | (_, '\x7d' :: rest) => return (.inlineTable, rest)
      | (_, rest) => fail badInlineTable rest
    | c :: _ =>
      if c = '"' ∨ c = '\'' then (string cs).map fun (s, rest) => (.string s, rest)
      else if c.isDigit ∨ c = '+' ∨ c = '-' then numberOrDate cs
      else word cs
where
  word (cs : List Char) : Except Failure (Value × List Char) :=
    if "true".toList.isPrefixOf cs then .ok (.boolean true, cs.drop 4)
    else if "false".toList.isPrefixOf cs then .ok (.boolean false, cs.drop 5)
    else if "inf".toList.isPrefixOf cs then .ok (.float "inf", cs.drop 3)
    else if "nan".toList.isPrefixOf cs then .ok (.float "nan", cs.drop 3)
    else miss badWord cs

/-! ## Lines -/

/-- The end of a line, with the blanks and the comment that may stand before it. -/
def lineEnd (cs : List Char) : Except Failure (List Char) :=
  match skipComment (skipBlanks cs) with
  | [] => .ok []
  | '\n' :: rest => .ok rest
  | '\r' :: '\n' :: rest => .ok rest
  | rest => fail badLineEnd rest

def width (cs : List Char) : Nat :=
  (Utf8.encodeChars cs).length

/-- A line with a key; `total` is the length of the whole text. -/
def keyLine (total : Nat) (d : Document) (cs : List Char) :
    Except Failure (Document × List Char) := do
  let (path, start) ← commit (keyAndEquals cs)
  let (v, rest) ← commit (value maxDepth start)
  let span := ⟨total - start.length, width (start.take (start.length - rest.length))⟩
  let after ← lineEnd rest
  match d.add path.dropLast (path.getLast?.getD "") (.value v span) with
  | .ok d => return (d, after)
  | .error trouble => fail trouble.text cs

/-- A line with a header; the array form has its brackets doubled. -/
def headerLine (d : Document) (cs : List Char) : Except Failure (Document × List Char) := do
  let (isArray, start) := match cs with
    | '[' :: '[' :: rest => (true, rest)
    | cs => (false, cs.drop 1)
  let (path, rest) ← commit (key start)
  let rest ← match isArray, rest with
    | true, ']' :: ']' :: rest => .ok rest
    | false, ']' :: rest => .ok rest
    | true, rest => fail "invalid table header\nexpected `.`, `]]`" rest
    | false, rest => fail "invalid table header\nexpected `.`, `]`" rest
  let after ← (lineEnd rest).mapError fun f =>
    { f with message := "invalid table header\n" ++ f.message }
  match if isArray then d.openElement path else d.openTable path with
  | .ok d => return (d, after)
  | .error trouble => fail ("invalid table header\n" ++ trouble.text) cs

/-- The lines that are left, at most `fuel` of them. -/
def documentRest (total : Nat) : Nat → Document → List Char → Except Failure Document
  | 0, _, cs => fail "" cs
  | fuel + 1, d, cs =>
    match skipBlanks cs with
    | [] => .ok d
    | '#' :: rest =>
      match lineEnd ('#' :: rest) with
      | .ok rest => documentRest total fuel d rest
      | .error f => .error f
    | '\n' :: rest => documentRest total fuel d rest
    | '\r' :: '\n' :: rest => documentRest total fuel d rest
    | '\r' :: rest => fail "" ('\r' :: rest)
    | '[' :: rest =>
      match headerLine d ('[' :: rest) with
      | .ok (d, rest) => documentRest total fuel d rest
      | .error f => .error f
    | cs =>
      match keyLine total d cs with
      | .ok (d, rest) => documentRest total fuel d rest
      | .error f => .error f

/-! ## Problems -/

/-- Something that is wrong with a text: what, and where if that is known. -/
structure Problem where
  span : Option Span
  message : String
deriving DecidableEq, Repr, Inhabited

/-- The line and the column of a place, both counted from 0. The end of a text belongs to its
last line. -/
def position (text : List Char) (place : Nat) : Nat × Nat :=
  let before := text.take (min place (text.length - 1))
  let line := before.reverse.takeWhile (· ≠ '\n')
  (before.count '\n', line.length + (place - before.length))

def lineAt (text : List Char) (n : Nat) : List Char :=
  ((String.ofList text).splitOn "\n").getD n "" |>.toList

namespace Problem

/-- The problem with the line that it is in, and a mark below the place. -/
def text (source : List Char) (p : Problem) : String :=
  match p.span with
  | none => p.message ++ "\n"
  | some span =>
    let (line, column) := position source span.place
    let content := lineAt source line
    let number := Decimal.render (line + 1)
    let margin := String.ofList (List.replicate (number.length + 1) ' ')
    let marks := max 1 (min span.width (width content - column))
    s!"TOML parse error at line {number}, column {column + 1}\n{margin}|\n" ++
      s!"{number} | {String.ofList content}\n{margin}|" ++
      String.ofList (List.replicate (column + 1) ' ' ++ List.replicate marks '^') ++
      s!"\n{p.message}\n"

end Problem

def problemOf (total : Nat) (f : Failure) : Problem :=
  ⟨some ⟨total - f.rest.length, width (f.rest.take 1)⟩, f.message⟩

def withoutMark : List Char → List Char
  | '\uFEFF' :: rest => rest
  | cs => cs

/-- The members of the document that a text holds; a byte order mark may stand in front. -/
def parse (text : List Char) : Except Problem Members :=
  match documentRest text.length (text.length + 1) {} (withoutMark text) with
  | .ok d => .ok d.root
  | .error f => .error (problemOf text.length f)

end Courier.Toml
