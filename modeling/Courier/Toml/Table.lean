/-!
# TOML tables

The tables of a TOML document as they are built up line by line. Of a value only what settings
can hold is kept; of all others there is the kind. What makes this more than a list of pairs
are the rules on who may add to a table:

* a table written in braces is closed;
* a table with a header of its own may be given only one, and dotted keys do not reach into it;
* a table that dotted keys have made does not take a header, nor keys of its own.
-/

namespace Courier.Toml

inductive Value where
  | string (text : String)
  | integer (n : Int)
  | float (literal : String)
  | boolean (b : Bool)
  | dateTime
  | array
  | inlineTable
deriving DecidableEq, Repr, Inhabited

def Value.kind : Value → String
  | .string _ => "string"
  | .integer _ => "integer"
  | .float _ => "float"
  | .boolean _ => "boolean"
  | .dateTime => "datetime"
  | .array => "array"
  | .inlineTable => "inline table"

/-- How a table came to be. -/
inductive Origin where
  /-- By a header that names it, or as the whole document. -/
  | header
  /-- By a header that names a table in it. -/
  | implied
  /-- By a dotted key. -/
  | dotted
deriving DecidableEq, Repr, Inhabited

/-- Where a value stands: the characters from the start of the text to it, and its width in
octets. -/
structure Span where
  place : Nat
  width : Nat
deriving DecidableEq, Repr, Inhabited

inductive Node where
  | value (v : Value) (span : Span)
  | table (origin : Origin) (members : List (String × Node))
  /-- The tables of one array; the newest is the last. -/
  | tables (elements : List (List (String × Node)))
deriving Repr, Inhabited

abbrev Members := List (String × Node)

/-! ## Trouble with keys -/

inductive Trouble where
  /-- The key is there already, in the table with this path if that is known. -/
  | duplicate (key : String) (path : Option (List String))
  /-- A dotted key leads through something that is no table. -/
  | extends (path : List String) (kind : String)
  | tooDeep
deriving DecidableEq, Repr, Inhabited

def isBareChar (c : Char) : Bool :=
  c.isAlphanum || c = '-' || c = '_'

/-- A key as it may be written. -/
def shownKey (key : String) : String :=
  if !key.isEmpty && key.toList.all isBareChar then key
  else if key.toList.any fun c => c = '"' || c = '\\' || c.toNat < 0x20 then s!"'{key}'"
  else "\"" ++ key ++ "\""

def shownPath (path : List String) : String :=
  ".".intercalate (path.map shownKey)

def Trouble.text : Trouble → String
  | .duplicate key none => s!"duplicate key `{key}`"
  | .duplicate key (some []) => s!"duplicate key `{key}` in document root"
  | .duplicate key (some path) => s!"duplicate key `{key}` in table `{shownPath path}`"
  | .extends path kind =>
    s!"dotted key `{shownPath path}` attempted to extend non-table type ({kind})"
  | .tooDeep => "recursion limit exceeded"

/-! ## Changing a table -/

/-- The members with `node` under `key`, in the place where `key` was. -/
def replace (key : String) (node : Node) (ms : Members) : Members :=
  ms.map fun (k, n) => if k = key then (k, node) else (k, n)

/-- Changes the table that some keys lead to, and makes those that are missing on the way.
`walked` holds the keys before them, the last in front. -/
def descend (dotted : Bool) (change : Origin → Members → Except Trouble Members) :
    List String → List String → Origin → Members → Except Trouble Members
  | [], _, origin, ms => change origin ms
  | key :: path, walked, _, ms =>
    match ms.lookup key with
    | none => do
      let made := if dotted then Origin.dotted else .implied
      let inner ← descend dotted change path (key :: walked) made []
      return ms ++ [(key, .table made inner)]
    | some (.value v _) => .error (.extends (key :: walked).reverse v.kind)
    | some (.tables elements) => do
      let inner ← descend dotted change path (key :: walked) .header (elements.getLast?.getD [])
      return replace key (.tables (elements.dropLast ++ [inner])) ms
    | some (.table origin inner) =>
      if dotted ∧ origin = .header then .error (.duplicate key none)
      else do
        let inner ← descend dotted change path (key :: walked) origin inner
        return replace key (.table origin inner) ms

/-- Adds a key with its value to a table; `path` leads to it from the table with the header
`header`. -/
def addValue (header path : List String) (key : String) (node : Node) (ms : Members) :
    Except Trouble Members :=
  descend true (fun origin ms =>
    if decide (origin = .dotted) = path.isEmpty then .error (.duplicate key none)
    else if (ms.lookup key).isSome then .error (.duplicate key (some header))
    else .ok (ms ++ [(key, node)])) path [] .header ms

/-! ## Documents -/

structure Document where
  root : Members := []
  /-- The header under which keys are read. -/
  header : List String := []
deriving Repr, Inhabited

namespace Document

def add (d : Document) (path : List String) (key : String) (node : Node) :
    Except Trouble Document := do
  let insert := fun _ ms => addValue d.header path key node ms
  let root ← descend false insert d.header [] .header d.root
  return { d with root }

/-- Changes the member that a header names. -/
def atHeader (d : Document) (path : List String)
    (change : String → Members → Option Members) : Except Trouble Document := do
  let key := path.getLast?.getD ""
  let root ← descend false (fun _ ms =>
    match change key ms with
    | some ms => .ok ms
    | none => .error (.duplicate key (some path.dropLast))) path.dropLast [] .header d.root
  return { root, header := path }

/-- Opens the table that a header names; one that is there may only be implied. -/
def openTable (d : Document) (path : List String) : Except Trouble Document :=
  d.atHeader path fun key ms =>
    match ms.lookup key with
    | none => some (ms ++ [(key, .table .header [])])
    | some (.table .implied inner) => some (replace key (.table .header inner) ms)
    | some _ => none

/-- Opens one more table of the array that a header names. -/
def openElement (d : Document) (path : List String) : Except Trouble Document :=
  d.atHeader path fun key ms =>
    match ms.lookup key with
    | none => some (ms ++ [(key, .tables [[]])])
    | some (.tables elements) => some (replace key (.tables (elements ++ [[]])) ms)
    | some _ => none

end Document

end Courier.Toml
