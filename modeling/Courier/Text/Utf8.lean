/-!
# UTF-8

Text goes on the wire, into file names and into files as UTF-8. `Utf8.next` reads one
character off the front of a run of octets, or says how long the longest start of a
character is that cannot be continued. Everything else is built on it:

* `Utf8.encode`: the octets of a text;
* `Utf8.decode?`: the text that some octets spell, if they spell one;
* `Utf8.lossy`: a text for any octets, with `U+FFFD` for each run that `next` refuses.
-/

namespace Courier

/-- A run of octets: what a stream carries and what a file holds. -/
abbrev Bytes := List UInt8

namespace Utf8

/-! ## Writing -/

def encodeChar (c : Char) : Bytes :=
  let n := c.toNat
  if n < 0x80 then [UInt8.ofNat n]
  else if n < 0x800 then [UInt8.ofNat (0xC0 + n / 64), UInt8.ofNat (0x80 + n % 64)]
  else if n < 0x10000 then
    [UInt8.ofNat (0xE0 + n / 4096), UInt8.ofNat (0x80 + n / 64 % 64), UInt8.ofNat (0x80 + n % 64)]
  else
    [UInt8.ofNat (0xF0 + n / 262144), UInt8.ofNat (0x80 + n / 4096 % 64),
      UInt8.ofNat (0x80 + n / 64 % 64), UInt8.ofNat (0x80 + n % 64)]

def encodeChars (cs : List Char) : Bytes :=
  cs.flatMap encodeChar

def encode (s : String) : Bytes :=
  encodeChars s.toList

/-! ## Reading -/

/-- Reads `more` further octets of a character whose leading bits make up `value`. Each adds
six bits; the next one has to lie between `low` and `high`, those after it anywhere among the
octets that continue a character. The octet that fails is left in place. -/
def follow : Nat → Nat → Nat → Nat → Bytes → Option Char × Bytes
  | 0, _, _, value, rest => (some (Char.ofNat value), rest)
  | _ + 1, _, _, _, [] => (none, [])
  | more + 1, low, high, value, t :: rest =>
    if low ≤ t.toNat ∧ t.toNat ≤ high then
      follow more 0x80 0xBF (value * 64 + (t.toNat - 0x80)) rest
    else (none, t :: rest)

/-- One character and what follows it; without a character, what follows the longest start
of one. The second octet has a narrower range where a shorter spelling, a surrogate or a
number above `U+10FFFF` has to be kept out. -/
def next (b : UInt8) (rest : Bytes) : Option Char × Bytes :=
  let n := b.toNat
  if n < 0x80 then (some (Char.ofNat n), rest)
  else if n < 0xC2 then (none, rest)
  else if n < 0xE0 then follow 1 0x80 0xBF (n - 0xC0) rest
  else if n < 0xF0 then
    follow 2 (if n = 0xE0 then 0xA0 else 0x80) (if n = 0xED then 0x9F else 0xBF) (n - 0xE0) rest
  else if n < 0xF5 then
    follow 3 (if n = 0xF0 then 0x90 else 0x80) (if n = 0xF4 then 0x8F else 0xBF) (n - 0xF0) rest
  else (none, rest)

/-- Octets that follow a first one are taken off the front. -/
theorem follow_length (more low high value : Nat) (bs : Bytes) :
    (follow more low high value bs).2.length ≤ bs.length := by
  induction more generalizing low high value bs with
  | zero => exact Nat.le_refl _
  | succ more ih =>
    cases bs with
    | nil => exact Nat.le_refl _
    | cons t rest =>
      unfold follow
      split
      · exact Nat.le_succ_of_le (ih ..)
      · exact Nat.le_refl _

/-- A character takes octets off the front: this is why `scan` ends. -/
theorem next_length (b : UInt8) (rest : Bytes) : (next b rest).2.length ≤ rest.length := by
  unfold next
  dsimp only
  repeat' split
  all_goals first
    | exact follow_length ..
    | exact Nat.le_refl _

/-- The characters that some octets spell, onto those read before (the newest in front);
`none` stands for a run that is no part of any character. -/
def scanOnto (read : List (Option Char)) : Bytes → List (Option Char)
  | [] => read
  | b :: rest => scanOnto ((next b rest).1 :: read) (next b rest).2
termination_by bs => bs.length
decreasing_by
  have := next_length b rest
  simp only [List.length_cons]
  omega

def scan (bs : Bytes) : List (Option Char) :=
  (scanOnto [] bs).reverse

def decode? (bs : Bytes) : Option String :=
  let read := scan bs
  if read.all Option.isSome then some (String.ofList (read.filterMap id)) else none

def lossy (bs : Bytes) : String :=
  String.ofList ((scan bs).map (·.getD '\uFFFD'))

end Utf8

/-- The octets of a text, for string constants. -/
abbrev bytes (s : String) : Bytes :=
  Utf8.encode s

end Courier
