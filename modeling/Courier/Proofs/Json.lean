import Mathlib.Data.List.TakeDrop
import Courier.Json.Value
import Courier.Proofs.Decimal

/-!
# JSON that was written is read

A text that was quoted is scanned up to its closing quote, and its escapes spell it again. The same
goes for a number and for `null`, and so for an object of such values. An object that is broken off
where a value is to begin is never read, whatever object follows it on the same line.

Main results:

* `Json.scanString_quote`, `Json.join?_units` — a quoted text is read.
* `Json.Reads`, `Json.reads_digits` — a value is read wherever it stands in an object.
* `Json.parse?_objectText` — an object that was written is read.
* `Json.parse?_brokenText` — an object that is broken off is not.
-/

namespace Courier.Json

/-! ## Strings -/

/-- What is found of a character in a string: a number where it is written by a number. -/
def unitOf (c : Char) : Unit16 :=
  if c.toNat < 0x20 ∧ c ∉ ['\x08', '\x0c', '\n', '\r', '\t'] then .code c.toNat else .char c

def units (cs : List Char) : List Unit16 :=
  cs.map unitOf

/-- A hexadecimal digit that is written for a number stands for that number when it is read. -/
theorem hexValue?_hexDigit {n : Nat} (h : n < 16) : hexValue? (Violation.hexDigit n) = some n := by
  have hall : ∀ n < 16, hexValue? (Violation.hexDigit n) = some n := by decide
  exact hall n h

/-- The characters that have an escape of one letter. -/
def lettered : List Char :=
  ['"', '\\', '\x08', '\x0c', '\n', '\r', '\t']

/-- A control character that has no letter is written by the number it has. -/
theorem escape_of_control {c : Char} (h : c ∉ lettered) (hc : c.toNat < 0x20) :
    escape c = ['\\', 'u', '0', '0',
      Violation.hexDigit (c.toNat / 16), Violation.hexDigit (c.toNat % 16)] := by
  simp only [lettered, List.mem_cons, List.not_mem_nil, or_false, not_or] at h
  obtain ⟨h₁, h₂, h₃, h₄, h₅, h₆, h₇⟩ := h
  simp [escape, h₁, h₂, h₃, h₄, h₅, h₆, h₇, hc]

/-- Every other character is written as it is. -/
theorem escape_of_plain {c : Char} (h : c ∉ lettered) (hc : ¬ c.toNat < 0x20) : escape c = [c] := by
  simp only [lettered, List.mem_cons, List.not_mem_nil, or_false, not_or] at h
  obtain ⟨h₁, h₂, h₃, h₄, h₅, h₆, h₇⟩ := h
  simp [escape, h₁, h₂, h₃, h₄, h₅, h₆, h₇, hc]

/-- The scan takes the escape of a character as one unit, however many characters are written for
it. -/
theorem scanString_escape (read : List Unit16) (c : Char) (rest : List Char) :
    scanString read (escape c ++ rest) = scanString (unitOf c :: read) rest := by
  -- the three ways in which a character is written: by a letter, by its number or as it is
  by_cases hletter : c ∈ lettered
  · simp only [lettered, List.mem_cons, List.not_mem_nil, or_false] at hletter
    rcases hletter with rfl | rfl | rfl | rfl | rfl | rfl | rfl <;> rfl
  by_cases hc : c.toNat < 0x20
  · have hunit : unitOf c = .code c.toNat := by
      rw [unitOf, if_pos]
      exact ⟨hc, fun h => hletter (List.mem_cons_of_mem _ (List.mem_cons_of_mem _ h))⟩
    have hcode : code? '0' '0' (Violation.hexDigit (c.toNat / 16))
        (Violation.hexDigit (c.toNat % 16)) = some c.toNat := by
      have hzero : hexValue? '0' = some 0 := by decide
      have hsum : c.toNat / 16 * 16 + c.toNat % 16 = c.toNat := Nat.div_add_mod' ..
      simp [code?, hzero, hexValue?_hexDigit (show c.toNat / 16 < 16 by omega),
        hexValue?_hexDigit (show c.toNat % 16 < 16 by omega), hsum]
    rw [escape_of_control hletter hc, hunit]
    simp only [List.cons_append, List.nil_append, scanString, hcode]
  · have hunit : unitOf c = .char c := by rw [unitOf, if_neg (fun h => hc h.1)]
    rw [escape_of_plain hletter hc, hunit]
    have hne : c ≠ '"' ∧ c ≠ '\\' := by
      simp only [lettered, List.mem_cons, not_or] at hletter
      exact ⟨hletter.1, hletter.2.1⟩
    simp [scanString, hne.1, hne.2, hc]

/-- A quoted text is scanned up to its closing quote. -/
theorem scanString_quote (cs rest : List Char) :
    scanString [] (cs.flatMap escape ++ '"' :: rest) = some (units cs, rest) := by
  -- the scan collects the units in reverse, so the induction is for any units read before
  have honto (read : List Unit16) :
      scanString read (cs.flatMap escape ++ '"' :: rest) =
        some (read.reverse ++ units cs, rest) := by
    induction cs generalizing read with
    | nil => simp [scanString, units]
    | cons c cs ih =>
      rw [List.flatMap_cons, List.append_assoc, scanString_escape, ih]
      simp [units]
  exact honto []

/-- No unit that is scanned of a quoted text is half of a pair, so each one gives its character
back. -/
theorem joinOnto_units (read cs : List Char) :
    joinOnto read (units cs) = some (read.reverse ++ cs) := by
  -- `read` are the characters that are joined already, the last one in front
  induction cs generalizing read with
  | nil => simp [units, joinOnto]
  | cons c cs ih =>
    have hrest : joinOnto (c :: read) (units cs) = some (read.reverse ++ c :: cs) := by
      rw [ih]
      simp
    have hcons : units (c :: cs) = unitOf c :: units cs := rfl
    rw [hcons]
    unfold unitOf
    split
    · -- a number below all surrogates
      rename_i hc
      have hhigh : isHigh c.toNat = false := by simp [isHigh]; omega
      have hlow : isLow c.toNat = false := by simp [isLow]; omega
      rw [joinOnto.eq_def]
      simp [hhigh, hlow, Char.ofNat_toNat, hrest]
    · rw [joinOnto.eq_def]
      exact hrest

/-- What was quoted is spelled again. -/
theorem join?_units (s : String) : join? (units s.toList) = some s := by
  simp [join?, joinOnto_units, String.ofList_toList]

/-! ## No control characters -/

/-- Every character is written as it shows: no control character is among them. -/
def Printed (cs : List Char) : Prop :=
  ∀ c ∈ cs, 0x20 ≤ c.toNat

/-- Nothing written shows nothing that is not to be printed. -/
theorem printed_nil : Printed [] :=
  nofun

/-- A text is printed if its first character is and the rest of it. -/
theorem printed_cons {c : Char} {cs : List Char} :
    Printed (c :: cs) ↔ 0x20 ≤ c.toNat ∧ Printed cs :=
  List.forall_mem_cons

/-- Two texts are printed one behind the other if both of them are. -/
theorem printed_append {xs ys : List Char} : Printed (xs ++ ys) ↔ Printed xs ∧ Printed ys :=
  List.forall_mem_append

/-- What the program checks of a text of its own is that it is printed. -/
theorem printed_of_all {cs : List Char} (h : cs.all (fun c => decide (0x20 ≤ c.toNat)) = true) :
    Printed cs := by
  simpa [Printed] using h

/-- No escape has a control character in it: that is what escapes are for. -/
theorem printed_escape (c : Char) : Printed (escape c) := by
  -- again by the three ways of writing a character
  by_cases hletter : c ∈ lettered
  · simp only [lettered, List.mem_cons, List.not_mem_nil, or_false] at hletter
    rcases hletter with rfl | rfl | rfl | rfl | rfl | rfl | rfl <;> exact printed_of_all (by decide)
  by_cases hc : c.toNat < 0x20
  · have hhex : ∀ n < 16, 0x20 ≤ (Violation.hexDigit n).toNat := by decide
    rw [escape_of_control hletter hc]
    simp only [printed_cons, printed_nil, and_true]
    refine ⟨by decide, by decide, by decide, by decide, hhex _ (by omega), hhex _ (by omega)⟩
  · rw [escape_of_plain hletter hc]
    exact printed_cons.mpr ⟨Nat.not_lt.mp hc, printed_nil⟩

/-- So a quoted text is printed, whatever the text is. -/
theorem printed_quote (cs : List Char) : Printed (quote cs) := by
  have hbody : Printed (cs.flatMap escape) := by
    intro d hd
    obtain ⟨c, -, hdc⟩ := List.mem_flatMap.mp hd
    exact printed_escape c d hdc
  rw [quote, List.cons_append, printed_cons, printed_append]
  exact ⟨by decide, hbody, printed_cons.mpr ⟨by decide, printed_nil⟩⟩

/-- A number is written in digits alone. -/
theorem printed_digits (n : Nat) : Printed (Decimal.digits n) := by
  intro c hc
  have hdigit : c.isDigit = true := Decimal.isDigit_of_mem_digits hc
  simp only [Char.isDigit, Bool.and_eq_true, decide_eq_true_eq] at hdigit
  have hlow : '0'.toNat ≤ c.toNat := hdigit.1
  exact Nat.le_trans (by decide) hlow

/-! ## Values -/

/-- Where there is no blank there is nothing to skip. -/
theorem skip_cons {c : Char} (h : isBlank c = false) (cs : List Char) :
    skip (c :: cs) = c :: cs := by
  simp [skip, h]

/-- A text stands for a value wherever it is followed by what parts or ends members. -/
def Reads (text : List Char) (json : Json) : Prop :=
  ∀ fuel sep rest, sep = ',' ∨ sep = '\x7d' →
    value? (fuel + 1) (text ++ sep :: rest) = some (json, sep :: rest)

/-- A quoted text is read as the units it was made of. -/
theorem reads_quote (cs : List Char) : Reads (quote cs) (.string (units cs)) := by
  intro fuel sep rest _
  have hquote : quote cs ++ sep :: rest = '"' :: (cs.flatMap escape ++ '"' :: sep :: rest) := by
    simp [quote]
  rw [hquote, value?, skip_cons (by decide)]
  simp only [scanString_quote, Option.map_some]

/-- The word for no value is read as no value. -/
theorem reads_null : Reads "null".toList .null := by
  intro fuel sep rest _
  have hnull : "null".toList ++ sep :: rest = 'n' :: ("ull".toList ++ sep :: rest) := rfl
  rw [hnull, value?, skip_cons (by decide)]
  simp [afterWord?]

/-- The digits of a number end where what parts members begins. -/
theorem digitsOf_append {ds : List Char} (hds : ∀ c ∈ ds, c.isDigit = true) {sep : Char}
    (hsep : sep.isDigit = false) (rest : List Char) :
    digitsOf (ds ++ sep :: rest) = (ds, sep :: rest) := by
  unfold digitsOf
  rw [List.span_eq_takeWhile_dropWhile, List.takeWhile_append_of_pos hds,
    List.dropWhile_append_of_pos hds, List.takeWhile_cons_of_neg (by simp [hsep]),
    List.dropWhile_cons_of_neg (by simp [hsep]), List.append_nil]

/-- A number has no zero in front of another digit. -/
theorem wholePart?_digits (n : Nat) {sep : Char} (hsep : sep.isDigit = false) (rest : List Char) :
    wholePart? (Decimal.digits n ++ sep :: rest) = some (Decimal.digits n, sep :: rest) := by
  rw [wholePart?, digitsOf_append (fun c => Decimal.isDigit_of_mem_digits) hsep]
  split
  -- no digit at all: a number has at least one
  · rename_i h
    exact absurd (congrArg Prod.fst h) (Decimal.digits_ne_nil n)
  -- a zero in front of another digit: only the number zero begins with one, and it has one digit
  · rename_i c ds rest' h
    have hdigits : Decimal.digits n = '0' :: c :: ds := congrArg Prod.fst h
    have hpos : 0 < n := by
      refine Nat.pos_of_ne_zero fun hzero => ?_
      have hlength : (Decimal.digits 0).length = 1 := by rw [Decimal.digits]; rfl
      rw [← hzero, hdigits] at hlength
      simp at hlength
    have hfirst : (Decimal.digits n).head? ≠ some '0' := Decimal.head?_digits hpos
    rw [hdigits] at hfirst
    exact absurd rfl hfirst
  · rfl

/-- A number has no sign, no fraction and no exponent here, and none of them is found. -/
theorem number?_digits (n : Nat) {sep : Char} (hsep : sep = ',' ∨ sep = '\x7d')
    (rest : List Char) :
    number? (Decimal.digits n ++ sep :: rest) = some (Decimal.digits n, sep :: rest) := by
  have hdigit : sep.isDigit = false := by rcases hsep with rfl | rfl <;> decide
  have hwhole := wholePart?_digits n hdigit rest
  have hfraction : fractionPart? (sep :: rest) = some ([], sep :: rest) := by
    rcases hsep with rfl | rfl <;> rfl
  have hexponent : exponentPart? (sep :: rest) = some ([], sep :: rest) := by
    rcases hsep with rfl | rfl <;> rfl
  -- the first digit is no sign
  cases hdigits : Decimal.digits n with
  | nil => exact absurd hdigits (Decimal.digits_ne_nil n)
  | cons c ds =>
    have hc : c.isDigit = true := Decimal.isDigit_of_mem_digits (hdigits ▸ List.mem_cons_self ..)
    have hsign : c ≠ '-' := by
      rintro rfl
      cases hc
    rw [hdigits, List.cons_append] at hwhole
    simp [number?, hsign, hwhole, hfraction, hexponent]

/-- A value that begins with a digit is a number. -/
theorem value?_of_digit {c : Char} (hc : c.isDigit = true) (fuel : Nat) (cs : List Char) :
    value? (fuel + 1) (c :: cs) =
      (number? (c :: cs)).map fun (literal, rest) => (.number literal, rest) := by
  have hne : ∀ d : Char, d.isDigit = false → c ≠ d := by
    rintro d hd rfl
    rw [hc] at hd
    cases hd
  have hblank : isBlank c = false := by
    simp [isBlank, hne ' ' (by decide), hne '\t' (by decide), hne '\n' (by decide),
      hne '\r' (by decide)]
  rw [value?, skip_cons hblank]
  split
  case h_7 => rfl
  -- all other values begin with a character that is no digit
  all_goals
    rename_i h
    exact absurd (List.cons.inj h).1 (hne _ (by decide))

/-- A number in digits is read as those digits. -/
theorem reads_digits (n : Nat) : Reads (Decimal.digits n) (.number (Decimal.digits n)) := by
  intro fuel sep rest hsep
  have hnumber := number?_digits n hsep rest
  cases hdigits : Decimal.digits n with
  | nil => exact absurd hdigits (Decimal.digits_ne_nil n)
  | cons c ds =>
    have hc : c.isDigit = true := Decimal.isDigit_of_mem_digits (hdigits ▸ List.mem_cons_self ..)
    rw [hdigits, List.cons_append] at hnumber
    rw [List.cons_append, value?_of_digit hc, hnumber]
    rfl

/-! ## Objects -/

/-- What is found of a member depends on what is found of its value. -/
theorem members?_member (fuel : Nat) (read : List (List Unit16 × Json)) (key : String)
    (rest : List Char) :
    members? (fuel + 1) read (quote key.toList ++ ':' :: rest) =
      match value? fuel rest with
      | none => none
      | some (item, rest) =>
        match skip rest with
        | ',' :: rest => members? fuel ((units key.toList, item) :: read) rest
        | '\x7d' :: rest => some (((units key.toList, item) :: read).reverse, rest)
        | _ => none := by
  have hmember : quote key.toList ++ ':' :: rest =
      '"' :: (key.toList.flatMap escape ++ '"' :: ':' :: rest) := by
    simp [quote]
  rw [hmember, members?, skip_cons (by decide)]
  simp only [scanString_quote]
  rw [skip_cons (show isBlank ':' = false by decide)]
  rfl

/-- A member with one more behind it. -/
theorem members?_comma {text : List Char} {json : Json} (hreads : Reads text json) (fuel : Nat)
    (read : List (List Unit16 × Json)) (key : String) (rest : List Char) :
    members? (fuel + 2) read (quote key.toList ++ ':' :: text ++ ',' :: rest) =
      members? (fuel + 1) ((units key.toList, json) :: read) rest := by
  rw [List.append_assoc, List.cons_append, members?_member, hreads fuel ',' rest (.inl rfl)]
  simp only [skip_cons (show isBlank ',' = false by decide)]

/-- The last member. -/
theorem members?_close {text : List Char} {json : Json} (hreads : Reads text json) (fuel : Nat)
    (read : List (List Unit16 × Json)) (key : String) (rest : List Char) :
    members? (fuel + 2) read (quote key.toList ++ ':' :: text ++ '\x7d' :: rest) =
      some (((units key.toList, json) :: read).reverse, rest) := by
  rw [List.append_assoc, List.cons_append, members?_member, hreads fuel '\x7d' rest (.inr rfl)]
  simp only [skip_cons (show isBlank '\x7d' = false by decide)]

/-- A member that is written and read: its key, its text and its value. -/
structure Written where
  key : String
  text : List Char
  json : Json
  reads : Reads text json
  printed : Printed text

/-- The members in front of another one. -/
def leadText (ms : List Written) : List Char :=
  ms.flatMap fun m => quote m.key.toList ++ ':' :: m.text ++ [',']

/-- What is found of some members. -/
def found (ms : List Written) : List (List Unit16 × Json) :=
  ms.map fun m => (units m.key.toList, m.json)

/-- The members in front are written one after the other. -/
theorem leadText_cons (m : Written) (ms : List Written) (rest : List Char) :
    leadText (m :: ms) ++ rest =
      quote m.key.toList ++ ':' :: m.text ++ ',' :: (leadText ms ++ rest) := by
  simp [leadText]

/-- The members in front are read one by one. -/
theorem members?_lead (ms : List Written) (fuel : Nat) (read : List (List Unit16 × Json))
    (rest : List Char) :
    members? (ms.length + fuel + 1) read (leadText ms ++ rest) =
      members? (fuel + 1) ((found ms).reverse ++ read) rest := by
  induction ms generalizing read with
  | nil => simp [leadText, found]
  | cons m ms ih =>
    have hfuel : (m :: ms).length + fuel + 1 = ms.length + fuel + 2 := by
      rw [List.length_cons]
      omega
    rw [leadText_cons, hfuel, members?_comma m.reads, ih]
    simp [found]

/-- Without enough fuel for them nothing is read. -/
theorem members?_lead_none {ms : List Written} {fuel : Nat} (hfuel : fuel ≤ ms.length)
    (read : List (List Unit16 × Json)) (rest : List Char) :
    members? fuel read (leadText ms ++ rest) = none := by
  induction ms generalizing fuel read with
  | nil =>
    obtain rfl : fuel = 0 := Nat.le_zero.mp hfuel
    rw [members?]
  | cons m ms ih =>
    rw [List.length_cons] at hfuel
    -- one unit of fuel goes for the member and one for its value
    match fuel, hfuel with
    | 0, _ => rw [members?]
    | 1, _ =>
      rw [leadText_cons, List.append_assoc, List.cons_append, members?_member]
      simp only [value?]
    | fuel + 2, hfuel =>
      rw [leadText_cons, members?_comma m.reads]
      exact ih (by omega) _

/-- However much fuel there is, either it does not last for the members in front or all of them
are found, and what is left is spent on what follows. -/
theorem members?_lead_or (ms : List Written) (fuel : Nat) (read : List (List Unit16 × Json))
    (rest : List Char) :
    members? fuel read (leadText ms ++ rest) = none ∨
      ∃ less, members? fuel read (leadText ms ++ rest) =
        members? less ((found ms).reverse ++ read) rest := by
  by_cases hfuel : fuel ≤ ms.length
  · exact .inl (members?_lead_none hfuel read rest)
  · obtain ⟨more, rfl⟩ := Nat.exists_eq_add_of_lt (Nat.lt_of_not_le hfuel)
    exact .inr ⟨_, members?_lead ms more read rest⟩

/-- An object that begins with a key. -/
theorem value?_object (fuel : Nat) (key : String) (rest : List Char) :
    value? (fuel + 1) ('\x7b' :: (quote key.toList ++ rest)) =
      (members? fuel [] (quote key.toList ++ rest)).map fun (ms, rest) => (.object ms, rest) := by
  have hquote : quote key.toList ++ rest =
      '"' :: (key.toList.flatMap escape ++ '"' :: rest) := by
    simp [quote]
  rw [hquote, value?, skip_cons (by decide)]
  simp only [skip_cons (show isBlank '"' = false by decide)]
  rfl

/-- An object as it is written, with a last member. -/
def objectText (ms : List Written) (last : Written) : List Char :=
  '\x7b' :: (leadText ms ++ (quote last.key.toList ++ ':' :: last.text ++ ['\x7d']))

/-- An object that is broken off where the value of a member is to begin. -/
def brokenText (ms : List Written) (key : String) : List Char :=
  '\x7b' :: (leadText ms ++ (quote key.toList ++ [':']))

/-- An object begins with a key. -/
theorem exists_key (ms : List Written) (key : String) (rest : List Char) :
    ∃ first more,
      leadText ms ++ (quote key.toList ++ rest) = quote (String.toList first) ++ more := by
  cases ms with
  | nil => exact ⟨key, rest, rfl⟩
  | cons m ms =>
    refine ⟨m.key, ':' :: m.text ++ ',' :: (leadText ms ++ (quote key.toList ++ rest)), ?_⟩
    rw [leadText_cons]
    simp

/-- A member is printed if the text of its value is: a key is quoted. -/
theorem printed_member (key : String) {text : List Char} (h : Printed text) :
    Printed (quote key.toList ++ ':' :: text) :=
  printed_append.mpr ⟨printed_quote _, printed_cons.mpr ⟨by decide, h⟩⟩

/-- The members in front are printed, since each of them carries a proof that its value is. -/
theorem printed_leadText (ms : List Written) : Printed (leadText ms) := by
  intro c hc
  obtain ⟨m, -, hcm⟩ := List.mem_flatMap.mp hc
  have hmember : Printed (quote m.key.toList ++ ':' :: m.text ++ [',']) :=
    printed_append.mpr ⟨printed_member m.key m.printed, printed_cons.mpr ⟨by decide, printed_nil⟩⟩
  exact hmember c hcm

/-- **An object is printed**: it stays on the line that it is written to. -/
theorem printed_objectText (ms : List Written) (last : Written) : Printed (objectText ms last) := by
  have hlast : Printed (quote last.key.toList ++ ':' :: last.text ++ ['\x7d']) :=
    printed_append.mpr
      ⟨printed_member last.key last.printed, printed_cons.mpr ⟨by decide, printed_nil⟩⟩
  exact printed_cons.mpr ⟨by decide, printed_append.mpr ⟨printed_leadText ms, hlast⟩⟩

/-- And so is one that is broken off. -/
theorem printed_brokenText (ms : List Written) (key : String) : Printed (brokenText ms key) :=
  printed_cons.mpr
    ⟨by decide, printed_append.mpr ⟨printed_leadText ms, printed_member key printed_nil⟩⟩

/-- A brace in front of a key opens an object of what is found behind it. -/
theorem value?_lead (fuel : Nat) (ms : List Written) (key : String) (rest : List Char) :
    value? (fuel + 1) ('\x7b' :: (leadText ms ++ (quote key.toList ++ rest))) =
      (members? fuel [] (leadText ms ++ (quote key.toList ++ rest))).map
        fun (ms, rest) => (.object ms, rest) := by
  obtain ⟨first, more, heq⟩ := exists_key ms key rest
  rw [heq, value?_object]

/-- **An object that was written is read**, if there is fuel for each of its members. -/
theorem value?_objectText (ms : List Written) (last : Written) (fuel : Nat) (rest : List Char) :
    value? (ms.length + fuel + 3) (objectText ms last ++ rest) =
      some (.object (found (ms ++ [last])), rest) := by
  have htext : objectText ms last ++ rest =
      '\x7b' ::
        (leadText ms ++ (quote last.key.toList ++ (':' :: last.text ++ '\x7d' :: rest))) := by
    simp [objectText]
  have hlast := members?_close last.reads fuel ((found ms).reverse) last.key rest
  rw [List.append_assoc] at hlast
  have hlead := members?_lead ms (fuel + 1) []
    (quote last.key.toList ++ (':' :: last.text ++ '\x7d' :: rest))
  rw [List.append_nil, hlast] at hlead
  rw [htext, value?_lead, show ms.length + fuel + 2 = ms.length + (fuel + 1) + 1 from rfl, hlead]
  simp [found]

/-- Nothing is left behind a value at the start of a text, if one is found there at all. -/
def Spent (text : List Char) : Prop :=
  ∀ fuel json rest, value? fuel text = some (json, rest) → rest = []

/-- There is no value in an empty text. -/
theorem spent_nil : Spent [] := by
  intro fuel json rest h
  cases fuel with
  | zero =>
    rw [value?] at h
    cases h
  | succ fuel =>
    rw [value?] at h
    cases h

/-- Where no value is found there is none that could leave anything. -/
theorem spent_of_none {text : List Char} (h : ∀ fuel, value? fuel text = none) : Spent text := by
  intro fuel json rest hvalue
  rw [h] at hvalue
  cases hvalue

/-- Nothing is left behind an object that was written and ends the text. -/
theorem spent_objectText (ms : List Written) (last : Written) : Spent (objectText ms last) := by
  intro fuel json rest h
  -- with the last member the object ends, and with it the text
  have hclose : ∀ fuel read members rest, members? fuel read
      (quote last.key.toList ++ (':' :: last.text ++ ['\x7d'])) = some (members, rest) →
        rest = [] := by
    intro fuel read members rest hmembers
    rw [← List.append_assoc] at hmembers
    match fuel with
    | 0 =>
      rw [members?] at hmembers
      cases hmembers
    | 1 =>
      rw [List.append_assoc, List.cons_append, members?_member] at hmembers
      simp only [value?] at hmembers
      cases hmembers
    | fuel + 2 =>
      rw [members?_close last.reads] at hmembers
      exact (Prod.mk.inj (Option.some.inj hmembers)).2.symm
  cases fuel with
  | zero =>
    rw [value?] at h
    cases h
  | succ fuel =>
    rw [objectText, List.append_assoc, value?_lead] at h
    obtain ⟨⟨members, rest'⟩, hmembers, heq⟩ := Option.map_eq_some_iff.mp h
    obtain rfl : rest' = rest := congrArg Prod.snd heq
    rcases members?_lead_or ms fuel []
        (quote last.key.toList ++ (':' :: last.text ++ ['\x7d'])) with hnone | ⟨less, hless⟩
    · rw [hnone] at hmembers
      cases hmembers
    · rw [hless] at hmembers
      exact hclose _ _ _ _ hmembers

/-- **An object that is broken off has no value**, if what follows leaves nothing. -/
theorem value?_brokenText (ms : List Written) (key : String) {rest : List Char} (h : Spent rest)
    (fuel : Nat) : value? fuel (brokenText ms key ++ rest) = none := by
  -- what follows would have to be the value of the last member and leave the brace behind
  have hopen : ∀ fuel read, members? fuel read (quote key.toList ++ ':' :: rest) = none := by
    intro fuel read
    cases fuel with
    | zero => rw [members?]
    | succ fuel =>
      rw [members?_member]
      cases hvalue : value? fuel rest with
      | none => rfl
      | some read =>
        -- behind the value there would have to be more
        obtain ⟨json, rest'⟩ := read
        obtain rfl := h fuel json rest' hvalue
        rfl
  have htext : brokenText ms key ++ rest =
      '\x7b' :: (leadText ms ++ (quote key.toList ++ ':' :: rest)) := by
    simp [brokenText]
  cases fuel with
  | zero => rw [value?]
  | succ fuel =>
    rw [htext, value?_lead]
    rcases members?_lead_or ms fuel [] (quote key.toList ++ ':' :: rest) with hnone | ⟨less, hless⟩
    · rw [hnone]
      rfl
    · rw [hless, hopen]
      rfl

/-! ## Whole texts -/

/-- There is at least one character for each member, so a text is fuel enough for its members. -/
theorem length_le_leadText (ms : List Written) : ms.length ≤ (leadText ms).length := by
  induction ms with
  | nil => exact Nat.le_refl _
  | cons m ms ih =>
    have hcons := congrArg List.length (leadText_cons m ms [])
    simp only [List.length_append, List.length_cons, List.append_nil] at hcons ⊢
    omega

/-- **An object that was written is read**, and nothing else is found. -/
theorem parse?_objectText (ms : List Written) (last : Written) :
    parse? (objectText ms last) = some (.object (found (ms ++ [last]))) := by
  -- the fuel is twice the length of the text, more than its members need
  have hlength : ms.length + 3 ≤ 2 * (objectText ms last).length + 2 := by
    have hlead := length_le_leadText ms
    simp only [objectText, List.length_cons, List.length_append]
    omega
  obtain ⟨fuel, hfuel⟩ := Nat.exists_eq_add_of_le hlength
  have hvalue := value?_objectText ms last fuel []
  rw [List.append_nil, show ms.length + fuel + 3 = ms.length + 3 + fuel by omega, ← hfuel] at hvalue
  rw [parse?, hvalue]
  rfl

/-- **An object that is broken off is not read**, not even where a whole one follows. -/
theorem parse?_brokenText (ms : List Written) (key : String) {rest : List Char} (h : Spent rest) :
    parse? (brokenText ms key ++ rest) = none := by
  rw [parse?, value?_brokenText ms key h]

end Courier.Json
