import Courier.Journal.Record
import Courier.Proofs.Json
import Courier.Proofs.Utf8

/-!
# The line of a record

A record whose path is text is written as one JSON object on one line, and is read from it as it
was. A record whose path is no text is broken off in front of the path; no line that begins with
that is ever read as a record, whatever records follow.

Main results:

* `Record.parse?_render` — a record is read as it was written.
* `Record.parse?_broken` — a line with a broken record in front is not read.
* `Record.printed_render` — no line of a record has a control character in it.
-/

namespace Courier

open Json

/-! ## A record as an object -/

namespace Record

/-- A member whose value is a text. -/
def textMember (key text : String) : Written :=
  ⟨key, quoted text, _, reads_quote _, printed_quote _⟩

/-- The members in front of the path. -/
def leading (r : Record) : List Written :=
  [textMember "timestamp" r.timestamp, textMember "transfer_id" r.id,
    textMember "direction" r.direction.text, textMember "peer" r.peer]

/-- All members but the last one. -/
def members (r : Record) (path : String) : List Written :=
  r.leading ++ [textMember "path" path, textMember "status" r.status.text,
    ⟨"bytes", Decimal.digits r.size.toNat, _, reads_digits _, printed_digits _⟩]

/-- The member for the error. -/
def errorMember (r : Record) : Written :=
  match r.error with
  | some e => textMember "error" e
  | none => ⟨"error", "null".toList, _, reads_null, printed_of_all (by decide)⟩

/-- What is written before the path is an object that breaks off where its value is to begin. -/
theorem start_eq (r : Record) : r.start = brokenText r.leading "path" := by
  simp [start, brokenText, leading, leadText, member, textMember, quoted]

/-- With the path and the rest behind it the object is whole. -/
theorem line_eq (r : Record) (path : String) :
    r.start ++ quoted path ++ r.finish = objectText (r.members path) r.errorMember := by
  cases herror : r.error <;>
    simp [start, finish, objectText, leading, members, errorMember, leadText, member, textMember,
      quoted, herror]

/-- The keys are spelled again. -/
theorem mapM_found (ms : List Written) :
    ((found ms).mapM fun (key, value) => return (← join? key, value) : Option _) =
      some (ms.map fun m => (m.key, m.json)) := by
  -- by induction on the members, one after the other
  induction ms with
  | nil => rfl
  | cons m ms ih =>
    have hcons : found (m :: ms) = (units m.key.toList, m.json) :: found ms := rfl
    rw [hcons, List.mapM_cons, ih]
    simp [join?_units]

/-! ## Reading -/

/-- A quoted text is found as itself. -/
theorem text?_units (s : String) : text? (.string (units s.toList)) = some s :=
  join?_units s

/-- So is a quoted word. -/
theorem word?_units (s : String) : word? (.string (units s.toList)) = some s :=
  join?_units s

/-- Each of the two directions has a word of its own. -/
theorem direction?_units (d : Direction) : direction? (.string (units d.text.toList)) = some d := by
  rw [direction?, word?_units]
  cases d <;> rfl

/-- And so has each of the outcomes. -/
theorem status?_units (s : Status) : status? (.string (units s.text.toList)) = some s := by
  rw [status?, word?_units]
  cases s <;> rfl

/-- A size in digits is found as that size. -/
theorem size?_digits (n : UInt64) : size? (.number (Decimal.digits n.toNat)) = some n := by
  have hlt : n.toNat < UInt64.size := n.toNat_lt
  simp [size?, Decimal.value?_digits, hlt]

/-- An error is found, or that there was none. -/
theorem error?_errorMember (r : Record) : error? r.errorMember.json = some r.error := by
  unfold errorMember
  cases r.error with
  | none => rfl
  | some e => simp [error?, textMember, join?_units]

/-- The values of the members make up the record. -/
theorem ofValues?_members {r : Record} {path : String}
    (hpath : Utf8.decode? r.path.text = some path) :
    ofValues? ((r.members path ++ [r.errorMember]).map Written.json) = some r := by
  have hsame : Path.of path = r.path := by
    rw [Path.of, ← Utf8.decode?_eq_some_iff.mp hpath]
  simp [members, leading, textMember, ofValues?, quoted, text?_units, direction?_units,
    status?_units, size?_digits, error?_errorMember, hsame]

/-- The last member is the error, in either case. -/
theorem key_errorMember (r : Record) : r.errorMember.key = "error" := by
  unfold errorMember
  cases r.error <;> rfl

/-- Each member stands once, in the order of the keys. -/
theorem mapM_memberOf? (r : Record) (path : String) :
    keys.mapM (memberOf? ((r.members path ++ [r.errorMember]).map fun m => (m.key, m.json))) =
      some ((r.members path ++ [r.errorMember]).map Written.json) := by
  simp [keys, members, leading, textMember, memberOf?, key_errorMember]

/-- **The members of a record are found as the record.** -/
theorem ofJson?_found {r : Record} {path : String} (hpath : Utf8.decode? r.path.text = some path) :
    ofJson? (.object (found (r.members path ++ [r.errorMember]))) = some r := by
  have hvalues := ofValues?_members hpath
  rw [ofJson?, mapM_found]
  simp only [Option.bind_eq_bind, Option.bind_some]
  rw [mapM_memberOf?]
  exact hvalues

/-- No line of a record has a control character in it, and so no end of a line. -/
theorem printed_render {r : Record} {line : List Char} (h : r.render? = some line) :
    Printed line := by
  obtain ⟨path, -, rfl⟩ := Option.map_eq_some_iff.mp h
  rw [line_eq]
  exact printed_objectText _ _

/-- Nothing in the start of a line ends it. -/
theorem printed_start (r : Record) : Printed r.start := by
  rw [start_eq]
  exact printed_brokenText _ _

/-- **A record is read as it was written.** -/
theorem parse?_render {r : Record} {line : List Char} (h : r.render? = some line) :
    parse? line = some r := by
  obtain ⟨path, hpath, rfl⟩ := Option.map_eq_some_iff.mp h
  rw [parse?, line_eq, parse?_objectText]
  exact ofJson?_found hpath

/-- Nothing is left behind the line of a record. -/
theorem spent_render {r : Record} {line : List Char} (h : r.render? = some line) : Spent line := by
  obtain ⟨path, -, rfl⟩ := Option.map_eq_some_iff.mp h
  rw [line_eq]
  exact spent_objectText _ _

/-- **A line with a broken record in front is not read**, whatever records follow on it. -/
theorem parse?_broken (r : Record) {rest : List Char} (h : Spent rest) :
    parse? (r.start ++ rest) = none := by
  rw [parse?, start_eq, parse?_brokenText _ _ h]
  rfl

/-- A record that breaks off leaves nothing behind, whatever follows. -/
theorem spent_broken (r : Record) {rest : List Char} (h : Spent rest) :
    Spent (r.start ++ rest) := by
  rw [start_eq]
  exact spent_of_none (value?_brokenText _ _ h)

end Record

end Courier
