import Courier.Proofs.Delivery
import Courier.Proofs.Exchange
import Courier.Proofs.Json
import Courier.Proofs.Lines

/-!
# Lines of the event log

Every event is written as its time in brackets, its text, and the end of a line. The texts that an
event is made from are written as they are. So an event is one line if there is no end of a line in
any of them, and one line more for each that there is.

A peer chooses the path that it asks for, and nothing keeps the end of a line out of a path.

Main results:

* `Event.count_text` — the ends of lines in an event are those in its texts.
* `EventLog.holds_noteAll` — the file grows by what is written for each event, and by nothing else.
* `EventLog.lines_noteAll` — the lines of the log are those of the events exactly if no text has the
  end of a line in it.
-/

namespace Courier

/-! ## What is written for an event -/

/-- A padded number is digits, which show. -/
theorem Decimal.printed_padded (width n : Nat) : Json.Printed (Decimal.padded width n) := by
  intro c hc
  rcases List.mem_append.mp hc with h | h
  · rw [(List.mem_replicate.mp h).2]
    decide
  · exact Json.printed_digits n c h

/-- A time is digits and signs. -/
theorem Timestamp.printed_renderChars (wall : Int) : Json.Printed (Timestamp.renderChars wall) := by
  have hyear (year : Int) : Json.Printed (yearText year) := by
    unfold yearText
    split
    · exact Decimal.printed_padded _ _
    · exact Json.printed_cons.mpr ⟨by split <;> decide, Decimal.printed_padded _ _⟩
  have hpoint (width n : Nat) : Json.Printed ('.' :: Decimal.padded width n) :=
    Json.printed_cons.mpr ⟨by decide, Decimal.printed_padded _ _⟩
  have hfraction (nanos : Nat) : Json.Printed (fraction nanos) := by
    unfold fraction
    split
    · exact Json.printed_nil
    · split
      · exact hpoint _ _
      · split <;> exact hpoint _ _
  unfold renderChars
  simp [Json.printed_append, Json.printed_cons, Json.printed_nil, hyear, hfraction,
    Decimal.printed_padded]

/-- And so is a fraction. -/
theorem Double.printed_fixed (decimals : Nat) (d : Double) :
    Json.Printed (d.fixed decimals).toList := by
  have hsign (negative : Bool) : Json.Printed (if negative then ['-'] else []) := by
    cases negative <;> exact Json.printed_of_all (by decide)
  cases d with
  | notANumber =>
    show Json.Printed "NaN".toList
    exact Json.printed_of_all (by decide)
  | infinite negative =>
    show Json.Printed (if negative then "-inf" else "inf").toList
    cases negative <;> exact Json.printed_of_all (by decide)
  | finite negative m e =>
    have hdecimals (n : Nat) : Json.Printed
        (if decimals = 0 then [] else '.' :: Decimal.padded decimals n) := by
      split
      · exact Json.printed_nil
      · exact Json.printed_cons.mpr ⟨by decide, Decimal.printed_padded _ _⟩
    unfold Double.fixed
    dsimp only
    rw [String.toList_ofList]
    refine Json.printed_append.mpr ⟨hsign negative, ?_⟩
    exact Json.printed_append.mpr ⟨Json.printed_digits _, hdecimals _⟩

/-- Where no control character is written no line ends. -/
theorem count_of_printed {cs : List Char} (h : Json.Printed cs) : cs.count '\n' = 0 := by
  rw [List.count_eq_zero]
  intro hmem
  exact absurd (h _ hmem) (by decide)

/-- There is no line feed in a number. -/
theorem count_toDigits (n : Nat) : (Nat.toDigits 10 n).count '\n' = 0 := by
  rw [List.count_eq_zero]
  intro h
  exact absurd (Nat.isDigit_of_mem_toDigits (by decide) (by decide) h) (by decide)

namespace Event

/-- The texts that an event is made from, but for numbers and fixed words. -/
def texts : Event → List String
  | .listening address root _ => [address, root.display]
  | .session peer _ path => [peer, path]
  | .done _ path _ _ => [path.display]
  | .error context path message => [context, path.display, message]

/-- The characters of the texts of an event. -/
def characters (e : Event) : List Char :=
  e.texts.flatMap String.toList

/-- How many lines end within the texts of an event. -/
def breaks (e : Event) : Nat :=
  e.characters.count '\n'

/-- **The ends of lines in an event are those in its texts.** -/
theorem count_text (e : Event) : e.text.toList.count '\n' = e.breaks := by
  have hcommand (c : Command) : c.text.toList.count '\n' = 0 := by cases c <;> decide
  have hdirection (d : Direction) : d.text.toList.count '\n' = 0 := by cases d <;> decide
  have hfixed (d : Double) : (d.fixed 3).toList.count '\n' = 0 :=
    count_of_printed (Double.printed_fixed 3 d)
  cases e <;>
    delta text breaks characters texts <;>
    simp [toString, count_toDigits, hcommand, hdirection, hfixed]

end Event

/-! ## The lines of the log -/

/-- The ends of lines in the octets of a text. -/
theorem Utf8.count_encodeChars (cs : List Char) :
    (Utf8.encodeChars cs).count 0x0A = cs.count '\n' := by
  -- by induction on the text; no other character has such an octet in it
  induction cs with
  | nil => rfl
  | cons c cs ih =>
    have hcons : Utf8.encodeChars (c :: cs) = Utf8.encodeChar c ++ Utf8.encodeChars cs := rfl
    have hone : (Utf8.encodeChar c).count 0x0A = if c = '\n' then 1 else 0 := by
      split
      · rename_i hc
        rw [hc]
        decide
      · rename_i hc
        rw [List.count_eq_zero, Utf8.mem_encodeChar (by decide)]
        intro heq
        exact hc (Char.toNat_inj.mp heq)
    rw [hcons, List.count_append, hone, ih, List.count_cons]
    simp only [beq_iff_eq]
    exact Nat.add_comm ..

namespace EventLog

/-- What stands in front of each event. -/
def stamp (clock : Clock) : Bytes :=
  bytes s!"[{Timestamp.render clock.wall}] "

/-- What is written for an event, but for the end of its line. -/
def entry (noted : Clock × Event) : Bytes :=
  stamp noted.1 ++ bytes noted.2.text

/-- An entry as it is read: a return at its end counts as part of the end of the line. -/
def readEntry (noted : Clock × Event) : Bytes :=
  Text.closeLine 0x0D (entry noted).reverse

/-- What is written for some events. -/
def written (noted : List (Clock × Event)) : Bytes :=
  noted.flatMap fun n => entry n ++ [0x0A]

/-- No event has left anything. -/
@[simp]
theorem written_nil : written [] = [] :=
  rfl

/-- Events leave their lines one behind the other. -/
theorem written_append (noted later : List (Clock × Event)) :
    written (noted ++ later) = written noted ++ written later :=
  List.flatMap_append

/-- Notes events one after the other. -/
def noteAll (log : EventLog) (noted : List (Clock × Event)) (fs : Files) : Files :=
  noted.foldl (fun fs n => log.note n.1 n.2 fs) fs

/-- A line is its entry and the line feed at its end. -/
theorem bytes_line (noted : Clock × Event) :
    bytes (line noted.1.wall noted.2) = entry noted ++ [0x0A] := by
  unfold line entry stamp bytes Utf8.encode
  simp only [String.toList_append, Utf8.encodeChars_append, List.append_assoc]
  rfl

/-- All other line feeds of a line come from its texts. -/
theorem count_entry (noted : Clock × Event) : (entry noted).count 0x0A = noted.2.breaks := by
  have htime : (Timestamp.render noted.1.wall).toList.count '\n' = 0 := by
    rw [Timestamp.render, String.toList_ofList]
    exact count_of_printed (Timestamp.printed_renderChars _)
  unfold entry stamp bytes Utf8.encode
  rw [List.count_append, Utf8.count_encodeChars, Utf8.count_encodeChars, Event.count_text]
  simp [String.toList_append, toString, htime]

/-- Each entry begins with its time, also as it is read. -/
theorem stamp_prefix_readEntry (noted : Clock × Event) : stamp noted.1 <+: readEntry noted := by
  have hstamp : stamp noted.1 = bytes s!"[{Timestamp.render noted.1.wall}]" ++ [0x20] := by
    unfold stamp bytes Utf8.encode
    simp only [String.toList_append, Utf8.encodeChars_append, List.append_assoc]
    rfl
  unfold readEntry entry
  rw [hstamp]
  exact Text.prefix_closeLine (by decide) _ _

/-- **The log grows by what is written for each event**, in order, and by nothing else. -/
theorem holds_noteAll {log : EventLog} {handle : FileHandle} {fs : Files} {mode : Nat}
    {content : Bytes} (noted : List (Clock × Event)) (hopen : log.handle = some handle)
    (hholds : fs.Holds handle mode content)
    (hroom : fs.Room (content ++ written noted).length) :
    (log.noteAll noted fs).Holds handle mode (content ++ written noted) := by
  -- by induction on the events, each of which finds the lines of those before it
  induction noted generalizing fs content with
  | nil =>
    rw [written_nil, List.append_nil]
    exact hholds
  | cons n noted ih =>
    have hcons : content ++ written (n :: noted) =
        content ++ (entry n ++ [0x0A]) ++ written noted := by
      simp [written]
    rw [hcons] at hroom ⊢
    have hnote : log.note n.1 n.2 fs = (fs.append handle (entry n ++ [0x0A])).2 := by
      rw [note, hopen, ← bytes_line]
    have hfits : fs.Room (content ++ (entry n ++ [0x0A])).length := hroom.mono rfl <| by
      simp only [List.length_append]
      omega
    have hadded := Files.append_of_room _ hholds hfits
    rw [noteAll, List.foldl_cons, hnote]
    exact ih hadded (hroom.mono (Files.sizeLimit_of_disk (Files.disk_append ..)) (Nat.le_refl _))

/-- What is written is all entries, each with a line feed behind it. -/
theorem written_eq (noted : List (Clock × Event)) :
    written noted = (noted.map entry).flatMap fun xs => xs ++ [0x0A] := by
  rw [List.flatMap_map]
  rfl

/-- The lines of what is written: one for each event, and one for each end of a line in its
texts. -/
theorem length_lines_written (noted : List (Clock × Event)) :
    (Text.lines 0x0A 0x0D (written noted)).length =
      noted.length + (noted.flatMap fun n => n.2.characters).count '\n' := by
  have hbreaks : (noted.map entry).flatten.count 0x0A =
      (noted.flatMap fun n => n.2.characters).count '\n' := by
    -- by induction on the events: a line more for each, and for each line feed in its texts
    induction noted with
    | nil => rfl
    | cons n noted ih =>
      rw [List.map_cons, List.flatten_cons, List.count_append, List.flatMap_cons,
        List.count_append, ih, count_entry]
      rfl
  rw [written_eq, Text.length_lines_entries, hbreaks, List.length_map]

/-- The lines are the entries, if no text of an event ends a line, and only then. -/
theorem lines_written_iff (noted : List (Clock × Event)) :
    Text.lines 0x0A 0x0D (written noted) = noted.map readEntry ↔
      ∀ n ∈ noted, ∀ t ∈ n.2.texts, '\n' ∉ t.toList := by
  constructor
  -- there is one line more for each line feed in a text, so with as many lines as entries there is
  -- none
  · intro hlines n hn t ht hmem
    have hlength := length_lines_written noted
    rw [hlines, List.length_map] at hlength
    have hnone : '\n' ∉ noted.flatMap fun n => n.2.characters := List.count_eq_zero.mp (by omega)
    exact hnone (List.mem_flatMap.mpr ⟨n, hn, List.mem_flatMap.mpr ⟨t, ht, hmem⟩⟩)
  -- the only line feed of an entry is the one at its end
  · intro hbreaks
    have hentries : ∀ xs ∈ noted.map entry, 0x0A ∉ xs := by
      intro xs hxs
      obtain ⟨n, hn, rfl⟩ := List.mem_map.mp hxs
      rw [← List.count_eq_zero, count_entry]
      refine List.count_eq_zero.mpr fun hmem => ?_
      obtain ⟨t, ht, hchar⟩ := List.mem_flatMap.mp hmem
      exact hbreaks n hn t ht hchar
    have hread : readEntry = fun n => Text.closeLine 0x0D (entry n).reverse := by
      funext n
      rw [readEntry]
    rw [written_eq, Text.lines_entries hentries, hread]
    simp only [List.map_map, Function.comp_def]

/-- **The lines of the log are the events**, each with its time in front, exactly if no text of any
of them ends a line. Each end of a line in a text makes one line more. -/
theorem lines_noteAll {log : EventLog} {handle : FileHandle} {fs : Files} {mode : Nat}
    {content : Bytes} (noted : List (Clock × Event)) (hopen : log.handle = some handle)
    (hholds : fs.Holds handle mode content)
    (hroom : fs.Room (content ++ written noted).length) :
    (log.noteAll noted fs).Holds handle mode (content ++ written noted) ∧
      (Text.lines 0x0A 0x0D (written noted)).length =
        noted.length + (noted.flatMap fun n => n.2.characters).count '\n' ∧
      (Text.lines 0x0A 0x0D (written noted) = noted.map readEntry ↔
        ∀ n ∈ noted, ∀ t ∈ n.2.texts, '\n' ∉ t.toList) ∧
      ∀ n ∈ noted, stamp n.1 <+: readEntry n :=
  ⟨holds_noteAll noted hopen hholds hroom, length_lines_written noted, lines_written_iff noted,
    fun n _ => stamp_prefix_readEntry n⟩

/-- Two notes of one peer, the second of them on a path in which a line ends. -/
def notedTwice : List (Clock × Event) :=
  [(default, .session "peer" .store "file.txt"), (default, .session "peer" .store "file\n.txt")]

/-- The files of a listener with an empty log. -/
def logFiles : Files :=
  { tree := ⟨[([], .folder 0o755), ([bytes "srv"], .folder 0o755),
      ([bytes "log"], .file 0o644 0 [])]⟩
    here := [] }

/-- That log, opened. -/
def opened : EventLog :=
  ⟨some ⟨[bytes "log"], 0⟩⟩

/-- The log is there, and is empty. -/
theorem holds_logFiles : logFiles.Holds ⟨[bytes "log"], 0⟩ 0o644 [] :=
  show logFiles.tree.get? [bytes "log"] = some (.file 0o644 0 []) by decide

/-- And nothing limits it. -/
theorem room_logFiles (size : Nat) : logFiles.Room size := by
  intro limit hlimit
  cases hlimit

/-- Two events with one line feed in their texts leave three lines. -/
theorem lines_noteAll_twice :
    opened.handle = some ⟨[bytes "log"], 0⟩ ∧
      logFiles.Holds ⟨[bytes "log"], 0⟩ 0o644 [] ∧
      logFiles.Room ([] ++ written notedTwice).length ∧
      (Text.lines 0x0A 0x0D (written notedTwice)).length = 3 := by
  have hroom := room_logFiles ([] ++ written notedTwice).length
  obtain ⟨-, hlength, -, -⟩ := lines_noteAll notedTwice rfl holds_logFiles hroom
  exact ⟨rfl, holds_logFiles, hroom, hlength.trans (by decide)⟩

/-! ## Forged lines -/

/-- A path in which a line ends gives the log a line of its own, which may be any text. -/
theorem lines_forged (clock : Clock) {peer front forged : String} (command : Command)
    (hfront : (Event.session peer command front).breaks = 0) (hforged : '\n' ∉ forged.toList) :
    Text.lines 0x0A 0x0D (written [(clock, .session peer command (front ++ "\n" ++ forged))]) =
      [readEntry (clock, .session peer command front),
        Text.closeLine 0x0D (bytes forged).reverse] := by
  -- the path stands at the end of its entry, so that what follows the line feed is all of the next
  -- line
  have hentry : entry (clock, .session peer command (front ++ "\n" ++ forged)) =
      entry (clock, .session peer command front) ++ 0x0A :: bytes forged := by
    unfold entry bytes Utf8.encode
    delta Event.text
    simp only [String.toList_append, toString, Utf8.encodeChars_append, List.append_assoc]
    rfl
  have hhead : 0x0A ∉ entry (clock, .session peer command front) := by
    rw [← List.count_eq_zero, count_entry]
    exact hfront
  have htail : 0x0A ∉ bytes forged := by
    rw [← List.count_eq_zero, bytes, Utf8.encode, Utf8.count_encodeChars, List.count_eq_zero]
    exact hforged
  rw [written, List.flatMap_singleton, hentry, List.append_assoc, List.cons_append,
    Text.lines_append_feed hhead, Text.lines_append_feed htail, Text.lines_nil, readEntry]

/-- What a peer would have the log say. -/
def forgery : String :=
  "[2001-01-01T00:00:00+00:00] DONE dir=receive path=/srv/key bytes=1 seconds=0.001"

end EventLog

namespace Session

open EventLog

/-- A peer that asks for a path with a line of its own making at the end. -/
def askForged : Header :=
  ⟨.retrieve, "../" ++ "\n" ++ forgery⟩

/-- The one event that there is of it. -/
def forgedAt (clock : Clock) : List (Clock × Event) :=
  [(clock, .session "peer" askForged.command askForged.path)]

/-- **A peer writes a line of its own into the log.** The session is refused, and is one event. -/
theorem run_forges_line :
    let ctx : Context := { root := .of "srv", settings := {}, log := opened }
    let served := run ctx "peer" (sending askForged.octets) ⟨logFiles, default, {}, none⟩
    logFiles.Holds ⟨[bytes "log"], 0⟩ 0o644 [] ∧ (∃ e, served.1 = .error e) ∧
      ∃ clock content, served.2.2.files.Holds ⟨[bytes "log"], 0⟩ 0o644 content ∧
        Text.lines 0x0A 0x0D content =
          [readEntry (clock, .session "peer" .retrieve "../"), bytes forgery] := by
  intro ctx served
  have hdelivers : Delivers 3 askForged.octets.length 0 (askForged.octets ++ [])
      (sending askForged.octets).inbound.arrivals := by
    rw [List.append_nil]
    exact .of_bytes ..
  obtain ⟨t, b, hread, -⟩ := Header.read_of_delivers (h := askForged)
    (sending askForged.octets).inbound default (by decide) hdelivers
  obtain ⟨hrun, -⟩ := run_of_read ctx "peer" (m := ⟨logFiles, default, {}, none⟩) hread
  -- the path goes up, so it is refused whatever the files are; the event is noted before that
  have hrefused (fs : Files) : ∃ e, resolve fs ctx.root (.of askForged.path) = .error e := by
    have hnames : ∃ e, requestedNames (.of askForged.path) = .error e :=
      ⟨_, if_pos (by decide)⟩
    obtain ⟨e, he⟩ := hnames
    exact ⟨e, by rw [resolve, he]⟩
  obtain ⟨e, he⟩ := hrefused (opening ctx "peer" askForged b.clock logFiles)
  have hserved : served = (.error e, { sending askForged.octets with inbound := t },
      ⟨opening ctx "peer" askForged b.clock logFiles, b, {}, none⟩) :=
    hrun.trans (serve_eq_error (m := ⟨logFiles, b, {}, none⟩) he)
  have hnoted : opening ctx "peer" askForged b.clock logFiles =
      opened.noteAll (forgedAt b.clock) logFiles := by
    unfold opening forgedAt noteAll
    rfl
  have hholds : (opened.noteAll (forgedAt b.clock) logFiles).Holds ⟨[bytes "log"], 0⟩ 0o644
      ([] ++ written (forgedAt b.clock)) := holds_noteAll _ rfl holds_logFiles (room_logFiles _)
  have hfront : (Event.session "peer" .retrieve "../").breaks = 0 := by decide
  have hforged : '\n' ∉ forgery.toList := by decide
  have hlines := lines_forged b.clock .retrieve hfront hforged
  rw [Text.closeLine_reverse (by decide)] at hlines
  rw [List.nil_append] at hholds
  refine ⟨holds_logFiles, ⟨e, by rw [hserved]⟩, b.clock, written (forgedAt b.clock), ?_, hlines⟩
  rw [hserved]
  dsimp only
  rw [hnoted]
  exact hholds

end Session

end Courier
