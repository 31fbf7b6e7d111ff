import Courier.Proofs.Agree
import Courier.Proofs.Lines
import Courier.Proofs.RecordLine

/-!
# What is read from a journal

A record leaves its line at the end of the journal. A record whose path is no text leaves the start
of its line, without an end: the next record goes on behind it, and that line is never read.

So a journal reads back as long as nothing but texts were added, and not at all once something else
was. A caller that is told of an error is not told of that.

Main results:

* `Files.stat_of_seek` — a file that is added to is the one that is read.
* `Journal.recordsOnto_lines`, `Journal.records_broken` — what is read of a content, with and
  without a broken line in it.
* `Journal.Keeps.add` — what one record does to a journal.
* `Journal.read_addAll` — a journal of texts reads back.
* `Journal.read_addAll_iff` — it reads back exactly if no record failed.
-/

namespace Courier

/-! ## Reading where a write goes -/

section Walk

variable {t : Tree}

/-- The last step of a route that ends in a name. -/
theorem walk_last {links left : Nat} {r : Route} {l : Location} {name : Name}
    (happ : approach t links r = .ok (l, left)) (hslash : r.slashAtEnd = false)
    (hlast : r.lastName? = some name) (hshort : ¬ Route.maxName < name.length) :
    walk t links r.start r.allSteps =
      match t.get? (l ++ [name]) with
      | none => .error .noEntry
      | some (.link target) =>
        match left with
        | 0 => .error .tooManyLinks
        | left + 1 =>
          walk t left (Route.ofPath l target).start (Route.ofPath l target).allSteps
      | some _ => .ok (l ++ [name], left) := by
  obtain ⟨hwalk, hfolder⟩ := Files.approach_eq_ok.mp happ
  obtain ⟨mode, hmode⟩ := Tree.shape_eq_folder.mp hfolder
  have hname : r.steps.getLast? = some name ∧ isStay name = false ∧ isUp name = false := by
    unfold Route.lastName? at hlast
    split at hlast
    · cases hlast
    · split at hlast
      · cases hlast
      · cases hlast
        simp_all
  obtain ⟨hgetLast, hstay, hup⟩ := hname
  obtain ⟨before, hsteps⟩ := List.getLast?_eq_some_iff.mp hgetLast
  have hall : r.allSteps = r.steps.dropLast ++ [name] := by
    rw [Route.allSteps, hslash, hsteps, List.dropLast_concat]
    rfl
  -- the walk comes to the folder as before, and one step is left
  rw [hall, walk_append hwalk, walk, hmode]
  simp only [hstay, hup, if_neg hshort, Bool.false_eq_true, if_false]
  cases t.get? (l ++ [name]) with
  | none => rfl
  | some e =>
    cases e with
    | file => rw [walk]
    | folder => rw [walk]
    | link target =>
      cases left with
      | zero => rfl
      | succ left => simp only [List.append_nil]

/-- A path leads a reader where it leads a writer, if something is there. -/
theorem walk_of_seek {links : Nat} {r : Route} {l : Location} {found : Option Entry}
    (h : seek t links r = .ok (l, found)) :
    ∃ left, walk t links r.start r.allSteps =
      if found.isSome then .ok (l, left) else .error .noEntry := by
  -- by the cases of the search that end somewhere; a reader makes the same last step
  fun_induction seek t links r with
  | case3 links r m left happ name hlast hslash hshort hnone =>
    cases h
    exact ⟨left, by rw [walk_last happ hslash hlast hshort, hnone]; rfl⟩
  | case5 links r m left happ name hlast hslash hshort mode serial content hfile =>
    cases h
    exact ⟨left, by rw [walk_last happ hslash hlast hshort, hfile]; rfl⟩
  | case7 links r m name hlast hslash hshort target hlink left happ _ ih =>
    obtain ⟨left', hleft⟩ := ih h
    exact ⟨left', by rw [walk_last happ hslash hlast hshort, hlink, ← hleft]⟩
  | case1 | case2 | case4 | case6 | case8 => cases h

end Walk

namespace Files

variable {fs : Files} {p : Path} {l : Location}

/-- A file that is added to is the one that is read. -/
theorem stat_of_seek {e : Entry}
    (h : (fs.route? p >>= seek fs.tree maxLinks) = .ok (l, some e)) : fs.stat p = .ok (l, e) := by
  cases hroute : fs.route? p with
  | error f =>
    rw [hroute] at h
    cases h
  | ok r =>
    obtain ⟨rfl, -⟩ := route?_eq_ok hroute
    rw [hroute] at h
    have hseek : seek fs.tree maxLinks (Route.ofPath fs.here p) = .ok (l, some e) := h
    obtain ⟨left, hwalk⟩ := walk_of_seek hseek
    exact stat_of_walk hroute hwalk (Courier.get?_of_seek hseek).1

/-- Where a new file would be made there is nothing to be read. -/
theorem stat_of_seek_none
    (h : (fs.route? p >>= seek fs.tree maxLinks) = .ok (l, none)) :
    fs.stat p = .error .noEntry := by
  cases hroute : fs.route? p with
  | error f =>
    rw [hroute] at h
    cases h
  | ok r =>
    rw [hroute] at h
    obtain ⟨left, hwalk⟩ := walk_of_seek (show seek fs.tree maxLinks r = .ok (l, none) from h)
    simp only [Option.isSome_none, Bool.false_eq_true, if_false] at hwalk
    simp only [stat, hroute, bind, Except.bind, endOf, hwalk]

/-- Something that can be looked up stays when something is added to the tree. -/
theorem stat_isOk_mono {fs' : Files} (hhere : fs'.here = fs.here)
    (hshown : fs.tree.ShownBy fs'.tree) (h : fs.existsAt p = true) : fs'.existsAt p = true := by
  unfold existsAt at h ⊢
  cases hstat : fs.stat p with
  | error f =>
    rw [hstat] at h
    cases h
  | ok found =>
    obtain ⟨e', he'⟩ := stat_mono hshown hhere hstat
    rw [he']
    rfl

end Files

open Json Utf8

namespace Record

/-- The path of the record is text, so there is a line for it. -/
def isText (r : Record) : Bool :=
  (decode? r.path.text).isSome

/-- There is a line for a record just when its path is text. -/
theorem isText_iff {r : Record} : r.isText = true ↔ ∃ line, r.render? = some line := by
  unfold isText render?
  cases decode? r.path.text <;> simp

/-- And none when it is not. -/
theorem render?_eq_none {r : Record} (h : r.isText = false) : r.render? = none := by
  cases hrender : r.render? with
  | none => rfl
  | some line =>
    rw [isText_iff.mpr ⟨line, hrender⟩] at h
    cases h

end Record

/-! ## Lines without control characters -/

/-- Where no control character is written there is no end of a line. -/
theorem notMem_of_printed {cs : List Char} {b : UInt8} (h : Printed cs) (hb : b.toNat < 0x20) :
    b ∉ encodeChars cs := by
  intro hmem
  obtain ⟨c, hc, heq⟩ := (mem_encodeChars (by omega)).mp hmem
  have hshown : 0x20 ≤ c.toNat := h c hc
  omega

/-- A printed line with an end behind it is one line, whatever follows. -/
theorem lines_closed {line : List Char} (h : Printed line) (rest : Bytes) :
    Text.lines 0x0A 0x0D (encodeChars line ++ 0x0A :: rest) =
      encodeChars line :: Text.lines 0x0A 0x0D rest := by
  have hfeed : (0x0A : UInt8) ∉ encodeChars line := notMem_of_printed h (by decide)
  have hret : (0x0D : UInt8) ∉ encodeChars line := notMem_of_printed h (by decide)
  rw [Text.lines_append_feed hfeed, Text.closeLine_reverse hret]

/-- So is one at the end of a file, without an end of its own. -/
theorem lines_open {line : List Char} (h : Printed line) (hne : encodeChars line ≠ []) :
    Text.lines 0x0A 0x0D (encodeChars line) = [encodeChars line] :=
  Text.lines_of_notMem (notMem_of_printed h (by decide)) hne

/-- A line that shows something is not taken for a blank one. -/
theorem trim_ne_nil {c : Char} (h : Text.isBlank c = false) (cs : List Char) :
    Text.trim (c :: cs) ≠ [] := by
  unfold Text.trim
  -- the first character stays at both ends
  rw [List.dropWhile_cons_of_neg (by simp [h]), List.reverse_cons, List.dropWhile_append]
  split <;> simp [h]

namespace Journal

/-! ## What records leave in a file -/

/-- What records leave, one behind the other. -/
def written (rs : List Record) : Bytes :=
  rs.flatMap trace

/-- Whether a record was added. -/
def outcome (r : Record) : Except AddError Unit :=
  if r.isText then .ok () else .error .pathNotText

/-- No record has left anything. -/
@[simp]
theorem written_nil : written [] = [] :=
  rfl

/-- Records leave their traces one behind the other. -/
theorem written_append (rs rs' : List Record) : written (rs ++ rs') = written rs ++ written rs' :=
  List.flatMap_append

/-- One record leaves its trace. -/
theorem written_singleton (r : Record) : written [r] = trace r := by
  simp [written]

/-- A record with a line leaves that line, and its end. -/
theorem trace_of_render {r : Record} {line : List Char} (h : r.render? = some line) :
    trace r = encodeChars line ++ [0x0A] := by
  rw [trace, h]
  exact encodeChars_append _ _

/-- One without a line leaves the start of it, and no end. -/
theorem trace_broken {r : Record} (h : r.isText = false) : trace r = encodeChars r.start := by
  rw [trace, Record.render?_eq_none h]

/-- The line of a record begins with a brace. -/
theorem exists_brace {r : Record} {line : List Char} (h : r.render? = some line) :
    ∃ rest, line = '\x7b' :: rest := by
  obtain ⟨path, -, rfl⟩ := Option.map_eq_some_iff.mp h
  exact ⟨_, rfl⟩

/-- That start is at least a brace, so something stays in any case. -/
theorem start_ne_nil (r : Record) (rest : List Char) : encodeChars (r.start ++ rest) ≠ [] := by
  have hbrace : (0x7B : UInt8) ∈ encodeChars (r.start ++ rest) :=
    (mem_encodeChars (by decide)).mpr ⟨'\x7b', by simp [Record.start], rfl⟩
  exact List.ne_nil_of_mem hbrace

/-- The line of a record is read, whatever lines follow. -/
theorem recordsOnto_line (read : List Record) {r : Record} {line : List Char}
    (h : r.render? = some line) (rest : List Bytes) :
    recordsOnto read (encodeChars line :: rest) = recordsOnto (r :: read) rest := by
  have hshown : (Text.trim line).isEmpty = false := by
    obtain ⟨more, rfl⟩ := exists_brace h
    simpa using trim_ne_nil (show Text.isBlank '\x7b' = false by decide) more
  rw [recordsOnto, decode?_encodeChars]
  simp only [String.toList_ofList, hshown, Bool.false_eq_true, if_false, Record.parse?_render h]

/-- A line that begins with a broken record is not read. -/
theorem recordsOnto_broken (read : List Record) (r : Record) {tail : List Char} (h : Spent tail)
    (rest : List Bytes) :
    recordsOnto read (encodeChars (r.start ++ tail) :: rest) =
      .error (.noRecord (String.ofList (r.start ++ tail))) := by
  have hshown : (Text.trim (r.start ++ tail)).isEmpty = false := by
    simpa [Record.start] using
      trim_ne_nil (show Text.isBlank '\x7b' = false by decide) (r.start ++ tail).tail
  rw [recordsOnto, decode?_encodeChars]
  simp only [String.toList_ofList, hshown, Bool.false_eq_true, if_false, Record.parse?_broken r h]

/-- Whole lines are read one by one. -/
theorem recordsOnto_lines (read : List Record) {rs : List Record} (h : ∀ r ∈ rs, r.isText = true)
    (rest : Bytes) :
    recordsOnto read (Text.lines 0x0A 0x0D (written rs ++ rest)) =
      recordsOnto (rs.reverse ++ read) (Text.lines 0x0A 0x0D rest) := by
  -- by induction on the records, onto those that were read before
  induction rs generalizing read with
  | nil => rfl
  | cons r rs ih =>
    obtain ⟨hr, hrs⟩ := List.forall_mem_cons.mp h
    obtain ⟨line, hline⟩ := Record.isText_iff.mp hr
    have hcons : written (r :: rs) ++ rest = encodeChars line ++ 0x0A :: (written rs ++ rest) := by
      simp [written, trace_of_render hline]
    rw [hcons, lines_closed (Record.printed_render hline), recordsOnto_line _ hline, ih _ hrs]
    simp

/-- The records of whole lines. -/
theorem records_written {rs : List Record} (h : ∀ r ∈ rs, r.isText = true) :
    records (written rs) = .ok rs := by
  have hlines := recordsOnto_lines [] h []
  rw [List.append_nil, List.append_nil, Text.lines_nil, recordsOnto, List.reverse_reverse] at hlines
  exact hlines

/-- What stands before the end of a line, or of the file: the line of the first record, behind
those that broke off in front of it. -/
theorem exists_tail (rs : List Record) :
    ∃ tail, Spent tail ∧ Printed tail ∧
      (written rs = encodeChars tail ∨ ∃ rest, written rs = encodeChars tail ++ 0x0A :: rest) := by
  -- by induction on the records: a whole line ends the tail, a broken one only adds to it
  induction rs with
  | nil => exact ⟨[], spent_nil, printed_nil, .inl rfl⟩
  | cons r rs ih =>
    have hcons : written (r :: rs) = trace r ++ written rs := rfl
    cases hr : r.isText with
    | true =>
      obtain ⟨line, hline⟩ := Record.isText_iff.mp hr
      refine ⟨line, Record.spent_render hline, Record.printed_render hline, .inr ⟨written rs, ?_⟩⟩
      rw [hcons, trace_of_render hline]
      simp
    | false =>
      obtain ⟨tail, hspent, hprinted, htail⟩ := ih
      refine ⟨r.start ++ tail, r.spent_broken hspent,
        printed_append.mpr ⟨r.printed_start, hprinted⟩, ?_⟩
      rw [hcons, trace_broken hr, encodeChars_append]
      rcases htail with htail | ⟨rest, htail⟩
      · exact .inl (by rw [htail])
      · exact .inr ⟨rest, by rw [htail, List.append_assoc]⟩

/-- **A broken line is not read**, and neither is the journal that it is in. -/
theorem records_broken {rs : List Record} (h : ∃ r ∈ rs, r.isText = false) :
    ∃ line, records (written rs) = .error (.noRecord line) := by
  -- the first record that broke off, and whole lines in front of it
  obtain ⟨before, r, after, rfl, hr, hbefore⟩ : ∃ before r after, rs = before ++ r :: after ∧
      r.isText = false ∧ ∀ r ∈ before, r.isText = true := by
    obtain ⟨r, hmem, hr⟩ := h
    have hsome : (rs.find? fun r => !r.isText).isSome := by
      rw [List.find?_isSome]
      exact ⟨r, hmem, by simp [hr]⟩
    obtain ⟨first, hfirst⟩ := Option.isSome_iff_exists.mp hsome
    obtain ⟨hnot, before, after, heq, hbefore⟩ := List.find?_eq_some_iff_append.mp hfirst
    exact ⟨before, first, after, heq, by simpa using hnot, fun r hr => by simpa using hbefore r hr⟩
  obtain ⟨tail, hspent, hprinted, htail⟩ := exists_tail after
  have hline : Printed (r.start ++ tail) := printed_append.mpr ⟨r.printed_start, hprinted⟩
  have hwritten : written (before ++ r :: after) =
      written before ++ (encodeChars r.start ++ written after) := by
    rw [written_append, ← trace_broken hr]
    rfl
  refine ⟨String.ofList (r.start ++ tail), ?_⟩
  rw [records, hwritten, recordsOnto_lines [] hbefore]
  -- the broken line ends with the file, or with the next whole record
  rcases htail with htail | ⟨rest, htail⟩
  · rw [htail, ← encodeChars_append, lines_open hline (start_ne_nil r tail)]
    exact recordsOnto_broken _ r hspent _
  · rw [htail, ← List.append_assoc, ← encodeChars_append, lines_closed hline]
    exact recordsOnto_broken _ r hspent _

/-! ## Adding to a journal -/

/-- The journal's path leads to a file with this content. A file that is missing has none, and can
be made. -/
inductive Keeps (journal : Path) (fs : Files) : Bytes → Prop
  | missing {l : Location} (hseek : ((makeRoom journal fs).route? journal >>=
      seek (makeRoom journal fs).tree maxLinks) = .ok (l, none)) : Keeps journal fs []
  | file {l : Location} {mode serial : Nat} {content : Bytes} (hkept : KeptAt journal fs l)
      (hfile : fs.tree.get? l = some (.file mode serial content)) : Keeps journal fs content

/-- What is in the journal; nothing if there is no such file. -/
def content (journal : Path) (fs : Files) : Bytes :=
  match fs.read journal with
  | .ok content => content
  | .error _ => []

/-- Adds records one after the other, and says of each whether it was added. -/
def addAll (journal : Path) : List Record → Files → List (Except AddError Unit) × Files
  | [], fs => ([], fs)
  | r :: rs, fs =>
    let (added, fs) := add journal r fs
    let (later, fs) := addAll journal rs fs
    (added :: later, fs)

section Keeps

variable {journal : Path} {fs : Files}

/-- Where the disk takes what is written, a record fails for its path alone. -/
theorem add_of_written {handle : FileHandle} {fs₁ fs₂ : Files} {r : Record}
    (hopen : (makeRoom journal fs).openToAppend journal = (.ok handle, fs₁))
    (hwritten : fs₁.append handle (trace r) = (.ok (), fs₂)) :
    add journal r fs = (outcome r, fs₂) := by
  unfold add outcome
  unfold trace at hwritten
  rw [hopen]
  dsimp only
  -- with a text for its path the record is rendered, otherwise only its start is
  cases htext : r.isText with
  | true =>
    obtain ⟨line, hline⟩ := Record.isText_iff.mp htext
    rw [hline] at hwritten ⊢
    dsimp only at hwritten ⊢
    rw [hwritten]
    rfl
  | false =>
    rw [Record.render?_eq_none htext] at hwritten ⊢
    dsimp only at hwritten ⊢
    rw [hwritten]
    rfl

/-- A file with the content is opened when something is to be added, an empty one if it was
missing. -/
theorem Keeps.opened {old : Bytes} (h : Keeps journal fs old) :
    ∃ handle fs₁ mode, (makeRoom journal fs).openToAppend journal = (.ok handle, fs₁) ∧
      KeptAt journal fs₁ handle.location ∧ fs₁.Holds handle mode old ∧
      fs₁.sizeLimit = fs.sizeLimit := by
  have hroom : (makeRoom journal fs).sizeLimit = fs.sizeLimit :=
    Files.sizeLimit_of_disk (congrArg Prod.snd (numbers_makeRoom journal fs))
  -- the file is there, or it is made
  cases h with
  | file hkept hfile =>
    obtain ⟨hopen, hkept', hholds⟩ := openToAppend_of_kept hfile hkept
    exact ⟨_, _, _, hopen, hkept', hholds, hroom⟩
  | @missing l hseek =>
    have hopen : (makeRoom journal fs).openToAppend journal =
        (.ok ((makeRoom journal fs).createAt l 0o644 []).1,
          ((makeRoom journal fs).createAt l 0o644 []).2) := by
      unfold Files.openToAppend
      rw [hseek]
    have hkept := keptAt_of_opened (Files.opened_of_openToAppend hopen)
    exact ⟨_, _, 0o644, hopen, hkept, Tree.get?_put_self .., hroom⟩

/-- **One record leaves its trace at the end of the journal**, and nothing else is changed in it. -/
theorem Keeps.add {old : Bytes} (h : Keeps journal fs old) (r : Record)
    (hroom : fs.Room (old ++ trace r).length) :
    ∃ fs', Journal.add journal r fs = (outcome r, fs') ∧ Keeps journal fs' (old ++ trace r) ∧
      fs'.sizeLimit = fs.sizeLimit := by
  obtain ⟨handle, fs₁, mode, hopen, hkept, hholds, hlimit⟩ := h.opened
  have hfits := hroom.mono hlimit (Nat.le_refl _)
  rw [List.length_append] at hfits
  have hwritten := Files.append_of_fits (trace r) hholds hfits
  refine ⟨_, add_of_written hopen hwritten, .file ?_ (hholds.append (trace r)), hlimit⟩
  have hadded := hkept.append handle (trace r)
  rwa [hwritten] at hadded

/-- What is read from a journal is what its file has; one that is missing has no records. -/
theorem Keeps.stat {old : Bytes} (h : Keeps journal fs old) :
    (old = [] ∧ fs.existsAt journal = false ∧ content journal fs = []) ∨
      ∃ l mode serial, fs.stat journal = .ok (l, .file mode serial old) := by
  cases h with
  | file hkept hfile =>
    obtain ⟨found, hfound⟩ := hkept
    obtain rfl : found = some _ := (Files.get?_of_route_seek hfound).1.symm.trans hfile
    exact .inr ⟨_, _, _, Files.stat_of_seek hfound⟩
  | missing hseek =>
    obtain ⟨made, hmade⟩ := makeRoom_furnished journal fs
    -- a path that leads nowhere with all folders made leads nowhere without them
    have hmissing : (makeRoom journal fs).existsAt journal = false := by
      rw [Files.existsAt, Files.stat_of_seek_none hseek]
      rfl
    have hgone : fs.existsAt journal = false := by
      cases hexists : fs.existsAt journal with
      | false => rfl
      | true =>
        rw [Files.stat_isOk_mono hmade.evolves.here hmade.shown hexists] at hmissing
        cases hmissing
    refine .inl ⟨rfl, hgone, ?_⟩
    unfold content Files.read
    unfold Files.existsAt at hgone
    cases hstat : fs.stat journal with
    | error f => rfl
    | ok found =>
      rw [hstat] at hgone
      cases hgone

/-- The content of a journal is what it keeps. -/
theorem Keeps.content_eq {old : Bytes} (h : Keeps journal fs old) : content journal fs = old := by
  rcases h.stat with ⟨rfl, -, hcontent⟩ | ⟨l, mode, serial, hstat⟩
  · exact hcontent
  · rw [content, Files.read, hstat]

/-- And its records are read from that content. -/
theorem Keeps.read_eq {old : Bytes} (h : Keeps journal fs old) :
    Journal.read journal fs = records old := by
  unfold Journal.read
  rcases h.stat with ⟨rfl, hmissing, -⟩ | ⟨l, mode, serial, hstat⟩
  · rw [hmissing]
    rfl
  · have hexists : fs.existsAt journal = true := by rw [Files.existsAt, hstat]; rfl
    rw [hexists, Files.read, hstat]
    rfl

/-- **Records leave their traces one behind the other.** -/
theorem Keeps.addAll {earlier : List Record} (h : Keeps journal fs (written earlier))
    (rs : List Record) (hroom : fs.Room (written (earlier ++ rs)).length) :
    ∃ fs', addAll journal rs fs = (rs.map outcome, fs') ∧
      Keeps journal fs' (written (earlier ++ rs)) ∧ fs'.sizeLimit = fs.sizeLimit := by
  -- by induction on the records; each of them finds what the earlier ones have left
  induction rs generalizing fs earlier with
  | nil => exact ⟨fs, rfl, by rwa [List.append_nil], rfl⟩
  | cons r rs ih =>
    have hstep : written earlier ++ trace r = written (earlier ++ [r]) := by
      rw [written_append, written_singleton]
    have hsplit : earlier ++ r :: rs = earlier ++ [r] ++ rs := by simp
    rw [hsplit] at hroom ⊢
    have hfits : fs.Room (written earlier ++ trace r).length := hroom.mono rfl <| by
      rw [hstep, written_append _ rs, List.length_append]
      exact Nat.le_add_right ..
    obtain ⟨fs₁, hadd, hkeeps, hlimit⟩ := h.add r hfits
    rw [hstep] at hkeeps
    obtain ⟨fs', hrest, hkeeps', hlimit'⟩ := ih hkeeps (hroom.mono hlimit (Nat.le_refl _))
    refine ⟨fs', ?_, hkeeps', hlimit'.trans hlimit⟩
    rw [Journal.addAll, hadd]
    dsimp only
    rw [hrest]
    rfl

/-- Each of the records finds the journal as those before it have left it. -/
theorem Keeps.add_after {earlier before after : List Record} {r : Record}
    (h : Keeps journal fs (written earlier))
    (hroom : fs.Room (written (earlier ++ (before ++ r :: after))).length) :
    ∃ old, content journal (Journal.addAll journal before fs).2 = old ∧
      (Journal.add journal r (Journal.addAll journal before fs).2).1 = outcome r ∧
      content journal (Journal.add journal r (Journal.addAll journal before fs).2).2 =
        old ++ trace r := by
  have hsplit : written (earlier ++ (before ++ r :: after)) =
      written (earlier ++ before) ++ trace r ++ written after := by
    simp [written]
  have hfits : fs.Room (written (earlier ++ before) ++ trace r).length := hroom.mono rfl <| by
    simp only [hsplit, List.length_append]
    exact Nat.le_add_right ..
  obtain ⟨fs₁, hbefore, hkeeps₁, hlimit⟩ := h.addAll before <| hfits.mono rfl <| by
    rw [List.length_append]
    exact Nat.le_add_right ..
  obtain ⟨fs₂, hadd, hkeeps₂, -⟩ := hkeeps₁.add r (hfits.mono hlimit (Nat.le_refl _))
  rw [hbefore, hadd]
  exact ⟨_, hkeeps₁.content_eq, rfl, hkeeps₂.content_eq⟩

end Keeps

/-- A record is added if its path is text. -/
theorem isOk_outcome (r : Record) : (outcome r).isOk = r.isText := by
  unfold outcome
  split <;> simp_all [Except.isOk, Except.toBool]

/-- **A journal of texts reads back.** Each record is added as one line, and what is read in the end
is all of them, in order, behind those that were there. -/
theorem read_addAll {journal : Path} {fs : Files} {earlier rs : List Record}
    (hkeeps : Keeps journal fs (written earlier))
    (hroom : fs.Room (written (earlier ++ rs)).length)
    (htext : ∀ r ∈ earlier ++ rs, r.isText = true) :
    (∀ before r after, rs = before ++ r :: after → ∃ line, 0x0A ∉ line ∧
      (add journal r (addAll journal before fs).2).1 = .ok () ∧
      content journal (add journal r (addAll journal before fs).2).2 =
        content journal (addAll journal before fs).2 ++ line ++ [0x0A]) ∧
    read journal (addAll journal rs fs).2 = .ok (earlier ++ rs) := by
  constructor
  · rintro before r after rfl
    obtain ⟨old, hold, hadded, hnew⟩ := hkeeps.add_after hroom
    have hr : r.isText = true := htext r (by simp)
    obtain ⟨line, hline⟩ := Record.isText_iff.mp hr
    refine ⟨encodeChars line, ?_, hadded.trans (if_pos hr), ?_⟩
    · exact notMem_of_printed (Record.printed_render hline) (by decide)
    · rw [hnew, hold, trace_of_render hline, List.append_assoc]
  · obtain ⟨fs', hall, hkeeps', -⟩ := hkeeps.addAll rs hroom
    rw [hall, hkeeps'.read_eq, records_written htext]

/-- A top folder with nothing in it. -/
def noFiles : Files :=
  { tree := ⟨[([], .folder 0o755)]⟩, here := [] }

/-- A journal that is to lie in a folder of its own, where nothing is yet. -/
theorem keeps_noFiles : Keeps (.of "logs/journal") noFiles (written []) := by
  have hroute : (makeRoom (.of "logs/journal") noFiles).route? (.of "logs/journal") =
      .ok ⟨[], [bytes "logs", bytes "journal"], false⟩ := by cbv
  have happ : approach (makeRoom (.of "logs/journal") noFiles).tree maxLinks
      ⟨[], [bytes "logs", bytes "journal"], false⟩ = .ok ([bytes "logs"], maxLinks) := by cbv
  have hnone : (makeRoom (.of "logs/journal") noFiles).tree.get?
      ([bytes "logs"] ++ [bytes "journal"]) = none := by cbv
  refine .missing (l := [bytes "logs"] ++ [bytes "journal"]) ?_
  rw [hroute]
  refine seek_here happ rfl (by decide) (by decide) hnone fun e he => ?_
  cases he

/-- Nothing limits the files there. -/
theorem room_noFiles (size : Nat) : noFiles.Room size :=
  nofun

/-- A failed transfer with texts that could be taken for the end of a member or of a line. -/
def strange : Record :=
  { timestamp := "", id := "\",\"path\":\"", direction := .send, peer := "\\\n\x7d\r\n\x00"
    path := .of "ф\n\u2028/\x7f", status := .failed, size := 18446744073709551615
    error := some "\x1f\t" }

/-- Two records with such texts are added and read back, none of them mistaken. -/
theorem read_addAll_strange :
    Keeps (.of "logs/journal") noFiles (written []) ∧
      noFiles.Room (written ([] ++ [strange, strange.completed 0])).length ∧
      (∀ r ∈ [] ++ [strange, strange.completed 0], r.isText = true) ∧
      read (.of "logs/journal")
        (addAll (.of "logs/journal") [strange, strange.completed 0] noFiles).2 =
          .ok [strange, strange.completed 0] :=
  have htext : ∀ r ∈ [] ++ [strange, strange.completed 0], r.isText = true := by decide +kernel
  ⟨keeps_noFiles, room_noFiles _, htext,
    (read_addAll keeps_noFiles (room_noFiles _) htext).2⟩

/-- **A journal reads back exactly if no record failed.** One that fails leaves a piece of a line,
and from then on the journal is not read at all. -/
theorem read_addAll_iff {journal : Path} {fs : Files} {earlier rs : List Record}
    (hkeeps : Keeps journal fs (written earlier))
    (hroom : fs.Room (written (earlier ++ rs)).length) :
    (addAll journal rs fs).1 = rs.map outcome ∧
    (∀ before r after, rs = before ++ r :: after → (outcome r).isOk = false →
      content journal (add journal r (addAll journal before fs).2).2 =
          content journal (addAll journal before fs).2 ++ encodeChars r.start ∧
        content journal (add journal r (addAll journal before fs).2).2 ≠
          content journal (addAll journal before fs).2) ∧
    (read journal (addAll journal rs fs).2 =
        .ok ((earlier ++ rs).filter fun r => (outcome r).isOk) ↔
      ∀ r ∈ earlier ++ rs, (outcome r).isOk = true) ∧
    ((∃ r ∈ earlier ++ rs, (outcome r).isOk = false) →
      ∃ line, read journal (addAll journal rs fs).2 = .error (.noRecord line)) := by
  obtain ⟨fs', hall, hkeeps', -⟩ := hkeeps.addAll rs hroom
  simp only [isOk_outcome]
  rw [hall, hkeeps'.read_eq]
  -- what a failure leaves, and that the journal reads back only without one
  refine ⟨rfl, ?_, ⟨?_, ?_⟩, records_broken⟩
  · rintro before r after rfl hr
    obtain ⟨old, hold, -, hnew⟩ := hkeeps.add_after hroom
    have hne := start_ne_nil r []
    rw [List.append_nil] at hne
    rw [trace_broken hr] at hnew
    refine ⟨by rw [hnew, hold], ?_⟩
    rw [hnew, hold]
    simpa using hne
  · intro hread r hr
    cases hfailed : r.isText with
    | true => rfl
    | false =>
      obtain ⟨line, hline⟩ := records_broken ⟨r, hr, hfailed⟩
      rw [hline] at hread
      cases hread
  · intro htext
    rw [records_written htext, List.filter_eq_self.mpr htext]

/-- A record whose path is one octet that is no text. -/
def untold : Record :=
  { strange with path := ⟨[0xFF]⟩ }

/-- A record is added behind one that failed, and after that nothing is read any more. -/
theorem read_addAll_iff_untold :
    Keeps (.of "logs/journal") noFiles (written []) ∧
      noFiles.Room (written ([] ++ [untold, strange])).length ∧
      (addAll (.of "logs/journal") [untold, strange] noFiles).1 = [.error .pathNotText, .ok ()] ∧
      ∃ line, read (.of "logs/journal")
        (addAll (.of "logs/journal") [untold, strange] noFiles).2 = .error (.noRecord line) := by
  have hroom := room_noFiles (written ([] ++ [untold, strange])).length
  obtain ⟨hadded, -, -, hread⟩ := read_addAll_iff keeps_noFiles hroom
  refine ⟨keeps_noFiles, hroom, hadded.trans (by decide +kernel), hread ?_⟩
  exact ⟨untold, by simp, by decide +kernel⟩

/-- **A record that fails spoils the journal**: something of it stays in the file, and the one that
is added after it is not read, nor is anything else. -/
theorem start_left_behind :
    (add (.of "logs/journal") untold noFiles).1 = .error .pathNotText ∧
      content (.of "logs/journal") noFiles = [] ∧
      content (.of "logs/journal") (add (.of "logs/journal") untold noFiles).2 =
        encodeChars untold.start ∧
      encodeChars untold.start ≠ [] ∧
      (addAll (.of "logs/journal") [untold, strange] noFiles).1 = [.error .pathNotText, .ok ()] ∧
      read (.of "logs/journal") (addAll (.of "logs/journal") [untold, strange] noFiles).2 ≠
        .ok [strange] := by
  have huntold : untold.isText = false := by decide +kernel
  obtain ⟨fs₁, hadd, hkeeps₁, -⟩ := keeps_noFiles.add untold (room_noFiles _)
  obtain ⟨fs₂, hall, hkeeps₂, -⟩ := keeps_noFiles.addAll [untold, strange] (room_noFiles _)
  have hamong : ∃ r ∈ [] ++ [untold, strange], r.isText = false := ⟨untold, by simp, huntold⟩
  obtain ⟨line, hbroken⟩ := records_broken hamong
  have hne := start_ne_nil untold []
  rw [List.append_nil] at hne
  have hfailed : outcome untold = .error .pathNotText := by decide +kernel
  have hadded : [untold, strange].map outcome = [.error .pathNotText, .ok ()] := by decide +kernel
  rw [hadd, hall]
  refine ⟨hfailed, keeps_noFiles.content_eq, ?_, hne, hadded, ?_⟩
  · rw [hkeeps₁.content_eq, trace_broken huntold]
    rfl
  · rw [hkeeps₂.read_eq, hbroken]
    nofun

end Journal

end Courier
