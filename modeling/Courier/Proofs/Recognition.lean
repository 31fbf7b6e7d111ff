import Courier.Proofs.Lines
import Courier.Proofs.Parents
import Courier.Proofs.Staged

/-!
# Which paths are taken for staged files

A staged file for a destination is named after it: the name of the destination, a point, something
random, and `.part`. The names are compared as they are shown, by what stands in front and what
stands at the end. So each name that is made is recognised; but the point in front and the one of
`.part` may be the same, and the random part may be empty.

Main results:

* `Utf8.scan_append_cons` — an octet below 0x80 is a character of its own wherever it stands.
* `Staged.shown_iff` — what the comparison of two shown names comes to.
* `Staged.isFor_exact` — which paths are recognised, and which of them are not staged files.
* `Staged.isFor_inexact` — files recognised that are no staged files of the destination.
-/

namespace Courier

/-! ## Octets that are characters of their own -/

namespace Utf8

/-- No character goes on with an octet below 0x80. -/
theorem follow_append_cons {c : UInt8} (hc : c.toNat < 0x80) {low : Nat} (hlow : 0x80 ≤ low)
    (more high value : Nat) (xs ys : Bytes) :
    follow more low high value (xs ++ c :: ys) =
      ((follow more low high value xs).1, (follow more low high value xs).2 ++ c :: ys) := by
  -- by induction on the octets that are to follow
  induction more generalizing low high value xs with
  | zero => rfl
  | succ more ih =>
    cases xs with
    -- where the octets end, `c` stands, and is out of the range
    | nil =>
      have hout : ¬(low ≤ c.toNat ∧ c.toNat ≤ high) := by omega
      exact if_neg hout
    | cons t xs =>
      rw [List.cons_append, follow, follow]
      split
      · exact ih (Nat.le_refl _) ..
      · rfl

/-- What is found before an octet of its own does not depend on what follows it. -/
theorem next_append_cons {c : UInt8} (hc : c.toNat < 0x80) (b : UInt8) (xs ys : Bytes) :
    next b (xs ++ c :: ys) = ((next b xs).1, (next b xs).2 ++ c :: ys) := by
  unfold next
  dsimp only
  -- octets that begin nothing are left alone, the others ask for one, two or three more
  split
  · rfl
  split
  · rfl
  split
  · exact follow_append_cons hc (Nat.le_refl _) ..
  split
  · exact follow_append_cons hc (by split <;> omega) ..
  split
  · exact follow_append_cons hc (by split <;> omega) ..
  · rfl

/-- **An octet below 0x80 is a character of its own**, also in octets that are no text. -/
theorem scan_append_cons {c : UInt8} (hc : c.toNat < 0x80) (xs ys : Bytes) :
    scan (xs ++ c :: ys) = scan xs ++ some (Char.ofNat c.toNat) :: scan ys := by
  cases xs with
  | nil =>
    have hnext : next c ys = (some (Char.ofNat c.toNat), ys) := if_pos hc
    rw [List.nil_append, scan_cons, hnext, scan_nil]
    rfl
  | cons b xs =>
    -- what is left behind the first character is shorter
    rw [List.cons_append, scan_cons, next_append_cons hc, scan_append_cons hc (next b xs).2,
      scan_cons b xs]
    rfl
termination_by xs.length
decreasing_by
  subst_vars
  exact Nat.lt_succ_of_le (next_length ..)

end Utf8

namespace Staged

open Courier.Path (dot)

/-! ## Names and how they are shown -/

/-- A name as it is shown. -/
def shown (n : Name) : List Char :=
  (Utf8.lossy n).toList

/-- A name shows as the characters in it, and a mark for what is none. -/
theorem shown_eq (n : Name) : shown n = (Utf8.scan n).map (·.getD '\uFFFD') := by
  simp [shown, Utf8.lossy, String.toList_ofList]

/-- A dot shows as itself, and parts what is around it. -/
theorem shown_append_dot (xs ys : Bytes) :
    shown (xs ++ dot :: ys) = shown xs ++ '.' :: shown ys := by
  have hdot : dot.toNat < 0x80 := by decide
  rw [shown_eq, Utf8.scan_append_cons hdot, List.map_append, List.map_cons, ← shown_eq, ← shown_eq]
  rfl

/-- A text shows as it is. -/
theorem shown_bytes (s : String) : shown (bytes s) = s.toList := by
  have hscan : Utf8.scan (bytes s) = s.toList.map some := Utf8.scan_encodeChars s.toList
  rw [shown_eq, hscan, List.map_map]
  exact List.map_id _

/-- `.part`, as it is shown. -/
def tailText : List Char :=
  ".part".toList

/-- The name `n` is the name `d`, a point, something random, and `.part`. -/
def Named (d n : Name) : Prop :=
  ∃ random : Bytes, random ≠ [] ∧ n = d ++ dot :: random ++ tail

/-- The name `n` is shown as the name `d` is, and then `.part`, or a point, anything, and
`.part`. -/
def ShownAs (d n : Name) : Prop :=
  shown n = shown d ++ tailText ∨
    ∃ random : List Char, shown n = shown d ++ '.' :: random ++ tailText

/-- What is named so shows so. -/
theorem Named.shownAs {d n : Name} (h : Named d n) : ShownAs d n := by
  obtain ⟨random, -, rfl⟩ := h
  have htail : tail = dot :: bytes "part" := by decide
  refine .inr ⟨shown random, ?_⟩
  rw [List.append_assoc, List.cons_append, shown_append_dot, htail, shown_append_dot, shown_bytes]
  simp [tailText]

/-- Names that show alike are taken for the same. -/
theorem ShownAs.alike {d d' n : Name} (h : ShownAs d n) (hd : shown d = shown d') :
    ShownAs d' n := by
  rwa [ShownAs, hd] at h

/-- A name is recognised without a random part too, with and without a point for it. -/
theorem shownAs_without_random {d n : Name} (h : n = d ++ tail ∨ n = d ++ dot :: tail) :
    ShownAs d n := by
  have htail : tail = dot :: bytes "part" := by decide
  rcases h with rfl | rfl
  · refine .inl ?_
    rw [htail, shown_append_dot, shown_bytes]
    rfl
  · refine .inr ⟨[], ?_⟩
    rw [shown_append_dot, tail, shown_bytes]
    simp [tailText]

/-- But it is too short for the name of a staged file. -/
theorem not_named {d n : Name} (h : n = d ++ tail ∨ n = d ++ dot :: tail) : ¬ Named d n := by
  rintro ⟨random, hrandom, hn⟩
  have hpos := List.length_pos_iff.mpr hrandom
  have hlength := congrArg List.length hn
  rcases h with rfl | rfl
  all_goals
    simp only [List.length_append, List.length_cons] at hlength
    omega

/-- Names that are texts are shown alike only if they are the same. -/
theorem shownAs_text {s t : String} :
    ShownAs (bytes s) (bytes t) ↔
      Named (bytes s) (bytes t) ∨ bytes t = bytes s ++ tail ∨ bytes t = bytes s ++ dot :: tail := by
  constructor
  · intro h
    rw [ShownAs, shown_bytes, shown_bytes] at h
    -- a text is what its characters are encoded as, so what is shown alike is the same
    rcases h with h | ⟨random, h⟩
    · refine .inr (.inl ?_)
      rw [bytes, Utf8.encode, h, Utf8.encodeChars_append]
      rfl
    have ht : bytes t = bytes s ++ dot :: Utf8.encodeChars random ++ tail := by
      rw [bytes, Utf8.encode, h, Utf8.encodeChars_append, Utf8.encodeChars_append]
      rfl
    rcases random with - | ⟨c, random⟩
    · refine .inr (.inr ?_)
      rw [ht, List.append_assoc]
      rfl
    · refine .inl ⟨_, ?_, ht⟩
      -- no character is encoded as nothing
      obtain ⟨b, more, hc, -⟩ := Utf8.next_encodeChar c []
      simp [Utf8.encodeChars, hc]
  · rintro (h | h)
    · exact h.shownAs
    · exact shownAs_without_random h

/-! ## The comparison -/

/-- What a name with `ds` and a point in front and `.part` at the end looks like. The two points may
be the same; that the name take more octets than `ds` and the point rules nothing out. -/
theorem shown_iff (ds ns : List Char) :
    ((Utf8.encodeChars ds).length + 1 < (Utf8.encodeChars ns).length ∧ ds ++ ['.'] <+: ns ∧
        tailText <:+ ns) ↔
      ns = ds ++ tailText ∨ ∃ random, ns = ds ++ '.' :: random ++ tailText := by
  have hlength : (Utf8.encodeChars tailText).length = 5 := by decide
  constructor
  · rintro ⟨-, ⟨rest, rfl⟩, htail⟩
    rw [List.append_assoc, List.singleton_append] at htail ⊢
    -- the end of the name and all that stands behind `ds` are ends of one text
    rcases List.suffix_or_suffix_of_suffix htail (List.suffix_append ds ('.' :: rest)) with h | h
    · rcases List.suffix_cons_iff.mp h with heq | ⟨random, rfl⟩
      · exact .inl (by rw [heq])
      · exact .inr ⟨random, by simp⟩
    · -- in `.part` nothing but the whole begins with a point
      have hwhole : '.' :: rest = tailText := by
        simpa [tailText, List.suffix_cons_iff] using h
      exact .inl (by rw [hwhole])
  · rintro (rfl | ⟨random, rfl⟩)
    · refine ⟨?_, ⟨"part".toList, by simp [tailText]⟩, List.suffix_append ..⟩
      rw [Utf8.encodeChars_append, List.length_append]
      omega
    · refine ⟨?_, ⟨random ++ tailText, by simp⟩, List.suffix_append ..⟩
      rw [Utf8.encodeChars_append, Utf8.encodeChars_append, List.length_append, List.length_append]
      omega

/-- The path lies in the folder of the destination, part for part. -/
def InFolder (dest candidate : Path) : Prop :=
  ∃ parent, candidate.parent? = some parent ∧ parent.Same dest.folder

/-- The path is that of a staged file for a destination of the name `d`. -/
def StagedFor (d : Name) (dest candidate : Path) : Prop :=
  InFolder dest candidate ∧ ∃ n, candidate.fileName? = some n ∧ Named d n

variable {dest candidate : Path} {d : Name}

/-- **What is recognised**: the folder is that of the destination, and the name shows as one of a
staged file. -/
theorem isFor_iff (hd : dest.fileName? = some d) (candidate : Path) :
    isFor dest candidate = true ↔
      InFolder dest candidate ∧ ∃ n, candidate.fileName? = some n ∧ ShownAs d n := by
  unfold isFor InFolder
  rw [hd]
  cases hname : candidate.fileName? with
  | none => simp
  | some n =>
    cases hparent : candidate.parent? with
    | none => simp
    | some parent =>
      -- the four conditions, the last three of them on the names as they are shown
      simp only [Bool.and_eq_true, decide_eq_true_eq, List.isPrefixOf_iff_prefix,
        List.isSuffixOf_iff_suffix, Option.some.injEq, exists_eq_left', and_assoc]
      exact and_congr_right fun _ => shown_iff (shown d) (shown n)

/-! ## Exactness -/

/-- What is known of the paths recognised for a destination of the name `d`. -/
structure Recognised (dest : Path) (d : Name) : Prop where
  /-- Recognised are the paths in the folder whose names are shown as such a name. -/
  exact (candidate : Path) : isFor dest candidate = true ↔
    InFolder dest candidate ∧ ∃ n, candidate.fileName? = some n ∧ ShownAs d n
  /-- The path of a staged file is always among them. -/
  complete (candidate : Path) : StagedFor d dest candidate → isFor dest candidate = true
  /-- So is the path with a name that `make` gives, put below the folder. -/
  made (fs fs' : Files) (staged : Staged) : make dest fs = (.ok staged, fs') →
    ∃ n, staged.path = (folder dest fs.here).child n ∧ StagedFor d dest (dest.folder.child n)
  /-- Two others are: those that lack the random part, or have nothing for it. They are no paths
  of staged files. -/
  unsound (candidate : Path) {n : Name} : InFolder dest candidate → candidate.fileName? = some n →
    n = d ++ tail ∨ n = d ++ dot :: tail →
      isFor dest candidate = true ∧ ¬ StagedFor d dest candidate
  /-- Where the names are texts, there are no more. -/
  texts (candidate : Path) {s t : String} : d = bytes s → candidate.fileName? = some (bytes t) →
    (isFor dest candidate = true ↔ StagedFor d dest candidate ∨
      InFolder dest candidate ∧ (bytes t = d ++ tail ∨ bytes t = d ++ dot :: tail))

/-- Names with nothing between the two dots, or only one dot, are recognised as well, and are not
those of staged files. -/
theorem isFor_without_random (hd : dest.fileName? = some d) (hfolder : InFolder dest candidate)
    {n : Name} (hn : candidate.fileName? = some n) (h : n = d ++ tail ∨ n = d ++ dot :: tail) :
    isFor dest candidate = true ∧ ¬ StagedFor d dest candidate := by
  refine ⟨(isFor_iff hd candidate).mpr ⟨hfolder, n, hn, shownAs_without_random h⟩, ?_⟩
  rintro ⟨-, n', hn', hnamed⟩
  cases hn.symm.trans hn'
  exact not_named h hnamed

/-- A staged file is named so. -/
theorem named_name (hd : dest.fileName? = some d) (n : Nat) : Named d (name dest n) := by
  refine ⟨Files.randomName n, ?_, ?_⟩
  · intro hnil
    have hlength := Files.length_randomName n
    rw [hnil] at hlength
    cases hlength
  · simp [name, lead, hd]

/-- The path of a staged file, put below the folder of the destination. -/
theorem stagedFor_child (hd : dest.fileName? = some d) (n : Nat) :
    StagedFor d dest (dest.folder.child (name dest n)) := by
  -- a folder that is not written is `.`
  have hfolder : dest.folder.text ≠ [] := by
    unfold Path.folder
    split
    · split
      · simp
      · rename_i hempty
        simpa [Path.isEmpty] using hempty
    · simp
  exact ⟨Path.parent?_child hfolder (proper_name dest n),
    _, Path.fileName?_child hfolder (proper_name dest n), named_name hd n⟩

/-- **Which paths are recognised as staged files of a destination.** -/
theorem isFor_exact (hd : dest.fileName? = some d) : Recognised dest d where
  exact := isFor_iff hd
  complete candidate h := by
    obtain ⟨hfolder, n, hn, hnamed⟩ := h
    exact (isFor_iff hd candidate).mpr ⟨hfolder, n, hn, hnamed.shownAs⟩
  made fs fs' staged h := by
    rcases make_cases h with ⟨_, n, hr, hpath, -⟩ | ⟨e, hr, -⟩
    · cases hr
      exact ⟨name dest n, hpath, stagedFor_child hd n⟩
    · cases hr
  unsound _ _ hfolder hn h := isFor_without_random hd hfolder hn h
  texts candidate s t hs ht := by
    subst hs
    rw [isFor_iff hd, StagedFor, ht]
    simp only [Option.some.injEq, exists_eq_left', shownAs_text, and_or_left]

/-- In another spelling of the folder, with a random part that is no text. -/
theorem isFor_exact_nested :
    (Path.of "dir//file.txt").fileName? = some (bytes "file.txt") ∧
      StagedFor (bytes "file.txt") (.of "dir//file.txt")
        ⟨bytes "dir/./file.txt." ++ 0xFF :: bytes ".part"⟩ ∧
      isFor (.of "dir//file.txt") ⟨bytes "dir/./file.txt." ++ 0xFF :: bytes ".part"⟩ = true := by
  have hd : (Path.of "dir//file.txt").fileName? = some (bytes "file.txt") := by decide
  have hfolder : InFolder (.of "dir//file.txt")
      ⟨bytes "dir/./file.txt." ++ 0xFF :: bytes ".part"⟩ :=
    ⟨.of "dir", by decide, by decide⟩
  have hname : (⟨bytes "dir/./file.txt." ++ 0xFF :: bytes ".part"⟩ : Path).fileName? =
      some (bytes "file.txt" ++ dot :: [0xFF] ++ tail) := by
    decide
  have hstaged : StagedFor (bytes "file.txt") (.of "dir//file.txt")
      ⟨bytes "dir/./file.txt." ++ 0xFF :: bytes ".part"⟩ :=
    ⟨hfolder, _, hname, [0xFF], by simp, rfl⟩
  exact ⟨hd, hstaged, (isFor_exact hd).complete _ hstaged⟩

/-- **Recognised are files that are no staged ones**: one without a random part in its name, and,
as names that are no text are shown alike, one that was staged for another destination. -/
theorem isFor_inexact :
    (isFor (.of "dir/file.txt") (.of "dir/file.txt.part") = true ∧
      ¬ StagedFor (bytes "file.txt") (.of "dir/file.txt") (.of "dir/file.txt.part")) ∧
    isFor ⟨[0xFF]⟩ ⟨bytes "./" ++ 0xFE :: bytes ".x7Qz.part"⟩ = true ∧
      ¬ StagedFor [0xFF] ⟨[0xFF]⟩ ⟨bytes "./" ++ 0xFE :: bytes ".x7Qz.part"⟩ := by
  constructor
  · have hd : (Path.of "dir/file.txt").fileName? = some (bytes "file.txt") := by decide
    have hfolder : InFolder (.of "dir/file.txt") (.of "dir/file.txt.part") :=
      ⟨.of "dir", by decide, by decide⟩
    have hname : (Path.of "dir/file.txt.part").fileName? = some (bytes "file.txt" ++ tail) := by
      decide
    exact isFor_without_random hd hfolder hname (.inl rfl)
  · have hd : (⟨[0xFF]⟩ : Path).fileName? = some [0xFF] := by decide
    have hfolder : InFolder ⟨[0xFF]⟩ ⟨bytes "./" ++ 0xFE :: bytes ".x7Qz.part"⟩ :=
      ⟨.of ".", by decide, by decide⟩
    have hname : (⟨bytes "./" ++ 0xFE :: bytes ".x7Qz.part"⟩ : Path).fileName? =
        some ([0xFE] ++ dot :: bytes "x7Qz" ++ tail) := by
      decide
    -- neither octet begins a character, so both are shown as the replacement character
    have halike : shown [0xFE] = shown [0xFF] := by
      simp [shown_eq, Utf8.scan_cons, Utf8.scan_nil, Utf8.next]
    have hnamed : Named [0xFE] ([0xFE] ++ dot :: bytes "x7Qz" ++ tail) :=
      ⟨bytes "x7Qz", by decide, rfl⟩
    refine ⟨(isFor_iff hd _).mpr ⟨hfolder, _, hname, hnamed.shownAs.alike halike⟩, ?_⟩
    rintro ⟨-, n, hn, random, -, hother⟩
    cases hname.symm.trans hn
    cases hother

end Staged

end Courier
