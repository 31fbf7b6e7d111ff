import Courier.Proofs.Utf8
import Courier.Text.Lines

/-!
# Lines

Text is cut at each feed and nowhere else. A stretch without a feed is one line, and it is read as
it stands unless it ends in a return. In the octets of a text there is a feed or a return where the
text has that character, and nowhere else.

Main results:

* `Text.lines_append_feed` — the first line is what stands before the first feed.
* `Text.lines_of_notMem` — what has no feed is one line.
* `Text.lines_entries`, `Text.length_lines_entries` — entries that are written one to a line.
* `Utf8.mem_encodeChars` — which octets below 0x80 a text is written with.
-/

namespace Courier.Text

variable {α : Type} [DecidableEq α] {feed ret : α}

/-- Lines that were closed before stay in front. -/
theorem linesOnto_eq (closed : List (List α)) (line text : List α) :
    linesOnto feed ret closed line text = closed.reverse ++ linesOnto feed ret [] line text := by
  -- lines are closed in front of the others, and all of them are put around at the end
  induction text generalizing closed line with
  | nil =>
    unfold linesOnto
    split <;> simp
  | cons c text ih =>
    unfold linesOnto
    split
    · rw [ih, ih [_]]
      simp
    · exact ih ..

/-- Up to the first feed everything belongs to one line. -/
theorem linesOnto_append {xs : List α} (hfeed : feed ∉ xs) (line rest : List α) :
    linesOnto feed ret [] line (xs ++ rest) = linesOnto feed ret [] (xs.reverse ++ line) rest := by
  -- without a line feed nothing is closed, and the line that is open gets longer
  induction xs generalizing line with
  | nil => rfl
  | cons x xs ih =>
    rw [List.mem_cons, not_or] at hfeed
    rw [List.cons_append, linesOnto, if_neg (Ne.symm hfeed.1), ih hfeed.2]
    simp

/-- The first line is what stands before the first feed, less a return at its end. -/
theorem lines_append_feed {xs : List α} (hfeed : feed ∉ xs) (rest : List α) :
    lines feed ret (xs ++ feed :: rest) = closeLine ret xs.reverse :: lines feed ret rest := by
  rw [lines, linesOnto_append hfeed, List.append_nil, linesOnto, if_pos rfl, linesOnto_eq]
  rfl

/-- What has no feed is one line. -/
theorem lines_of_notMem {xs : List α} (hfeed : feed ∉ xs) (hne : xs ≠ []) :
    lines feed ret xs = [xs] := by
  have hlines : linesOnto feed ret [] [] (xs ++ []) = linesOnto feed ret [] (xs.reverse ++ []) [] :=
    linesOnto_append hfeed [] []
  rw [List.append_nil, List.append_nil] at hlines
  rw [lines, hlines, linesOnto]
  simp [hne]

/-- Nothing has no lines. -/
theorem lines_nil : lines feed ret ([] : List α) = [] := rfl

/-- Each feed ends a line. -/
theorem length_lines_append_feed (xs rest : List α) :
    (lines feed ret (xs ++ feed :: rest)).length =
      xs.count feed + 1 + (lines feed ret rest).length := by
  have honto (line : List α) : (linesOnto feed ret [] line (xs ++ feed :: rest)).length =
      xs.count feed + 1 + (lines feed ret rest).length := by
    induction xs generalizing line with
    | nil =>
      rw [List.nil_append, linesOnto, if_pos rfl, linesOnto_eq, List.length_append]
      simp [lines]
    | cons x xs ih =>
      rw [List.cons_append, linesOnto]
      split
      · rename_i hx
        rw [linesOnto_eq, List.length_append, ih, hx, List.count_cons_self]
        simp only [List.reverse_cons, List.reverse_nil, List.nil_append, List.length_singleton]
        omega
      · rename_i hx
        rw [ih, List.count_cons_of_ne hx]
  exact honto []

section Entries

variable {entries : List (List α)}

/-- Entries without a feed, each with one behind it, are the lines. -/
theorem lines_entries (h : ∀ xs ∈ entries, feed ∉ xs) :
    lines feed ret (entries.flatMap fun xs => xs ++ [feed]) =
      entries.map fun xs => closeLine ret xs.reverse := by
  induction entries with
  | nil => rfl
  | cons xs entries ih =>
    obtain ⟨hxs, hentries⟩ := List.forall_mem_cons.mp h
    have hcons : (xs :: entries).flatMap (fun xs => xs ++ [feed]) =
        xs ++ feed :: entries.flatMap fun xs => xs ++ [feed] := by simp
    rw [hcons, lines_append_feed hxs, ih hentries]
    rfl

/-- A feed in an entry makes one more line of it. -/
theorem length_lines_entries :
    (lines feed ret (entries.flatMap fun xs => xs ++ [feed])).length =
      entries.length + entries.flatten.count feed := by
  induction entries with
  | nil => rfl
  | cons xs entries ih =>
    have hcons : (xs :: entries).flatMap (fun xs => xs ++ [feed]) =
        xs ++ feed :: entries.flatMap fun xs => xs ++ [feed] := by simp
    rw [hcons, length_lines_append_feed, ih, List.flatten_cons, List.count_append,
      List.length_cons]
    omega

end Entries

/-- A line that does not end in a return is read as it stands. -/
theorem closeLine_reverse {xs : List α} (hret : ret ∉ xs) : closeLine ret xs.reverse = xs := by
  cases hxs : xs.reverse with
  | nil => simpa [closeLine] using hxs.symm
  | cons c line =>
    have hmem : c ∈ xs := List.mem_reverse.mp (hxs ▸ List.mem_cons_self ..)
    have hne : c ≠ ret := fun h => hret (h ▸ hmem)
    rw [closeLine, if_neg hne, ← hxs, List.reverse_reverse]

/-- What stands at the front of a line is read as it stands, unless a return ends it. -/
theorem prefix_closeLine {c : α} (hc : c ≠ ret) (front rest : List α) :
    front ++ [c] <+: closeLine ret (front ++ [c] ++ rest).reverse := by
  rcases List.eq_nil_or_concat rest with rfl | ⟨rest, d, rfl⟩
  · simp [closeLine, hc]
  · rw [List.concat_eq_append, ← List.append_assoc, List.reverse_concat, closeLine]
    split
    · rw [List.reverse_reverse]
      exact List.prefix_append ..
    · rw [List.reverse_cons, List.reverse_reverse, List.append_assoc]
      exact List.prefix_append ..

end Courier.Text

namespace Courier.Utf8

/-! ## Octets of a text -/

/-- Characters are encoded one after the other. -/
theorem encodeChars_append (xs ys : List Char) :
    encodeChars (xs ++ ys) = encodeChars xs ++ encodeChars ys :=
  List.flatMap_append

/-- A longer spelling has no octet below 0x80. -/
theorem le_toNat_of_mem_encodeChar {c : Char} (hc : 0x80 ≤ c.toNat) :
    ∀ b ∈ encodeChar c, 0x80 ≤ b.toNat := by
  have hvalid := toNat_valid c
  have hoctet {n : Nat} (hlow : 0x80 ≤ n) (hhigh : n < 256) : 0x80 ≤ (UInt8.ofNat n).toNat := by
    rwa [toNat_ofNat_of_lt hhigh]
  unfold encodeChar
  dsimp only
  rw [if_neg (Nat.not_lt.mpr hc)]
  repeat' split
  all_goals
    simp only [List.forall_mem_cons, List.not_mem_nil, false_implies, implies_true, and_true]
    and_intros <;> exact hoctet (by omega) (by omega)

/-- An octet below 128 is there only for the character of that number. -/
theorem mem_encodeChar {c : Char} {b : UInt8} (hb : b.toNat < 0x80) :
    b ∈ encodeChar c ↔ c.toNat = b.toNat := by
  -- all octets of a longer encoding are 128 and above
  by_cases hc : c.toNat < 0x80
  · have hone : encodeChar c = [UInt8.ofNat c.toNat] := by
      unfold encodeChar
      exact if_pos hc
    rw [hone, List.mem_singleton]
    constructor
    · intro h
      rw [h, toNat_ofNat_of_lt (by omega)]
    · intro h
      exact eq_ofNat h.symm
  · constructor
    · intro h
      exact absurd (le_toNat_of_mem_encodeChar (Nat.not_lt.mp hc) b h) (by omega)
    · intro h
      omega

/-- The octets below 128 in a text are its characters of these numbers. -/
theorem mem_encodeChars {cs : List Char} {b : UInt8} (hb : b.toNat < 0x80) :
    b ∈ encodeChars cs ↔ ∃ c ∈ cs, c.toNat = b.toNat := by
  simp only [encodeChars, List.mem_flatMap, mem_encodeChar hb]

/-- Encoded characters decode to themselves. -/
theorem decode?_encodeChars (cs : List Char) :
    decode? (encodeChars cs) = some (String.ofList cs) := by
  rw [decode?_eq_some_iff]
  simp [bytes, encode, String.toList_ofList]

end Courier.Utf8
