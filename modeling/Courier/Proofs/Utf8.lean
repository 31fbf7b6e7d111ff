import Courier.Text.Utf8

/-!
# Text survives being written and read

A character is written in one to four octets: the first holds its highest bits and says how many
more there are, and each of those holds six bits. Reading takes exactly these octets off the
front, and whatever it reads as a character is the one way to write it.

Main results:

* `Utf8.next_encodeChar` — a character that was written is read.
* `Utf8.eq_encodeChar_of_next` — what was read is what would be written.
* `Utf8.decode?_eq_some_iff` — octets spell a text if they are the ones that it is written in.
-/

namespace Courier.Utf8

/-! ## Octets -/

/-- A number below 256 is that of an octet. -/
theorem toNat_ofNat_of_lt {n : Nat} (h : n < 256) : (UInt8.ofNat n).toNat = n := by
  simp [Nat.mod_eq_of_lt h]

/-- And an octet is the one with its number. -/
theorem eq_ofNat {b : UInt8} {n : Nat} (h : b.toNat = n) : b = UInt8.ofNat n := by
  rw [← h, UInt8.ofNat_toNat]

/-- The numbers that are no surrogates and not too large belong to characters. -/
theorem toNat_valid (c : Char) : c.toNat < 0xD800 ∨ 0xDFFF < c.toNat ∧ c.toNat < 0x110000 :=
  c.valid

/-- A number that is no surrogate is that of a character. -/
theorem toNat_ofNat_of_valid {n : Nat} (h : n < 0xD800 ∨ 0xDFFF < n ∧ n < 0x110000) :
    (Char.ofNat n).toNat = n := by
  have hvalid : n.isValidChar := h
  unfold Char.ofNat
  rw [dif_pos hvalid]
  rfl

/-! ## Further octets -/

/-- One further octet brings six bits. -/
theorem follow_octet {more low high value d : Nat} {rest : Bytes} (hd : d < 64)
    (hlow : low ≤ 0x80 + d) (hhigh : 0x80 + d ≤ high) :
    follow (more + 1) low high value (UInt8.ofNat (0x80 + d) :: rest) =
      follow more 0x80 0xBF (value * 64 + d) rest := by
  have hoctet : (UInt8.ofNat (0x80 + d)).toNat = 0x80 + d := toNat_ofNat_of_lt (by omega)
  rw [follow, hoctet, if_pos ⟨hlow, hhigh⟩, Nat.add_sub_cancel_left]

/-- Where a character goes on there is an octet that goes on with it, and six bits more. -/
theorem octet_of_follow {more low high value : Nat} {bs rest : Bytes} {c : Char}
    (hlow : 0x80 ≤ low) (hhigh : high ≤ 0xBF)
    (h : follow (more + 1) low high value bs = (some c, rest)) :
    ∃ d bs', bs = UInt8.ofNat (0x80 + d) :: bs' ∧ d < 64 ∧ low ≤ 0x80 + d ∧ 0x80 + d ≤ high ∧
      follow more 0x80 0xBF (value * 64 + d) bs' = (some c, rest) := by
  cases bs with
  | nil => cases h
  | cons t bs =>
    rw [follow] at h
    split at h
    · rename_i hrange
      refine ⟨t.toNat - 0x80, bs, ?_, by omega, by omega, by omega, h⟩
      rw [eq_ofNat (b := t) rfl, toNat_ofNat_of_lt t.toNat_lt, Nat.add_sub_cancel' (by omega)]
    · cases h

/-! ## Characters -/

/-- **A character that was encoded is the next one found.** -/
theorem next_encodeChar (c : Char) (rest : Bytes) :
    ∃ b more, encodeChar c = b :: more ∧ next b (more ++ rest) = (some c, rest) := by
  have hvalid := toNat_valid c
  unfold encodeChar
  dsimp only
  split
  · -- one octet
    rename_i hn
    refine ⟨_, _, rfl, ?_⟩
    simp [next, toNat_ofNat_of_lt (show c.toNat < 256 by omega), hn, Char.ofNat_toNat]
  split
  · -- two octets
    rename_i hlow hn
    refine ⟨_, _, rfl, ?_⟩
    have hb : (UInt8.ofNat (0xC0 + c.toNat / 64)).toNat = 0xC0 + c.toNat / 64 :=
      toNat_ofNat_of_lt (by omega)
    unfold next
    simp only [hb]
    rw [if_neg (by omega), if_neg (by omega), if_pos (by omega), List.cons_append,
      follow_octet (by omega) (by omega) (by omega), follow]
    have hvalue : (0xC0 + c.toNat / 64 - 0xC0) * 64 + c.toNat % 64 = c.toNat := by omega
    rw [hvalue, Char.ofNat_toNat]
    rfl
  split
  · -- three octets
    rename_i _ hlow hn
    refine ⟨_, _, rfl, ?_⟩
    have hb : (UInt8.ofNat (0xE0 + c.toNat / 4096)).toNat = 0xE0 + c.toNat / 4096 :=
      toNat_ofNat_of_lt (by omega)
    unfold next
    simp only [hb]
    rw [if_neg (by omega), if_neg (by omega), if_neg (by omega), if_pos (by omega),
      List.cons_append, follow_octet (by omega) (by split <;> omega) (by split <;> omega),
      List.cons_append, follow_octet (by omega) (by omega) (by omega), follow]
    have hvalue : ((0xE0 + c.toNat / 4096 - 0xE0) * 64 + c.toNat / 64 % 64) * 64 +
        c.toNat % 64 = c.toNat := by omega
    rw [hvalue, Char.ofNat_toNat]
    rfl
  · -- four octets
    rename_i _ _ hn
    refine ⟨_, _, rfl, ?_⟩
    have hb : (UInt8.ofNat (0xF0 + c.toNat / 262144)).toNat = 0xF0 + c.toNat / 262144 :=
      toNat_ofNat_of_lt (by omega)
    unfold next
    simp only [hb]
    rw [if_neg (by omega), if_neg (by omega), if_neg (by omega), if_neg (by omega),
      if_pos (by omega),
      List.cons_append, follow_octet (by omega) (by split <;> omega) (by split <;> omega),
      List.cons_append, follow_octet (by omega) (by omega) (by omega),
      List.cons_append, follow_octet (by omega) (by omega) (by omega), follow]
    have hvalue : (((0xF0 + c.toNat / 262144 - 0xF0) * 64 + c.toNat / 4096 % 64) * 64 +
        c.toNat / 64 % 64) * 64 + c.toNat % 64 = c.toNat := by omega
    rw [hvalue, Char.ofNat_toNat]
    rfl

/-- **And one that is found was encoded in these octets**, for there is only one way. -/
theorem eq_encodeChar_of_next {b : UInt8} {bs rest : Bytes} {c : Char}
    (h : next b bs = (some c, rest)) : b :: bs = encodeChar c ++ rest := by
  have hb := b.toNat_lt
  -- the character is the one with the number that the octets hold
  have hchar {n : Nat} (hn : n < 0xD800 ∨ 0xDFFF < n ∧ n < 0x110000) (hc : Char.ofNat n = c) :
      c.toNat = n := by rw [← hc, toNat_ofNat_of_valid hn]
  unfold next at h
  dsimp only at h
  split at h
  · -- one octet
    rename_i hn
    obtain ⟨hc, rfl⟩ := Prod.mk.inj h
    have hnum := hchar (by omega) (Option.some.inj hc)
    rw [encodeChar, if_pos (by omega), ← eq_ofNat hnum.symm]
    rfl
  split at h
  · cases h
  split at h
  · -- two octets
    obtain ⟨d, bs', rfl, hd, -, -, hrest⟩ := octet_of_follow (by omega) (by omega) h
    rw [follow] at hrest
    obtain ⟨hc, rfl⟩ := Prod.mk.inj hrest
    have hnum := hchar (by omega) (Option.some.inj hc)
    rw [encodeChar, if_neg (by omega), if_pos (by omega),
      ← eq_ofNat (b := b) (n := 0xC0 + c.toNat / 64) (by omega),
      show 0x80 + c.toNat % 64 = 0x80 + d by omega]
    rfl
  split at h
  · -- three octets: the narrower range of the second keeps shorter ones and surrogates out
    obtain ⟨d, bs', rfl, hd, hlow, hhigh, h⟩ :=
      octet_of_follow (by split <;> omega) (by split <;> omega) h
    obtain ⟨d', bs'', rfl, hd', -, -, hrest⟩ := octet_of_follow (by omega) (by omega) h
    rw [follow] at hrest
    obtain ⟨hc, rfl⟩ := Prod.mk.inj hrest
    have hlow' : b.toNat = 0xE0 → 0xA0 ≤ 0x80 + d := fun hb => by rwa [if_pos hb] at hlow
    have hhigh' : b.toNat = 0xED → 0x80 + d ≤ 0x9F := fun hb => by rwa [if_pos hb] at hhigh
    have hnum := hchar (by omega) (Option.some.inj hc)
    rw [encodeChar, if_neg (by omega), if_neg (by omega), if_pos (by omega),
      ← eq_ofNat (b := b) (n := 0xE0 + c.toNat / 4096) (by omega),
      show 0x80 + c.toNat / 64 % 64 = 0x80 + d by omega,
      show 0x80 + c.toNat % 64 = 0x80 + d' by omega]
    rfl
  split at h
  · -- four octets: here it keeps shorter ones and numbers that are too large out
    obtain ⟨d, bs', rfl, hd, hlow, hhigh, h⟩ :=
      octet_of_follow (by split <;> omega) (by split <;> omega) h
    obtain ⟨d', bs'', rfl, hd', -, -, h⟩ := octet_of_follow (by omega) (by omega) h
    obtain ⟨d'', bs''', rfl, hd'', -, -, hrest⟩ := octet_of_follow (by omega) (by omega) h
    rw [follow] at hrest
    obtain ⟨hc, rfl⟩ := Prod.mk.inj hrest
    have hlow' : b.toNat = 0xF0 → 0x90 ≤ 0x80 + d := fun hb => by rwa [if_pos hb] at hlow
    have hhigh' : b.toNat = 0xF4 → 0x80 + d ≤ 0x8F := fun hb => by rwa [if_pos hb] at hhigh
    have hnum := hchar (by omega) (Option.some.inj hc)
    rw [encodeChar, if_neg (by omega), if_neg (by omega), if_neg (by omega),
      ← eq_ofNat (b := b) (n := 0xF0 + c.toNat / 262144) (by omega),
      show 0x80 + c.toNat / 4096 % 64 = 0x80 + d by omega,
      show 0x80 + c.toNat / 64 % 64 = 0x80 + d' by omega,
      show 0x80 + c.toNat % 64 = 0x80 + d'' by omega]
    rfl
  · cases h

/-! ## Texts -/

/-- What has been read before stays behind what is read later. -/
theorem scanOnto_eq (read : List (Option Char)) (bs : Bytes) :
    scanOnto read bs = (scan bs).reverse ++ read := by
  cases bs with
  | nil => simp [scan, scanOnto]
  | cons b rest =>
    rw [scan, List.reverse_reverse, scanOnto, scanOnto, scanOnto_eq (_ :: read), scanOnto_eq [_],
      List.append_assoc]
    rfl
termination_by bs.length
decreasing_by all_goals (subst_vars; exact Nat.lt_succ_of_le (next_length ..))

/-- Nothing is found in no octets. -/
theorem scan_nil : scan [] = [] := by
  simp [scan, scanOnto]

/-- The next character, or that there is none, and what is found behind it. -/
theorem scan_cons (b : UInt8) (rest : Bytes) :
    scan (b :: rest) = (next b rest).1 :: scan (next b rest).2 := by
  rw [scan, scanOnto, scanOnto_eq, List.reverse_append, List.reverse_reverse]
  rfl

/-- A text that was encoded is found again. -/
theorem scan_encodeChars (cs : List Char) : scan (encodeChars cs) = cs.map some := by
  -- by induction on the text, one character after the other
  induction cs with
  | nil => exact scan_nil
  | cons c cs ih =>
    obtain ⟨b, more, hc, hnext⟩ := next_encodeChar c (encodeChars cs)
    have hcons : encodeChars (c :: cs) = b :: (more ++ encodeChars cs) := by
      rw [encodeChars, List.flatMap_cons, hc]
      rfl
    rw [hcons, scan_cons, hnext, ih]
    rfl

/-- Octets in which only characters are found are the encoding of those. -/
theorem eq_encodeChars_of_scan {bs : Bytes} {cs : List Char} (h : scan bs = cs.map some) :
    bs = encodeChars cs := by
  -- by induction on the characters that were found, for whatever octets are left
  induction cs generalizing bs with
  | nil =>
    cases bs with
    | nil => rfl
    | cons b rest => rw [scan_cons] at h; cases h
  | cons c cs ih =>
    cases bs with
    | nil => rw [scan_nil] at h; cases h
    | cons b rest =>
      rw [scan_cons, List.map_cons] at h
      obtain ⟨hc, hrest⟩ := List.cons.inj h
      calc b :: rest
        _ = encodeChar c ++ (next b rest).2 := eq_encodeChar_of_next (Prod.ext hc rfl)
        _ = encodeChar c ++ encodeChars cs := by rw [← ih hrest]

/-- Where nothing was refused, the characters read are all there is. -/
theorem map_some_filterMap {read : List (Option Char)} (h : read.all Option.isSome = true) :
    (read.filterMap id).map some = read := by
  -- by induction on what was found
  induction read with
  | nil => rfl
  | cons c read ih =>
    rw [List.all_cons, Bool.and_eq_true] at h
    obtain ⟨c, rfl⟩ := Option.isSome_iff_exists.mp h.1
    exact congrArg (some c :: ·) (ih h.2)

/-- **Text survives being written and read**, and octets that spell a text are what it is written
in. -/
theorem decode?_eq_some_iff {bs : Bytes} {s : String} : decode? bs = some s ↔ bs = bytes s := by
  unfold decode?
  dsimp only
  constructor
  · intro h
    split at h
    · rename_i hall
      obtain rfl := Option.some.inj h
      refine eq_encodeChars_of_scan ?_
      rw [String.toList_ofList]
      exact (map_some_filterMap hall).symm
    · cases h
  -- every octet belongs to one of the characters
  · rintro rfl
    have hscan : scan (bytes s) = s.toList.map some := scan_encodeChars s.toList
    rw [hscan]
    simp

end Courier.Utf8
