import Mathlib.Algebra.Group.Nat.Defs
import Courier.Proofs.Clear
import Courier.Proofs.Willing

/-!
# Headers are read exactly

What comes of reading a header is settled by the octets that the stream brings before its first
end or fault. They begin with a header, or break the rules of the wire in one of its fields, or are
over within a field; only in the last of these cases it matters what came instead of more octets.
A header that is read is taken off the front, and nothing after it is.

Main results:

* `Header.exists_judged`, `Header.read_of_judged` — the three cases, and what is read in each.
* `Header.read_exact` — reading succeeds on headers only, and fails as the rules of the wire say.
* `Header.codec_exact` — both ends of the wire, and that they agree on the paths.
-/

namespace Courier.Header

open Inbound (leftOf)

/-! ## Numbers -/

/-- Octets are read as a number that they have room for. -/
theorem ofLowFirst_lt (bs : Bytes) : ofLowFirst bs < 256 ^ bs.length := by
  -- by induction on the octets, the lowest first
  induction bs with
  | nil => exact Nat.one_pos
  | cons b bs ih =>
    have hb := b.toNat_lt
    rw [List.length_cons, ofLowFirst, Nat.pow_succ]
    omega

/-- A number that there is room for is read as it was written. -/
theorem ofLowFirst_lowFirst_of_lt {width n : Nat} (h : n < 256 ^ width) :
    ofLowFirst (lowFirst width n) = n := by
  -- by induction on the room, with the number divided on the way
  induction width generalizing n with
  | zero =>
    rw [Nat.pow_zero] at h
    rw [lowFirst, ofLowFirst]
    omega
  | succ width ih =>
    rw [Nat.pow_succ] at h
    have hdiv : n / 256 < 256 ^ width := Nat.div_lt_of_lt_mul (by omega)
    rw [lowFirst, ofLowFirst, ih hdiv, Utf8.toNat_ofNat_of_lt (Nat.mod_lt _ (by decide))]
    omega

/-! ## What octets amount to -/

/-- The octets are over within a field, and the fields before it are in order. -/
inductive CutWithin : Bytes → HeaderField → Prop where
  | command : CutWithin [] .command
  | pathLength (c : Command) {part : Bytes} (hshort : part.length < 8) :
      CutWithin (c.octet :: part) .pathLength
  | path (c : Command) {n : Nat} {part : Bytes} (hallowed : lengthAllowed n = true)
      (hshort : part.length < n) : CutWithin (c.octet :: (lowFirst 8 n ++ part)) .path

/-- A field is complete and breaks a rule, and the fields before it are in order. -/
inductive Breaks : Bytes → Violation → Prop where
  | command {b : UInt8} (rest : Bytes) (hunknown : Command.ofOctet? b = none) :
      Breaks (b :: rest) (.unknownCommand b)
  | pathLength (c : Command) {n : Nat} (rest : Bytes) (hn : n < 256 ^ 8)
      (hrefused : lengthAllowed n = false) :
      Breaks (c.octet :: (lowFirst 8 n ++ rest)) (.pathLength n)
  | path (c : Command) {path : Bytes} (rest : Bytes) (hallowed : lengthAllowed path.length = true)
      (hnoText : ∀ text, path ≠ bytes text) :
      Breaks (c.octet :: (lowFirst 8 path.length ++ (path ++ rest))) .pathNotText

/-- What octets are found to be. -/
inductive Verdict where
  | header (h : Header)
  | broken (v : Violation)
  | cut (field : HeaderField)

inductive Judged : Bytes → Verdict → Prop where
  | header {h : Header} {x : Bytes} (hallowed : lengthAllowed (bytes h.path).length = true)
      (hbegins : h.octets <+: x) : Judged x (.header h)
  | broken {v : Violation} {x : Bytes} (h : Breaks x v) : Judged x (.broken v)
  | cut {field : HeaderField} {x : Bytes} (h : CutWithin x field) : Judged x (.cut field)

/-- What is said of a field that is not complete, by what came instead of more octets. -/
def cutError (field : HeaderField) : Option Fault → TransferError
  | none => .protocol (.closedWithin field)
  | some f =>
    if f.kind = .unexpectedEof then .protocol (.closedWithin field)
    else .transport (.readField field) f

/-- What reading comes to. -/
def Verdict.result (stop : Option Fault) : Verdict → Except TransferError Header
  | header h => .ok h
  | broken v => .error (.protocol v)
  | cut field => .error (cutError field stop)

/-- The octets of a number of the full width. -/
theorem lowFirst_of_length {number : Bytes} (h : number.length = 8) :
    lowFirst 8 (ofLowFirst number) = number := by
  rw [← h, lowFirst_ofLowFirst]

/-- **There is no fourth case.** -/
theorem exists_judged (x : Bytes) : ∃ v, Judged x v := by
  by_cases hx : x = []
  · exact ⟨_, .cut (by rw [hx]; exact .command)⟩
  obtain ⟨b, rest, rfl⟩ := List.exists_cons_of_ne_nil hx
  by_cases hunknown : Command.ofOctet? b = none
  · exact ⟨_, .broken (.command rest hunknown)⟩
  obtain ⟨c, hc⟩ := Option.ne_none_iff_exists'.mp hunknown
  rw [Command.ofOctet?_eq_some hc]
  by_cases hshort : rest.length < 8
  · exact ⟨_, .cut (.pathLength c hshort)⟩
  -- the length is complete, and the octets after it are to be the path
  have hwidth : (rest.take 8).length = 8 := by
    rw [List.length_take]
    omega
  rw [← List.take_append_drop 8 rest, ← lowFirst_of_length hwidth]
  generalize hn : ofLowFirst (rest.take 8) = n
  have hlt : n < 256 ^ 8 := by
    have hnumber := ofLowFirst_lt (rest.take 8)
    rwa [hwidth, hn] at hnumber
  by_cases hallowed : lengthAllowed n = true
  · by_cases hlong : (rest.drop 8).length < n
    · exact ⟨_, .cut (.path c hallowed hlong)⟩
    have hlength : ((rest.drop 8).take n).length = n := by
      rw [List.length_take]
      omega
    rw [← List.take_append_drop n (rest.drop 8)]
    generalize (rest.drop 8).take n = path at hlength
    subst hlength
    -- such octets are a path if they are the encoding of a text
    by_cases htext : ∃ text, path = bytes text
    · obtain ⟨text, rfl⟩ := htext
      refine ⟨_, .header (h := ⟨c, text⟩) hallowed ?_⟩
      rw [octets_eq, ← List.append_assoc]
      exact ⟨_, rfl⟩
    · exact ⟨_, .broken (.path c _ hallowed fun text htext' => htext ⟨text, htext'⟩)⟩
  · exact ⟨_, .broken (.pathLength c _ hlt (by simpa using hallowed))⟩

/-! ## Reading -/

section Read

variable {s : Inbound}

/-- A field is read if it is there, and then nothing else is. -/
theorem readField_of_le {n : Nat} (h : n ≤ s.clear.length) (field : HeaderField) (a : Ambient) :
    ∃ t b, readField field n s a = (.ok (s.clear.take n), t, b) ∧
      t.arrivals = leftOf n s.arrivals := by
  obtain ⟨r, t, b, hfill⟩ : ∃ r t b, s.fill n a = (r, t, b) := ⟨_, _, _, rfl⟩
  cases Inbound.filled_of_fill hfill with
  | full hroom hleft =>
    refine ⟨t, b, ?_, hleft⟩
    have hfull : ¬ (s.clear.take n).length < n := by
      rw [List.length_take]
      omega
    rw [readField, hfill]
    dsimp only
    rw [if_neg hfull]
  | ended hshort => omega
  | failed hshort => omega

/-- Otherwise the end or the fault that comes next is met, and nothing after it. -/
theorem readField_of_lt {n : Nat} (h : s.clear.length < n) (field : HeaderField) (a : Ambient) :
    ∃ t b, readField field n s a = (.error (cutError field s.stop), t, b) ∧
      t.arrivals = Inbound.restOf s.arrivals := by
  obtain ⟨r, t, b, hfill⟩ : ∃ r t b, s.fill n a = (r, t, b) := ⟨_, _, _, rfl⟩
  refine ⟨t, b, ?_, Inbound.rest_of_fill hfill h⟩
  rw [readField, hfill]
  cases Inbound.filled_of_fill hfill with
  | full hroom => omega
  | ended hshort hstop =>
    dsimp only
    rw [if_pos hshort, hstop]
    rfl
  | failed hshort hstop =>
    dsimp only
    rw [hstop, cutError]
    split <;> rfl

/-- What is left when some octets were taken is what comes behind them. -/
theorem clear_of_left {t : Inbound} {n : Nat} (h : t.arrivals = leftOf n s.arrivals) :
    t.clear = s.clear.drop n ∧ t.stop = s.stop := by
  rw [Inbound.clear, Inbound.stop, h]
  exact ⟨Inbound.clearOf_leftOf n _, Inbound.stopOf_leftOf n _⟩

/-- The octets that are asked for are the first ones. -/
theorem readField_of_append {first rest : Bytes} (h : s.clear = first ++ rest)
    (field : HeaderField) (a : Ambient) :
    ∃ t b, readField field first.length s a = (.ok first, t, b) ∧
      t.arrivals = leftOf first.length s.arrivals ∧ t.clear = rest ∧ t.stop = s.stop := by
  have hle : first.length ≤ s.clear.length := by
    rw [h, List.length_append]
    omega
  obtain ⟨t, b, hread, hleft⟩ := readField_of_le hle field a
  obtain ⟨hclear, hstop⟩ := clear_of_left hleft
  refine ⟨t, b, ?_, hleft, ?_, hstop⟩
  · rw [hread, h, List.take_left]
  · rw [hclear, h, List.drop_left]

/-- After a command that is known, it depends on the path. -/
theorem read_of_command {c : Command} {rest : Bytes} (h : s.clear = c.octet :: rest) (a : Ambient) :
    ∃ t b, t.arrivals = leftOf 1 s.arrivals ∧ t.clear = rest ∧ t.stop = s.stop ∧
      (∀ e u d, readPath t b = (.error e, u, d) → read s a = (.error e, u, d)) ∧
      ∀ path u d, readPath t b = (.ok path, u, d) → read s a = (.ok ⟨c, path⟩, u, d) := by
  obtain ⟨t, b, hfield, hleft, hclear, hstop⟩ :=
    readField_of_append (show s.clear = [c.octet] ++ rest from h) .command a
  have hcommand : readCommand s a = (.ok c, t, b) := by
    rw [readCommand, show 1 = [c.octet].length from rfl, hfield]
    dsimp only [List.headD_cons]
    rw [Command.ofOctet?_octet]
  refine ⟨t, b, hleft, hclear, hstop, fun e u d hpath => ?_, fun path u d hpath => ?_⟩
  · rw [read, hcommand]
    dsimp only
    rw [hpath]
  · rw [read, hcommand]
    dsimp only
    rw [hpath]

/-- After a length that is allowed, it depends on the octets of the path. -/
theorem readPath_of_number {n : Nat} {rest : Bytes} (hallowed : lengthAllowed n = true)
    (h : s.clear = lowFirst 8 n ++ rest) (a : Ambient) :
    ∃ t b, t.arrivals = leftOf 8 s.arrivals ∧ t.clear = rest ∧ t.stop = s.stop ∧
      (∀ e u d, readField .path n t b = (.error e, u, d) → readPath s a = (.error e, u, d)) ∧
      (∀ text u d, readField .path n t b = (.ok (bytes text), u, d) →
        readPath s a = (.ok text, u, d)) ∧
      ∀ path u d, (∀ text, path ≠ bytes text) → readField .path n t b = (.ok path, u, d) →
        readPath s a = (.error (.protocol .pathNotText), u, d) := by
  obtain ⟨t, b, hfield, hleft, hclear, hstop⟩ := readField_of_append h .pathLength a
  rw [length_lowFirst] at hfield hleft
  have hnumber : ofLowFirst (lowFirst 8 n) = n := ofLowFirst_lowFirst hallowed
  refine ⟨t, b, hleft, hclear, hstop, fun e u d hread => ?_, fun text u d hread => ?_,
    fun path u d hnoText hread => ?_⟩
  · simp only [readPath, hfield, hnumber, hallowed, if_true, hread]
  · have htext : Utf8.decode? (bytes text) = some text := Utf8.decode?_eq_some_iff.mpr rfl
    simp only [readPath, hfield, hnumber, hallowed, if_true, hread, htext]
  · have hnone : Utf8.decode? path = none := by
      refine Option.eq_none_iff_forall_ne_some.mpr fun text htext => ?_
      exact hnoText text (Utf8.decode?_eq_some_iff.mp htext)
    simp only [readPath, hfield, hnumber, hallowed, if_true, hread, hnone]

/-- A header that the octets begin with is read, and taken off the front. -/
theorem read_of_header {h : Header} (hallowed : lengthAllowed (bytes h.path).length = true)
    (hbegins : h.octets <+: s.clear) (a : Ambient) :
    ∃ t b, read s a = (.ok h, t, b) ∧ t.arrivals = leftOf h.octets.length s.arrivals := by
  obtain ⟨rest, hrest⟩ := hbegins
  rw [octets_eq, List.cons_append, List.append_assoc] at hrest
  -- each field is at the front once the one before it has been taken off
  obtain ⟨t, b, hcommand, hclear, -, -, hok⟩ := read_of_command hrest.symm a
  obtain ⟨u, d, hnumber, hclear, -, -, hpath, -⟩ := readPath_of_number hallowed hclear b
  obtain ⟨v, e, hread, hleft, -, -⟩ := readField_of_append hclear .path d
  refine ⟨v, e, hok _ _ _ (hpath _ _ _ hread), ?_⟩
  rw [hleft, hnumber, hcommand, ← Inbound.leftOf_add, ← Inbound.leftOf_add, length_octets,
    Nat.add_assoc]

/-- Where the field ends that breaks a rule. -/
def brokenEnd (x : Bytes) : Violation → Nat
  | .unknownCommand _ => 1
  | .pathLength _ => 9
  | _ => 9 + ofLowFirst ((x.drop 1).take 8)

/-- A path that is no text is read to its end before that is found out. -/
theorem brokenEnd_path (c : Command) {path : Bytes} (rest : Bytes)
    (hallowed : lengthAllowed path.length = true) :
    brokenEnd (c.octet :: (lowFirst 8 path.length ++ (path ++ rest))) .pathNotText =
      9 + path.length := by
  have htake : (lowFirst 8 path.length ++ (path ++ rest)).take 8 = lowFirst 8 path.length :=
    List.take_left' (length_lowFirst ..)
  rw [brokenEnd, List.drop_one, List.tail_cons, htake, ofLowFirst_lowFirst hallowed]
  all_goals nofun

/-- A header that breaks a rule is read up to the end of the field that does, and no further. -/
theorem left_of_breaks {v : Violation} {x : Bytes} (h : Breaks x v) (hx : s.clear = x)
    (a : Ambient) :
    ∃ t b, read s a = (.error (.protocol v), t, b) ∧
      t.arrivals = leftOf (brokenEnd x v) s.arrivals := by
  -- each field is read only after those before it were, so the octets that are taken add up
  cases h with
  | @command b rest hunknown =>
    obtain ⟨t, d, hfield, hleft, -⟩ :=
      readField_of_append (show s.clear = [b] ++ rest from hx) .command a
    refine ⟨t, d, ?_, hleft⟩
    rw [read, readCommand, show 1 = [b].length from rfl, hfield]
    dsimp only [List.headD_cons]
    rw [hunknown]
  | @pathLength c n rest hn hrefused =>
    obtain ⟨t, b, hcommand, hclear, -, herror, -⟩ := read_of_command hx a
    obtain ⟨u, d, hfield, hleft, -⟩ := readField_of_append hclear .pathLength b
    rw [length_lowFirst] at hfield hleft
    have hpath : readPath t b = (.error (.protocol (.pathLength n)), u, d) := by
      rw [readPath, hfield]
      dsimp only
      rw [ofLowFirst_lowFirst_of_lt hn, if_neg (by simp [hrefused])]
    refine ⟨u, d, herror _ _ _ hpath, ?_⟩
    rw [hleft, hcommand, ← Inbound.leftOf_add]
    rfl
  | @path c path rest hallowed hnoText =>
    obtain ⟨t, b, hcommand, hclear, -, herror, -⟩ := read_of_command hx a
    obtain ⟨u, d, hnumber, hclear, -, -, -, hpath⟩ := readPath_of_number hallowed hclear b
    obtain ⟨v, e, hfield, hleft, -⟩ := readField_of_append hclear .path d
    refine ⟨v, e, herror _ _ _ (hpath _ _ _ hnoText hfield), ?_⟩
    rw [hleft, hnumber, hcommand, ← Inbound.leftOf_add, ← Inbound.leftOf_add,
      brokenEnd_path c rest hallowed, ← Nat.add_assoc]

/-- A header that is cut is read up to what cuts it, and no further. -/
theorem left_of_cut {field : HeaderField} {x : Bytes} (h : CutWithin x field) (hx : s.clear = x)
    (a : Ambient) :
    ∃ t b, read s a = (.error (cutError field s.stop), t, b) ∧
      t.arrivals = Inbound.restOf s.arrivals := by
  -- the fields before the one that is cut come off the front, and leave what cuts it where it is
  cases h with
  | command =>
    obtain ⟨t, b, hfield, hrest⟩ :=
      readField_of_lt (s := s) (n := 1) (by rw [hx]; exact Nat.one_pos) .command a
    refine ⟨t, b, ?_, hrest⟩
    rw [read, readCommand, hfield]
  | @pathLength c part hshort =>
    obtain ⟨t, b, hcommand, hclear, hstop, herror, -⟩ := read_of_command hx a
    obtain ⟨u, d, hfield, hrest⟩ := readField_of_lt (by rwa [hclear]) .pathLength b
    have hpath : readPath t b = (.error (cutError .pathLength t.stop), u, d) := by
      rw [readPath, hfield]
    refine ⟨u, d, by rw [herror _ _ _ hpath, hstop], ?_⟩
    rw [hrest, hcommand, Inbound.restOf_leftOf]
  | @path c n part hallowed hshort =>
    obtain ⟨t, b, hcommand, hclear, hstop, herror, -⟩ := read_of_command hx a
    obtain ⟨u, d, hnumber, hclear, hstop', hpath, -⟩ := readPath_of_number hallowed hclear b
    obtain ⟨v, e, hfield, hrest⟩ := readField_of_lt (by rwa [hclear]) .path d
    refine ⟨v, e, by rw [herror _ _ _ (hpath _ _ _ hfield), hstop', hstop], ?_⟩
    rw [hrest, hnumber, hcommand, Inbound.restOf_leftOf, Inbound.restOf_leftOf]

/-- **Octets that break a rule** are refused for that. -/
theorem read_of_breaks {v : Violation} {x : Bytes} (h : Breaks x v) (hx : s.clear = x)
    (a : Ambient) : (read s a).1 = .error (.protocol v) := by
  obtain ⟨t, b, hread, -⟩ := left_of_breaks h hx a
  rw [hread]

/-- **Octets that end within a field** are refused for that, or for the fault that cut them. -/
theorem read_of_cut {field : HeaderField} {x : Bytes} (h : CutWithin x field) (hx : s.clear = x)
    (a : Ambient) : (read s a).1 = .error (cutError field s.stop) := by
  obtain ⟨t, b, hread, -⟩ := left_of_cut h hx a
  rw [hread]

/-- **What is read follows from the verdict** and from what comes after the octets. -/
theorem read_of_judged {v : Verdict} (hv : Judged s.clear v) (a : Ambient) :
    (read s a).1 = v.result s.stop := by
  cases hv with
  | header hallowed hbegins =>
    obtain ⟨t, b, hread, -⟩ := read_of_header hallowed hbegins a
    rw [hread]
    rfl
  | broken h => exact read_of_breaks h rfl a
  | cut h => exact read_of_cut h rfl a

end Read

/-! ## Reading is exact -/

/-- When reading succeeds, with what error it fails otherwise, and what it leaves. -/
structure ReadsExactly (s : Inbound) (a : Ambient) : Prop where
  /-- It gives a header if the octets begin with it and its path is allowed, and only then. -/
  header : ∀ h, (read s a).1 = .ok h ↔
    lengthAllowed (bytes h.path).length = true ∧ h.octets <+: s.clear
  /-- It takes just the header off the front. -/
  consumed : ∀ h, (read s a).1 = .ok h →
    (read s a).2.1.arrivals = leftOf (9 + (bytes h.path).length) s.arrivals ∧
      s.clear = h.octets ++ (read s a).2.1.clear ∧ (read s a).2.1.stop = s.stop
  /-- The connection is at fault if a fault comes within a field, unless it says that the stream
  is at its end. -/
  transport : ∀ during f, (read s a).1 = .error (.transport during f) ↔
    ∃ field, during = .readField field ∧ CutWithin s.clear field ∧ s.stop = some f ∧
      f.kind ≠ .unexpectedEof
  /-- The peer is at fault if a field breaks a rule, or the stream is at its end within one. -/
  protocol : ∀ v, (read s a).1 = .error (.protocol v) ↔ Breaks s.clear v ∨
    ∃ field, v = .closedWithin field ∧ CutWithin s.clear field ∧
      ∀ f, s.stop = some f → f.kind = .unexpectedEof
  /-- There is no other error. -/
  total : (∃ h, (read s a).1 = .ok h) ∨ (∃ v, (read s a).1 = .error (.protocol v)) ∨
    ∃ during f, (read s a).1 = .error (.transport during f)

/-- A field that is cut is the fault of one of the two ends. -/
theorem cutError_eq_transport {field : HeaderField} {stop : Option Fault} {during : Activity}
    {f : Fault} : cutError field stop = .transport during f ↔
      during = .readField field ∧ stop = some f ∧ f.kind ≠ .unexpectedEof := by
  cases stop with
  | none => simp [cutError]
  | some g =>
    by_cases hg : g.kind = .unexpectedEof
    · simp only [cutError, if_pos hg]
      constructor
      · intro h
        cases h
      · rintro ⟨-, hgf, hf⟩
        exact absurd ((Option.some.inj hgf) ▸ hg) hf
    · simp only [cutError, if_neg hg]
      constructor
      · intro h
        obtain ⟨rfl, rfl⟩ := TransferError.transport.inj h
        exact ⟨rfl, rfl, hg⟩
      · rintro ⟨rfl, hgf, -⟩
        rw [Option.some.inj hgf]

/-- It is the peer's fault if the stream just ends. -/
theorem cutError_eq_protocol {field : HeaderField} {stop : Option Fault} {v : Violation} :
    cutError field stop = .protocol v ↔
      v = .closedWithin field ∧ ∀ f, stop = some f → f.kind = .unexpectedEof := by
  cases stop with
  | none =>
    simp only [cutError, TransferError.protocol.injEq]
    constructor
    · intro h
      refine ⟨h.symm, fun f hf => ?_⟩
      cases hf
    · exact fun h => h.1.symm
  | some g =>
    by_cases hg : g.kind = .unexpectedEof
    · simp only [cutError, if_pos hg, TransferError.protocol.injEq]
      exact ⟨fun h => ⟨h.symm, fun f hf => Option.some.inj hf ▸ hg⟩, fun h => h.1.symm⟩
    · simp only [cutError, if_neg hg]
      constructor
      · intro h
        cases h
      · exact fun h => absurd (h.2 g rfl) hg

/-- Otherwise it is that of the transport. -/
theorem cutError_cases (field : HeaderField) (stop : Option Fault) :
    (∃ v, cutError field stop = .protocol v) ∨
      ∃ during f, cutError field stop = .transport during f := by
  cases stop with
  | none => exact .inl ⟨_, rfl⟩
  | some f =>
    by_cases hf : f.kind = .unexpectedEof
    · exact .inl ⟨_, if_pos hf⟩
    · exact .inr ⟨_, _, if_neg hf⟩

/-- **Reading is exact**, whatever arrives. -/
theorem read_exact (s : Inbound) (a : Ambient) : ReadsExactly s a := by
  -- a result comes from one verdict only, so that the octets can be told from it
  obtain ⟨v, hv⟩ := exists_judged s.clear
  have hresult := read_of_judged hv a
  constructor
  case header =>
    intro h
    constructor
    · intro hread
      rw [hread] at hresult
      cases hv with
      | header hallowed hbegins =>
        obtain rfl := Except.ok.inj hresult
        exact ⟨hallowed, hbegins⟩
      | broken => cases hresult
      | cut => cases hresult
    · rintro ⟨hallowed, hbegins⟩
      exact read_of_judged (.header hallowed hbegins) a
  case consumed =>
    intro h hread
    rw [hread] at hresult
    cases hv with
    | header hallowed hbegins =>
      obtain rfl := Except.ok.inj hresult
      obtain ⟨t, b, hheader, hleft⟩ := read_of_header hallowed hbegins a
      obtain ⟨hclear, hstop⟩ := clear_of_left hleft
      obtain ⟨rest, hrest⟩ := hbegins
      rw [hheader]
      refine ⟨?_, ?_, hstop⟩
      · rw [hleft, length_octets]
      · rw [hclear, ← hrest, List.drop_left]
    | broken => cases hresult
    | cut => cases hresult
  case transport =>
    intro during f
    constructor
    · intro hread
      rw [hread] at hresult
      cases hv with
      | header => cases hresult
      | broken => cases hresult
      | cut hcut =>
        obtain ⟨hduring, hstop, hf⟩ := cutError_eq_transport.mp (Except.error.inj hresult).symm
        exact ⟨_, hduring, hcut, hstop, hf⟩
    · rintro ⟨field, hduring, hcut, hstop, hf⟩
      rw [read_of_cut hcut rfl a, cutError_eq_transport.mpr ⟨hduring, hstop, hf⟩]
  case protocol =>
    intro violation
    constructor
    · intro hread
      rw [hread] at hresult
      cases hv with
      | header => cases hresult
      | broken hbreaks =>
        obtain rfl := TransferError.protocol.inj (Except.error.inj hresult)
        exact .inl hbreaks
      | cut hcut =>
        obtain ⟨hfield, hstop⟩ := cutError_eq_protocol.mp (Except.error.inj hresult).symm
        exact .inr ⟨_, hfield, hcut, hstop⟩
    · rintro (hbreaks | ⟨field, hfield, hcut, hstop⟩)
      · exact read_of_breaks hbreaks rfl a
      · rw [read_of_cut hcut rfl a, cutError_eq_protocol.mpr ⟨hfield, hstop⟩]
  case total =>
    rw [hresult]
    cases v with
    | header h => exact .inl ⟨h, rfl⟩
    | broken v => exact .inr (.inl ⟨v, rfl⟩)
    | cut field =>
      rcases cutError_cases field s.stop with ⟨v, hv⟩ | ⟨during, f, hf⟩
      · exact .inr (.inl ⟨v, congrArg _ hv⟩)
      · exact .inr (.inr ⟨during, f, congrArg _ hf⟩)

/-! ## Writing is exact -/

/-- What has gone out of a header, whatever the stream does. -/
structure WritesExactly (h : Header) (s : Outbound) (a : Ambient) : Prop where
  /-- A header that may not be sent is not begun. -/
  refused : lengthAllowed (bytes h.path).length = false →
    (h.write s a).1 = .error (.protocol (.pathLength (bytes h.path).length)) ∧
      (h.write s a).2.1.calls = s.calls
  /-- At any moment a first part of it has gone out. -/
  part : ∀ calls, s.calls <:+ calls → calls <:+ (h.write s a).2.1.calls →
    ∃ part, part <+: h.octets ∧ Outbound.taken calls = s.wire ++ part
  whole : (h.write s a).1 = .ok () → (h.write s a).2.1.wire = s.wire ++ h.octets

/-- A header is written in its octets, whatever the stream takes at a time. -/
theorem write_exact (h : Header) (s : Outbound) (a : Ambient) : WritesExactly h s a := by
  obtain ⟨r, t, b, hwrite⟩ : ∃ r t b, h.write s a = (r, t, b) := ⟨_, _, _, rfl⟩
  obtain ⟨calls, rest, hcalls, hsplit, hnever, hok⟩ := calls_of_write hwrite
  constructor
  case refused =>
    intro hrefused
    rw [hwrite]
    dsimp only
    refine ⟨?_, ?_⟩
    · rw [write, if_neg (by simp [hrefused])] at hwrite
      cases hwrite
      rfl
    · rw [hcalls, hnever hrefused]
      rfl
  case part =>
    rintro _ ⟨made, rfl⟩ hmoment
    rw [hwrite] at hmoment
    dsimp only at hmoment
    rw [hcalls] at hmoment
    -- the calls made by then are the first ones of those for the header
    obtain ⟨later, hlater⟩ := hmoment
    rw [← List.append_assoc] at hlater
    obtain rfl := List.append_cancel_right hlater
    refine ⟨Outbound.taken made, ?_, by rw [Outbound.taken_append, Outbound.wire_eq]⟩
    rw [hsplit, Outbound.taken_append, List.append_assoc]
    exact List.prefix_append ..
  case whole =>
    rw [hwrite]
    dsimp only
    intro hr
    rw [Outbound.wire_eq, hcalls, Outbound.taken_append, ← Outbound.wire_eq, hsplit, (hok hr).1,
      List.append_nil]

/-! ## Both ends -/

/-- The two ends of the wire, for any streams. -/
structure Exact : Prop where
  reads : ∀ s a, ReadsExactly s a
  writes : ∀ h s a, WritesExactly h s a
  /-- What one end can send is what the other one can read. -/
  agree : ∀ h, (∃ s a, (write h s a).1 = .ok ()) ↔ ∃ s a, (read s a).1 = .ok h

/-- **Headers are read exactly**, and just those that are written. -/
theorem codec_exact : Exact where
  reads := read_exact
  writes := write_exact
  agree := by
    intro h
    constructor
    · rintro ⟨s, a, hok⟩
      obtain ⟨r, t, b, hwrite⟩ : ∃ r t b, h.write s a = (r, t, b) := ⟨_, _, _, rfl⟩
      rw [hwrite] at hok
      obtain ⟨calls, rest, -, -, -, hsent⟩ := calls_of_write hwrite
      refine ⟨.ofBytes h.octets, a, ((read_exact _ a).header h).mpr ⟨(hsent hok).2, ?_⟩⟩
      rw [Inbound.clear, Inbound.ofBytes, Inbound.of, Inbound.clearOf_data]
      exact List.prefix_append ..
    · rintro ⟨s, a, hok⟩
      have hallowed := (((read_exact s a).header h).mp hok).1
      obtain ⟨t, b, hwrite, -⟩ := write_of_willing Outbound.willing_willing hallowed a
      exact ⟨.willing, a, by rw [hwrite]⟩

end Courier.Header
