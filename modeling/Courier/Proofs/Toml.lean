import Mathlib.Data.List.TakeDrop
import Courier.Proofs.Decimal
import Courier.Toml.Reader

/-!
# TOML documents

No key occurs twice in a document, since each of them is looked for before it is added. And a line
with a bare key and a whole number is read as just that, whatever follows it.

Main results:

* `Toml.distinct_of_parse` — no key occurs twice in a document.
* `Toml.documentRest_line` — a line with a key and a number adds them to the document.
* `Toml.documentRest_lines` — several such lines at the end of one.
-/

namespace Courier.Toml

/-- What a computation that goes on in another one came to, where both succeeded. -/
theorem ok_of_bind {ε α β : Type} {x : Except ε α} {next : α → Except ε β} {b : β}
    (h : x >>= next = .ok b) : ∃ a, x = .ok a ∧ next a = .ok b := by
  cases x with
  | error e => cases h
  | ok a => exact ⟨a, rfl, h⟩

/-! ## Keys are distinct -/

/-- No key occurs twice among the members. -/
def Distinct (ms : Members) : Prop :=
  (ms.map (·.1)).Nodup

variable {ms ms' : Members} {key : String} {node : Node}

/-- A key that was looked for and not found can be added. -/
theorem Distinct.concat (h : Distinct ms) (hkey : ms.lookup key = none) :
    Distinct (ms ++ [(key, node)]) := by
  rw [Distinct, List.map_append, List.nodup_append]
  refine ⟨h, by simp, fun k hk k' hk' => ?_⟩
  obtain ⟨m, hm, rfl⟩ := List.mem_map.mp hk
  obtain rfl : k' = key := by simpa using hk'
  exact Ne.symm (by simpa using List.lookup_eq_none_iff.mp hkey m hm)

/-- Replacing what a key stands for leaves the keys alone. -/
theorem Distinct.replace (h : Distinct ms) : Distinct (replace key node ms) := by
  have hkeys : (Toml.replace key node ms).map (·.1) = ms.map (·.1) := by
    rw [Toml.replace, List.map_map]
    refine List.map_congr_left fun (k, n) _ => ?_
    -- the key that is replaced is kept, and only its node is another one
    show (if k = key then (k, node) else (k, n)).1 = k
    split <;> rfl
  rwa [Distinct, hkeys]

/-- What is changed below a key leaves the keys as they are, or adds one that was not there. -/
theorem Distinct.descend {dotted : Bool} {change : Origin → Members → Except Trouble Members}
    (hchange : ∀ {origin ms ms'}, Distinct ms → change origin ms = .ok ms' → Distinct ms')
    {path walked : List String} {origin : Origin} (h : Distinct ms)
    (hdescend : Toml.descend dotted change path walked origin ms = .ok ms') : Distinct ms' := by
  cases path with
  | nil => exact hchange h hdescend
  | cons key path =>
    rw [Toml.descend] at hdescend
    -- the first key is new, or what is below it is replaced
    split at hdescend
    · rename_i hkey
      obtain ⟨inner, -, hdescend⟩ := ok_of_bind hdescend
      cases hdescend
      exact h.concat hkey
    · cases hdescend
    · obtain ⟨inner, -, hdescend⟩ := ok_of_bind hdescend
      cases hdescend
      exact h.replace
    · split at hdescend
      · cases hdescend
      · obtain ⟨inner, -, hdescend⟩ := ok_of_bind hdescend
        cases hdescend
        exact h.replace

/-- A value is added only under a key that is new, wherever the header and the dots lead to. -/
theorem Distinct.addValue {header path : List String} (h : Distinct ms)
    (hadd : addValue header path key node ms = .ok ms') : Distinct ms' := by
  refine h.descend ?_ hadd
  intro origin ms ms' h hadd
  -- a key that is there already is refused
  split at hadd
  · cases hadd
  split at hadd
  · cases hadd
  · rename_i hkey
    cases hadd
    exact h.concat (Option.not_isSome_iff_eq_none.mp hkey)

section Document

variable {d d' : Document} {path : List String}

/-- So a line of a document keeps the keys of its root distinct. -/
theorem distinct_add (h : Distinct d.root) (hadd : d.add path key node = .ok d') :
    Distinct d'.root := by
  obtain ⟨root, hroot, hd⟩ := ok_of_bind hadd
  cases hd
  exact h.descend (fun h => h.addValue) hroot

/-- What a header changes is below its path, and at its last key. -/
theorem distinct_atHeader {change : String → Members → Option Members}
    (hchange : ∀ {key ms ms'}, Distinct ms → change key ms = some ms' → Distinct ms')
    (h : Distinct d.root) (hat : d.atHeader path change = .ok d') : Distinct d'.root := by
  obtain ⟨root, hroot, hd⟩ := ok_of_bind hat
  cases hd
  refine h.descend ?_ hroot
  intro _ ms ms' h hms
  split at hms
  · rename_i hsome
    cases hms
    exact hchange h hsome
  · cases hms

/-- A table opens under a key that is new, or one that is there already is opened again. -/
theorem distinct_openTable (h : Distinct d.root) (hopen : d.openTable path = .ok d') :
    Distinct d'.root := by
  refine distinct_atHeader ?_ h hopen
  intro key ms ms' h hms
  -- the key is new, or a table that may be opened is under it
  split at hms
  · cases hms
    exact h.concat ‹_›
  · cases hms
    exact h.replace
  · cases hms

/-- So does an element of an array of tables. -/
theorem distinct_openElement (h : Distinct d.root) (hopen : d.openElement path = .ok d') :
    Distinct d'.root := by
  refine distinct_atHeader ?_ h hopen
  intro key ms ms' h hms
  split at hms
  · cases hms
    exact h.concat ‹_›
  · cases hms
    exact h.replace
  · cases hms

/-- A line with a key keeps the keys distinct. -/
theorem distinct_keyLine {total : Nat} {cs rest : List Char} (h : Distinct d.root)
    (hline : keyLine total d cs = .ok (d', rest)) : Distinct d'.root := by
  -- of all that a line is read for, only what is added at its end changes the document
  obtain ⟨⟨keys, start⟩, -, hline⟩ := ok_of_bind hline
  obtain ⟨⟨v, left⟩, -, hline⟩ := ok_of_bind hline
  obtain ⟨after, -, hline⟩ := ok_of_bind hline
  split at hline
  · rename_i hadd
    cases hline
    exact distinct_add h hadd
  · cases hline

/-- So does a line with a header. -/
theorem distinct_headerLine {cs rest : List Char} (h : Distinct d.root)
    (hline : headerLine d cs = .ok (d', rest)) : Distinct d'.root := by
  obtain ⟨⟨keys, left⟩, -, hline⟩ := ok_of_bind hline
  dsimp only at hline
  -- whichever brackets close the header, what is behind them is read in the same way
  split at hline
  all_goals
    obtain ⟨left', hleft, hline⟩ := ok_of_bind hline
    obtain ⟨after, -, hline⟩ := ok_of_bind hline
  case h_3 | h_4 => cases hleft
  all_goals
    split at hline
    · rename_i hopen
      cases hline
      split at hopen
      · exact distinct_openElement h hopen
      · exact distinct_openTable h hopen
    · cases hline

/-- And so do all lines of a document. -/
theorem distinct_documentRest {total fuel : Nat} {cs : List Char} (h : Distinct d.root)
    (hrest : documentRest total fuel d cs = .ok d') : Distinct d'.root := by
  -- by induction on the fuel, with one line read for each unit
  induction fuel generalizing d cs with
  | zero => cases hrest
  | succ fuel ih =>
    rw [documentRest] at hrest
    -- blank lines and comments leave the document alone, the other two kinds of lines add to it
    split at hrest
    · cases hrest
      exact h
    · split at hrest
      · exact ih h hrest
      · cases hrest
    · exact ih h hrest
    · exact ih h hrest
    · cases hrest
    · split at hrest
      · rename_i hline
        exact ih (distinct_headerLine h hline) hrest
      · cases hrest
    · split at hrest
      · rename_i hline
        exact ih (distinct_keyLine h hline) hrest
      · cases hrest

end Document

/-- **No key occurs twice in a document.** -/
theorem distinct_of_parse {text : List Char} (h : parse text = .ok ms) : Distinct ms := by
  unfold parse at h
  split at h
  · rename_i hrest
    cases h
    exact distinct_documentRest (d := {}) List.Pairwise.nil hrest
  · cases h

/-! ## A line with a key and a number -/

section Line

open Decimal (digits)

/-- A key that can be written without quotes. -/
def IsBare (k : List Char) : Prop :=
  k ≠ [] ∧ ∀ c ∈ k, isBareChar c = true

/-- A key does not begin with a character that means something else. -/
theorem IsBare.head_ne {k : List Char} {c : Char} (hk : IsBare (c :: k)) {d : Char}
    (hd : isBareChar d = false) : c ≠ d := by
  rintro rfl
  rw [hk.2 c (List.mem_cons_self ..)] at hd
  cases hd

/-- A bare key is read up to the first character that cannot stand in one. -/
theorem simpleKey_bare {k : List Char} (hk : IsBare k) {c : Char} (hc : isBareChar c = false)
    (cs : List Char) : simpleKey (k ++ c :: cs) = .ok (String.ofList k, c :: cs) := by
  have hspan : (k ++ c :: cs).span isBareChar = (k, c :: cs) := by
    rw [List.span_eq_takeWhile_dropWhile, List.takeWhile_append_of_pos hk.2,
      List.dropWhile_append_of_pos hk.2, List.takeWhile_cons_of_neg (by simp [hc]),
      List.dropWhile_cons_of_neg (by simp [hc]), List.append_nil]
  obtain ⟨b, k, rfl⟩ := List.exists_cons_of_ne_nil hk.1
  unfold simpleKey
  -- quotes are no characters of a bare key
  split
  · rename_i heq
    exact absurd (List.cons.inj heq).1 (hk.head_ne (by decide))
  · rename_i heq
    exact absurd (List.cons.inj heq).1 (hk.head_ne (by decide))
  · rw [hspan]

/-- There are no blanks in front of a bare key. -/
theorem skipBlanks_bare {k : List Char} (hk : IsBare k) (cs : List Char) :
    skipBlanks (k ++ cs) = k ++ cs := by
  obtain ⟨b, k, rfl⟩ := List.exists_cons_of_ne_nil hk.1
  have hspace : b ≠ ' ' := hk.head_ne (by decide)
  have htab : b ≠ '\t' := hk.head_ne (by decide)
  simp [skipBlanks, isBlank, hspace, htab]

/-- A bare key, an equals sign between blanks, and what stands behind them. -/
theorem keyAndEquals_bare {k : List Char} (hk : IsBare k) {c : Char} (hc : isBlank c = false)
    (cs : List Char) :
    keyAndEquals (k ++ ' ' :: '=' :: ' ' :: c :: cs) = .ok ([String.ofList k], c :: cs) := by
  have hkey : key (k ++ ' ' :: '=' :: ' ' :: c :: cs) =
      .ok ([String.ofList k], '=' :: ' ' :: c :: cs) := by
    rw [key, skipBlanks_bare hk, simpleKey_bare hk (by decide)]
    rfl
  have hspace : isBlank ' ' = true := by decide
  rw [keyAndEquals, hkey]
  simp [skipBlanks, hspace, hc]

/-! ### Digits up to the end of a line -/

variable {ds : List Char} (hds : ∀ c ∈ ds, c.isDigit = true) (cs : List Char)

include hds

/-- Behind so many digits there are others, and then the end of the line. -/
theorem rest_of_digitsExactly? {n v : Nat} {rest : List Char}
    (h : digitsExactly? n (ds ++ '\n' :: cs) = some (v, rest)) :
    ∃ ds', (∀ c ∈ ds', c.isDigit = true) ∧ rest = ds' ++ '\n' :: cs := by
  unfold digitsExactly? at h
  dsimp only at h
  split at h
  · rename_i hall
    cases h
    -- so many digits are there, or the end of the line is among what is taken for them
    by_cases hn : n ≤ ds.length
    · exact ⟨ds.drop n, fun c hc => hds c (List.mem_of_mem_drop hc),
        List.drop_append_of_le_length hn⟩
    · -- the end of the line would be a digit
      have hmem : '\n' ∈ (ds ++ '\n' :: cs).take n := by
        refine List.mem_iff_getElem?.mpr ⟨ds.length, ?_⟩
        rw [List.getElem?_take_of_lt (by omega)]
        simp
      have hdigit := List.all_eq_true.mp hall.2 _ hmem
      cases hdigit
  · cases h

/-- A line that begins with digits begins with no other character. -/
theorem head_ne_of_digits {c : Char} (hc : c.isDigit = false) (hne : c ≠ '\n') {rest : List Char} :
    ds ++ '\n' :: cs ≠ c :: rest := by
  intro h
  cases ds with
  | nil => exact hne (List.cons.inj h).1.symm
  | cons d ds =>
    have hd := hds d (List.mem_cons_self ..)
    rw [(List.cons.inj h).1, hc] at hd
    cases hd

/-- Digits alone are neither a date nor a time. -/
theorem dateTime_digits : dateTime (ds ++ '\n' :: cs) = miss "" (ds ++ '\n' :: cs) := by
  -- a date needs a dash behind its first digits, and a time a colon
  have hdate : date (ds ++ '\n' :: cs) = miss "" (ds ++ '\n' :: cs) := by
    unfold date
    split
    · rename_i heq
      obtain ⟨ds', hds', hrest⟩ := rest_of_digitsExactly? hds cs heq
      exact absurd hrest.symm (head_ne_of_digits hds' cs (by decide) (by decide))
    · rfl
  have htime : time (ds ++ '\n' :: cs) = miss "" (ds ++ '\n' :: cs) := by
    unfold time
    split
    · rename_i heq
      obtain ⟨heq, -⟩ := Option.filter_eq_some_iff.mp heq
      obtain ⟨ds', hds', hrest⟩ := rest_of_digitsExactly? hds cs heq
      exact absurd hrest.symm (head_ne_of_digits hds' cs (by decide) (by decide))
    · rfl
  simp [dateTime, hdate, htime, miss, bind, Except.bind]

/-- Digits are read up to the end of the line. -/
theorem digitsOnto_digits (read : List Char) :
    digitsOnto Char.isDigit read (ds ++ '\n' :: cs) = .ok (read.reverse ++ ds, '\n' :: cs) := by
  -- the digits are collected in reverse, onto any that were read before
  induction ds generalizing read with
  | nil => simp [digitsOnto]
  | cons d ds ih =>
    obtain ⟨hd, hds⟩ := List.forall_mem_cons.mp hds
    -- an underscore between digits would be passed over, but is no digit
    have hscore : d ≠ '_' := by
      rintro rfl
      cases hd
    rw [List.cons_append, digitsOnto]
    case x_1 | x_2 =>
      intros
      exact absurd ‹_› hscore
    rw [if_pos hd, ih hds, List.reverse_cons, List.append_assoc]
    rfl

omit hds

/-- One more digit makes the number ten times as large and adds to it, in whatever base. -/
theorem valueOf_concat (base : Nat) (ds : List Char) (d : Char) :
    valueOf base (ds ++ [d]) = base * valueOf base ds + (Json.hexValue? d).getD 0 := by
  simp [valueOf]

/-- The digits of a number spell that number. -/
theorem valueOf_digits (n : Nat) : valueOf 10 (digits n) = n := by
  have hdigit : ∀ n < 10, Json.hexValue? (Decimal.digit n) = some n := by decide
  -- by the recursion of the digits: the last one, behind those of the tenth
  fun_induction digits n with
  | case1 n hn => simp [valueOf, hdigit n hn]
  | case2 n hn ih =>
    rw [valueOf_concat, ih, hdigit _ (Nat.mod_lt n (by decide))]
    exact Nat.div_add_mod n 10

/-- The digits of a number are read as the digits of one: no zero stands in front. -/
theorem wholeDigits_digits (n : Nat) (cs : List Char) :
    wholeDigits (digits n ++ '\n' :: cs) = .ok (digits n, '\n' :: cs) := by
  have hds : ∀ c ∈ digits n, c.isDigit = true := fun _ => Decimal.isDigit_of_mem_digits
  obtain ⟨d, ds, hdigits⟩ := List.exists_cons_of_ne_nil (Decimal.digits_ne_nil n)
  rw [hdigits] at hds ⊢
  obtain ⟨hd, hds⟩ := List.forall_mem_cons.mp hds
  by_cases hzero : n = 0
  · -- zero is the one number that begins with a zero
    rw [hzero] at hdigits
    have hone : digits 0 = ['0'] := by
      rw [digits]
      rfl
    obtain ⟨rfl, rfl⟩ := List.cons.inj (hdigits.symm.trans hone)
    rfl
  · have hfirst := Decimal.head?_digits (Nat.pos_of_ne_zero hzero)
    rw [hdigits] at hfirst
    unfold wholeDigits
    split
    · rename_i heq
      exact absurd (congrArg some (List.cons.inj heq).1) hfirst
    · rename_i heq
      obtain ⟨rfl, rfl⟩ := List.cons.inj heq
      rw [if_pos hd]
      exact digitsOnto_digits hds cs [d]
    · rename_i heq
      cases heq

/-- A number begins with none of the characters that mean something else. -/
theorem head_ne_of_number (n : Nat) (cs : List Char) {c : Char} (hc : c.isDigit = false)
    (hne : c ≠ '\n') {rest : List Char} : digits n ++ '\n' :: cs ≠ c :: rest :=
  head_ne_of_digits (fun _ => Decimal.isDigit_of_mem_digits) cs hc hne

/-- A number without a sign, an exponent or a fraction. -/
theorem decimal_digits {n : Nat} (hn : n < UInt64.size / 2) (cs : List Char) :
    decimal (digits n ++ '\n' :: cs) = .ok (.integer n, '\n' :: cs) := by
  have hsign : signOf (digits n ++ '\n' :: cs) = (none, digits n ++ '\n' :: cs) := by
    unfold signOf
    split
    · exact absurd ‹_› (head_ne_of_number n cs (by decide) (by decide))
    · exact absurd ‹_› (head_ne_of_number n cs (by decide) (by decide))
    · rfl
  rw [decimal, hsign]
  dsimp only
  -- it does not begin as `inf` or `nan` does
  split
  · exact absurd ‹_› (head_ne_of_number n cs (by decide) (by decide))
  · exact absurd ‹_› (head_ne_of_number n cs (by decide) (by decide))
  · rw [wholeDigits_digits]
    simp [bind, Except.bind, integerOf, valueOf_digits, hn]

/-- A number in the usual base. -/
theorem number_digits {n : Nat} (hn : n < UInt64.size / 2) (cs : List Char) :
    number (digits n ++ '\n' :: cs) = .ok (.integer n, '\n' :: cs) := by
  -- a mark of another base would be the second character, which is a digit or ends the line
  have hsecond {c : Char} (hc : c.isDigit = false) (hfeed : c ≠ '\n') {rest : List Char} :
      digits n ++ '\n' :: cs ≠ '0' :: c :: rest := by
    have hds : ∀ c ∈ digits n, c.isDigit = true := fun _ => Decimal.isDigit_of_mem_digits
    obtain ⟨d, ds, hdigits⟩ := List.exists_cons_of_ne_nil (Decimal.digits_ne_nil n)
    rw [hdigits] at hds ⊢
    intro h
    exact head_ne_of_digits (List.forall_mem_cons.mp hds).2 cs hc hfeed (List.cons.inj h).2
  unfold number
  split
  · exact absurd ‹_› (hsecond (by decide) (by decide))
  · exact absurd ‹_› (hsecond (by decide) (by decide))
  · exact absurd ‹_› (hsecond (by decide) (by decide))
  · exact decimal_digits hn cs

/-- A number that is small enough, at the end of a line. -/
theorem value_digits {n : Nat} (hn : n < UInt64.size / 2) (depth : Nat) (cs : List Char) :
    value (depth + 1) (digits n ++ '\n' :: cs) = .ok (.integer n, '\n' :: cs) := by
  have hds : ∀ c ∈ digits n, c.isDigit = true := fun _ => Decimal.isDigit_of_mem_digits
  have hboth : numberOrDate (digits n ++ '\n' :: cs) = .ok (.integer n, '\n' :: cs) := by
    simp [numberOrDate, dateTime_digits hds, miss, number_digits hn]
  -- what kind of value it is shows in the first character
  unfold value
  split
  · rename_i heq
    simp at heq
  · exact absurd ‹_› (head_ne_of_number n cs (by decide) (by decide))
  · exact absurd ‹_› (head_ne_of_number n cs (by decide) (by decide))
  · rename_i c rest _ _ heq
    have hc : c.isDigit = true := by
      obtain ⟨d, ds, hdigits⟩ := List.exists_cons_of_ne_nil (Decimal.digits_ne_nil n)
      rw [hdigits] at hds heq
      obtain ⟨rfl, -⟩ := List.cons.inj heq
      exact hds _ (List.mem_cons_self ..)
    have hquote : ¬(c = '"' ∨ c = '\'') := by
      rintro (rfl | rfl) <;> cases hc
    rw [if_neg hquote, if_pos (.inl hc)]
    exact hboth

/-! ### Lines -/

/-- A digit is no blank. -/
theorem isBlank_of_isDigit {c : Char} (hc : c.isDigit = true) : isBlank c = false := by
  have hboth : ¬(c = ' ' ∨ c = '\t') := by
    rintro (rfl | rfl) <;> cases hc
  simpa [isBlank] using hboth

/-- The line is read, and its key is not there yet. -/
theorem keyLine_number {k : List Char} (hk : IsBare k) {n : Nat} (hn : n < UInt64.size / 2)
    {d : Document} (hheader : d.header = []) (hnew : d.root.lookup (String.ofList k) = none)
    (total : Nat) (cs : List Char) :
    ∃ span, keyLine total d (k ++ ' ' :: '=' :: ' ' :: (digits n ++ '\n' :: cs)) =
      .ok ({ d with root := d.root ++ [(String.ofList k, .value (.integer n) span)] }, cs) := by
  obtain ⟨c, ds, hdigits⟩ := List.exists_cons_of_ne_nil (Decimal.digits_ne_nil n)
  have hc : c.isDigit = true := Decimal.isDigit_of_mem_digits (hdigits ▸ List.mem_cons_self ..)
  have hkey := keyAndEquals_bare hk (isBlank_of_isDigit hc) (ds ++ '\n' :: cs)
  rw [← List.cons_append, ← hdigits] at hkey
  have hvalue := value_digits hn 79 cs
  have hend : lineEnd ('\n' :: cs) = .ok cs := rfl
  have hadd (span : Span) : d.add [] (String.ofList k) (.value (.integer n) span) =
      .ok { d with root := d.root ++ [(String.ofList k, .value (.integer n) span)] } := by
    simp [Document.add, hheader, descend, addValue, hnew, bind, Except.bind, pure, Except.pure]
  -- the key is read up to the first digit, the number up to the end of the line, and the member is
  -- new
  rw [keyLine, hkey]
  simp only [commit, Except.mapError, bind, Except.bind, maxDepth, hvalue, hend]
  rw [List.dropLast_singleton, List.getLast?_singleton, Option.getD_some]
  simp only [hadd]
  exact ⟨_, rfl⟩

/-- **A line with a key and a number adds them to the document**, whatever follows it. -/
theorem documentRest_line {k : List Char} (hk : IsBare k) {n : Nat} (hn : n < UInt64.size / 2)
    {d : Document} (hheader : d.header = []) (hnew : d.root.lookup (String.ofList k) = none)
    (total fuel : Nat) (cs : List Char) :
    ∃ span, documentRest total (fuel + 1) d (k ++ ' ' :: '=' :: ' ' :: (digits n ++ '\n' :: cs)) =
      documentRest total fuel
        { d with root := d.root ++ [(String.ofList k, .value (.integer n) span)] } cs := by
  obtain ⟨span, hline⟩ := keyLine_number hk hn hheader hnew total cs
  refine ⟨span, ?_⟩
  obtain ⟨b, k, rfl⟩ := List.exists_cons_of_ne_nil hk.1
  have hb {e : Char} (he : isBareChar e = false) (rest : List Char) :
      b :: k ++ ' ' :: '=' :: ' ' :: (digits n ++ '\n' :: cs) ≠ e :: rest :=
    fun h => hk.head_ne he (List.cons.inj h).1
  rw [documentRest, skipBlanks_bare hk]
  -- the line is not empty, no comment and no header
  split
  · rename_i heq
    cases heq
  · exact absurd ‹_› (hb (by decide) _)
  · exact absurd ‹_› (hb (by decide) _)
  · exact absurd ‹_› (hb (by decide) _)
  · exact absurd ‹_› (hb (by decide) _)
  · exact absurd ‹_› (hb (by decide) _)
  · rw [hline]

/-- What a line with a key and a number adds. -/
def IsLine (entry : String × Nat) (m : String × Node) : Prop :=
  m.1 = entry.1 ∧ ∃ span, m.2 = .value (.integer entry.2) span

/-- Several such lines at the end of a document. -/
theorem documentRest_lines {entries : List (String × Nat)}
    (hbare : ∀ e ∈ entries, IsBare e.1.toList) (hsmall : ∀ e ∈ entries, e.2 < UInt64.size / 2)
    (hdistinct : (entries.map (·.1)).Nodup) {d : Document} (hheader : d.header = [])
    (hnew : ∀ e ∈ entries, d.root.lookup e.1 = none) (total : Nat) {fuel : Nat}
    (hfuel : entries.length < fuel) :
    ∃ ms, List.Forall₂ IsLine entries ms ∧
      documentRest total fuel d (entries.flatMap fun (key, n) =>
          key.toList ++ " = ".toList ++ digits n ++ ['\n']) =
        .ok { d with root := d.root ++ ms } := by
  -- by induction on the lines, for any document that they are added to
  induction entries generalizing d fuel with
  | nil =>
    obtain ⟨fuel, rfl⟩ := Nat.exists_eq_succ_of_ne_zero (Nat.pos_iff_ne_zero.mp hfuel)
    exact ⟨[], .nil, by simp [documentRest, skipBlanks]⟩
  | cons e entries ih =>
    obtain ⟨key, n⟩ := e
    obtain ⟨hkey, hbare⟩ := List.forall_mem_cons.mp hbare
    obtain ⟨hn, hsmall⟩ := List.forall_mem_cons.mp hsmall
    obtain ⟨hfirst, hnew⟩ := List.forall_mem_cons.mp hnew
    obtain ⟨hother, hdistinct⟩ := List.nodup_cons.mp hdistinct
    obtain ⟨fuel, rfl⟩ := Nat.exists_eq_succ_of_ne_zero (Nat.ne_of_gt (Nat.zero_lt_of_lt hfuel))
    obtain ⟨span, hline⟩ := documentRest_line hkey hn hheader
      (by rwa [String.ofList_toList]) total fuel (entries.flatMap fun (key, n) =>
        key.toList ++ " = ".toList ++ digits n ++ ['\n'])
    rw [String.ofList_toList] at hline
    -- the keys of the lines that follow are other ones, so they are still new
    have hnew' : ∀ e ∈ entries,
        (d.root ++ [(key, Node.value (.integer n) span)]).lookup e.1 = none := by
      intro e he
      have hne : e.1 ≠ key := by
        intro h
        exact hother (List.mem_map.mpr ⟨e, he, h⟩)
      simp [List.lookup_append, hnew e he, hne]
    obtain ⟨ms, hms, hrest⟩ := ih hbare hsmall hdistinct
      (d := { d with root := d.root ++ [(key, .value (.integer n) span)] }) hheader hnew'
      (Nat.lt_of_succ_lt_succ hfuel)
    refine ⟨(key, .value (.integer n) span) :: ms, .cons ⟨rfl, span, rfl⟩ hms, ?_⟩
    have hcons : ((key, n) :: entries).flatMap (fun (key, n) =>
          key.toList ++ " = ".toList ++ digits n ++ ['\n']) =
        key.toList ++ ' ' :: '=' :: ' ' :: (digits n ++ '\n' :: entries.flatMap fun (key, n) =>
          key.toList ++ " = ".toList ++ digits n ++ ['\n']) := by
      simp
    rw [hcons, hline, hrest, List.append_assoc]
    rfl

end Line

end Courier.Toml
