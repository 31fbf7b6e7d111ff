import Mathlib.Data.List.DropRight
import Mathlib.Data.List.Forall2
import Mathlib.Data.List.TakeDrop
import Courier.Proofs.Decimal
import Courier.Remote

/-!
# How a remote address is written

An address is read by cutting one part after the other off its text. Here the form of an address
is written down part behind part, without any cutting: what is read is exactly what has this form,
and it is read as the parts that it was put together from.

Main results:

* `Text.trimmed_iff` — a text without the blanks at its two ends.
* `Remote.afterLead?_eq_some`, `Remote.splitLastColon?_eq_some`, `Remote.port?_eq_some` — what is
  cut off, part by part.
* `Remote.parseChars_eq_ok` — the form of an address between the blanks.
* `Remote.parse_exact` — which texts are addresses, and of what.
-/

namespace Courier

/-! ## Blanks at the ends -/

namespace Text

variable {cs t : List Char}

/-- What is left of a text without the blanks at its two ends. -/
structure Trimmed (cs t : List Char) : Prop where
  split : ∃ lead trail, cs = lead ++ t ++ trail ∧ (∀ c ∈ lead, isBlank c = true) ∧
    ∀ c ∈ trail, isBlank c = true
  first : ∀ c, t.head? = some c → isBlank c = false
  last : ∀ c, t.getLast? = some c → isBlank c = false

/-- Blanks are cut off in front first, then behind. -/
theorem trim_eq (cs : List Char) : trim cs = (cs.dropWhile isBlank).rdropWhile isBlank :=
  rfl

/-- What is left without blanks at its ends is what the program leaves. -/
theorem Trimmed.eq_trim (h : Trimmed cs t) : t = trim cs := by
  obtain ⟨lead, trail, rfl, hlead, htrail⟩ := h.split
  rw [trim_eq, List.append_assoc, List.dropWhile_append_of_pos hlead]
  -- a text of blanks is cut off whole
  cases t with
  | nil =>
    rw [List.nil_append, List.dropWhile_eq_nil_iff.mpr htrail]
    rfl
  | cons c t =>
    have hfirst : isBlank c = false := h.first c rfl
    obtain ⟨front, d, hd⟩ := (List.eq_nil_or_concat (c :: t)).resolve_left (List.cons_ne_nil c t)
    rw [List.concat_eq_append] at hd
    have hlast : isBlank d = false := h.last d (by simp [hd])
    have htrail' : ∀ c ∈ trail.reverse, isBlank c = true :=
      fun c hc => htrail c (List.mem_reverse.mp hc)
    -- nothing more is cut off at either end
    rw [List.cons_append, List.dropWhile_cons_of_neg (by simp [hfirst]), ← List.cons_append,
      List.rdropWhile, List.reverse_append, List.dropWhile_append_of_pos htrail', hd]
    simp [hlast]

/-- And what the program leaves has no blanks at its ends. -/
theorem trimmed_trim (cs : List Char) : Trimmed cs (trim cs) where
  split := by
    refine ⟨cs.takeWhile isBlank, (cs.dropWhile isBlank).rtakeWhile isBlank, ?_,
      fun c hc => List.mem_takeWhile_imp hc, fun c hc => List.mem_rtakeWhile_imp hc⟩
    rw [trim_eq, List.append_assoc, List.rdropWhile_append_rtakeWhile,
      List.takeWhile_append_dropWhile]
  first := by
    intro c hc
    -- the first character is that of what is left when the front is cut off
    obtain ⟨trail, htrail⟩ := List.rdropWhile_prefix isBlank (cs.dropWhile isBlank)
    have hhead : (cs.dropWhile isBlank).head? = some c := by
      rw [← htrail, List.head?_append, ← trim_eq, hc]
      rfl
    have hnot := List.head?_dropWhile_not isBlank cs
    rw [hhead] at hnot
    exact hnot
  last := by
    intro c hc
    have hne : trim cs ≠ [] := by
      rintro hnil
      rw [hnil] at hc
      cases hc
    have hnot := List.rdropWhile_last_not isBlank (cs.dropWhile isBlank) hne
    rw [List.getLast?_eq_some_getLast hne] at hc
    rw [← Option.some.inj hc]
    exact Bool.not_eq_true _ ▸ hnot

/-- **There is just one text** that is left without the blanks at its two ends. -/
theorem trimmed_iff : Trimmed cs t ↔ t = trim cs :=
  ⟨Trimmed.eq_trim, fun h => h ▸ trimmed_trim cs⟩

end Text

namespace Remote

/-! ## The form of an address -/

/-- A port as it may be written. -/
inductive PortForm : List Char → Nat → Prop where
  | mk {sign digits : List Char} {port : Nat} (hsign : sign = [] ∨ sign = ['+'])
      (hne : digits ≠ []) (hdigits : ∀ c ∈ digits, c.isDigit = true)
      (hvalue : Nat.ofDigitChars 10 digits 0 = port) (hpos : 1 ≤ port) (hle : port ≤ 65535) :
      PortForm (sign ++ digits) port

/-- A host, and the port if one is given. What comes behind the last colon is the port. -/
inductive AuthorityForm : List Char → List Char → Nat → Prop where
  | host {host : List Char} (hcolon : ':' ∉ host) : AuthorityForm host host 8080
  | hostAndPort {host text : List Char} {port : Nat} (hhost : host ≠ [])
      (hport : PortForm text port) : AuthorityForm (host ++ ':' :: text) host port

/-- An address between the blanks. -/
inductive AddressForm : List Char → Remote → Prop where
  | mk {scheme slashes authority host tail path : List Char} {port : Nat}
      (hscheme : List.Forall₂ (fun c l => c = l ∨ c = l.toUpper) scheme "ferry:".toList)
      (hslashes : slashes = [] ∨ slashes = ['/', '/'])
      (hne : authority ≠ []) (hslash : '/' ∉ authority)
      (hauthority : AuthorityForm authority host port)
      (htail : tail = [] ∧ path = [] ∨ tail = '/' :: path) :
      AddressForm (scheme ++ slashes ++ authority ++ tail)
        ⟨String.ofList host, port, String.ofList path⟩

/-! ## Part by part -/

/-- A lead is cut off letter by letter, in either case. -/
theorem afterLead?_eq_some {lead cs rest : List Char} :
    afterLead? lead cs = some rest ↔
      ∃ scheme, cs = scheme ++ rest ∧ List.Forall₂ (fun c l => c.toLower = l) scheme lead := by
  -- by the recursion over the lead: it is used up, the text is, or the two letters are compared
  fun_induction afterLead? lead cs with
  | case1 cs =>
    constructor
    · intro h
      exact ⟨[], Option.some.inj h, .nil⟩
    · rintro ⟨scheme, hcs, hscheme⟩
      cases hscheme
      exact congrArg some hcs
  | case2 l lead =>
    refine ⟨(fun h => nomatch h), ?_⟩
    rintro ⟨scheme, hcs, hscheme⟩
    cases hscheme with
    | cons => cases hcs
  | case3 lead c cs ih =>
    rw [ih]
    constructor
    · rintro ⟨scheme, rfl, hscheme⟩
      exact ⟨c :: scheme, rfl, .cons rfl hscheme⟩
    · rintro ⟨scheme, hcs, hscheme⟩
      cases hscheme with
      | cons _ hscheme =>
        obtain ⟨-, rfl⟩ := List.cons.inj hcs
        exact ⟨_, rfl, hscheme⟩
  | case4 l lead c cs hc =>
    refine ⟨(fun h => nomatch h), ?_⟩
    rintro ⟨scheme, hcs, hscheme⟩
    cases hscheme with
    | cons hfirst _ =>
      obtain ⟨rfl, -⟩ := List.cons.inj hcs
      exact absurd hfirst hc

/-- What becomes a character that is no capital is that character or its capital. -/
theorem toLower_eq_iff {c l : Char} (hl : ¬ l.isUpper) :
    c.toLower = l ↔ c = l ∨ c = l.toUpper := by
  -- in numbers: capitals are those from 65 to 90, and small letters come 32 after them
  delta Char.isUpper at hl
  delta Char.toLower Char.toUpper
  simp only [ge_iff_le, UInt32.le_iff_toNat_le, decide_eq_true_eq] at hl ⊢
  split <;> split <;> simp only [Char.ext_iff, UInt32.toNat_inj.symm, UInt32.toNat_add] <;>
    simp at * <;> omega

/-- So it is for letter after letter of a lead without capitals. -/
theorem forall₂_toLower_iff {scheme lead : List Char} (h : ∀ l ∈ lead, ¬ l.isUpper) :
    List.Forall₂ (fun c l => c.toLower = l) scheme lead ↔
      List.Forall₂ (fun c l => c = l ∨ c = l.toUpper) scheme lead := by
  -- by induction on the lead, letter by letter
  induction lead generalizing scheme with
  | nil => rw [List.forall₂_nil_right_iff, List.forall₂_nil_right_iff]
  | cons l lead ih =>
    obtain ⟨hl, hlead⟩ := List.forall_mem_cons.mp h
    rw [List.forall₂_cons_right_iff, List.forall₂_cons_right_iff]
    simp only [toLower_eq_iff hl, ih hlead]

/-- Nothing is split where there is no colon. -/
theorem splitLastColon?_eq_none {cs : List Char} : splitLastColon? cs = none ↔ ':' ∉ cs := by
  unfold splitLastColon?
  split <;> simp [*]

/-- **A text is split at its last colon**: there is none behind it. -/
theorem splitLastColon?_eq_some {cs host port : List Char} :
    splitLastColon? cs = some (host, port) ↔ cs = host ++ ':' :: port ∧ ':' ∉ port := by
  constructor
  · intro h
    unfold splitLastColon? at h
    split at h
    · rename_i hcolon
      rw [List.span_eq_takeWhile_dropWhile] at h
      obtain ⟨rfl, rfl⟩ := Prod.mk.inj (Option.some.inj h)
      -- seen from behind, the colon comes right after the port
      have hsplit := List.takeWhile_append_dropWhile (p := (· ≠ ':')) (l := cs.reverse)
      have hfirst := List.head?_dropWhile_not (· ≠ ':') cs.reverse
      cases hrest : cs.reverse.dropWhile (· ≠ ':') with
      | nil =>
        rw [List.dropWhile_eq_nil_iff] at hrest
        simpa using hrest ':' (List.mem_reverse.mpr hcolon)
      | cons c before =>
        rw [hrest] at hsplit hfirst
        obtain rfl : c = ':' := by simpa using hfirst
        have hcs : cs = (cs.reverse.takeWhile (· ≠ ':') ++ ':' :: before).reverse := by
          rw [hsplit, List.reverse_reverse]
        refine ⟨hcs.trans (by simp), fun hmem => ?_⟩
        · simpa using List.mem_takeWhile_imp (List.mem_reverse.mp hmem)
    · cases h
  -- the other way: read from behind, the first colon is the one in front of the port
  · rintro ⟨rfl, hport⟩
    have hport' : ∀ c ∈ port.reverse, (decide (c ≠ ':')) = true := by
      intro c hc
      simp only [List.mem_reverse] at hc
      simpa using fun h : c = ':' => hport (h ▸ hc)
    unfold splitLastColon?
    rw [if_pos (by simp), List.span_eq_takeWhile_dropWhile, List.reverse_append,
      List.reverse_cons, List.append_assoc, List.takeWhile_append_of_pos hport',
      List.dropWhile_append_of_pos hport']
    simp

/-- **A port is read** just when it has the form of one. -/
theorem port?_eq_some {cs : List Char} {n : Nat} : port? cs = some n ↔ PortForm cs n := by
  unfold port?
  rw [Option.filter_eq_some_iff]
  constructor
  · rintro ⟨hread, hne⟩
    have hpos : 1 ≤ n := Nat.one_le_iff_ne_zero.mpr (by simpa using hne)
    -- a plus in front is passed over, and only one
    by_cases hplus : cs.head? = some '+'
    · obtain ⟨digits, rfl⟩ := List.head?_eq_some_iff.mp hplus
      rw [Decimal.unsigned?_plus, Option.filter_eq_some_iff, Decimal.value?_eq_some] at hread
      obtain ⟨⟨hne, hdigits, hvalue⟩, hle⟩ := hread
      exact @PortForm.mk ['+'] _ _ (.inr rfl) hne hdigits hvalue hpos (by simpa using hle)
    · rw [Decimal.unsigned?_of_head _ hplus, Option.filter_eq_some_iff,
        Decimal.value?_eq_some] at hread
      obtain ⟨⟨hne, hdigits, hvalue⟩, hle⟩ := hread
      exact @PortForm.mk [] _ _ (.inl rfl) hne hdigits hvalue hpos (by simpa using hle)
  · intro h
    cases h with
    | @mk sign digits _ hsign hne hdigits hvalue hpos hle =>
      have hread : Decimal.value? digits = some n :=
        Decimal.value?_eq_some.mpr ⟨hne, hdigits, hvalue⟩
      have hstrip : Decimal.unsigned? 65535 (sign ++ digits) =
          (Decimal.value? digits).filter (· ≤ 65535) := by
        rcases hsign with rfl | rfl
        · exact Decimal.unsigned?_of_head _ (Decimal.head?_ne_plus hdigits)
        · exact Decimal.unsigned?_plus ..
      rw [hstrip, hread]
      exact ⟨Option.filter_eq_some_iff.mpr ⟨rfl, by simpa using hle⟩,
        by simpa using Nat.one_le_iff_ne_zero.mp hpos⟩

/-! ## The whole address -/

/-- What follows the slashes behind the scheme. -/
def afterSlashes : List Char → List Char
  | '/' :: '/' :: rest => rest
  | rest => rest

/-- What is made of the authority and the path. -/
def remoteOf (shown : String) (authority path : List Char) : Except Flaw Remote :=
  if authority.isEmpty then .error (.noHost shown)
  else
    match splitLastColon? authority with
    | none => .ok ⟨String.ofList authority, defaultPort, String.ofList path⟩
    | some (host, text) =>
      match port? text with
      | none => .error (.badPort (String.ofList text) shown)
      | some port =>
        if host.isEmpty then .error (.noHost shown)
        else .ok ⟨String.ofList host, port, String.ofList path⟩

/-- An address is read in these steps, one behind the other. -/
theorem parseChars_eq (cs : List Char) :
    parseChars cs =
      match afterLead? "ferry:".toList cs with
      | none => .error (.otherScheme (String.ofList cs))
      | some rest =>
        remoteOf (String.ofList cs) ((afterSlashes rest).takeWhile (· ≠ '/'))
          (((afterSlashes rest).dropWhile (· ≠ '/')).drop 1) := by
  unfold parseChars
  cases afterLead? "ferry:".toList cs with
  | none => rfl
  | some rest =>
    dsimp only
    rw [List.span_eq_takeWhile_dropWhile]
    rfl

/-- In a port there are a sign and digits only. -/
theorem PortForm.notMem {text : List Char} {port : Nat} (h : PortForm text port) {c : Char}
    (hsign : c ≠ '+') (hdigit : c.isDigit = false) : c ∉ text := by
  cases h with
  | mk hsigns _ hdigits =>
    intro hmem
    rcases List.mem_append.mp hmem with hmem | hmem
    · rcases hsigns with rfl | rfl
      · cases hmem
      · exact hsign (List.mem_singleton.mp hmem)
    · rw [hdigits c hmem] at hdigit
      cases hdigit

/-- What is made of an authority is a remote of that form. -/
theorem remoteOf_eq_ok {shown : String} {authority path : List Char} {r : Remote} :
    remoteOf shown authority path = .ok r ↔
      authority ≠ [] ∧ ∃ host port, AuthorityForm authority host port ∧
        r = ⟨String.ofList host, port, String.ofList path⟩ := by
  -- a port is digits, so that the last colon is the one before it
  constructor
  · intro h
    unfold remoteOf at h
    split at h
    · cases h
    rename_i hne
    refine ⟨by simpa using hne, ?_⟩
    split at h
    · rename_i hcolon
      cases h
      exact ⟨authority, 8080, .host (splitLastColon?_eq_none.mp hcolon), rfl⟩
    · rename_i host text hcolon
      obtain ⟨rfl, -⟩ := splitLastColon?_eq_some.mp hcolon
      split at h
      · cases h
      rename_i port hport
      split at h
      · cases h
      rename_i hhost
      cases h
      exact ⟨host, port, .hostAndPort (by simpa using hhost) (port?_eq_some.mp hport), rfl⟩
  · rintro ⟨hne, host, port, hform, rfl⟩
    have hne : authority.isEmpty = false := by simpa using hne
    rw [remoteOf, hne]
    cases hform with
    | host hcolon =>
      rw [splitLastColon?_eq_none.mpr hcolon]
      rfl
    | hostAndPort hhost hport =>
      have hhost : host.isEmpty = false := by simpa using hhost
      rw [splitLastColon?_eq_some.mpr ⟨rfl, hport.notMem (by decide) (by decide)⟩]
      simp [port?_eq_some.mpr hport, hhost]

/-- Two slashes are passed over, and nothing else is. -/
theorem exists_slashes (cs : List Char) :
    ∃ slashes, (slashes = [] ∨ slashes = ['/', '/']) ∧ cs = slashes ++ afterSlashes cs := by
  unfold afterSlashes
  split
  · exact ⟨['/', '/'], .inr rfl, rfl⟩
  · exact ⟨[], .inl rfl, rfl⟩

/-- Behind the slashes the authority comes first, and it does not begin with a slash. -/
theorem afterSlashes_append {slashes authority : List Char}
    (hslashes : slashes = [] ∨ slashes = ['/', '/']) (hne : authority ≠ [])
    (hslash : '/' ∉ authority) (tail : List Char) :
    afterSlashes (slashes ++ authority ++ tail) = authority ++ tail := by
  rcases hslashes with rfl | rfl
  · obtain ⟨c, authority, rfl⟩ := List.exists_cons_of_ne_nil hne
    have hc : c ≠ '/' := fun h => hslash (h ▸ List.mem_cons_self ..)
    unfold afterSlashes
    split
    · rename_i heq
      exact absurd (List.cons.inj heq).1 hc
    · rfl
  · rfl

/-- **An address between the blanks is read** just when it has the form of one, as what it was put
together from. -/
theorem parseChars_eq_ok {cs : List Char} {r : Remote} :
    parseChars cs = .ok r ↔ AddressForm cs r := by
  have hsmall : ∀ l ∈ "ferry:".toList, ¬ l.isUpper := by simp
  rw [parseChars_eq]
  constructor
  · intro h
    split at h
    · cases h
    rename_i rest hlead
    obtain ⟨scheme, rfl, hscheme⟩ := afterLead?_eq_some.mp hlead
    obtain ⟨slashes, hslashes, hrest⟩ := exists_slashes rest
    obtain ⟨hne, host, port, hform, rfl⟩ := remoteOf_eq_ok.mp h
    -- the authority ends at the next slash, or there is none
    have hsplit := List.takeWhile_append_dropWhile (p := (· ≠ '/')) (l := afterSlashes rest)
    have hfirst := List.head?_dropWhile_not (· ≠ '/') (afterSlashes rest)
    have hcs : scheme ++ rest = scheme ++ slashes ++ (afterSlashes rest).takeWhile (· ≠ '/') ++
        (afterSlashes rest).dropWhile (· ≠ '/') := by
      rw [List.append_assoc, hsplit, List.append_assoc, ← hrest]
    rw [hcs]
    refine .mk ((forall₂_toLower_iff hsmall).mp hscheme) hslashes hne ?_ hform ?_
    · intro hmem
      simpa using List.mem_takeWhile_imp hmem
    · cases htail : (afterSlashes rest).dropWhile (· ≠ '/') with
      | nil => exact .inl ⟨rfl, rfl⟩
      | cons c path =>
        rw [htail] at hfirst
        obtain rfl : c = '/' := by simpa using hfirst
        exact .inr rfl
  -- the other way: each part is cut off where the form ends it
  · intro h
    cases h with
    | @mk scheme slashes authority host tail path port hscheme hslashes hne hslash hform htail =>
      have hall : ∀ c ∈ authority, decide (c ≠ '/') = true := fun c hc => by
        simpa using fun h : c = '/' => hslash (h ▸ hc)
      have hafter : afterLead? "ferry:".toList (scheme ++ slashes ++ authority ++ tail) =
          some (slashes ++ authority ++ tail) :=
        afterLead?_eq_some.mpr ⟨scheme, by simp, (forall₂_toLower_iff hsmall).mpr hscheme⟩
      rw [hafter]
      dsimp only
      rw [afterSlashes_append hslashes hne hslash, List.takeWhile_append_of_pos hall,
        List.dropWhile_append_of_pos hall]
      rcases htail with ⟨rfl, rfl⟩ | rfl
      · exact remoteOf_eq_ok.mpr ⟨by simpa using hne, host, port, by simpa using hform, rfl⟩
      · exact remoteOf_eq_ok.mpr ⟨by simpa using hne, host, port, by simpa using hform, rfl⟩

/-! ## Addresses that were put together -/

/-- A port that is shown has the form of one. -/
theorem portForm_toString {port : Nat} (hpos : 1 ≤ port) (hle : port ≤ 65535) :
    PortForm (toString port).toList port := by
  rw [Nat.toString_eq_ofList_toDigits, String.toList_ofList]
  exact @PortForm.mk [] _ _ (.inl rfl) Nat.toDigits_ne_nil
    (fun c hc => Nat.isDigit_of_mem_toDigits (by decide) (by decide) hc)
    Nat.ofDigitChars_ten_toDigits hpos hle

/-- An address that is put together has its parts in this order. -/
theorem toList_put_together (host path : String) (port : Nat) :
    (s!"ferry://{host}:{port}/{path}").toList =
      "ferry:".toList ++ ['/', '/'] ++ (host.toList ++ ':' :: (toString port).toList) ++
        '/' :: path.toList := by
  simp [String.toList_append, toString]

/-- An address that was put together has no blanks at its ends if the path has none at its end. -/
theorem trimmed_put_together (authority : List Char) {path : List Char}
    (hpath : ∀ c, path.getLast? = some c → Text.isBlank c = false) :
    Text.Trimmed ("ferry:".toList ++ ['/', '/'] ++ authority ++ '/' :: path)
      ("ferry:".toList ++ ['/', '/'] ++ authority ++ '/' :: path) where
  split := ⟨[], [], by simp, by simp, by simp⟩
  first := by
    intro c hc
    obtain rfl : 'f' = c := by simpa using hc
    decide
  last := by
    intro c hc
    rw [List.getLast?_append, List.getLast?_cons] at hc
    cases hlast : path.getLast? with
    | none =>
      obtain rfl : '/' = c := by simpa [hlast] using hc
      decide
    | some d =>
      obtain rfl : d = c := by simpa [hlast] using hc
      exact hpath d hlast

/-- **A text is read just if it is an address**, blanks at its two ends aside, and it is read as its
parts: the host and the path as they are written, and the port, or 8080 if none is given. So an
address that was put together from a host, a port and a path gives them back; there may even be
colons in the host. -/
theorem parse_exact :
    (∀ (s : String) (r : Remote),
      parse s = .ok r ↔ ∃ t, Text.Trimmed s.toList t ∧ AddressForm t r) ∧
    ∀ (host path : String) (port : Nat), host ≠ "" → '/' ∉ host.toList →
      1 ≤ port → port ≤ 65535 →
      (∀ c, path.toList.getLast? = some c → Text.isBlank c = false) →
      parse s!"ferry://{host}:{port}/{path}" = .ok ⟨host, port, path⟩ := by
  have hread (s : String) (r : Remote) :
      parse s = .ok r ↔ ∃ t, Text.Trimmed s.toList t ∧ AddressForm t r := by
    simp only [Text.trimmed_iff, exists_eq_left]
    exact parseChars_eq_ok
  refine ⟨hread, fun host path port hne hslash hpos hle hpath => (hread _ _).mpr ?_⟩
  rw [toList_put_together]
  refine ⟨_, trimmed_put_together _ hpath, ?_⟩
  have hport := portForm_toString hpos hle
  have hhost : host.toList ≠ [] := by simpa using hne
  have hnone : '/' ∉ host.toList ++ ':' :: (toString port).toList := by
    intro hmem
    rcases List.mem_append.mp hmem with hmem | hmem
    · exact hslash hmem
    · rcases List.mem_cons.mp hmem with hmem | hmem
      · cases hmem
      · exact hport.notMem (by decide) (by decide) hmem
  -- the scheme is written in small letters here
  have hscheme : List.Forall₂ (fun c l : Char => c = l ∨ c = l.toUpper) "ferry:".toList
      "ferry:".toList := List.forall₂_same.mpr fun _ _ => .inl rfl
  have hform : AddressForm
      ("ferry:".toList ++ ['/', '/'] ++ (host.toList ++ ':' :: (toString port).toList) ++
        '/' :: path.toList)
      ⟨String.ofList host.toList, port, String.ofList path.toList⟩ :=
    .mk hscheme (.inr rfl) (by simp) hnone (.hostAndPort hhost hport) (.inr rfl)
  rwa [String.ofList_toList, String.ofList_toList] at hform

/-- A host with a colon in it, a port with a sign and zeros, and no path. -/
theorem parse_exact_odd :
    let host := "::1"
    let path := "in box/ä"
    parse "\tFeRRy:a:b:+0080\n" = .ok ⟨"a:b", 80, ""⟩ ∧
      (∃ t, Text.Trimmed "\tFeRRy:a:b:+0080\n".toList t ∧ AddressForm t ⟨"a:b", 80, ""⟩) ∧
      host ≠ "" ∧ '/' ∉ host.toList ∧
      (∀ c, path.toList.getLast? = some c → Text.isBlank c = false) ∧
      parse s!"ferry://{host}:{65535}/{path}" = .ok ⟨host, 65535, path⟩ := by
  have hparse : parse "\tFeRRy:a:b:+0080\n" = .ok ⟨"a:b", 80, ""⟩ := rfl
  have hlast : ∀ c, "in box/ä".toList.getLast? = some c → Text.isBlank c = false := by
    intro c hc
    obtain rfl : 'ä' = c := by simpa using hc
    decide
  exact ⟨hparse, (parse_exact.1 _ _).mp hparse, by decide, by decide, hlast,
    parse_exact.2 "::1" "in box/ä" 65535 (by decide) (by decide) (by decide) (by decide) hlast⟩

end Remote

end Courier
