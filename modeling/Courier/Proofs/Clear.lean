import Courier.Proofs.Stream

/-!
# What a stream brings before it fails

A filling makes interrupted calls again and gives up at the end of the stream and at any other
fault. What it can count on are the octets before the first of these; with room for no more than
that it takes them off the front, however they are cut, and touches nothing that comes after them.

Main results:

* `Inbound.clearOf_leftOf`, `Inbound.stopOf_leftOf` — what taking octets off the front leaves.
* `Inbound.found_of_take` — what one call finds.
* `Inbound.filled_of_fill` — what a filling comes to.
* `Inbound.rest_of_fill` — what is left of the stream by a filling that is cut off.
-/

namespace Courier.Inbound

/-! ## Before the first end or fault -/

/-- What arrives before a read finds the end, or fails other than by an interruption. -/
def clearOf : List Arrival → Bytes
  | [] => []
  | .data octets :: rest => octets ++ clearOf rest
  | .pause :: _ => []
  | .fault f :: rest => if f.isInterruption then clearOf rest else []
  | .aside _ :: rest => clearOf rest

/-- The fault that comes next, unless it is the end. -/
def stopOf : List Arrival → Option Fault
  | [] => none
  | .data _ :: rest => stopOf rest
  | .pause :: _ => none
  | .fault f :: rest => if f.isInterruption then stopOf rest else some f
  | .aside _ :: rest => stopOf rest

/-- What is left once so many octets have been taken off the front: the rest of the piece that the
last of them came in, if there is any, and all that arrives after it. -/
def leftOf : Nat → List Arrival → List Arrival
  | 0, l => l
  | _ + 1, [] => []
  | n + 1, .data octets :: rest =>
    if (octets.drop (n + 1)).isEmpty then leftOf (n + 1 - octets.length) rest
    else .data (octets.drop (n + 1)) :: rest
  | _ + 1, .pause :: rest => .pause :: rest
  | n + 1, .fault f :: rest => if f.isInterruption then leftOf (n + 1) rest else .fault f :: rest
  | n + 1, .aside _ :: rest => leftOf (n + 1) rest

/-- What a stream brings before its first end or fault. -/
def clear (s : Inbound) : Bytes :=
  clearOf s.arrivals

/-- The fault that a stream brings first, unless its end comes before. -/
def stop (s : Inbound) : Option Fault :=
  stopOf s.arrivals

/-- A piece counts among the octets before the first end or fault. -/
@[simp]
theorem clearOf_data (octets : Bytes) (rest : List Arrival) :
    clearOf (.data octets :: rest) = octets ++ clearOf rest :=
  rfl

/-- A piece is no fault. -/
@[simp]
theorem stopOf_data (octets : Bytes) (rest : List Arrival) :
    stopOf (.data octets :: rest) = stopOf rest :=
  rfl

/-- Taking nothing leaves everything. -/
@[simp]
theorem leftOf_zero (l : List Arrival) : leftOf 0 l = l := by
  cases l <;> rfl

/-- Nothing can be taken when nothing arrives. -/
@[simp]
theorem leftOf_nil (n : Nat) : leftOf n [] = [] := by
  cases n <;> rfl

/-- A piece goes whole. -/
theorem leftOf_data_of_le {n : Nat} {octets : Bytes} (h : octets.length ≤ n) (hn : 0 < n)
    (rest : List Arrival) : leftOf n (.data octets :: rest) = leftOf (n - octets.length) rest := by
  obtain ⟨n, rfl⟩ := Nat.exists_eq_add_one.mpr hn
  rw [leftOf, if_pos (by rw [List.isEmpty_iff, List.drop_eq_nil_iff]; exact h)]

/-- Only a part of a piece goes. -/
theorem leftOf_data_of_lt {n : Nat} {octets : Bytes} (h : n < octets.length)
    (rest : List Arrival) : leftOf n (.data octets :: rest) = .data (octets.drop n) :: rest := by
  cases n with
  | zero => rw [leftOf_zero, List.drop_zero]
  | succ n =>
    rw [leftOf, if_neg]
    rw [List.isEmpty_iff, List.drop_eq_nil_iff]
    omega

/-- Octets taken off the front are the first ones before the end or the fault. -/
theorem clearOf_leftOf (n : Nat) (l : List Arrival) :
    clearOf (leftOf n l) = (clearOf l).drop n := by
  -- a piece goes whole, and less has to be taken off the others, or the last octets are in it
  induction l generalizing n with
  | nil => simp [clearOf]
  | cons arrival rest ih =>
    by_cases hn : n = 0
    · rw [hn, leftOf_zero, List.drop_zero]
    obtain ⟨n, rfl⟩ := Nat.exists_eq_add_one_of_ne_zero hn
    cases arrival with
    | data octets =>
      by_cases hle : octets.length ≤ n + 1
      · rw [leftOf_data_of_le hle (Nat.succ_pos n), ih, clearOf_data, List.drop_append,
          List.drop_of_length_le hle, List.nil_append]
      · rw [leftOf_data_of_lt (by omega), clearOf_data, clearOf_data,
          List.drop_append_of_le_length (by omega)]
    | pause => simp [leftOf, clearOf]
    | fault f =>
      by_cases hf : f.isInterruption = true
      · simp [leftOf, clearOf, hf, ih]
      · simp [leftOf, clearOf, hf]
    | aside r => simp [leftOf, clearOf, ih]

/-- The fault that comes next stays the same when octets are taken off the front. -/
theorem stopOf_leftOf (n : Nat) (l : List Arrival) : stopOf (leftOf n l) = stopOf l := by
  -- pieces and interruptions alone are taken, and `stopOf` passes over both
  induction l generalizing n with
  | nil => rw [leftOf_nil]
  | cons arrival rest ih =>
    by_cases hn : n = 0
    · rw [hn, leftOf_zero]
    obtain ⟨n, rfl⟩ := Nat.exists_eq_add_one_of_ne_zero hn
    cases arrival with
    | data octets =>
      by_cases hle : octets.length ≤ n + 1
      · rw [leftOf_data_of_le hle (Nat.succ_pos n), ih, stopOf_data]
      · rw [leftOf_data_of_lt (by omega), stopOf_data, stopOf_data]
    | pause => rfl
    | fault f =>
      by_cases hf : f.isInterruption = true
      · simp [leftOf, stopOf, hf, ih]
      · simp [leftOf, stopOf, hf]
    | aside r => simp [leftOf, stopOf, ih]

/-- Octets can be taken off the front in two goes. -/
theorem leftOf_add (m n : Nat) (l : List Arrival) : leftOf (m + n) l = leftOf n (leftOf m l) := by
  -- by the arrivals: only a piece takes away from what is to be taken
  induction l generalizing m with
  | nil => rw [leftOf_nil, leftOf_nil, leftOf_nil]
  | cons arrival rest ih =>
    by_cases hm : m = 0
    · rw [hm, leftOf_zero, Nat.zero_add]
    by_cases hn : n = 0
    · rw [hn, leftOf_zero, Nat.add_zero]
    obtain ⟨m, rfl⟩ := Nat.exists_eq_add_one_of_ne_zero hm
    obtain ⟨n, rfl⟩ := Nat.exists_eq_add_one_of_ne_zero hn
    cases arrival with
    | data octets =>
      -- the piece ends in the first go, in the second one, or after both
      by_cases hfirst : octets.length ≤ m + 1
      · rw [leftOf_data_of_le hfirst (Nat.succ_pos m), leftOf_data_of_le (by omega) (by omega),
          ← ih]
        congr 1
        omega
      · rw [leftOf_data_of_lt (n := m + 1) (by omega)]
        by_cases hsecond : octets.length ≤ m + 1 + (n + 1)
        · rw [leftOf_data_of_le hsecond (by omega), leftOf_data_of_le _ (Nat.succ_pos n)]
          · rw [List.length_drop]
            congr 1
            omega
          · rw [List.length_drop]
            omega
        · rw [leftOf_data_of_lt (by omega), leftOf_data_of_lt _, List.drop_drop]
          rw [List.length_drop]
          omega
    | pause => rfl
    | fault f =>
      by_cases hf : f.isInterruption = true
      · have hrest := ih (m + 1)
        simpa [leftOf, hf, Nat.add_assoc, Nat.add_left_comm] using hrest
      · simp [leftOf, hf]
    | aside r =>
      have hrest := ih (m + 1)
      simpa [leftOf, Nat.add_assoc, Nat.add_left_comm] using hrest

/-! ## One call -/

/-- What a call with some room finds, and what it leaves for the rest of the room. -/
inductive Found (room : Nat) (l : List Arrival) : Except Fault Bytes → List Arrival → Prop where
  | ended {l' : List Arrival} (hclear : clearOf l = []) (hstop : stopOf l = none) :
      Found room l (.ok []) l'
  | piece {octets : Bytes} {l' : List Arrival} (hne : octets ≠ []) (hroom : octets.length ≤ room)
      (hclear : clearOf l = octets ++ clearOf l') (hstop : stopOf l = stopOf l')
      (hleft : leftOf room l = leftOf (room - octets.length) l') : Found room l (.ok octets) l'
  | interrupted {f : Fault} {l' : List Arrival} (hf : f.isInterruption = true)
      (hclear : clearOf l = clearOf l') (hstop : stopOf l = stopOf l')
      (hleft : leftOf room l = leftOf room l') : Found room l (.error f) l'
  | failed {f : Fault} {l' : List Arrival} (hf : f.isInterruption = false)
      (hclear : clearOf l = []) (hstop : stopOf l = some f) : Found room l (.error f) l'

/-- Arrivals that a call steps over change nothing of what it finds. -/
theorem Found.over {room : Nat} {l m l' : List Arrival} {r : Except Fault Bytes}
    (h : Found room l r l') (hclear : clearOf m = clearOf l) (hstop : stopOf m = stopOf l)
    (hleft : leftOf room m = leftOf room l) : Found room m r l' := by
  cases h with
  | ended hc hs => exact .ended (hclear.trans hc) (hstop.trans hs)
  | piece hne hroom hc hs hl =>
    exact .piece hne hroom (hclear.trans hc) (hstop.trans hs) (hleft.trans hl)
  | interrupted hf hc hs hl =>
    exact .interrupted hf (hclear.trans hc) (hstop.trans hs) (hleft.trans hl)
  | failed hf hc hs => exact .failed hf (hclear.trans hc) (hstop.trans hs)

/-- What one call with some room finds, and leaves. -/
theorem found_of_take {room : Nat} {l l' : List Arrival} {a b : Ambient} {r : Except Fault Bytes}
    (hroom : 0 < room) (h : take room l a = (r, l', b)) : Found room l r l' := by
  obtain ⟨n, rfl⟩ := Nat.exists_eq_add_one.mpr hroom
  -- a call steps over asides and empty pieces until it has something to report
  fun_induction take (n + 1) l a with
  | case1 => cases h; exact .ended rfl rfl
  | case2 _ _ _ ih => exact (ih h).over rfl rfl rfl
  | case3 f rest =>
    cases h
    by_cases hf : f.isInterruption = true
    · exact .interrupted hf (if_pos hf) (if_pos hf) (by rw [leftOf, if_pos hf])
    · exact .failed (by simpa using hf) (if_neg hf) (if_neg hf)
  | case4 => cases h; exact .ended rfl rfl
  | case5 octets rest _ hempty ih =>
    obtain rfl := List.isEmpty_iff.mp hempty
    exact (ih h).over rfl rfl (leftOf_data_of_le (Nat.zero_le _) hroom rest)
  | case6 octets rest a hempty later =>
    cases h
    rw [List.isEmpty_iff] at hempty
    have hfirst : octets.take (n + 1) ≠ [] := by simp [hempty]
    have hsplit : octets.take (n + 1) ++ later = octets := List.take_append_drop ..
    -- what there is no room for is put back, as a piece of its own, unless it is nothing
    refine .piece hfirst (List.length_take_le ..) ?_ ?_ ?_
    · split
      · rename_i hlater
        rw [List.isEmpty_iff.mp hlater, List.append_nil] at hsplit
        rw [hsplit, clearOf_data]
      · rw [clearOf_data, clearOf_data, ← List.append_assoc, hsplit]
    · split <;> rfl
    · by_cases hle : octets.length ≤ n + 1
      · have hlater : later = [] := List.drop_eq_nil_iff.mpr hle
        rw [leftOf_data_of_le hle hroom, List.take_of_length_le hle, hlater]
        rfl
      · have hlater : later ≠ [] := by
          intro hnil
          exact hle (List.drop_eq_nil_iff.mp hnil)
        have hfull : (octets.take (n + 1)).length = n + 1 := by
          rw [List.length_take]
          omega
        rw [leftOf_data_of_lt (by omega), hfull, Nat.sub_self, leftOf_zero, if_neg]
        rwa [List.isEmpty_iff]

/-! ## A filling -/

/-- What a filling comes to: the next octets if there are as many as there is room for, and
otherwise all there are before the end, or the fault that is in the way. -/
inductive Filled (s : Inbound) (room : Nat) : Except Fault Bytes → Inbound → Prop where
  | full {t : Inbound} (hroom : room ≤ s.clear.length)
      (hleft : t.arrivals = leftOf room s.arrivals) : Filled s room (.ok (s.clear.take room)) t
  | ended {t : Inbound} (hshort : s.clear.length < room) (hstop : s.stop = none) :
      Filled s room (.ok s.clear) t
  | failed {f : Fault} {t : Inbound} (hshort : s.clear.length < room) (hstop : s.stop = some f) :
      Filled s room (.error f) t

section Fill

variable {s t u : Inbound} {room : Nat} {a b : Ambient} {r : Except Fault Bytes}

/-- A piece that came in front of a filling. -/
theorem Filled.after {octets : Bytes} (h : Filled s (room - octets.length) r u)
    (hroom : octets.length ≤ room) (hclear : t.clear = octets ++ s.clear) (hstop : t.stop = s.stop)
    (hleft : leftOf room t.arrivals = leftOf (room - octets.length) s.arrivals) :
    Filled t room (r.map (octets ++ ·)) u := by
  have hlength : t.clear.length = octets.length + s.clear.length := by
    rw [hclear, List.length_append]
  cases h with
  | full hfull harrivals =>
    have htake : octets ++ s.clear.take (room - octets.length) = t.clear.take room := by
      rw [hclear, List.take_append, List.take_of_length_le hroom]
    rw [Except.map, htake]
    exact .full (by omega) (harrivals.trans hleft.symm)
  | ended hshort hnone =>
    rw [Except.map, ← hclear]
    exact .ended (by omega) (hstop.trans hnone)
  | failed hshort hsome => exact .failed (by omega) (hstop.trans hsome)

/-- What a filling comes to depends on the octets before the first end or fault, and not on how
they are cut. -/
theorem filled_of_fill (h : s.fill room a = (r, t, b)) : Filled s room r t := by
  -- by the calls of the filling: each one takes a piece off, is made again, or ends it
  fun_induction fill s room a generalizing r t b with
  | case1 s room a hroom u c hread =>
    cases h
    cases found_of_take hroom (take_of_read hread) with
    | ended hclear hstop =>
      have hfilled : Filled s room (.ok s.clear) u :=
        .ended (by rw [clear, hclear]; exact hroom) hstop
      rwa [clear, hclear] at hfilled
    | piece hne => exact absurd rfl hne
  | case2 s room a hroom o first u c hread more v d hmore ih =>
    cases h
    cases found_of_take hroom (take_of_read hread) with
    | piece _ hle hclear hstop hleft => exact (ih hmore).after hle hclear hstop hleft
  | case3 s room a hroom o first u c hread f v d hmore ih =>
    cases h
    cases found_of_take hroom (take_of_read hread) with
    | piece _ hle hclear hstop hleft => exact (ih hmore).after hle hclear hstop hleft
  | case4 s room a hroom f u c hread hf ih =>
    cases found_of_take hroom (take_of_read hread) with
    | interrupted _ hclear hstop hleft =>
      -- an interruption is a piece without octets
      have hnothing : Filled _ (room - ([] : Bytes).length) r _ := ih h
      have hfilled := hnothing.after (t := s) (Nat.zero_le _) hclear hstop hleft
      cases r with
      | ok octets => exact hfilled
      | error f => exact hfilled
    | failed hnot =>
      rw [hf] at hnot
      cases hnot
  | case5 s room a hroom f u c hread hf =>
    cases h
    cases found_of_take hroom (take_of_read hread) with
    | interrupted hinterrupted => exact absurd hinterrupted hf
    | failed _ hclear hstop => exact .failed (by rw [clear, hclear]; exact hroom) hstop
  | case6 s room a hroom =>
    cases h
    obtain rfl : room = 0 := by omega
    exact .full (Nat.zero_le _) (leftOf_zero _).symm

end Fill

/-! ## What is left by a filling that is cut off -/

/-- What arrives after the first end or fault. -/
def restOf : List Arrival → List Arrival
  | [] => []
  | .data _ :: rest => restOf rest
  | .pause :: rest => rest
  | .fault f :: rest => if f.isInterruption then restOf rest else rest
  | .aside _ :: rest => restOf rest

/-- Taking octets off the front leaves what comes after the end or the fault. -/
theorem restOf_leftOf (n : Nat) (l : List Arrival) : restOf (leftOf n l) = restOf l := by
  -- as in `stopOf_leftOf`
  induction l generalizing n with
  | nil => rw [leftOf_nil]
  | cons arrival rest ih =>
    by_cases hn : n = 0
    · rw [hn, leftOf_zero]
    obtain ⟨n, rfl⟩ := Nat.exists_eq_add_one_of_ne_zero hn
    cases arrival with
    | data octets =>
      by_cases hle : octets.length ≤ n + 1
      · rw [leftOf_data_of_le hle (Nat.succ_pos n), ih, restOf]
      · rw [leftOf_data_of_lt (by omega), restOf, restOf]
    | pause => rfl
    | fault f =>
      by_cases hf : f.isInterruption = true
      · rw [leftOf, if_pos hf, ih, restOf, if_pos hf]
      · rw [leftOf, if_neg hf]
    | aside r => rw [leftOf, ih, restOf]

/-- A call goes past the end or the fault if that is what it finds, and only then. -/
theorem rest_of_take {room : Nat} {l l' : List Arrival} {a b : Ambient} {r : Except Fault Bytes}
    (hroom : 0 < room) (h : take room l a = (r, l', b)) :
    (r = .ok [] ∨ (∃ f, r = .error f ∧ f.isInterruption = false)) ∧ l' = restOf l ∨
      ((∃ octets, r = .ok octets ∧ octets ≠ []) ∨ ∃ f, r = .error f ∧ f.isInterruption = true) ∧
        restOf l' = restOf l := by
  -- only the end and a fault that is no interruption are taken off the list themselves
  fun_induction take room l a with
  | case1 => cases h; exact .inl ⟨.inl rfl, rfl⟩
  | case2 _ _ _ ih => exact ih h
  | case3 f rest =>
    cases h
    by_cases hf : f.isInterruption = true
    · exact .inr ⟨.inr ⟨f, rfl, hf⟩, by rw [restOf, if_pos hf]⟩
    · exact .inl ⟨.inr ⟨f, rfl, by simpa using hf⟩, by rw [restOf, if_neg hf]⟩
  | case4 => cases h; exact .inl ⟨.inl rfl, rfl⟩
  | case5 octets rest _ hempty ih => exact ih h
  | case6 octets rest a hempty later =>
    cases h
    have hne : octets.take room ≠ [] := by
      have : octets ≠ [] := by simpa using hempty
      simp [this, Nat.ne_of_gt hroom]
    refine .inr ⟨.inl ⟨_, rfl, hne⟩, ?_⟩
    split <;> rfl

/-- A filling for which there are too few octets goes just past what cuts it off. -/
theorem rest_of_fill {s t : Inbound} {room : Nat} {a b : Ambient} {r : Except Fault Bytes}
    (h : s.fill room a = (r, t, b)) (hshort : s.clear.length < room) :
    t.arrivals = restOf s.arrivals := by
  -- the calls before the last one find pieces or interruptions, and these leave the rest as it is
  fun_induction fill s room a generalizing r t b with
  | case1 s room a hroom u c hread =>
    cases h
    rcases rest_of_take hroom (take_of_read hread) with ⟨-, hrest⟩ | ⟨hmore, -⟩
    · exact hrest
    · simp at hmore
  | case2 s room a hroom o first u c hread more v d hmore ih
  | case3 s room a hroom o first u c hread f v d hmore ih =>
    cases h
    cases found_of_take hroom (take_of_read hread) with
    | piece _ hle hclear =>
      -- there are still too few octets for the rest of the room
      rw [clear, hclear, List.length_append] at hshort
      rcases rest_of_take hroom (take_of_read hread) with ⟨hover, -⟩ | ⟨-, hrest⟩
      · simp at hover
      · rw [← hrest]
        exact ih hmore (by rw [clear]; omega)
  | case4 s room a hroom f u c hread hf ih =>
    cases found_of_take hroom (take_of_read hread) with
    | interrupted _ hclear =>
      rcases rest_of_take hroom (take_of_read hread) with ⟨hover, -⟩ | ⟨-, hrest⟩
      · simp [hf] at hover
      · rw [← hrest]
        exact ih h (by rwa [clear, ← hclear])
    | failed hnot =>
      rw [hf] at hnot
      cases hnot
  | case5 s room a hroom f u c hread hf =>
    cases h
    rcases rest_of_take hroom (take_of_read hread) with ⟨-, hrest⟩ | ⟨hmore, -⟩
    · exact hrest
    · simp [hf] at hmore
  | case6 s room a hroom => omega

end Courier.Inbound
