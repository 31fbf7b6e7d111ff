import Courier.Proofs.Send

/-!
# Retries of a chunk

A chunk is offered again after every call that got nowhere, until all of it is taken or too many
calls for it have failed. How that ends can be read off what the stream goes through until it has
taken as many octets as the chunk has: the failures among it decide, however they are spread
between the calls that took a part, and interruptions are none.

Main results:

* `Transfer.writeChunk_cons` — what is next to happen to a chunk; `Transfer.writeChunk_run` — any
  number of such steps.
* `Transfer.writeChunk_smooth` — interruptions do not matter.
* `Transfer.writeChunk_persists` — when a chunk gets through, after which failure it is given up,
  what each call is offered, and when there is a pause.
-/

namespace Courier.Transfer

open Outbound

/-! ## What a stream goes through -/

/-- The failure that an uptake means for the call that meets with it. -/
def setback? : Uptake → Option Fault
  | .take 0 => some nothingAccepted
  | .take (_ + 1) => none
  | .fault f => if f.isInterruption then none else some f
  | .aside _ => none

/-- The failures among what the stream goes through, in their order. -/
def setbacks (used : List Uptake) : List Fault :=
  used.filterMap setback?

/-- How many octets an uptake is ready to take. -/
def uptakeSize : Uptake → Nat
  | .take n => n
  | _ => 0

/-- How many octets all of them are ready to take. -/
def uptakeSizes : List Uptake → Nat
  | [] => 0
  | u :: rest => uptakeSize u + uptakeSizes rest

/-- What a stream goes through until it has taken so many octets. -/
def needed : Nat → List Uptake → List Uptake
  | 0, _ => []
  | _ + 1, [] => []
  | n + 1, u :: rest => u :: needed (n + 1 - uptakeSize u) rest

/-- What is left around a chunk after an uptake: a failed call is followed by a pause. -/
def endure (delay : Nat) (a : Ambient) : Uptake → Ambient
  | .aside r => a.feel r
  | u => if (setback? u).isSome then a.pause delay else a

/-- The call that meets with an uptake. What only happens meanwhile is met by no call. -/
def callsOn (chunk : Bytes) : Uptake → List WriteCall
  | .take n => [⟨chunk, .ok (min n chunk.length)⟩]
  | .fault f => [⟨chunk, .error f⟩]
  | .aside _ => []

/-- The calls that meet with what the stream goes through, the latest first. Each of them offers
what is left of the chunk. -/
def callsFor : Bytes → List Uptake → List WriteCall
  | _, [] => []
  | chunk, u :: used => callsFor (chunk.drop (uptakeSize u)) used ++ callsOn chunk u

/-- The last call takes what is left once there is nothing more to go through. -/
def finishing (chunk : Bytes) : List WriteCall :=
  if chunk = [] then [] else [⟨chunk, .ok chunk.length⟩]

/-- The calls that get a chunk through. -/
def callsThrough (chunk : Bytes) (used : List Uptake) : List WriteCall :=
  finishing (chunk.drop (uptakeSizes used)) ++ callsFor chunk used

/-- An uptake that is no failure leaves the failures as they are. -/
@[simp]
theorem setbacks_cons_none {u : Uptake} (h : setback? u = none) (used : List Uptake) :
    setbacks (u :: used) = setbacks used :=
  List.filterMap_cons_none h

/-- An uptake that is a failure comes before the failures after it. -/
@[simp]
theorem setbacks_cons_some {u : Uptake} {f : Fault} (h : setback? u = some f)
    (used : List Uptake) : setbacks (u :: used) = f :: setbacks used :=
  List.filterMap_cons_some h

/-- Failures are counted part by part. -/
@[simp]
theorem setbacks_append (used rest : List Uptake) :
    setbacks (used ++ rest) = setbacks used ++ setbacks rest :=
  List.filterMap_append

/-- A call that failed has taken nothing. -/
theorem uptakeSize_of_setback {u : Uptake} {f : Fault} (h : setback? u = some f) :
    uptakeSize u = 0 := by
  unfold setback? at h
  unfold uptakeSize
  split at h <;> simp_all

/-- After a failure there is a pause. -/
theorem endure_of_setback {u : Uptake} {f : Fault} (h : setback? u = some f) (delay : Nat)
    (a : Ambient) : endure delay a u = a.pause delay := by
  unfold endure
  split
  · cases h
  · rw [h]
    rfl

/-- What comes later is met by calls that offer what the first part has left. -/
theorem callsFor_append (chunk : Bytes) (used later : List Uptake) :
    callsFor chunk (used ++ later) =
      callsFor (chunk.drop (uptakeSizes used)) later ++ callsFor chunk used := by
  -- the calls offer less and less, so the chunk changes along the induction
  induction used generalizing chunk with
  | nil => exact (List.append_nil _).symm
  | cons u used ih =>
    rw [List.cons_append, callsFor, callsFor, ih, uptakeSizes, List.drop_drop,
      List.append_assoc]

/-- A chunk needs a first part of what the stream goes through. -/
theorem needed_front (n : Nat) (l : List Uptake) : needed n l <+: l := by
  fun_induction needed n l with
  | case1 => exact List.nil_prefix
  | case2 => exact List.nil_prefix
  | case3 n u rest ih => exact (List.prefix_cons_inj u).mpr ih

/-- A first part of what is needed is needed whole. -/
theorem needed_of_front {n : Nat} {l used : List Uptake} (h : used <+: needed n l) :
    needed n used = used := by
  -- both are read uptake by uptake, and each one lowers what is needed by what it takes
  induction used generalizing n l with
  | nil => cases n <;> rfl
  | cons u used ih =>
    match n, l, h with
    | n + 1, v :: rest, h =>
      obtain ⟨rfl, hused⟩ := List.cons_prefix_cons.mp h
      rw [needed, ih hused]
    | 0, _, h | _ + 1, [], h =>
      rw [needed] at h
      cases List.prefix_nil.mp h

/-- What still needs an uptake has something left to write, and needs the rest for what the uptake
leaves of it. -/
theorem needed_cons {n : Nat} {u : Uptake} {used : List Uptake}
    (h : needed n (u :: used) = u :: used) :
    0 < n ∧ needed (n - uptakeSize u) used = used := by
  match n, h with
  | 0, h => cases h
  | n + 1, h => exact ⟨Nat.succ_pos n, (List.cons.inj h).2⟩

/-- What is needed after a first part of it is what the octets not yet taken need. -/
theorem needed_append {n : Nat} {used l : List Uptake} (h : needed n (used ++ l) = used ++ l) :
    needed n used = used ∧ needed (n - uptakeSizes used) l = l := by
  refine ⟨needed_of_front (l := used ++ l) (by rw [h]; exact List.prefix_append ..), ?_⟩
  induction used generalizing n with
  | nil => exact h
  | cons u used ih =>
    obtain ⟨-, hmore⟩ := needed_cons h
    rw [uptakeSizes, ← Nat.sub_sub]
    exact ih hmore

/-- What is needed either takes as much as there was to take or is all there is. -/
theorem needed_whole (n : Nat) (l : List Uptake) :
    n ≤ uptakeSizes (needed n l) ∨ needed n l = l := by
  fun_induction needed n l with
  | case1 => exact .inl (Nat.zero_le _)
  | case2 => exact .inr rfl
  -- what this uptake takes is no longer needed of the others
  | case3 n u rest ih =>
    rcases ih with h | h
    · left
      rw [uptakeSizes]
      omega
    · right
      rw [h]

/-! ## What happens to a chunk -/

section Step

variable {settings : Settings} {chunk : Bytes}

/-- There is nothing to be done for a chunk that is written. -/
@[simp]
theorem writeChunk_nil (settings : Settings) (failures : Nat) (s : Outbound) (a : Ambient) :
    writeChunk settings failures s [] a = (.ok (), s, a) := by
  rw [writeChunk, dif_pos rfl]

/-- A stream with nothing more to go through takes all that it is offered. -/
theorem writeChunk_willing (hne : chunk ≠ []) (settings : Settings) (failures : Nat)
    (flushFault : Option Fault) (calls : List WriteCall) (a : Ambient) :
    writeChunk settings failures ⟨[], flushFault, calls⟩ chunk a =
      (.ok (), ⟨[], flushFault, ⟨chunk, .ok chunk.length⟩ :: calls⟩, a) := by
  -- it takes at least one octet, so the call does not count as a failure
  obtain ⟨n, hn⟩ : ∃ n, chunk.length = n + 1 :=
    Nat.exists_eq_succ_of_ne_zero (by simpa using hne)
  rw [writeChunk, dif_neg hne]
  have hwrite : Outbound.write ⟨[], flushFault, calls⟩ chunk a =
      (.ok (n + 1), ⟨[], flushFault, ⟨chunk, .ok (n + 1)⟩ :: calls⟩, a) := by
    rw [Outbound.write, Outbound.accept, hn]
  rw [hn]
  split
  rename_i outcome t b h
  cases hwrite.symm.trans h
  simp [writeFault?, remaining, ← hn]

/-- **What is next to happen to a chunk.** A call that fails once too often is the last one, and
without a pause. -/
theorem writeChunk_cons (hne : chunk ≠ []) (settings : Settings) (failures : Nat) (u : Uptake)
    (rest : List Uptake) (flushFault : Option Fault) (calls : List WriteCall) (a : Ambient) :
    writeChunk settings failures ⟨u :: rest, flushFault, calls⟩ chunk a =
      match setback? u with
      | none =>
        writeChunk settings failures ⟨rest, flushFault, callsOn chunk u ++ calls⟩
          (chunk.drop (uptakeSize u)) (endure settings.retryDelay a u)
      | some f =>
        if settings.maxRetries.toNat ≤ failures + 1 then
          (.error (.retriesExhausted .write (failures + 1) f),
            ⟨rest, flushFault, callsOn chunk u ++ calls⟩, a)
        else
          writeChunk settings (failures + 1) ⟨rest, flushFault, callsOn chunk u ++ calls⟩ chunk
            (a.pause settings.retryDelay) := by
  cases u with
  | aside r =>
    -- no call yet: the next one meets with what comes after it
    rw [writeChunk, dif_neg hne]
    show _ = writeChunk settings failures ⟨rest, flushFault, calls⟩ chunk (a.feel r)
    rw [writeChunk, dif_neg hne]
    rfl
  | fault f =>
    rw [writeChunk, dif_neg hne]
    simp only [Outbound.write, Outbound.accept, writeFault?, setback?, remaining]
    -- an interruption is tried again at once, any other fault counts
    by_cases hf : f.isInterruption = true
    · rw [if_pos hf, if_pos hf]
      simp [endure, setback?, hf, callsOn, uptakeSize]
    · rw [if_neg hf, if_neg hf]
      rfl
  | take n =>
    rw [writeChunk, dif_neg hne]
    have hlen : chunk.length ≠ 0 := by simpa using hne
    have hdrop : chunk.drop (min n chunk.length) = chunk.drop n := by
      rw [List.drop_eq_drop_iff]
      omega
    cases n with
    -- a call that takes nothing is a failure as well
    | zero =>
      simp only [Outbound.write, Outbound.accept, Nat.zero_min, writeFault?, setback?, remaining,
        List.drop_zero, callsOn]
      rw [if_neg (by decide)]
      rfl
    | succ n =>
      obtain ⟨m, hm⟩ : ∃ m, min (n + 1) chunk.length = m + 1 :=
        Nat.exists_eq_succ_of_ne_zero (by omega)
      simp only [Outbound.write, Outbound.accept, setback?, callsOn, uptakeSize, endure]
      rw [← hdrop, hm]
      rfl

/-- How many calls for a chunk may fail, and at least one. -/
def tries (settings : Settings) : Nat :=
  max 1 settings.maxRetries.toNat

/-- **Any number of steps.** While the chunk still needs what the stream goes through, and the
failures among it are too few, it comes to where all of it lies behind. -/
theorem writeChunk_run {used : List Uptake} (hused : needed chunk.length used = used)
    (failures : Nat) (hfew : failures + (setbacks used).length < tries settings)
    (rest : List Uptake) (flushFault : Option Fault) (calls : List WriteCall) (a : Ambient) :
    writeChunk settings failures ⟨used ++ rest, flushFault, calls⟩ chunk a =
      writeChunk settings (failures + (setbacks used).length)
        ⟨rest, flushFault, callsFor chunk used ++ calls⟩ (chunk.drop (uptakeSizes used))
        (used.foldl (endure settings.retryDelay) a) := by
  -- by induction on what the stream goes through; the bound on the failures is handed down, less by
  -- one after each of them
  induction used generalizing chunk failures calls a with
  | nil => rfl
  | cons u used ih =>
    obtain ⟨hpos, hlater⟩ := needed_cons hused
    have hne : chunk ≠ [] := List.length_pos_iff.mp hpos
    rw [← List.length_drop] at hlater
    have hcalls : callsFor (chunk.drop (uptakeSize u)) used ++ (callsOn chunk u ++ calls) =
        callsFor chunk (u :: used) ++ calls := by
      rw [callsFor, List.append_assoc]
    rw [List.cons_append, writeChunk_cons hne, List.foldl_cons, ← hcalls, uptakeSizes,
      ← List.drop_drop]
    cases hu : setback? u with
    | none =>
      rw [setbacks_cons_none hu] at hfew ⊢
      exact ih hlater failures hfew _ _
    | some f =>
      rw [setbacks_cons_some hu, List.length_cons] at hfew ⊢
      -- one failure more, and it is not the last that is allowed
      have hmore : ¬ settings.maxRetries.toNat ≤ failures + 1 := by
        unfold tries at hfew
        omega
      rw [uptakeSize_of_setback hu, List.drop_zero] at hlater ⊢
      rw [endure_of_setback hu]
      dsimp only
      have hcount : failures + 1 + (setbacks used).length =
          failures + ((setbacks used).length + 1) := by omega
      rw [if_neg hmore, ih hlater (failures + 1) (by omega), hcount]

/-- A chunk whose failures are too few gets through. -/
theorem writeChunk_through {l : List Uptake}
    (hfew : (setbacks (needed chunk.length l)).length < tries settings)
    (flushFault : Option Fault) (calls : List WriteCall) (a : Ambient) :
    ∃ rest, l = needed chunk.length l ++ rest ∧
      writeChunk settings 0 ⟨l, flushFault, calls⟩ chunk a =
        (.ok (), ⟨rest, flushFault, callsThrough chunk (needed chunk.length l) ++ calls⟩,
          (needed chunk.length l).foldl (endure settings.retryDelay) a) := by
  obtain ⟨rest, hrest⟩ := needed_front chunk.length l
  have hrun := writeChunk_run (needed_of_front (List.prefix_refl (needed chunk.length l))) 0
    (by rwa [Nat.zero_add]) rest flushFault calls a
  rw [hrest] at hrun
  refine ⟨rest, hrest.symm, ?_⟩
  rw [hrun, callsThrough, finishing]
  split
  -- all is taken by then
  · rename_i hdone
    rw [hdone, writeChunk_nil]
    rfl
  · rename_i hleft
    -- it is not whole, so there was nothing more to go through
    obtain hsize | hwhole := needed_whole chunk.length l
    · exact absurd (List.drop_eq_nil_of_le hsize) hleft
    · rw [hwhole] at hrest
      rw [List.append_right_eq_self.mp hrest, writeChunk_willing hleft]
      rfl

/-- A chunk with as many failures as are allowed is given up at the last of them. -/
theorem writeChunk_given_up {used : List Uptake} {u : Uptake} {f : Fault}
    (hneeded : needed chunk.length (used ++ [u]) = used ++ [u]) (hu : setback? u = some f)
    (hlast : (setbacks used).length + 1 = tries settings) (rest : List Uptake)
    (flushFault : Option Fault) (calls : List WriteCall) (a : Ambient) :
    writeChunk settings 0 ⟨used ++ u :: rest, flushFault, calls⟩ chunk a =
      (.error (.retriesExhausted .write (tries settings) f),
        ⟨rest, flushFault, callsFor chunk (used ++ [u]) ++ calls⟩,
        used.foldl (endure settings.retryDelay) a) := by
  obtain ⟨hused, hlater⟩ := needed_append hneeded
  -- there is something left for the call that fails
  obtain ⟨hpos, -⟩ := needed_cons hlater
  rw [← List.length_drop] at hpos
  have hallowed : settings.maxRetries.toNat ≤ (setbacks used).length + 1 := by
    unfold tries at hlast
    omega
  have hcalls : callsFor chunk (used ++ [u]) =
      callsOn (chunk.drop (uptakeSizes used)) u ++ callsFor chunk used := by
    rw [callsFor_append, callsFor, callsFor, List.nil_append]
  rw [writeChunk_run hused 0 (by omega), writeChunk_cons (List.length_pos_iff.mp hpos), hu,
    Nat.zero_add, hcalls, List.append_assoc]
  dsimp only
  rw [if_pos hallowed, hlast]

end Step

/-! ## The calls for a chunk -/

/-- Each call offers just what the calls before it have not taken. -/
def Resumes (chunk : Bytes) (calls : List WriteCall) : Prop :=
  ∀ c earlier, c :: earlier <:+ calls → c.offered ≠ [] ∧ chunk = taken earlier ++ c.offered

/-- The failure that counts, if the call got nowhere and was not interrupted. -/
def failure? (c : WriteCall) : Option Fault :=
  (writeFault? c.outcome).filter fun f => !f.isInterruption

def failuresOf (calls : List WriteCall) : List Fault :=
  calls.reverse.filterMap failure?

section Calls

variable {chunk rest : Bytes} {later first : List WriteCall} {u : Uptake} {used : List Uptake}

/-- Calls for the rest of a chunk go on where the first calls stopped. -/
theorem Resumes.append (hlater : Resumes rest later) (hfirst : Resumes chunk first)
    (hsplit : taken first ++ rest = chunk) : Resumes chunk (later ++ first) := by
  intro c earlier hsuffix
  induction later with
  | nil => exact hfirst c earlier hsuffix
  | cons d later ih =>
    rw [List.cons_append, List.suffix_cons_iff] at hsuffix
    rcases hsuffix with heq | hsuffix
    · -- one of the later calls: what the first ones took comes before its share
      obtain ⟨rfl, rfl⟩ := List.cons.inj heq
      obtain ⟨hne, hrest⟩ := hlater c later (List.suffix_refl _)
      refine ⟨hne, ?_⟩
      rw [taken_append, List.append_assoc, ← hrest, hsplit]
    · exact ih (fun c earlier h => hlater c earlier (h.trans (List.suffix_cons ..))) hsuffix

/-- What a call has taken and what it leaves make up the chunk that was offered. -/
theorem taken_callsOn (chunk : Bytes) (u : Uptake) :
    taken (callsOn chunk u) ++ chunk.drop (uptakeSize u) = chunk := by
  cases u with
  | take n =>
    -- a stream that is ready for more than is offered takes what is offered
    have htake : chunk.take (min n chunk.length) = chunk.take n := by
      rw [List.take_eq_take_iff]
      omega
    simp [callsOn, uptakeSize, WriteCall.accepted, htake]
  | fault f => rfl
  | aside r => rfl

/-- Where there is no call there is none that offers anything else. -/
theorem resumes_nil (chunk : Bytes) : Resumes chunk [] := by
  intro c earlier hsuffix
  cases List.suffix_nil.mp hsuffix

/-- A single call offers all of the chunk. -/
theorem resumes_one (hne : chunk ≠ []) (outcome : Except Fault Nat) :
    Resumes chunk [⟨chunk, outcome⟩] := by
  intro c earlier hsuffix
  rcases List.suffix_cons_iff.mp hsuffix with heq | hsuffix
  · obtain ⟨rfl, rfl⟩ := List.cons.inj heq
    exact ⟨hne, rfl⟩
  · cases List.suffix_nil.mp hsuffix

/-- So does the call that meets with an uptake, if one does. -/
theorem resumes_callsOn (hne : chunk ≠ []) (u : Uptake) : Resumes chunk (callsOn chunk u) := by
  cases u with
  | take n => exact resumes_one hne _
  | fault f => exact resumes_one hne _
  | aside r => exact resumes_nil chunk

/-- A failure is met by a call that fails. -/
theorem callsOn_of_setback {f : Fault} (hu : setback? u = some f) (chunk : Bytes) :
    ∃ c, callsOn chunk u = [c] ∧ failure? c = some f := by
  cases u with
  | take n =>
    cases n with
    | zero => exact ⟨_, rfl, by rw [Nat.zero_min]; exact hu⟩
    | succ n => cases hu
  | fault g =>
    by_cases hg : g.isInterruption = true
    · simp [setback?, hg] at hu
    · obtain rfl : g = f := by simpa [setback?, hg] using hu
      exact ⟨_, rfl, by simp [failure?, writeFault?, hg]⟩
  | aside r => cases hu

/-- Of a single call there is at most one failure. -/
theorem failuresOf_one (c : WriteCall) : failuresOf [c] = (failure? c).toList := by
  show ([c] : List WriteCall).filterMap failure? = _
  rw [List.filterMap_cons]
  cases failure? c <;> rfl

/-- A call fails just where the uptake means a failure: an interruption does not count, and
neither does a call that takes something. -/
theorem failuresOf_callsOn (hne : chunk ≠ []) (u : Uptake) :
    failuresOf (callsOn chunk u) = (setback? u).toList := by
  have hlen : chunk.length ≠ 0 := by simpa using hne
  cases u with
  | take n =>
    cases n with
    | zero =>
      rw [callsOn, Nat.zero_min]
      rfl
    | succ n =>
      -- something is taken of a chunk that has something in it
      obtain ⟨m, hm⟩ : ∃ m, min (n + 1) chunk.length = m + 1 :=
        Nat.exists_eq_succ_of_ne_zero (by omega)
      rw [callsOn, hm]
      rfl
  | fault f =>
    rw [callsOn, failuresOf_one]
    by_cases hf : f.isInterruption = true <;> simp [failure?, writeFault?, setback?, hf]
  | aside r => rfl

/-- **Each call offers what is left**, as long as the chunk needs what the stream goes through. -/
theorem resumes_callsFor (hused : needed chunk.length used = used) :
    Resumes chunk (callsFor chunk used) := by
  -- the later calls are for what the first one leaves, which is the chunk of the induction
  induction used generalizing chunk with
  | nil => exact resumes_nil chunk
  | cons u used ih =>
    obtain ⟨hpos, hlater⟩ := needed_cons hused
    rw [← List.length_drop] at hlater
    have hfirst := resumes_callsOn (List.length_pos_iff.mp hpos) u
    exact (ih hlater).append hfirst (taken_callsOn chunk u)

/-- The failures of earlier calls come first. -/
@[simp]
theorem failuresOf_append (later first : List WriteCall) :
    failuresOf (later ++ first) = failuresOf first ++ failuresOf later := by
  simp [failuresOf]

/-- The calls fail as often as the stream does, and in the same way. -/
theorem failuresOf_callsFor (hused : needed chunk.length used = used) :
    failuresOf (callsFor chunk used) = setbacks used := by
  induction used generalizing chunk with
  | nil => rfl
  | cons u used ih =>
    obtain ⟨hpos, hlater⟩ := needed_cons hused
    rw [← List.length_drop] at hlater
    rw [callsFor, failuresOf_append, ih hlater, failuresOf_callsOn (List.length_pos_iff.mp hpos)]
    cases hu : setback? u with
    | none => rw [setbacks_cons_none hu, Option.toList_none, List.nil_append]
    | some f => rw [setbacks_cons_some hu, Option.toList_some, List.singleton_append]

/-- Nothing is lost between the calls, and nothing is written twice. -/
theorem taken_callsFor (chunk : Bytes) (used : List Uptake) :
    taken (callsFor chunk used) ++ chunk.drop (uptakeSizes used) = chunk := by
  induction used generalizing chunk with
  | nil => rfl
  | cons u used ih =>
    rw [callsFor, taken_append, uptakeSizes, ← List.drop_drop, List.append_assoc, ih,
      taken_callsOn]

/-- The last call offers what is left to write, if anything is. -/
theorem resumes_finishing (chunk : Bytes) : Resumes chunk (finishing chunk) := by
  unfold finishing
  split
  · exact resumes_nil chunk
  · rename_i hne
    exact resumes_one hne _

/-- It takes all of that. -/
theorem taken_finishing (chunk : Bytes) : taken (finishing chunk) = chunk := by
  unfold finishing
  split
  · rename_i hnil
    exact hnil.symm
  · simp [WriteCall.accepted]

/-- So it does not fail. -/
theorem failuresOf_finishing (chunk : Bytes) : failuresOf (finishing chunk) = [] := by
  unfold finishing
  split
  · rfl
  · rename_i hne
    obtain ⟨n, hn⟩ := Nat.exists_eq_succ_of_ne_zero (show chunk.length ≠ 0 by simpa using hne)
    rw [hn]
    rfl

/-- The calls that get a chunk through take all of it. -/
theorem callsThrough_spec (hused : needed chunk.length used = used) :
    Resumes chunk (callsThrough chunk used) ∧ taken (callsThrough chunk used) = chunk ∧
      failuresOf (callsThrough chunk used) = setbacks used := by
  -- the calls that met with something, and the last one behind them
  refine ⟨?_, ?_, ?_⟩
  · exact (resumes_finishing _).append (resumes_callsFor hused) (taken_callsFor chunk used)
  · rw [callsThrough, taken_append, taken_finishing, taken_callsFor]
  · rw [callsThrough, failuresOf_append, failuresOf_finishing, failuresOf_callsFor hused,
      List.append_nil]

end Calls

/-! ## Interruptions -/

/-- An uptake that only interrupts the call that meets with it. -/
def interrupts : Uptake → Bool
  | .fault f => f.isInterruption
  | _ => false

/-- A call that was interrupted. -/
def interrupted (c : WriteCall) : Bool :=
  match c.outcome with
  | .error f => f.isInterruption
  | .ok _ => false

/-- The stream without its interruptions, those to come and those met with already. -/
def smooth (s : Outbound) : Outbound :=
  { s with
    uptakes := s.uptakes.filter fun u => !interrupts u
    calls := s.calls.filter fun c => !interrupted c }

/-- A call is interrupted only where the stream interrupts it. -/
theorem filter_callsOn {u : Uptake} (hu : interrupts u = false) (chunk : Bytes) :
    (callsOn chunk u).filter (fun c => !interrupted c) = callsOn chunk u := by
  cases u with
  | take n => rfl
  | fault f =>
    have hf : f.isInterruption = false := hu
    simp [callsOn, interrupted, hf]
  | aside r => rfl

/-- **Interruptions do not matter.** Without them a chunk comes to the same end with the same other
calls. -/
theorem writeChunk_smooth (settings : Settings) (failures : Nat) (l : List Uptake)
    (flushFault : Option Fault) (calls : List WriteCall) (chunk : Bytes) (a : Ambient) :
    writeChunk settings failures (smooth ⟨l, flushFault, calls⟩) chunk a =
      ((writeChunk settings failures ⟨l, flushFault, calls⟩ chunk a).1,
        smooth (writeChunk settings failures ⟨l, flushFault, calls⟩ chunk a).2.1,
        (writeChunk settings failures ⟨l, flushFault, calls⟩ chunk a).2.2) := by
  -- by induction on what is to come; what the stream has gone through so far is any list of calls
  induction l generalizing failures calls chunk a with
  | nil =>
    by_cases hne : chunk = []
    · rw [hne, writeChunk_nil, writeChunk_nil]
    · rw [writeChunk_willing hne]
      exact writeChunk_willing hne ..
  | cons u rest ih =>
    by_cases hne : chunk = []
    · rw [hne, writeChunk_nil, writeChunk_nil]
    by_cases hu : interrupts u = true
    · -- an interruption only adds a call that does not count
      obtain ⟨f, rfl⟩ : ∃ f, u = .fault f := by
        cases u <;> simp_all [interrupts]
      have hf : f.isInterruption = true := hu
      have hcall : smooth ⟨.fault f :: rest, flushFault, calls⟩ =
          smooth ⟨rest, flushFault, ⟨chunk, .error f⟩ :: calls⟩ := by
        simp [smooth, interrupts, interrupted, hf]
      rw [hcall, ih, writeChunk_cons hne]
      simp [setback?, hf, callsOn, uptakeSize, endure]
    -- anything else happens to the smooth stream as well, and is met by the same call
    · have hcall : smooth ⟨u :: rest, flushFault, calls⟩ =
          ⟨u :: (smooth ⟨rest, flushFault, calls⟩).uptakes, flushFault,
            (smooth ⟨rest, flushFault, calls⟩).calls⟩ := by
        simp [smooth, hu]
      have hlater : smooth ⟨rest, flushFault, callsOn chunk u ++ calls⟩ =
          ⟨(smooth ⟨rest, flushFault, calls⟩).uptakes, flushFault,
            callsOn chunk u ++ (smooth ⟨rest, flushFault, calls⟩).calls⟩ := by
        simp only [smooth, List.filter_append, filter_callsOn (Bool.not_eq_true _ ▸ hu)]
      rw [hcall, writeChunk_cons hne, writeChunk_cons hne, ← hlater]
      cases setback? u with
      | none => exact ih ..
      | some f =>
        dsimp only
        split
        · rfl
        · exact ih ..

/-! ## How a chunk ends -/

/-- So many pauses. A pause of no length is not taken. -/
def pausesOf (delay n : Nat) : List Nat :=
  if delay = 0 then [] else List.replicate n delay

/-- The pause after a failure comes before those of the failures after it. -/
theorem pausesOf_succ (delay n : Nat) (pauses : List Nat) :
    pausesOf delay n ++ (pausesOf delay 1 ++ pauses) = pausesOf delay (n + 1) ++ pauses := by
  unfold pausesOf
  split
  · rfl
  · rw [← List.append_assoc, List.replicate_append_replicate]

/-- A pause is recorded by the clock, if it takes any time. -/
theorem pauses_pause (a : Ambient) (delay : Nat) :
    (a.pause delay).clock.pauses = pausesOf delay 1 ++ a.clock.pauses := by
  unfold Ambient.pause Clock.pause pausesOf
  split <;> rfl

/-- Nothing but a failure is followed by a pause. -/
theorem pauses_endure {u : Uptake} (hu : setback? u = none) (delay : Nat) (a : Ambient) :
    (endure delay a u).clock.pauses = a.clock.pauses := by
  unfold endure
  split
  · rename_i r
    cases r <;> rfl
  · rw [hu]
    rfl

/-- **One pause for each failure** among what the stream goes through. -/
theorem pauses_foldl (delay : Nat) (used : List Uptake) (a : Ambient) :
    (used.foldl (endure delay) a).clock.pauses =
      pausesOf delay (setbacks used).length ++ a.clock.pauses := by
  induction used generalizing a with
  | nil =>
    show _ = pausesOf delay 0 ++ _
    unfold pausesOf
    split <;> rfl
  | cons u used ih =>
    rw [List.foldl_cons, ih]
    cases hu : setback? u with
    | none => rw [setbacks_cons_none hu, pauses_endure hu]
    | some f =>
      rw [setbacks_cons_some hu, endure_of_setback hu, pauses_pause, pausesOf_succ,
        List.length_cons]

/-- What is true of a chunk that was written to `s` and came to a result with the stream left as
`t`. -/
structure Persists (settings : Settings) (s : Outbound) (chunk : Bytes) (a : Ambient)
    (result : Except TransferError Unit) (t : Outbound) (b : Ambient) : Prop where
  gets_through : result = .ok () ↔
    (setbacks (needed chunk.length s.uptakes)).length < tries settings
  through : result = .ok () → s.uptakes = needed chunk.length s.uptakes ++ t.uptakes ∧
    b = (needed chunk.length s.uptakes).foldl (endure settings.retryDelay) a
  /-- It is given up at the last failure that is allowed, with no call and no pause after it. -/
  given_up : ∀ e, result = .error e → ∃ used u f, s.uptakes = used ++ u :: t.uptakes ∧
    used ++ [u] <+: needed chunk.length s.uptakes ∧ setback? u = some f ∧
    (setbacks used).length + 1 = tries settings ∧
    e = .retriesExhausted .write (tries settings) f ∧ t.calls.head?.bind failure? = some f ∧
    b = used.foldl (endure settings.retryDelay) a
  calls : ∃ calls, t.calls = calls ++ s.calls ∧ Resumes chunk calls ∧
    (result = .ok () → taken calls = chunk) ∧
    failuresOf calls = (setbacks (needed chunk.length s.uptakes)).take (tries settings)
  pauses : b.clock.pauses =
    pausesOf settings.retryDelay
      (min (setbacks (needed chunk.length s.uptakes)).length (tries settings - 1)) ++
      a.clock.pauses

/-- Among more than `n` failures is one with `n` before it. -/
theorem exists_last {l : List Uptake} {n : Nat} (h : n < (setbacks l).length) :
    ∃ used u rest f, l = used ++ u :: rest ∧ setback? u = some f ∧ (setbacks used).length = n := by
  -- by induction on the list: an uptake that is no failure leaves the count as it is
  induction l generalizing n with
  | nil => cases h
  | cons u l ih =>
    cases hu : setback? u with
    | none =>
      rw [setbacks_cons_none hu] at h
      obtain ⟨used, v, rest, f, rfl, hv, hn⟩ := ih h
      exact ⟨u :: used, v, rest, f, rfl, hv, by rw [setbacks_cons_none hu, hn]⟩
    | some f =>
      rw [setbacks_cons_some hu, List.length_cons] at h
      cases n with
      | zero => exact ⟨[], u, l, f, rfl, hu, rfl⟩
      | succ n =>
        obtain ⟨used, v, rest, g, rfl, hv, hn⟩ := ih (Nat.lt_of_succ_lt_succ h)
        exact ⟨u :: used, v, rest, g, rfl, hv, by rw [setbacks_cons_some hu, List.length_cons, hn]⟩

/-- The case of a chunk that gets through. -/
theorem persists_of_few {settings : Settings} {s : Outbound} {chunk : Bytes}
    (hfew : (setbacks (needed chunk.length s.uptakes)).length < tries settings) (a : Ambient) :
    Persists settings s chunk a (writeChunk settings 0 s chunk a).1
      (writeChunk settings 0 s chunk a).2.1 (writeChunk settings 0 s chunk a).2.2 := by
  obtain ⟨l, flushFault, calls⟩ := s
  obtain ⟨rest, hl, hwrite⟩ := writeChunk_through hfew flushFault calls a
  obtain ⟨hresumes, htaken, hfailures⟩ :=
    callsThrough_spec (needed_of_front (List.prefix_refl (needed chunk.length l)))
  rw [hwrite]
  refine ⟨⟨fun _ => hfew, fun _ => rfl⟩, fun _ => ⟨hl, rfl⟩, (fun e he => nomatch he),
    ⟨_, rfl, hresumes, fun _ => htaken, ?_⟩, ?_⟩
  · rw [hfailures, List.take_of_length_le (Nat.le_of_lt hfew)]
  -- every failure is followed by a pause, as none of them is the last that is allowed
  · have hmin : min (setbacks (needed chunk.length l)).length (tries settings - 1) =
        (setbacks (needed chunk.length l)).length := by
      have := hfew
      dsimp only at this
      omega
    rw [pauses_foldl, hmin]

/-- The case of a chunk that is given up. -/
theorem persists_of_many {settings : Settings} {s : Outbound} {chunk : Bytes}
    (hmany : tries settings ≤ (setbacks (needed chunk.length s.uptakes)).length) (a : Ambient) :
    Persists settings s chunk a (writeChunk settings 0 s chunk a).1
      (writeChunk settings 0 s chunk a).2.1 (writeChunk settings 0 s chunk a).2.2 := by
  obtain ⟨l, flushFault, calls⟩ := s
  have hpos : 0 < tries settings := Nat.lt_of_lt_of_le Nat.one_pos (Nat.le_max_left ..)
  obtain ⟨used, u, later, f, hneeded, hu, hlast⟩ := exists_last (n := tries settings - 1)
    (Nat.lt_of_lt_of_le (Nat.sub_lt hpos Nat.one_pos) hmany)
  have hlast : (setbacks used).length + 1 = tries settings := by omega
  -- what comes up to that failure is needed, and the rest is left
  have hfront : used ++ [u] <+: needed chunk.length l := by
    rw [show needed chunk.length l = _ from hneeded]
    exact ⟨later, by simp⟩
  obtain ⟨rest, hrest⟩ := hfront.trans (needed_front ..)
  have hl : l = used ++ u :: rest := by rw [← hrest]; simp
  have hwhole := needed_of_front hfront
  have hwrite := writeChunk_given_up hwhole hu hlast rest flushFault calls a
  rw [← hl] at hwrite
  rw [hwrite]
  -- with this one there are as many failures as are allowed
  have hcount : (setbacks (used ++ [u])).length = tries settings := by
    rw [setbacks_append, setbacks_cons_some hu, List.length_append]
    exact hlast
  refine ⟨⟨(fun h => nomatch h), fun h => absurd h (Nat.not_lt.mpr hmany)⟩,
    (fun h => nomatch h), ?_, ⟨_, rfl, resumes_callsFor hwhole, (fun h => nomatch h), ?_⟩, ?_⟩
  -- the call that failed last is the one that met with this uptake
  · intro e he
    cases he
    obtain ⟨c, hcall, hc⟩ := callsOn_of_setback hu (chunk.drop (uptakeSizes used))
    refine ⟨used, u, f, hl, hfront, hu, hlast, rfl, ?_, rfl⟩
    rw [callsFor_append, callsFor, callsFor, List.nil_append, hcall]
    exact hc
  · rw [failuresOf_callsFor hwhole, ← hcount]
    exact List.prefix_iff_eq_take.mp (hfront.filterMap setback?)
  -- there is no pause after the last failure
  · have hmin : min (setbacks (needed chunk.length l)).length (tries settings - 1) =
        (setbacks used).length := by
      have := hmany
      dsimp only at this
      omega
    rw [pauses_foldl, hmin]

/-- **Retries of a chunk are counted and paced exactly.** It gets through unless as many calls as
are allowed fail before all of it is taken, whatever is taken between them; then it is given up
at once. Each call is offered what is not taken yet, each failure but the last is followed by one
pause, and there is no other. Interruptions change nothing of this. -/
theorem writeChunk_persists (settings : Settings) (s : Outbound) (chunk : Bytes) (a : Ambient) :
    Persists settings s chunk a (writeChunk settings 0 s chunk a).1
        (writeChunk settings 0 s chunk a).2.1 (writeChunk settings 0 s chunk a).2.2 ∧
      ∀ s', smooth s' = smooth s →
        (writeChunk settings 0 s' chunk a).1 = (writeChunk settings 0 s chunk a).1 ∧
        smooth (writeChunk settings 0 s' chunk a).2.1 =
          smooth (writeChunk settings 0 s chunk a).2.1 ∧
        (writeChunk settings 0 s' chunk a).2.2 = (writeChunk settings 0 s chunk a).2.2 := by
  refine ⟨?_, ?_⟩
  · by_cases hfew : (setbacks (needed chunk.length s.uptakes)).length < tries settings
    · exact persists_of_few hfew a
    · exact persists_of_many (Nat.le_of_not_lt hfew) a
  -- both streams are the same once their interruptions are left out
  · intro s' hsmooth
    have h := writeChunk_smooth settings 0 s.uptakes s.flushFault s.calls chunk a
    have h' := writeChunk_smooth settings 0 s'.uptakes s'.flushFault s'.calls chunk a
    rw [hsmooth, h] at h'
    obtain ⟨hresult, hrest⟩ := Prod.mk.inj h'
    obtain ⟨hstream, hambient⟩ := Prod.mk.inj hrest
    exact ⟨hresult.symm, hstream.symm, hambient.symm⟩

/-- The same stream is not interrupted this time. -/
theorem writeChunk_persists_halting :
    smooth ⟨[.take 1, .take 0, .aside (.leave 1), .fault (.bare .timedOut)], none, []⟩ =
        smooth haltingStream ∧
      Persists { maxRetries := 2 } haltingStream [1, 2, 3] default
        (writeChunk { maxRetries := 2 } 0 haltingStream [1, 2, 3] default).1
        (writeChunk { maxRetries := 2 } 0 haltingStream [1, 2, 3] default).2.1
        (writeChunk { maxRetries := 2 } 0 haltingStream [1, 2, 3] default).2.2 ∧
      (writeChunk { maxRetries := 2 } 0
          ⟨[.take 1, .take 0, .aside (.leave 1), .fault (.bare .timedOut)], none, []⟩ [1, 2, 3]
          default).1 =
        (writeChunk { maxRetries := 2 } 0 haltingStream [1, 2, 3] default).1 :=
  have hsmooth :
      smooth ⟨[.take 1, .take 0, .aside (.leave 1), .fault (.bare .timedOut)], none, []⟩ =
        smooth haltingStream := rfl
  have h := writeChunk_persists { maxRetries := 2 } haltingStream [1, 2, 3] default
  ⟨hsmooth, h.1, (h.2 _ hsmooth).1⟩

end Courier.Transfer
