import Mathlib.Logic.Relation
import Courier.Transfer.Sender

/-!
# The steps of a send

A send that takes its steps without interruption is the one that the transfers run.

Main results:

* `Sender.runs_file` — all the steps of a send of a file make up `Transfer.sendFile`.
* `Sender.runs_reader` — and those of any other source `Transfer.sendReader`.
-/

namespace Courier

namespace Transfer

namespace Sender

open Relation

variable {s : Sender} {a : Ambient} {fs : Files}

/-- A send and its surroundings, one step after the other. -/
inductive Next (fs : Files) : Sender × Ambient → Sender × Ambient → Prop where
  | step (s : Sender) (a : Ambient) : Next fs (s, a) (s.step a fs)

/-- One step, where its outcome is known. -/
theorem next_of_step {q : Sender × Ambient} (h : s.step a fs = q) :
    ReflTransGen (Next fs) (s, a) q :=
  h ▸ .single (.step s a)

/-- A send that has its source goes on until the source ends and the stream is flushed, or it is to
give up. -/
theorem runs_rest {settings : Settings} {file : Option Path} {path : Path} {pace : Pace}
    {source t : Inbound} {s s' : Outbound} {a b : Ambient} {r : Except TransferError Pace}
    (fs : Files) (hpath : file.getD (.of "<reader>") = path)
    (h : sendRest settings path pace source s a = (r, t, s', b)) :
    ReflTransGen (Next fs) (⟨settings, file, source, s, .filling pace⟩, a)
      (⟨settings, file, t, s',
        .ending (r.map fun pace => ⟨.send, path, pace.moved, pace.elapsed b.clock⟩)⟩, b) := by
  fun_induction sendRest settings path pace source s a with
  | case1 pace source s a e t b hfill =>
    cases h
    refine next_of_step ?_
    simp only [step, Sender.path, hpath, hfill]
    rfl
  | case2 pace source s a t b hfill f hflush =>
    cases h
    -- the source has ended, and the stream is flushed in a step of its own
    refine (next_of_step (q := (⟨settings, file, t, s', .flushing pace⟩, b)) ?_).trans
      (next_of_step ?_)
    · simp only [step, Sender.path, hpath, hfill]
    · simp only [step, hflush]
      rfl
  | case3 pace source s a t b hfill hflush =>
    cases h
    refine (next_of_step (q := (⟨settings, file, t, s', .flushing pace⟩, b)) ?_).trans
      (next_of_step ?_)
    · simp only [step, Sender.path, hpath, hfill]
    · simp only [step, hflush, Sender.path, hpath]
      rfl
  | case4 pace source s a o octets t b hfill e s' b' hwrite =>
    cases h
    refine (next_of_step (q := (⟨settings, file, t, s, .writing pace (o :: octets)⟩, b)) ?_).trans
      (next_of_step ?_)
    · simp only [step, Sender.path, hpath, hfill]
    · simp only [step, hwrite]
      rfl
  | case5 pace source s a o octets t b hfill s' b' hwrite pace' clock hrecord ih =>
    refine ((next_of_step (q := (⟨settings, file, t, s, .writing pace (o :: octets)⟩, b))
      ?_).trans (next_of_step ?_)).trans (ih h)
    · simp only [step, Sender.path, hpath, hfill]
    · simp only [step, hwrite, hrecord]

/-- **A send of a file that takes its steps without interruption** is the one that the transfers
run. -/
theorem runs_file (settings : Settings) (fs : Files) (path : Path) (s : Outbound) (a : Ambient) :
    ∃ source, ReflTransGen (Next fs) (.ofFile settings path s, a)
      (⟨settings, some path, source, (sendFile settings fs path s a).2.1,
          .ended (sendFile settings fs path s a).1⟩,
        (sendFile settings fs path s a).2.2) := by
  unfold sendFile
  dsimp only
  have hregister : ReflTransGen (Next fs) (.ofFile settings path s, a)
      (⟨settings, some path, .of [], s, .registered⟩, a.register) := next_of_step rfl
  cases hstat : fs.stat path with
  | error f =>
    refine ⟨.of [], (hregister.trans (next_of_step (q := (⟨settings, some path, .of [], s,
      .ending (.error (.filesystem .openSource path f))⟩, a.register)) ?_)).trans
      (next_of_step rfl)⟩
    simp only [step, hstat]
  -- it registers, opens the file, takes the steps of `runs_rest`, and is over
  | ok found =>
    obtain ⟨l, entry⟩ := found
    have hopen : ReflTransGen (Next fs) (⟨settings, some path, .of [], s, .registered⟩, a.register)
        (⟨settings, some path, sourceOf entry, s,
          .filling (Pace.begin settings.baseRate.toNat a.register.clock)⟩, a.register) := by
      refine next_of_step ?_
      simp only [step, hstat]
    have hrest : ReflTransGen (Next fs) (⟨settings, some path, sourceOf entry, s,
        .filling (Pace.begin settings.baseRate.toNat a.register.clock)⟩, a.register) _ :=
      runs_rest fs rfl (Prod.eta _).symm
    exact ⟨_, ((hregister.trans hopen).trans hrest).trans (next_of_step rfl)⟩

/-- **A send of any other source that takes its steps without interruption** is the one that the
transfers run. -/
theorem runs_reader (settings : Settings) (source : Inbound) (s : Outbound) (a : Ambient)
    (fs : Files) :
    ∃ result, result.map Report.size = (sendReader settings source s a).1 ∧
      ReflTransGen (Next fs) (.ofReader settings source s, a)
        (⟨settings, none, (sendReader settings source s a).2.1,
            (sendReader settings source s a).2.2.1, .ended result⟩,
          (sendReader settings source s a).2.2.2) := by
  unfold sendReader sendChunks
  cases hrest : sendRest settings (.of "<reader>")
      (Pace.begin settings.baseRate.toNat a.register.clock) source s a.register with
  | mk r rest =>
    obtain ⟨t, s', b⟩ := rest
    refine ⟨r.map fun pace => ⟨.send, .of "<reader>", pace.moved, pace.elapsed b.clock⟩, ?_,
      ((next_of_step rfl).trans ((next_of_step rfl).trans (runs_rest fs rfl hrest))).trans
        (next_of_step rfl)⟩
    cases r <;> rfl

end Sender

end Transfer

end Courier
