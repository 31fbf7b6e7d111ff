import Courier.Proofs.Codec
import Courier.Proofs.EventLines
import Courier.Proofs.Exchange
import Courier.Proofs.Refusal
import Courier.Proofs.Tally

/-!
# A refused session has no effect

A session is refused for a header that breaks a rule or is cut, or for a path that cannot be
resolved. Such a session goes through at most four moments. At none of them has it written to its
peer or begun a transfer, and the files are as they were but for one line in the log, which is
there only if the header was valid. It has read no further than the field that it failed at.

Main results:

* `Session.exists_refused` — a session that is not to run a transfer is refused.
* `Session.Refused.harmless` — what is true at every moment of a refused session.
* `Session.run_refused` — what a refused session leaves.
-/

namespace Courier.Session

open Relation
open Inbound (leftOf restOf)

variable {ctx : Context} {peer : String} {c : Connection} {m : Machine} {e : TransferError}
  {left : List Arrival} {fs : Files}

/-- How a session is refused: its error, what it leaves of what arrives, and the files. -/
inductive Refused (ctx : Context) (peer : String) (c : Connection) (m : Machine) :
    TransferError → List Arrival → Files → Prop where
  /-- A field of the header breaks a rule. -/
  | broken {v : Violation} (h : Header.Breaks c.inbound.clear v) :
      Refused ctx peer c m (.protocol v)
        (leftOf (Header.brokenEnd c.inbound.clear v) c.inbound.arrivals) m.files
  /-- The stream ends or fails within a field. -/
  | cut {field : HeaderField} (h : Header.CutWithin c.inbound.clear field) :
      Refused ctx peer c m (Header.cutError field c.inbound.stop) (restOf c.inbound.arrivals)
        m.files
  /-- The header is valid, but not its path. -/
  | path {header : Header} {e : TransferError}
      (hallowed : Header.lengthAllowed (bytes header.path).length = true)
      (hbegins : header.octets <+: c.inbound.clear)
      (hresolve : resolve (begun ctx peer header c m) ctx.root (.of header.path) = .error e) :
      Refused ctx peer c m e (leftOf header.octets.length c.inbound.arrivals)
        (begun ctx peer header c m)

/-- **A session that is not to run a transfer is refused.** -/
theorem exists_refused (h : ∀ header t b l, Header.read c.inbound m.ambient = (.ok header, t, b) →
      resolve (begun ctx peer header c m) ctx.root (.of header.path) ≠ .ok l) :
    ∃ e left fs, Refused ctx peer c m e left fs := by
  obtain ⟨v, hv⟩ := Header.exists_judged c.inbound.clear
  cases hv with
  | broken hbreaks => exact ⟨_, _, _, .broken hbreaks⟩
  | cut hcut => exact ⟨_, _, _, .cut hcut⟩
  | @header header _ hallowed hbegins =>
    obtain ⟨t, b, hread, -⟩ := Header.read_of_header hallowed hbegins m.ambient
    cases hresolve : resolve (begun ctx peer header c m) ctx.root (.of header.path) with
    | ok l => exact absurd hresolve (h _ _ _ l hread)
    | error e => exact ⟨_, _, _, .path hallowed hbegins hresolve⟩

/-! ## Moment by moment -/

/-- The moments of a session whose header cannot be read: before and after. -/
theorem moments_of_deaf {t : Inbound} {b : Ambient} {q : Course × Machine}
    (hread : Header.read c.inbound m.ambient = (.error e, t, b))
    (hrun : ReflTransGen Next (⟨ctx, peer, c, .fresh, false⟩, m) q) :
    q = (⟨ctx, peer, c, .fresh, false⟩, m) ∨
      q = (⟨ctx, peer, { c with inbound := t }, .finished (.error e), false⟩,
        { m with ambient := b }) := by
  -- the first step reads, and ends the session; no step comes after it
  induction hrun with
  | refl => exact .inl rfl
  | tail _ hnext ih =>
    cases hnext with
    | step course machine =>
      right
      rcases ih with heq | heq
      · cases heq
        simp only [Course.step, hread]
      · cases heq
        rfl

/-- The moments of a session whose path is refused: it has heard the header, and told the log. -/
theorem moments_of_refused {header : Header} {t : Inbound} {b : Ambient} {q : Course × Machine}
    (hread : Header.read c.inbound m.ambient = (.ok header, t, b))
    (hresolve : resolve (begun ctx peer header c m) ctx.root (.of header.path) = .error e)
    (hrun : ReflTransGen Next (⟨ctx, peer, c, .fresh, false⟩, m) q) :
    q = (⟨ctx, peer, c, .fresh, false⟩, m) ∨
      q = (⟨ctx, peer, { c with inbound := t }, .heard header, false⟩,
        { m with ambient := b }) ∨
      q = (⟨ctx, peer, { c with inbound := t }, .announced header, false⟩,
        { m with ambient := b, files := begun ctx peer header c m }) ∨
      q = (⟨ctx, peer, { c with inbound := t }, .finished (.error e), false⟩,
        { m with ambient := b, files := begun ctx peer header c m }) := by
  have hbegun := (run_of_read ctx peer hread).2
  -- the steps are to read, to note the beginning, and to be refused
  induction hrun with
  | refl => exact .inl rfl
  | tail _ hnext ih =>
    cases hnext with
    | step course machine =>
      right
      rcases ih with heq | heq | heq | heq
      · cases heq
        left
        simp only [Course.step, hread]
      · cases heq
        right
        left
        rw [hbegun]
        rfl
      · cases heq
        right
        right
        simp only [Course.step, hresolve]
      · cases heq
        right
        right
        rfl

/-- At a moment of a session, nothing has been done but reading and telling the log. -/
structure Harmless (c : Connection) (m : Machine) (logged : Files) (q : Course × Machine) :
    Prop where
  unwritten : q.1.connection.outbound = c.outbound
  files : q.2.files = m.files ∨ q.2.files = logged
  /-- No transfer has begun, so none counts among those running. -/
  uncounted : q.1.began = false ∧ q.1.stage.counted = false ∧ q.2.ambient.own = m.ambient.own
  unseen : q.2.console = m.console ∧ q.2.home = m.home

/-- **A refused session is harmless** at every moment. -/
theorem Refused.harmless (h : Refused ctx peer c m e left fs) {q : Course × Machine}
    (hrun : ReflTransGen Next (⟨ctx, peer, c, .fresh, false⟩, m) q) : Harmless c m fs q := by
  obtain ⟨r, t, b, hread⟩ : ∃ r t b, Header.read c.inbound m.ambient = (r, t, b) := ⟨_, _, _, rfl⟩
  have hown : b.own = m.ambient.own := by
    have hheader := Header.own_read c.inbound m.ambient
    rwa [hread] at hheader
  -- without a header the session is over after its first step
  have hbad {e : TransferError} (hr : r = .error e) : Harmless c m m.files q := by
    subst hr
    rcases moments_of_deaf hread hrun with rfl | rfl
    · exact ⟨rfl, .inl rfl, ⟨rfl, rfl, rfl⟩, rfl, rfl⟩
    · exact ⟨rfl, .inl rfl, ⟨rfl, rfl, hown⟩, rfl, rfl⟩
  cases h with
  | broken hbreaks =>
    have hresult := Header.read_of_breaks hbreaks rfl m.ambient
    rw [hread] at hresult
    exact hbad hresult
  | cut hcut =>
    have hresult := Header.read_of_cut hcut rfl m.ambient
    rw [hread] at hresult
    exact hbad hresult
  | path hallowed hbegins hresolve =>
    obtain ⟨t', b', hread', -⟩ := Header.read_of_header hallowed hbegins m.ambient
    cases hread.symm.trans hread'
    rcases moments_of_refused hread hresolve hrun with rfl | rfl | rfl | rfl
    · exact ⟨rfl, .inl rfl, ⟨rfl, rfl, rfl⟩, rfl, rfl⟩
    · exact ⟨rfl, .inl rfl, ⟨rfl, rfl, hown⟩, rfl, rfl⟩
    · exact ⟨rfl, .inr rfl, ⟨rfl, rfl, hown⟩, rfl, rfl⟩
    · exact ⟨rfl, .inr rfl, ⟨rfl, rfl, hown⟩, rfl, rfl⟩

/-! ## The whole session -/

/-- What a refused session comes to, and what it leaves. -/
structure Leaves (ctx : Context) (peer : String) (c : Connection) (m : Machine)
    (e : TransferError) (left : List Arrival) (fs : Files) : Prop where
  fails : (run ctx peer c m).1 = .error e
  /-- Nothing is read beyond the field that it fails at. -/
  left : (run ctx peer c m).2.1.inbound.arrivals = left
  unwritten : (run ctx peer c m).2.1.outbound = c.outbound
  /-- But for the surroundings, whose changes arrived on the stream, only the log has changed. -/
  machine : (run ctx peer c m).2.2 =
    { m with files := fs, ambient := (Header.read c.inbound m.ambient).2.2 }
  own : (run ctx peer c m).2.2.ambient.own = m.ambient.own

/-- A session that cannot read its header leaves everything as it was. -/
theorem leaves_of_deaf {t : Inbound} {b : Ambient}
    (hread : Header.read c.inbound m.ambient = (.error e, t, b)) :
    Leaves ctx peer c m e t.arrivals m.files := by
  have hown := Header.own_read c.inbound m.ambient
  have hrun : run ctx peer c m = (.error e, { c with inbound := t }, { m with ambient := b }) := by
    unfold run
    rw [hread]
  rw [hread] at hown
  exact ⟨by rw [hrun], by rw [hrun], by rw [hrun], by rw [hrun, hread], by rw [hrun]; exact hown⟩

/-- A session whose path is refused leaves the first line in the log, and nothing else. -/
theorem leaves_of_refused {header : Header} {t : Inbound} {b : Ambient}
    (hread : Header.read c.inbound m.ambient = (.ok header, t, b))
    (hresolve : resolve (begun ctx peer header c m) ctx.root (.of header.path) = .error e) :
    Leaves ctx peer c m e t.arrivals (begun ctx peer header c m) := by
  have hown := Header.own_read c.inbound m.ambient
  obtain ⟨hserve, hbegun⟩ := run_of_read ctx peer hread
  have hrun : run ctx peer c m = (.error e, { c with inbound := t },
      { m with files := begun ctx peer header c m, ambient := b }) := by
    rw [hbegun] at hresolve ⊢
    rw [hserve, serve_eq_error (m := { m with ambient := b }) hresolve]
  rw [hread] at hown
  exact ⟨by rw [hrun], by rw [hrun], by rw [hrun], by rw [hrun, hread], by rw [hrun]; exact hown⟩

/-- A refused session leaves the files as its refusal says. -/
theorem Refused.leaves (h : Refused ctx peer c m e left fs) : Leaves ctx peer c m e left fs := by
  cases h with
  | broken hbreaks =>
    obtain ⟨t, b, hread, hleft⟩ := Header.left_of_breaks hbreaks rfl m.ambient
    exact hleft ▸ leaves_of_deaf hread
  | cut hcut =>
    obtain ⟨t, b, hread, hleft⟩ := Header.left_of_cut hcut rfl m.ambient
    exact hleft ▸ leaves_of_deaf hread
  | path hallowed hbegins hresolve =>
    obtain ⟨t, b, hread, hleft⟩ := Header.read_of_header hallowed hbegins m.ambient
    exact hleft ▸ leaves_of_refused hread hresolve

/-- **A refused session has no effect.** Where there is no valid header with a path that can be
resolved, a session fails and writes nothing; it has read no further than the field that it failed
at, and has changed nothing but the log, and that only by the line which says that it began. It has
never counted as a transfer, and is harmless at every moment. -/
theorem run_refused (h : ∀ header t b l, Header.read c.inbound m.ambient = (.ok header, t, b) →
      resolve (begun ctx peer header c m) ctx.root (.of header.path) ≠ .ok l) :
    ∃ e left fs, Refused ctx peer c m e left fs ∧ Leaves ctx peer c m e left fs ∧
      ∀ q, ReflTransGen Next (⟨ctx, peer, c, .fresh, false⟩, m) q → Harmless c m fs q := by
  obtain ⟨e, left, fs, hrefused⟩ := exists_refused h
  exact ⟨e, left, fs, hrefused, hrefused.leaves, fun q hrun => hrefused.harmless hrun⟩

/-- A peer stores to a path upwards, in pieces and while others begin. -/
def storeUp : Connection :=
  ⟨.of [.data [83, 4, 0], .fault (.bare .interrupted), .aside (.join 2),
    .data ([0, 0, 0, 0, 0, 0] ++ bytes "a/.." ++ bytes "DATA")], .willing⟩

/-- A store to `a/..` is refused before the files are looked at. -/
theorem run_refused_up :
    (∀ header t b l, Header.read storeUp.inbound default = (.ok header, t, b) →
      resolve (begun { root := .of "srv", settings := {}, log := EventLog.opened } "peer" header
        storeUp ⟨EventLog.logFiles, default, {}, none⟩) (.of "srv") (.of header.path) ≠ .ok l) ∧
    ∃ e left fs,
      Refused { root := .of "srv", settings := {}, log := EventLog.opened } "peer" storeUp
        ⟨EventLog.logFiles, default, {}, none⟩ e left fs ∧
      Leaves { root := .of "srv", settings := {}, log := EventLog.opened } "peer" storeUp
        ⟨EventLog.logFiles, default, {}, none⟩ e left fs ∧
      ∀ q, ReflTransGen Next (⟨{ root := .of "srv", settings := {}, log := EventLog.opened },
        "peer", storeUp, .fresh, false⟩, ⟨EventLog.logFiles, default, {}, none⟩) q →
          Harmless storeUp ⟨EventLog.logFiles, default, {}, none⟩ fs q := by
  have hrefused : ∀ header t b l, Header.read storeUp.inbound default = (.ok header, t, b) →
      resolve (begun { root := .of "srv", settings := {}, log := EventLog.opened } "peer" header
        storeUp ⟨EventLog.logFiles, default, {}, none⟩) (.of "srv") (.of header.path) ≠ .ok l := by
    intro header t b l hread hresolve
    obtain ⟨t', b', hread', -⟩ := Header.read_of_header (s := storeUp.inbound)
      (h := ⟨.store, "a/.."⟩) (by decide) ⟨bytes "DATA", by decide⟩ default
    cases hread.symm.trans hread'
    -- the path is refused before the files are looked at
    have hnames : ∃ e, requestedNames (.of "a/..") = .error e := ⟨_, if_pos (by decide)⟩
    obtain ⟨e, he⟩ := hnames
    rw [resolve, he] at hresolve
    cases hresolve
  exact ⟨hrefused, run_refused hrefused⟩

end Courier.Session
