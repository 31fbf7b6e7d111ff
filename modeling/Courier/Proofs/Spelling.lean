import Courier.Proofs.Confinement

/-!
# Spellings of a served location

What a peer's path stands for depends on its segments only, and of those not on empty ones and
not on `.`, so neither slashes that are too many nor steps in place change the answer. The
answer is also its own spelling: asked for below the root by the names of the location that was
found, the walk meets no link and leaves what exists at the same name as before.

For the second walk to be answered like the first one, the system has to take the paths of all
locations on its way. That is `Files.Addressable`; the first walk establishes it for the location
at which it has found everything that exists.

Main results:

* `Path.filter_parts` — the parts of a path that count, read off its segments.
* `Session.resolve_quoting` — two spellings get the same answer, each error quoting its own.
* `Session.resolved_of_resolveFrom` — what a walk leaves behind: a place without links that can be
  asked for, and a name that is missing there.
* `Session.resolve_stable` — resolution does not depend on spelling, and is stable.
-/

namespace Courier

namespace Path

/-! ## The segments that count -/

/-- What a peer's path asks for: its segments, but for empty ones and `.`. -/
def meaning (p : Path) : List Bytes :=
  (segments p.text).filter fun s => s ≠ [] ∧ s ≠ [dot]

/-- A step upwards or a name, as opposed to a slash or a `.` in front. -/
def Part.counts : Part → Bool
  | .up | .name _ => true
  | .top | .here => false

/-- The part that a segment is read as. -/
def Part.ofSegment (s : Bytes) : Part :=
  if s = [dot, dot] then .up else .name s

/-- Segments that are empty or a dot are no parts that count; every other one is. -/
theorem filter_partsFrom (here : Bool) (place : Nat) (ss : List Bytes) :
    ((partsFrom here place ss).map (·.1)).filter Part.counts =
      (ss.filter fun s => s ≠ [] ∧ s ≠ [dot]).map Part.ofSegment := by
  -- by induction on the segments, wherever they stand
  induction ss generalizing here place with
  | nil => rfl
  | cons s ss ih =>
    have later := ih false (place + s.length + 1)
    simp only [partsFrom, List.isEmpty_iff]
    split
    case isTrue hempty => simpa [hempty] using later
    split
    case isTrue hdot =>
      split <;> simpa [hdot, Part.counts] using later
    -- what is left counts, as a step upwards or as a name
    rename_i hempty hdot
    rw [List.filter_cons_of_pos (a := s) (by simp [hempty, hdot]), List.map_cons, ← later]
    split
    case isTrue hup => simp [List.filter_cons, hup, Part.counts, Part.ofSegment]
    case isFalse hup => simp [List.filter_cons, hup, Part.counts, Part.ofSegment]

/-- The parts that count are the segments that do. -/
theorem filter_parts (p : Path) :
    p.parts.filter Part.counts = p.meaning.map Part.ofSegment := by
  unfold parts placedParts meaning
  split
  · rw [List.map_cons, List.filter_cons_of_neg (by simp [Part.counts])]
    exact filter_partsFrom false 0 _
  · exact filter_partsFrom true 0 _

/-- A step upwards is among the parts just when it is meant. -/
theorem up_mem_parts_iff {p : Path} : .up ∈ p.parts ↔ [dot, dot] ∈ p.meaning := by
  have hcounts : .up ∈ p.parts ↔ .up ∈ p.parts.filter Part.counts := by
    simp [List.mem_filter, Part.counts]
  rw [hcounts, filter_parts, List.mem_map]
  constructor
  · rintro ⟨s, hs, hup⟩
    unfold Part.ofSegment at hup
    split at hup
    · rename_i hdots
      exact hdots ▸ hs
    · cases hup
  · exact fun h => ⟨_, h, rfl⟩

/-- The names in a path are those that it means. -/
theorem names_eq (p : Path) : p.names = (p.meaning.map Part.ofSegment).filterMap Part.name? := by
  rw [← filter_parts, List.filterMap_filter]
  -- a part that does not count is no name either
  refine List.filterMap_congr fun x _ => ?_
  cases x <;> rfl

/-- Proper names put together mean what they are. -/
theorem meaning_joined {l : List Name} (hl : ProperLocation l) (hne : l ≠ []) :
    (⟨joined l⟩ : Path).meaning = l := by
  unfold meaning
  rw [segments_joined hne fun n hn => (hl n hn).noSlash]
  refine List.filter_eq_self.mpr fun n hn => ?_
  have hstay := (hl n hn).notStay
  simpa [(hl n hn).ne_nil, isStay] using hstay

/-- A path that means proper names goes nowhere upwards and has these names. -/
theorem names_of_meaning {p : Path} (h : ProperLocation p.meaning) :
    .up ∉ p.parts ∧ p.names = p.meaning := by
  constructor
  · intro hup
    have := (h _ (up_mem_parts_iff.mp hup)).notUp
    cases this
  · rw [names_eq, List.filterMap_map]
    conv_rhs => rw [← List.filterMap_some (l := p.meaning)]
    refine List.filterMap_congr fun n hn => ?_
    have hup : n ≠ [dot, dot] := by simpa [isUp] using (h n hn).notUp
    simp [Part.ofSegment, hup, Part.name?]

end Path

/-! ## Locations that can be asked for -/

/-- Names that the file system takes. -/
def ShortNames (l : Location) : Prop :=
  ∀ n ∈ l, n.length ≤ Route.maxName

/-- A walk enters nothing whose name is too long. -/
theorem short_of_walk {t : Tree} {links left : Nat} {l l' : Location} {steps : List Bytes}
    (h : walk t links l steps = .ok (l', left)) (hl : ShortNames l) : ShortNames l' := by
  -- by the recursion of the walk: each name that is passed fits
  fun_induction walk t links l steps with
  | case1 =>
    cases h
    exact hl
  | case2 _ _ _ _ _ _ _ ih => exact ih h hl
  | case3 _ _ _ _ _ _ _ _ ih => exact ih h fun n hn => hl n (List.dropLast_subset _ hn)
  | case4 => cases h
  | case5 => cases h
  | case6 => cases h
  | case7 l _ _ _ _ _ _ _ target _ _ r ih =>
    -- a link is followed from the top or from the folder it lies in
    refine ih h ?_
    show ShortNames (if target.isAbsolute then [] else l)
    split
    · exact fun n hn => by cases hn
    · exact hl
  | case8 _ _ _ _ _ _ _ _ hlen _ _ _ ih =>
    refine ih h fun n hn => ?_
    rcases List.mem_append.mp hn with hn | hn
    · exact hl n hn
    · exact List.mem_singleton.mp hn ▸ Nat.not_lt.mp hlen
  | case9 => cases h

namespace Files

variable {fs : Files} {p q : Path} {l k : Location} {n : Name}

/-- A beginning of a path that the system takes is taken as well. -/
theorem route?_of_prefix {r : Route} (hq : fs.route? q = .ok r) (hne : p.text ≠ [])
    (h : p.text <+: q.text) : fs.route? p = .ok (Route.ofPath fs.here p) := by
  obtain ⟨hnul, _, hlen, _⟩ := route?_eq_ok_iff.mp hq
  exact route?_eq_ok_iff.mpr ⟨fun h0 => hnul (h.subset h0), hne, h.length_le.trans hlen, rfl⟩

/-- The path of a location begins as that of a location above. -/
theorem pathOf_text_append (l k : Location) : (pathOf l).text <+: (pathOf (l ++ k)).text := by
  cases l with
  | nil =>
    -- the path of the top is a slash, and every other one begins with it
    cases k with
    | nil => exact List.prefix_rfl
    | cons n k => simp [pathOf]
  | cons m l => simp [pathOf]

/-- There is a file or a folder, and the system takes its path. -/
structure Addressable (fs : Files) (l : Location) : Prop where
  firm : fs.tree.Firm l
  short : ShortNames l
  route : fs.route? (pathOf l) = .ok (Route.ofPath fs.here (pathOf l))

/-- What lies above can be asked for, too. -/
theorem Addressable.of_append (ht : fs.tree.WellFormed) (h : fs.Addressable (l ++ k)) :
    fs.Addressable l where
  firm := by
    cases k with
    | nil => exact List.append_nil l ▸ h.firm
    | cons n k => exact Tree.firm_of_folder (h.firm.next ht).1
  short := fun n hn => h.short n (List.mem_append_left k hn)
  route := route?_of_prefix h.route (text_pathOf_ne_nil l) (pathOf_text_append l k)

/-- Asked for by its own path, such a location is found. -/
theorem Addressable.lstat (ht : fs.tree.WellFormed) (h : fs.Addressable (l ++ [n])) :
    ∃ e, fs.lstat (pathOf (l ++ [n])) = .ok (l ++ [n], e) ∧ ∀ target, e ≠ .link target := by
  obtain ⟨hfolder, hn, s, hs, hnot⟩ := h.firm.next ht
  obtain ⟨e, he, rfl⟩ := Option.map_eq_some_iff.mp hs
  refine ⟨e, ?_, fun target hlink => hnot target (hlink ▸ rfl)⟩
  -- no name on the way is too long, so the walk to the folder succeeds
  have hwalk : walk fs.tree maxLinks [] l = .ok (l, maxLinks) := by
    rcases walk_of_firm ht maxLinks (l := []) (h.of_append ht).firm with hwalk | ⟨-, m, hm, hlong⟩
    · exact hwalk
    · exact absurd ((h.of_append ht).short m hm) (Nat.not_le.mpr hlong)
  have happ : approach fs.tree maxLinks ⟨[], l ++ [n], false⟩ = .ok (l, maxLinks) :=
    approach_eq_ok.mpr ⟨by rwa [List.dropLast_concat], hfolder⟩
  have hlen : ¬ Route.maxName < n.length := Nat.not_lt.mpr (h.short n (by simp))
  unfold Files.lstat
  rw [h.route, ofPath_pathOf_concat (ht.proper _ _ hs)]
  simp only [bind, Except.bind, Route.lastName?_concat hn, happ, if_neg hlen, entryAt, he]

/-- Unless it is refused, a question about a location was asked in a way that the system takes. -/
theorem taken_of_lstat (ht : fs.tree.WellFormed) (hl : fs.tree.Firm l) (hn : ProperName n)
    (h : ∀ f, fs.lstat (pathOf (l ++ [n])) = .error f → f.kind = .notFound) :
    ShortNames (l ++ [n]) ∧
      fs.route? (pathOf (l ++ [n])) = .ok (Route.ofPath fs.here (pathOf (l ++ [n]))) := by
  have hproper : ProperLocation (l ++ [n]) := (hl.proper ht).concat hn
  unfold lstat at h
  cases hroute : fs.route? (pathOf (l ++ [n])) with
  | error f =>
    rw [hroute] at h
    exact absurd (h f rfl) (kind_of_route? (text_pathOf_ne_nil _) hroute)
  | ok r =>
    obtain ⟨rfl, _⟩ := route?_eq_ok hroute
    refine ⟨?_, rfl⟩
    rw [hroute, ofPath_pathOf_concat hproper] at h
    simp only [bind, Except.bind, Route.lastName?_concat hn] at h
    rcases approach_of_firm ht hl n with ⟨_, happ⟩ | ⟨f, hkind, happ⟩
    · -- the names above were walked along, and the last one was compared with the limit
      obtain ⟨hwalk, -⟩ := approach_eq_ok.mp happ
      rw [List.dropLast_concat] at hwalk
      have habove : ShortNames l := short_of_walk hwalk fun m hm => by cases hm
      intro m hm
      rcases List.mem_append.mp hm with hm | hm
      · exact habove m hm
      · rw [List.mem_singleton.mp hm]
        by_contra hlong
        rw [happ] at h
        have := h .nameTooLong (by simp only [if_pos (Nat.not_le.mp hlong)])
        cases this
    · rw [happ] at h
      exact absurd (h f rfl) hkind

/-- What is located along a link can be asked for by its own path. -/
theorem addressable_of_located (ht : fs.tree.WellFormed) {e : Entry} (habs : p.isAbsolute = true)
    (h : fs.located p = .ok (l, e)) : fs.Addressable l where
  firm := firm_of_stat ht (located_eq_ok.mp h).1
  short := by
    obtain ⟨_, ⟨left, hwalk⟩, _⟩ := stat_eq_ok (located_eq_ok.mp h).1
    refine short_of_walk hwalk ?_
    simp [Route.ofPath, habs, ShortNames]
  route := by
    obtain ⟨r, hr⟩ := (located_eq_ok.mp h).2
    exact (route?_eq_ok hr).1 ▸ hr

end Files

/-! ## The same answer for two spellings -/

/-- A violation as it is reported of another path. -/
def Violation.quoting (q : Path) : Violation → Violation
  | .parentPart _ => .parentPart q
  | .namesNoFile _ => .namesNoFile q
  | .escapesRoot _ => .escapesRoot q
  | v => v

/-- An error as it is reported of another path that a peer asked for. The kind is the same, and
so is all that does not quote what was asked. -/
def TransferError.quoting (q : Path) : TransferError → TransferError
  | .protocol violation => .protocol (violation.quoting q)
  | e => e

namespace Session

/-- Two spellings ask for the same names, and are quoted as they were written. -/
theorem requestedNames_quoting {p q : Path} (h : q.meaning = p.meaning) :
    requestedNames q = (requestedNames p).mapError (TransferError.quoting q) := by
  unfold requestedNames
  simp only [Path.up_mem_parts_iff, Path.names_eq, h]
  split
  · rfl
  split <;> rfl

/-- The path asked for is only quoted on the way. -/
theorem resolveFrom_quoting (fs : Files) (top : Location) (p q : Path) (reached : Location)
    (names : List Name) :
    resolveFrom fs top q reached names =
      (resolveFrom fs top p reached names).mapError (TransferError.quoting q) := by
  -- by induction on the names, which are looked up in the same way
  induction names generalizing reached with
  | nil => rfl
  | cons name rest ih =>
    rw [resolveFrom, resolveFrom]
    -- both walks look up the same locations
    rcases fs.lstat (Files.pathOf (reached ++ [name])) with f | ⟨l, e⟩
    · dsimp only
      split <;> rfl
    cases e with
    | link target =>
      rcases fs.located (Files.pathOf (reached ++ [name])) with f | ⟨l', e'⟩
      · rfl
      dsimp only
      split
      · exact ih l'
      · rfl
    | file => exact ih _
    | folder => exact ih _

/-- **Two spellings of one path are resolved alike**, but for the path that an error quotes. -/
theorem resolve_quoting (fs : Files) (root : Path) {p q : Path} (h : q.meaning = p.meaning) :
    resolve fs root q = (resolve fs root p).mapError (TransferError.quoting q) := by
  unfold resolve
  rw [requestedNames_quoting h]
  cases requestedNames p with
  | error e => rfl
  | ok names =>
    dsimp only [Except.mapError]
    cases fs.located root with
    | error f => rfl
    | ok found => exact resolveFrom_quoting fs found.1 p q found.1 names

/-- A step upwards is refused wherever it stands, and whatever there is. -/
theorem resolve_of_up (fs : Files) (root : Path) {p : Path}
    (h : [Path.dot, Path.dot] ∈ Path.segments p.text) :
    resolve fs root p = .error (.protocol (.parentPart p)) := by
  have hup : .up ∈ p.parts :=
    Path.up_mem_parts_iff.mpr (List.mem_filter.mpr ⟨h, by decide⟩)
  simp [resolve, requestedNames, hup]

/-- A path without a name is refused, whatever there is. -/
theorem resolve_of_meaning_nil (fs : Files) (root : Path) {p : Path} (h : p.meaning = []) :
    resolve fs root p = .error (.protocol (.namesNoFile p)) := by
  have hup : .up ∉ p.parts := by simp [Path.up_mem_parts_iff, h]
  simp [resolve, requestedNames, hup, Path.names_eq, h]

/-! ## The answer as a spelling -/

/-- A location that a walk has ended at: what exists of it can be asked for, and at the first
name that does not exist the file system says so. -/
def Resolved (fs : Files) (top r : Location) : Prop :=
  ∃ reached rest, r = reached ++ rest ∧ top <+: reached ∧ fs.Addressable reached ∧
    ∀ name more, rest = name :: more →
      ∃ f, fs.lstat (Files.pathOf (reached ++ [name])) = .error f ∧ f.kind = .notFound

variable {fs : Files} {root asked : Path} {top reached r : Location} {names : List Name}

/-- What names are resolved to has its place below the root. -/
theorem resolved_of_resolveFrom (ht : fs.tree.WellFormed) (hnames : ProperLocation names)
    (hbelow : top <+: reached) (hfirm : fs.tree.Firm reached)
    (hend : names = [] → fs.Addressable reached)
    (h : resolveFrom fs top asked reached names = .ok r) : Resolved fs top r := by
  -- by induction on the names that are left, from a place that is below the root already
  induction names generalizing reached with
  | nil =>
    cases h
    exact ⟨r, [], (List.append_nil r).symm, hbelow, hend rfl, fun _ _ h => by cases h⟩
  | cons name rest ih =>
    have hname : ProperName name := hnames name (List.mem_cons_self ..)
    have hrest : ProperLocation rest := fun n hn => hnames n (List.mem_cons_of_mem _ hn)
    rw [resolveFrom] at h
    rcases Files.lstat_pathOf ht hfirm hname with ⟨e, hlstat, he⟩ | ⟨f, hlstat, -⟩
    · obtain ⟨hshort, hroute⟩ := Files.taken_of_lstat ht hfirm hname (by simp [hlstat])
      rw [hlstat] at h
      -- what is entered can be asked for, as the system has just taken its path
      have enter (hnot : ∀ target, e ≠ .link target)
          (h : resolveFrom fs top asked (reached ++ [name]) rest = .ok r) : Resolved fs top r := by
        have hnext : fs.tree.Firm (reached ++ [name]) :=
          ⟨_, Tree.shape_of_get? he, fun target hs => by cases e <;> cases hs; exact hnot _ rfl⟩
        exact ih hrest (hbelow.trans (List.prefix_append ..)) hnext
          (fun _ => ⟨hnext, hshort, hroute⟩) h
      cases e with
      | link target =>
        dsimp only at h
        split at h
        · cases h
        · rename_i l e hlocated
          split at h
          · rename_i hinside
            have haddr := Files.addressable_of_located ht (Files.isAbsolute_pathOf _) hlocated
            exact ih hrest (List.isPrefixOf_iff_prefix.mp hinside) haddr.firm (fun _ => haddr) h
          · cases h
      | file => exact enter (fun _ h => by cases h) h
      | folder => exact enter (fun _ h => by cases h) h
    · rw [hlstat] at h
      dsimp only at h
      split at h
      · rename_i hkind
        -- the rest is taken as it is, below what was reached before
        obtain ⟨hshort, hroute⟩ :=
          Files.taken_of_lstat ht hfirm hname (by simp [hlstat, hkind])
        refine ⟨reached, name :: rest, ?_, hbelow, ⟨hfirm, ?_, ?_⟩, ?_⟩
        · simpa using (Except.ok.inj h).symm
        · exact fun n hn => hshort n (List.mem_append_left _ hn)
        · exact Files.route?_of_prefix hroute (Files.text_pathOf_ne_nil _)
            (Files.pathOf_text_append ..)
        · rintro _ _ ⟨rfl, rfl⟩
          exact ⟨f, hlstat, hkind⟩
      · cases h

/-- Where nothing but files and folders stands, names are followed as they are. -/
theorem resolveFrom_append (ht : fs.tree.WellFormed) {l k : Location} (rest : List Name)
    (h : fs.Addressable (l ++ k)) :
    resolveFrom fs top asked l (k ++ rest) = resolveFrom fs top asked (l ++ k) rest := by
  -- by induction on the names below, none of which is a link
  induction k generalizing l with
  | nil => rw [List.append_nil, List.nil_append]
  | cons n k ih =>
    rw [List.append_cons] at h ⊢
    obtain ⟨e, hlstat, hnot⟩ := (h.of_append ht).lstat ht
    rw [List.cons_append, resolveFrom, hlstat, ← ih h]
    cases e with
    | link target => exact absurd rfl (hnot target)
    | file => rfl
    | folder => rfl

/-- The second walk goes where the first one ended, and stops there. -/
theorem Resolved.resolveFrom (ht : fs.tree.WellFormed) {below : List Name}
    (h : Resolved fs top (top ++ below)) :
    resolveFrom fs top asked top below = .ok (top ++ below) := by
  obtain ⟨_, rest, heq, ⟨k, rfl⟩, haddr, hmissing⟩ := h
  obtain rfl : below = k ++ rest := by simpa using heq
  rw [resolveFrom_append ht rest haddr]
  cases rest with
  | nil => rw [Session.resolveFrom, List.append_nil]
  | cons name more =>
    obtain ⟨f, hlstat, hkind⟩ := hmissing name more rfl
    rw [Session.resolveFrom, hlstat]
    simp [hkind]

/-- So has what a path is resolved to. -/
theorem resolved_of_resolve (ht : fs.tree.WellFormed) (h : resolve fs root asked = .ok r) :
    ∃ top e, fs.located root = .ok (top, e) ∧ Resolved fs top r := by
  unfold resolve requestedNames at h
  split at h
  · cases h
  rename_i names hnames
  split at hnames
  · cases hnames
  split at hnames
  · cases hnames
  rename_i hne
  obtain rfl := Except.ok.inj hnames
  split at h
  · cases h
  rename_i top e hlocated
  -- there is a name to look up, so nothing has to be known of the root's own path
  refine ⟨top, e, hlocated, resolved_of_resolveFrom ht asked.proper_names List.prefix_rfl
    (Files.firm_of_stat ht (Files.located_eq_ok.mp hlocated).1) (fun hnil => ?_) h⟩
  exact absurd (List.isEmpty_iff.mpr hnil) hne

/-- What a path was resolved to is resolved to itself. -/
theorem resolve_again (ht : fs.tree.WellFormed) (h : resolve fs root asked = .ok r) :
    ∃ top e below, fs.located root = .ok (top, e) ∧ r = top ++ below ∧
      (below ≠ [] → resolve fs root ⟨Path.joined below⟩ = .ok r) := by
  obtain ⟨top, e, hlocated, hresolved⟩ := resolved_of_resolve ht h
  obtain ⟨-, -, -, -, -, hproper, -⟩ := resolve_eq_ok ht h
  obtain ⟨below, rfl⟩ : top <+: r := by
    obtain ⟨reached, rest, rfl, hbelow, -⟩ := hresolved
    exact hbelow.trans (List.prefix_append ..)
  refine ⟨top, e, below, hlocated, rfl, fun hne => ?_⟩
  -- the names of the answer ask for what they are
  have hnames : ProperLocation below := fun n hn => hproper n (List.mem_append_right _ hn)
  have hmeaning := Path.meaning_joined hnames hne
  obtain ⟨hup, hasked⟩ := Path.names_of_meaning (p := ⟨Path.joined below⟩) (by rwa [hmeaning])
  rw [hmeaning] at hasked
  unfold resolve requestedNames
  rw [if_neg hup, hasked, if_neg (by simpa using hne), hlocated]
  exact hresolved.resolveFrom ht

/-- **Resolution is stable and does not depend on spelling.** Two paths whose segments are the
same but for empty ones and `.` lead to the same location or to the same error, each quoting its
own spelling. A path with `..` in it is refused as a breach of the rules whatever there is, and so
is one in which nothing but empty segments and `.` stands. What is found below the root is found
again when it is asked for by its own names there. -/
theorem resolve_stable (fs : Files) (root p : Path) :
    (∀ q : Path, q.meaning = p.meaning →
      resolve fs root q = (resolve fs root p).mapError (TransferError.quoting q)) ∧
    ([Path.dot, Path.dot] ∈ Path.segments p.text →
      resolve fs root p = .error (.protocol (.parentPart p))) ∧
    ((∀ s ∈ Path.segments p.text, s = [] ∨ s = [Path.dot]) →
      resolve fs root p = .error (.protocol (.namesNoFile p))) ∧
    (fs.tree.WellFormed → ∀ r, resolve fs root p = .ok r →
      ∃ top e below, fs.located root = .ok (top, e) ∧ r = top ++ below ∧
        (below ≠ [] → resolve fs root ⟨Path.joined below⟩ = .ok r)) := by
  refine ⟨fun q h => resolve_quoting fs root h, resolve_of_up fs root, fun h => ?_,
    fun ht r h => resolve_again ht h⟩
  refine resolve_of_meaning_nil fs root (List.filter_eq_nil_iff.mpr fun s hs => ?_)
  rcases h s hs with rfl | rfl <;> simp

/-- Through a link, and with a file missing at the end, a path and another spelling of it are
resolved alike. -/
theorem resolve_stable_linked :
    let root := Path.of "srv"
    let p := Path.of "/alias/./new/file.txt"
    let q := Path.of "alias//new/file.txt/"
    let r : Location := [bytes "srv", bytes "real", bytes "new", bytes "file.txt"]
    (q.meaning = p.meaning ∧ resolve linkedFiles root q =
      (resolve linkedFiles root p).mapError (TransferError.quoting q)) ∧
    resolve linkedFiles root (.of "alias/../real") =
      .error (.protocol (.parentPart (.of "alias/../real"))) ∧
    resolve linkedFiles root (.of "/./") = .error (.protocol (.namesNoFile (.of "/./"))) ∧
    linkedFiles.tree.WellFormed ∧ resolve linkedFiles root p = .ok r ∧
    ∃ top e below, linkedFiles.located root = .ok (top, e) ∧ r = top ++ below ∧
      (below ≠ [] → resolve linkedFiles root ⟨Path.joined below⟩ = .ok r) := by
  have hmeaning : (Path.of "alias//new/file.txt/").meaning =
      (Path.of "/alias/./new/file.txt").meaning := by decide
  have hresolve : resolve linkedFiles (.of "srv") (.of "/alias/./new/file.txt") =
      .ok [bytes "srv", bytes "real", bytes "new", bytes "file.txt"] := by cbv
  have hup : [Path.dot, Path.dot] ∈ Path.segments (Path.of "alias/../real").text := by
    decide
  have hstay : ∀ s ∈ Path.segments (Path.of "/./").text, s = [] ∨ s = [Path.dot] := by
    decide
  exact ⟨⟨hmeaning, (resolve_stable linkedFiles _ _).1 _ hmeaning⟩,
    (resolve_stable linkedFiles _ _).2.1 hup,
    (resolve_stable linkedFiles _ _).2.2.1 hstay, linkedFiles_wellFormed, hresolve,
    (resolve_stable linkedFiles _ _).2.2.2 linkedFiles_wellFormed _ hresolve⟩

end Session

end Courier
