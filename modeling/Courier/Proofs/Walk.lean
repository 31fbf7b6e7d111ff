import Courier.Proofs.Tree

/-!
# Where steps lead

`walk` gives up after forty links. What a path means does not depend on that: `Leads` says
where some steps lead when every link on the way is followed, however many there are. A walk
that ends is a derivation of it, and it ends in one place only.

Main results:

* `leads_of_walk` — where a walk ends is where its steps lead.
* `Leads.unique` — steps lead to one location at most.
* `Leads.eq_append_of_clear`, `leads_of_firm`, `walk_of_firm` — names along which there are no
  links lead to the location with these names.
* `walk_mono`, `walk_anti` — a walk is not changed by what is added to a tree, and files added do
  not make a new one.
-/

namespace Courier

/-- Where steps from a location lead, every link on the way followed. -/
inductive Leads (t : Tree) : Location → List Bytes → Location → Prop
  | done (l : Location) : Leads t l [] l
  | stay {l l' : Location} {step : Bytes} {rest : List Bytes} :
      t.shape l = some .folder → isStay step = true →
      Leads t l rest l' → Leads t l (step :: rest) l'
  | up {l l' : Location} {step : Bytes} {rest : List Bytes} :
      t.shape l = some .folder → isStay step = false → isUp step = true →
      Leads t l.dropLast rest l' → Leads t l (step :: rest) l'
  | enter {l l' : Location} {step : Bytes} {rest : List Bytes} {s : Shape} :
      t.shape l = some .folder → isStay step = false → isUp step = false →
      t.shape (l ++ [step]) = some s → (∀ target, s ≠ .link target) →
      Leads t (l ++ [step]) rest l' → Leads t l (step :: rest) l'
  | follow {l l' : Location} {step : Bytes} {rest : List Bytes} {target : Path} :
      t.shape l = some .folder → isStay step = false → isUp step = false →
      t.shape (l ++ [step]) = some (.link target) →
      Leads t (Route.ofPath l target).start ((Route.ofPath l target).allSteps ++ rest) l' →
      Leads t l (step :: rest) l'

/-! ## Walks and what they mean -/

/-- Where a walk ends is where its steps lead, however many links it had left. -/
theorem leads_of_walk {t : Tree} {links left : Nat} {l l' : Location} {steps : List Bytes}
    (h : walk t links l steps = .ok (l', left)) : Leads t l steps l' := by
  -- each way in which `walk` goes on is a rule of `Leads`; where it stops with a fault, `h` is
  -- false
  fun_induction walk t links l steps with
  | case1 =>
    cases h
    exact .done _
  | case2 _ _ _ _ _ hl hstay ih =>
    exact .stay (Tree.shape_of_get? hl) hstay (ih h)
  | case3 _ _ _ _ _ hl hstay hup ih =>
    exact .up (Tree.shape_of_get? hl) (by simpa using hstay) hup (ih h)
  | case4 => cases h
  | case5 => cases h
  | case6 => cases h
  | case7 _ _ _ _ hl hstay hup _ _ hlink _ _ ih =>
    exact .follow (Tree.shape_of_get? hl) (by simpa using hstay) (by simpa using hup)
      (Tree.shape_of_get? hlink) (ih h)
  | case8 _ _ _ _ _ hl hstay hup _ e hnot he ih =>
    refine .enter (Tree.shape_of_get? hl) (by simpa using hstay) (by simpa using hup)
      (Tree.shape_of_get? he) (fun target ht => ?_) (ih h)
    cases e with
    | link target => exact hnot _ rfl
    | file => cases ht
    | folder => cases ht
  | case9 => cases h

/-- Steps lead to one location at most. -/
theorem Leads.unique {t : Tree} {l l₁ l₂ : Location} {steps : List Bytes}
    (h₁ : Leads t l steps l₁) (h₂ : Leads t l steps l₂) : l₁ = l₂ := by
  -- both derivations take the same rule, as at most one fits what is there
  induction h₁ with
  | done => cases h₂; rfl
  | stay _ hstay _ ih =>
    cases h₂ with
    | stay _ _ h => exact ih h
    | up _ h _ _ => rw [hstay] at h; cases h
    | enter _ h _ _ _ _ => rw [hstay] at h; cases h
    | follow _ h _ _ _ => rw [hstay] at h; cases h
  | up _ hstay hup _ ih =>
    cases h₂ with
    | stay _ h _ => rw [hstay] at h; cases h
    | up _ _ _ h => exact ih h
    | enter _ _ h _ _ _ => rw [hup] at h; cases h
    | follow _ _ h _ _ => rw [hup] at h; cases h
  | enter _ hstay hup hs hnot _ ih =>
    cases h₂ with
    | stay _ h _ => rw [hstay] at h; cases h
    | up _ _ h _ => rw [hup] at h; cases h
    | enter _ _ _ _ _ h => exact ih h
    | follow _ _ _ h _ =>
      rw [hs] at h
      cases h
      exact absurd rfl (hnot _)
  | follow _ hstay hup hs _ ih =>
    cases h₂ with
    | stay _ h _ => rw [hstay] at h; cases h
    | up _ _ h _ => rw [hup] at h; cases h
    | enter _ _ _ h hnot _ =>
      rw [hs] at h
      cases h
      exact absurd rfl (hnot _)
    | follow _ _ _ h h' =>
      rw [hs] at h
      cases h
      exact ih h'

/-- Steps may be taken in two goes. -/
theorem leads_append {t : Tree} {l l' : Location} {xs ys : List Bytes} :
    Leads t l (xs ++ ys) l' ↔ ∃ m, Leads t l xs m ∧ Leads t m ys l' := by
  constructor
  · generalize hsteps : xs ++ ys = steps
    intro h
    -- the first steps end where nothing is left of `xs`
    induction h generalizing xs with
    | done l =>
      obtain ⟨rfl, rfl⟩ := List.append_eq_nil_iff.mp hsteps
      exact ⟨l, .done l, .done l⟩
    | stay hl hstay h ih =>
      cases xs with
      | nil =>
        cases hsteps
        exact ⟨_, .done _, .stay hl hstay h⟩
      | cons x xs =>
        obtain ⟨rfl, hrest⟩ := List.cons.inj hsteps
        obtain ⟨m, hm, hm'⟩ := ih hrest
        exact ⟨m, .stay hl hstay hm, hm'⟩
    | up hl hstay hup h ih =>
      cases xs with
      | nil =>
        cases hsteps
        exact ⟨_, .done _, .up hl hstay hup h⟩
      | cons x xs =>
        obtain ⟨rfl, hrest⟩ := List.cons.inj hsteps
        obtain ⟨m, hm, hm'⟩ := ih hrest
        exact ⟨m, .up hl hstay hup hm, hm'⟩
    | enter hl hstay hup hs hnot h ih =>
      cases xs with
      | nil =>
        cases hsteps
        exact ⟨_, .done _, .enter hl hstay hup hs hnot h⟩
      | cons x xs =>
        obtain ⟨rfl, hrest⟩ := List.cons.inj hsteps
        obtain ⟨m, hm, hm'⟩ := ih hrest
        exact ⟨m, .enter hl hstay hup hs hnot hm, hm'⟩
    | follow hl hstay hup hs h ih =>
      cases xs with
      | nil =>
        cases hsteps
        exact ⟨_, .done _, .follow hl hstay hup hs h⟩
      | cons x xs =>
        obtain ⟨rfl, rfl⟩ := List.cons.inj hsteps
        -- the steps of the target go in front of those that are left of `xs`
        obtain ⟨m, hm, hm'⟩ := ih (List.append_assoc _ xs ys)
        exact ⟨m, .follow hl hstay hup hs hm, hm'⟩
  · rintro ⟨m, hm, hm'⟩
    induction hm with
    | done => exact hm'
    | stay hl hstay _ ih => exact .stay hl hstay (ih hm')
    | up hl hstay hup _ ih => exact .up hl hstay hup (ih hm')
    | enter hl hstay hup hs hnot _ ih => exact .enter hl hstay hup hs hnot (ih hm')
    | follow hl hstay hup hs _ ih =>
      exact .follow hl hstay hup hs (List.append_assoc _ _ ys ▸ ih hm')

/-! ## Where there is something other than a link -/

namespace Tree

/-- There is a file or a folder at a location. -/
def Firm (t : Tree) (l : Location) : Prop :=
  ∃ s, t.shape l = some s ∧ ∀ target, s ≠ .link target

/-- A folder is no link. -/
theorem firm_of_folder {t : Tree} {l : Location} (h : t.shape l = some .folder) : t.Firm l :=
  ⟨.folder, h, fun _ h => by cases h⟩

/-- Only proper names lead to a file or a folder of a well-formed tree. -/
theorem Firm.proper {t : Tree} (ht : t.WellFormed) {l : Location} (h : t.Firm l) :
    ProperLocation l := by
  obtain ⟨s, hs, _⟩ := h
  exact ht.proper _ _ hs

/-- No prefix of a location is a link. -/
def Clear (t : Tree) (r : Location) : Prop :=
  ∀ l, l <+: r → ∀ target, t.get? l ≠ some (.link target)

/-- If there are no links along a location, there are none along a location above it. -/
theorem Clear.of_prefix {t : Tree} {l r : Location} (h : t.Clear r) (hl : l <+: r) : t.Clear l :=
  fun m hm => h m (hm.trans hl)

/-- In a well-formed tree there are no links above a file or a folder. -/
theorem WellFormed.clear_of_firm {t : Tree} (ht : t.WellFormed) {r : Location} (h : t.Firm r) :
    t.Clear r := by
  obtain ⟨s, hs, hnot⟩ := h
  intro l hl target hlink
  -- a link above would be a folder, and one at `r` itself is ruled out
  have hshape := shape_of_get? hlink
  rcases ht.shape_of_prefix hl hs with hfolder | rfl
  · rw [hfolder] at hshape
    cases hshape
  · rw [hs] at hshape
    exact hnot target (Option.some.inj hshape)

end Tree

/-- The first step is taken from a folder. -/
theorem Leads.folder_of_cons {t : Tree} {l l' : Location} {step : Bytes} {rest : List Bytes}
    (h : Leads t l (step :: rest) l') : t.shape l = some .folder := by
  cases h with
  | stay hl => exact hl
  | up hl => exact hl
  | enter hl => exact hl
  | follow hl => exact hl

/-- Steps from a file or a folder lead to one. -/
theorem Leads.firm {t : Tree} (ht : t.WellFormed) {l l' : Location} {steps : List Bytes}
    (h : Leads t l steps l') (hl : t.Firm l) : t.Firm l' := by
  -- going down or staying is by the rule itself; `..` and a link need that the tree is well formed
  induction h with
  | done => exact hl
  | stay _ _ _ ih => exact ih hl
  | up hfolder _ _ _ ih => exact ih (Tree.firm_of_folder (ht.folder_dropLast hfolder))
  | enter _ _ _ hs hnot _ ih => exact ih ⟨_, hs, hnot⟩
  | follow hfolder _ _ _ _ ih =>
    -- a link is followed from the top or from the folder it lies in
    refine ih (Tree.firm_of_folder ?_)
    unfold Route.ofPath
    dsimp only
    split
    · exact ht.top
    · exact hfolder

/-- Names along which there are no links lead to the location with these names. -/
theorem Leads.eq_append_of_clear {t : Tree} {l l' k : Location} (h : Leads t l k l')
    (hk : ProperLocation k)
    (hclear : ∀ j, j <+: k → ∀ target, t.get? (l ++ j) ≠ some (.link target)) :
    l' = l ++ k := by
  -- the names are proper and there is no link, so that only `enter` applies
  induction h with
  | done => simp
  | stay _ hstay _ _ => simp [(hk _ (List.mem_cons_self ..)).notStay] at hstay
  | up _ _ hup _ _ => simp [(hk _ (List.mem_cons_self ..)).notUp] at hup
  | @enter l l' step rest s _ _ _ _ _ _ ih =>
    rw [ih (fun n hn => hk n (List.mem_cons_of_mem _ hn)) fun j hj target => ?_]
    · simp
    · -- a link further on would be a link along `k`
      have := hclear (step :: j) ((List.prefix_cons_inj step).mpr hj) target
      rwa [List.append_assoc]
  | @follow l l' step rest target _ _ _ hs _ _ =>
    exact absurd (Tree.shape_eq_link.mp hs)
      (hclear [step] ((List.prefix_cons_inj step).mpr (List.nil_prefix)) target)

/-- Above a file or a folder there are folders, and no links. -/
theorem Tree.Firm.next {t : Tree} (ht : t.WellFormed) {l k : Location} {n : Name}
    (h : t.Firm (l ++ n :: k)) :
    t.shape l = some .folder ∧ ProperName n ∧ t.Firm (l ++ [n]) := by
  obtain ⟨s, hs, hnot⟩ := h
  refine ⟨ht.folder_of_append hs (List.cons_ne_nil n k), ht.proper _ _ hs n (by simp), ?_⟩
  rw [List.append_cons] at hs
  -- `l ++ [n]` is a folder above, or the place itself
  rcases ht.shape_of_prefix (List.prefix_append (l ++ [n]) k) hs with hfolder | heq
  · exact Tree.firm_of_folder hfolder
  · exact heq ▸ ⟨s, hs, hnot⟩

/-- The names of a file or folder lead to it. -/
theorem leads_of_firm {t : Tree} (ht : t.WellFormed) {l k : Location} (h : t.Firm (l ++ k)) :
    Leads t l k (l ++ k) := by
  -- name by name: above a file or a folder there are folders, so that each name enters one
  induction k generalizing l with
  | nil =>
    rw [List.append_nil]
    exact .done l
  | cons n k ih =>
    obtain ⟨hfolder, hn, s, hs, hnot⟩ := h.next ht
    rw [List.append_cons] at h ⊢
    exact .enter hfolder hn.notStay hn.notUp hs hnot (ih h)

/-- A walk along the names of a file or folder ends there, unless the system finds one of the
names too long. -/
theorem walk_of_firm {t : Tree} (ht : t.WellFormed) (links : Nat) {l k : Location}
    (h : t.Firm (l ++ k)) :
    walk t links l k = .ok (l ++ k, links) ∨
      walk t links l k = .error .nameTooLong ∧ ∃ n ∈ k, Route.maxName < n.length := by
  -- as for `leads_of_firm`, but a name that the system finds too long ends the walk
  induction k generalizing l with
  | nil => exact .inl (by rw [walk, List.append_nil])
  | cons n k ih =>
    obtain ⟨hfolder, hn, s, hs, hnot⟩ := h.next ht
    obtain ⟨mode, hmode⟩ := Tree.shape_eq_folder.mp hfolder
    rw [List.append_cons] at h
    rw [walk, hmode]
    simp only [hn.notStay, hn.notUp, Bool.false_eq_true, if_false]
    split
    · rename_i hlong
      exact .inr ⟨rfl, n, List.mem_cons_self .., hlong⟩
    · rw [List.append_cons l n k]
      -- a name further on that is too long is one of these names
      have hrest := (ih h).imp_right <| And.imp_right <| Exists.imp fun m =>
        And.imp_left (List.mem_cons_of_mem n)
      cases he : t.get? (l ++ [n]) with
      | none =>
        rw [Tree.shape_eq_none.mpr he] at hs
        cases hs
      | some e =>
        rw [Tree.shape_of_get? he] at hs
        cases e with
        | link target => exact absurd (Option.some.inj hs).symm (hnot target)
        | file => exact hrest
        | folder => exact hrest

/-- Steps without `..` do not leave a place below which there are no links. -/
theorem Leads.stays_below {t : Tree} {l l' : Location} {steps : List Bytes} (h : Leads t l steps l')
    (hup : ∀ step ∈ steps, isUp step = false)
    (hlinks : ∀ k target, t.get? (l ++ k) ≠ some (.link target)) : l <+: l' := by
  -- `hlinks` is about all that is below `l`, so it holds below a folder that is entered too
  induction h with
  | done => exact List.prefix_rfl
  | stay _ _ _ ih => exact ih (fun step hstep => hup step (List.mem_cons_of_mem _ hstep)) hlinks
  | up _ _ h _ _ =>
    rw [hup _ (List.mem_cons_self ..)] at h
    cases h
  | @enter l l' step rest s _ _ _ _ _ _ ih =>
    -- no links below `l` means none below one of its folders
    have hbelow := ih (fun step hstep => hup step (List.mem_cons_of_mem _ hstep))
      fun k target => List.append_assoc l [step] k ▸ hlinks (step :: k) target
    exact (List.prefix_append ..).trans hbelow
  | follow _ _ _ hs _ _ => exact absurd (Tree.shape_eq_link.mp hs) (hlinks _ _)

/-- Steps that go anywhere at all, without `..` and links, go further down. -/
theorem Leads.goes_below {t : Tree} {l l' : Location} {steps : List Bytes} (h : Leads t l steps l')
    (hup : ∀ step ∈ steps, isUp step = false)
    (hlinks : ∀ k target, t.get? (l ++ k) ≠ some (.link target))
    (hcount : ∃ step ∈ steps, isStay step = false) : l.length < l'.length := by
  -- the first step that does not stay enters a folder, and after it nothing goes up
  induction h with
  | done =>
    obtain ⟨step, hstep, -⟩ := hcount
    cases hstep
  | stay _ hstay _ ih =>
    obtain ⟨step, hstep, hnot⟩ := hcount
    rcases List.mem_cons.mp hstep with rfl | hstep
    · rw [hstay] at hnot
      cases hnot
    · exact ih (fun s hs => hup s (List.mem_cons_of_mem _ hs)) hlinks ⟨step, hstep, hnot⟩
  | up _ _ h _ _ =>
    rw [hup _ (List.mem_cons_self ..)] at h
    cases h
  | @enter l l' step rest s _ _ _ _ _ hrest _ =>
    have hbelow : l ++ [step] <+: l' :=
      hrest.stays_below (fun s hs => hup s (List.mem_cons_of_mem _ hs))
        fun k target => List.append_assoc l [step] k ▸ hlinks (step :: k) target
    have hlength := hbelow.length_le
    rw [List.length_append, List.length_singleton] at hlength
    exact hlength
  | follow _ _ _ hs _ _ => exact absurd (Tree.shape_eq_link.mp hs) (hlinks _ _)

/-! ## Walks in two goes -/

/-- Steps may be walked in two goes. -/
theorem walk_append_eq {t : Tree} (links : Nat) (l : Location) (xs ys : List Bytes) :
    walk t links l (xs ++ ys) = walk t links l xs >>= fun (m, left) => walk t left m ys := by
  -- both sides do the same with the first step, whatever it finds
  fun_induction walk t links l xs with
  | case1 => rfl
  | case2 _ _ _ _ _ hl hstay ih =>
    rw [List.cons_append, walk, hl]
    simp only [hstay, if_true]
    exact ih
  | case3 _ _ _ _ _ hl hstay hup ih =>
    rw [List.cons_append, walk, hl]
    simp only [if_neg hstay, if_pos hup]
    exact ih
  | case4 _ _ _ _ _ hl hstay hup hlen =>
    rw [List.cons_append, walk, hl]
    simp only [if_neg hstay, if_neg hup, if_pos hlen]
    rfl
  | case5 _ _ _ _ _ hl hstay hup hlen hnone =>
    rw [List.cons_append, walk, hl]
    simp only [if_neg hstay, if_neg hup, if_neg hlen, hnone]
    rfl
  | case6 _ _ _ _ hl hstay hup hlen target hlink =>
    rw [List.cons_append, walk, hl]
    simp only [if_neg hstay, if_neg hup, if_neg hlen, hlink]
    rfl
  | case7 _ _ _ _ hl hstay hup hlen target hlink _ _ ih =>
    rw [List.cons_append, walk, hl]
    simp only [if_neg hstay, if_neg hup, if_neg hlen, hlink]
    rw [List.append_assoc] at ih
    exact ih
  | case8 _ _ _ _ _ hl hstay hup hlen e hnot he ih =>
    rw [List.cons_append, walk, hl]
    simp only [if_neg hstay, if_neg hup, if_neg hlen, he]
    cases e with
    | link target => exact absurd rfl (hnot target)
    | file => exact ih
    | folder => exact ih
  | case9 _ _ _ _ hnot =>
    rw [List.cons_append, walk]
    split
    · rename_i mode hmode
      exact absurd hmode (hnot mode)
    · rfl

/-- When the first part of the steps has been walked, the others are walked from where it ends,
with the links that are left. -/
theorem walk_append {t : Tree} {links left : Nat} {l m : Location} {xs : List Bytes}
    (h : walk t links l xs = .ok (m, left)) (ys : List Bytes) :
    walk t links l (xs ++ ys) = walk t left m ys := by
  rw [walk_append_eq, h]
  rfl

/-! ## Trees that grow -/

/-- A walk that ends is not changed by what is added to a tree. -/
theorem walk_mono {t t' : Tree} (hshown : t.ShownBy t') {links left : Nat} {l l' : Location}
    {steps : List Bytes} (h : walk t links l steps = .ok (l', left)) :
    walk t' links l steps = .ok (l', left) := by
  -- what the walk found at each step is still there, with the same shape
  fun_induction walk t links l steps with
  | case1 => rw [walk]; exact h
  | case2 _ _ _ _ _ hl hstay ih =>
    obtain ⟨mode, hmode⟩ := Tree.shape_eq_folder.mp (hshown _ _ (Tree.shape_of_get? hl))
    rw [walk, hmode]
    simp only [hstay, if_true]
    exact ih h
  | case3 _ _ _ _ _ hl hstay hup ih =>
    obtain ⟨mode, hmode⟩ := Tree.shape_eq_folder.mp (hshown _ _ (Tree.shape_of_get? hl))
    rw [walk, hmode]
    simp only [if_neg hstay, if_pos hup]
    exact ih h
  | case4 => cases h
  | case5 => cases h
  | case6 => cases h
  | case7 _ _ _ _ hl hstay hup hlen target hlink links r ih =>
    obtain ⟨mode, hmode⟩ := Tree.shape_eq_folder.mp (hshown _ _ (Tree.shape_of_get? hl))
    rw [walk, hmode]
    simp only [if_neg hstay, if_neg hup, if_neg hlen,
      Tree.shape_eq_link.mp (hshown _ _ (Tree.shape_of_get? hlink))]
    exact ih h
  | case8 _ l step _ _ hl hstay hup hlen e hnot he ih =>
    obtain ⟨mode, hmode⟩ := Tree.shape_eq_folder.mp (hshown _ _ (Tree.shape_of_get? hl))
    rw [walk, hmode]
    simp only [if_neg hstay, if_neg hup, if_neg hlen]
    -- what was there is still there, and is no link now either
    have hs := hshown _ _ (Tree.shape_of_get? he)
    cases he' : t'.get? (l ++ [step]) with
    | none => rw [Tree.shape_eq_none.mpr he'] at hs; cases hs
    | some e' =>
      rw [Tree.shape_of_get? he'] at hs
      cases e' with
      | link target =>
        cases e with
        | link target' => exact absurd rfl (hnot target')
        | file => cases hs
        | folder => cases hs
      | file => exact ih h
      | folder => exact ih h
  | case9 => cases h

/-! ## Trees that gain files only -/

/-- A walk that starts at a file and ends takes no step. -/
theorem walk_of_file {t : Tree} {links left : Nat} {l l' : Location} {steps : List Bytes}
    (hfile : t.shape l = some .file) (h : walk t links l steps = .ok (l', left)) : l' = l := by
  cases steps with
  | nil =>
    rw [walk] at h
    cases h
    rfl
  | cons step rest =>
    have := (leads_of_walk h).folder_of_cons
    rw [hfile] at this
    cases this

/-- A walk that ends at a folder was not helped by new files. -/
theorem walk_anti {t t' : Tree} (honly : t.FilesOnly t') {links left : Nat} {l l' : Location}
    {steps : List Bytes} (h : walk t' links l steps = .ok (l', left))
    (hfolder : t'.shape l' = some .folder) :
    walk t links l steps = .ok (l', left) ∧ t.shape l' = some .folder := by
  -- a folder is never new, so each one that the walk enters was there before
  have old {m : Location} {mode : Nat} (hm : t'.get? m = some (.folder mode)) :
      ∃ mode', t.get? m = some (.folder mode') :=
    Tree.shape_eq_folder.mp (honly.old (Tree.shape_of_get? hm) (by simp))
  -- the walk in the larger tree, step by step: what it passes was there before
  fun_induction walk t' links l steps with
  | case1 =>
    cases h
    exact ⟨by rw [walk], honly.old hfolder (by simp)⟩
  | case2 _ _ _ _ _ hl hstay ih =>
    obtain ⟨mode, hmode⟩ := old hl
    rw [walk, hmode]
    simp only [hstay, if_true]
    exact ih h
  | case3 _ _ _ _ _ hl hstay hup ih =>
    obtain ⟨mode, hmode⟩ := old hl
    rw [walk, hmode]
    simp only [if_neg hstay, if_pos hup]
    exact ih h
  | case4 => cases h
  | case5 => cases h
  | case6 => cases h
  | case7 _ _ _ _ hl hstay hup hlen target hlink links r ih =>
    obtain ⟨mode, hmode⟩ := old hl
    -- a link is never new either
    have hold := honly.old (Tree.shape_of_get? hlink) (by simp [Entry.shape])
    rw [walk, hmode]
    simp only [if_neg hstay, if_neg hup, if_neg hlen, Tree.shape_eq_link.mp hold]
    exact ih h
  | case8 _ l step rest _ hl hstay hup hlen e hnot he ih =>
    obtain ⟨mode, hmode⟩ := old hl
    rw [walk, hmode]
    simp only [if_neg hstay, if_neg hup, if_neg hlen]
    have hs := Tree.shape_of_get? he
    cases he' : t.get? (l ++ [step]) with
    | some e' =>
      have hs' := honly.shown _ _ (Tree.shape_of_get? he')
      cases e' with
      | file => exact ih h
      | folder => exact ih h
      | link target =>
        rw [Tree.shape_eq_link.mp hs'] at he
        exact absurd (Option.some.inj he).symm (hnot target)
    | none =>
      -- what is new is a file, and a walk does not go beyond a file
      rcases honly.only _ _ hs with hold | hfile
      · rw [Tree.shape_eq_none.mpr he'] at hold
        cases hold
      · rw [hfile] at hs
        rw [walk_of_file hs h, hs] at hfolder
        cases hfolder
  | case9 => cases h

end Courier
