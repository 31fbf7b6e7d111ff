import Courier.Proofs.Folders

/-!
# Staged files

A staged file is new, it lies where the folder of the destination is, and its name is longer
than that of the destination. So it is neither the destination nor a folder made on the way,
and what is done to it is seen nowhere else.

Main results:

* `Staged.proper_name` — the name of a staged file is a name that a folder may hold.
* `Staged.make_cases` — what making a staged file has done.
* `Staged.location_ne` — a staged file is not its destination.
-/

namespace Courier

namespace Files

/-- A random name has no slash. -/
theorem slash_notMem_randomName (n : Nat) : Path.slash ∉ randomName n := by
  -- each of the letters is an octet other than a slash
  have hletter : ∀ k < 62, Path.slash ≠ UInt8.ofNat
      (if k < 10 then 0x30 + k else if k < 36 then 0x41 + (k - 10) else 0x61 + (k - 36)) := by
    decide
  intro h
  obtain ⟨place, -, hplace⟩ := List.mem_map.mp h
  exact hletter _ (Nat.mod_lt _ (by decide)) hplace.symm

/-- A random name has six characters. -/
theorem length_randomName (n : Nat) : (randomName n).length = 6 := by
  simp [randomName]

end Files

namespace Staged

/-- The name that the draw `n` gives a staged file for a destination. -/
def name (dest : Path) (n : Nat) : Name :=
  lead dest ++ Files.randomName n ++ tail

/-- The name of a staged file is longer than that of its destination by twelve octets. -/
theorem length_name (dest : Path) (n : Nat) :
    (name dest n).length = (dest.fileName?.getD []).length + 12 := by
  have htail : tail.length = 5 := by decide
  simp [name, lead, Files.length_randomName, htail]

/-- What a staged name starts with has no slash. -/
theorem slash_notMem_lead (dest : Path) : Path.slash ∉ lead dest := by
  unfold lead
  cases hname : dest.fileName? with
  | none => simp [Path.slash, Path.dot]
  | some n =>
    have hn := (Path.proper_names dest n (Path.mem_names_of_fileName? hname)).noSlash
    have hdot : Path.slash ≠ Path.dot := by decide
    simp [hn, hdot]

/-- A staged name is the name of an entry: not empty, not `.` or `..`, and without a slash. -/
theorem proper_name (dest : Path) (n : Nat) : ProperName (name dest n) := by
  have hlength := length_name dest n
  -- the name is longer than `.` and `..`, so only a slash is to be ruled out
  have hslash : Path.slash ∉ name dest n := by
    have htail : Path.slash ∉ tail := by decide
    simp [name, slash_notMem_lead, Files.slash_notMem_randomName, htail]
  constructor
  case ne_nil =>
    intro hnil
    rw [hnil] at hlength
    simp at hlength
  case noSlash => exact hslash
  case notStay =>
    refine decide_eq_false fun hstay => ?_
    rw [hstay] at hlength
    simp at hlength
  case notUp =>
    refine decide_eq_false fun hup => ?_
    rw [hup] at hlength
    simp at hlength

/-- The folder in which a staged file is made, as an absolute path. -/
def folder (dest : Path) (here : Location) : Path :=
  (Files.pathOf here).join dest.folder

variable {fs fs' : Files} {dest : Path}

/-- A staged file is made in the folder of its destination, under one of its names, or nothing
happens to the tree. -/
theorem make_cases {r : Except TransferError Staged} (h : make dest fs = (r, fs')) :
    (∃ staged n, r = .ok staged ∧ staged.path = (folder dest fs.here).child (name dest n) ∧
      fs.Created staged.path 0o644 staged.handle fs') ∨
    ∃ e, r = .error e ∧ fs.Evolves [] fs' := by
  unfold make at h
  dsimp only at h
  split at h
  · rename_i path handle fs₁ hunique
    cases h
    rcases Files.createUnique_cases hunique with ⟨n, handle', hr, hcreated⟩ | ⟨e, hr, -⟩
    · cases hr
      exact .inl ⟨_, n, rfl, rfl, hcreated⟩
    · cases hr
  · rename_i f p fs₁ hunique
    cases h
    rcases Files.createUnique_cases hunique with ⟨n, handle', hr, -⟩ | ⟨e, -, hevolves⟩
    · cases hr
    · exact .inr ⟨_, rfl, hevolves⟩

/-- The place of a staged file ends in its name. -/
theorem last_of_slot {n : Nat} {here location : Location} {last : Name}
    (h : fs.Slot ((folder dest here).child (name dest n)) location last) : last = name dest n := by
  have hbase : (folder dest here).text ≠ [] :=
    Path.join_text_ne_nil (Files.text_pathOf_ne_nil here)
  have hname := h.last
  -- the path is a name below a folder, and ends in that name
  rw [Path.lastName?_ofPath_child hbase (proper_name dest n)] at hname
  exact (Option.some.inj hname).symm

/-- A staged file is not its destination: its name is longer. -/
theorem location_ne {n : Nat} {here location location' : Location} {last last' : Name}
    (h : fs.Slot ((folder dest here).child (name dest n)) location last)
    (hdest : fs'.Slot dest location' last') : location' ++ [last'] ≠ location ++ [last] := by
  intro heq
  obtain ⟨-, hlast⟩ := List.append_inj' heq rfl
  have hname : last' = name dest n := (List.cons.inj hlast).1.trans (last_of_slot h)
  have hlength := length_name dest n
  rw [Path.fileName?_of_lastName? hdest.last, ← hname, Option.getD_some] at hlength
  omega

end Staged

end Courier
