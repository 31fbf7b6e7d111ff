import Courier.Proofs.Toml
import Courier.Settings.Text

/-!
# Settings in layers

A settings file gives values for some fields, a command line for some, and the defaults stand below
both. What a text is read as is what it gives over the defaults, key by key, and the text that
settings are written in gives all of them.

Main results:

* `Layer.onto_atop` — one layer over another is the one put onto the other.
* `Settings.ofMembers_eq` — what is read is what the keys give, over the defaults.
* `Settings.parse_render` — settings that were written are read.
-/

namespace Courier

open Toml (Members Node Distinct)

/-! ## Layers -/

/-- Values for some of the fields. -/
structure Layer where
  maxRetries : Option UInt32 := none
  retryDelayMillis : Option UInt64 := none
  baseRate : Option UInt64 := none
  workers : Option UInt64 := none
deriving DecidableEq, Repr, Inhabited

namespace Layer

/-- Each field from the one layer if it has it, or else from the one below. -/
def atop (l below : Layer) : Layer where
  maxRetries := l.maxRetries.or below.maxRetries
  retryDelayMillis := l.retryDelayMillis.or below.retryDelayMillis
  baseRate := l.baseRate.or below.baseRate
  workers := l.workers.or below.workers

/-- Settings with the fields that a layer has. -/
def onto (l : Layer) (s : Settings) : Settings where
  maxRetries := l.maxRetries.getD s.maxRetries
  retryDelayMillis := l.retryDelayMillis.getD s.retryDelayMillis
  baseRate := l.baseRate.getD s.baseRate
  workers := l.workers.getD s.workers

/-- The settings of a layer, with the defaults for the fields that it does not have. -/
def settings (l : Layer) : Settings :=
  l.onto {}

/-- A layer on top of another one is put on after it. -/
theorem onto_atop (l below : Layer) (s : Settings) :
    (l.atop below).onto s = l.onto (below.onto s) := by
  simp [onto, atop]

/-- The number under a key, if there is one. -/
def numberAt? (ms : Members) (key : String) : Option Nat :=
  match ms.lookup key with
  | some (.value (.integer n) _) => some n.toNat
  | _ => none

/-- What the members of a document give. -/
def ofMembers (ms : Members) : Layer where
  maxRetries := (numberAt? ms "max_retries").map Nat.toUInt32
  retryDelayMillis := (numberAt? ms "retry_delay_ms").map Nat.toUInt64
  baseRate := (numberAt? ms "base_rate").map Nat.toUInt64
  workers := (numberAt? ms "workers").map Nat.toUInt64

/-- The first member is found under its own key. -/
theorem numberAt?_cons_self (key : String) (n : Int) (span : Toml.Span) (ms : Members) :
    numberAt? ((key, .value (.integer n) span) :: ms) key = some n.toNat := by
  simp [numberAt?]

/-- Members of other keys are passed over. -/
theorem numberAt?_cons_of_ne {key k : String} (h : key ≠ k) (node : Node) (ms : Members) :
    numberAt? ((k, node) :: ms) key = numberAt? ms key := by
  have hne : (key == k) = false := by simpa using h
  simp [numberAt?, List.lookup_cons, hne]

/-- There is no number under a key that no member has. -/
theorem numberAt?_of_notMem {key : String} {ms : Members} (h : key ∉ ms.map (·.1)) :
    numberAt? ms key = none := by
  have hnone : ms.lookup key = none := by
    refine List.lookup_eq_none_iff.mpr fun m hm => ?_
    have hne : key ≠ m.1 := by
      intro heq
      exact h (List.mem_map.mpr ⟨m, hm, heq.symm⟩)
    simpa using hne
  rw [numberAt?, hnone]

end Layer

namespace Settings

open Layer (numberAt? numberAt?_cons_self numberAt?_cons_of_ne numberAt?_of_notMem)

/-! ## What a document gives -/

/-- A field takes a whole number. -/
theorem integer_of_member {kind : String} {limit : Nat} {node : Node} {set : Nat → Settings}
    {s : Settings} (h : (do return set (← numberOf kind limit node)) = .ok s) :
    ∃ i span, node = .value (.integer i) span ∧ s = set i.toNat := by
  obtain ⟨n, hn, hs⟩ := Toml.ok_of_bind h
  cases hs
  unfold numberOf at hn
  -- every other kind of value is refused, and so is a number beyond the limit
  split at hn
  · split at hn
    · cases hn
      exact ⟨_, _, rfl, rfl⟩
    · cases hn
  all_goals cases hn

/-- The first member of a document, read over some settings, is as if it were below all others. -/
theorem onto_cons {s s' : Settings} {key : String} {node : Node} {ms : Members}
    (hkey : key ∉ ms.map (·.1)) (h : s.withMember key node = .ok s') :
    (Layer.ofMembers ((key, node) :: ms)).onto s = (Layer.ofMembers ms).onto s' := by
  have hnone := numberAt?_of_notMem hkey
  unfold withMember at h
  -- each of the four keys has a field that nothing below it gives
  iterate 4
    split at h
    · rename_i hk
      obtain ⟨i, span, rfl, rfl⟩ := integer_of_member h
      subst hk
      simp [Layer.ofMembers, Layer.onto, numberAt?_cons_self, numberAt?_cons_of_ne, hnone]
  -- a key of another name is passed over
  rename_i h₁ h₂ h₃ h₄
  cases h
  simp [Layer.ofMembers, numberAt?_cons_of_ne, Ne.symm h₁, Ne.symm h₂, Ne.symm h₃, Ne.symm h₄]

/-- Taking in members one by one comes to the layer that they make up, as no key is there twice.
-/
theorem foldlM_withMember {ms : Members} (hms : Distinct ms) {s s' : Settings}
    (h : ms.foldlM (fun s (key, node) => s.withMember key node) s = .ok s') :
    s' = (Layer.ofMembers ms).onto s := by
  induction ms generalizing s with
  | nil =>
    cases h
    rfl
  | cons m ms ih =>
    -- the key of the first member is none of the others, so nothing that follows replaces it
    obtain ⟨hkey, hms⟩ := List.nodup_cons.mp hms
    rw [List.foldlM_cons] at h
    obtain ⟨s₁, hmember, hrest⟩ := Toml.ok_of_bind h
    rw [onto_cons hkey hmember]
    exact ih hms hrest

/-- **What is read from a document is what its keys give**, over the defaults. -/
theorem ofMembers_eq {ms : Members} (hms : Distinct ms) {s : Settings} (h : ofMembers ms = .ok s) :
    s = (Layer.ofMembers ms).settings :=
  foldlM_withMember hms h

/-! ## Settings that were written -/

/-- A number within the limit is read. -/
theorem numberOf_integer {kind : String} {limit n : Nat} (h : n ≤ limit) (span : Toml.Span) :
    numberOf kind limit (.value (.integer n) span) = .ok n := by
  simp [numberOf, h]

/-- The fields of a setting, read back as members, are that setting. -/
theorem ofMembers_fields {s : Settings} {ms : Members}
    (h : List.Forall₂ Toml.IsLine s.fields ms) : ofMembers ms = .ok s := by
  have hword32 : s.maxRetries.toNat ≤ 4294967295 := Nat.le_pred_of_lt s.maxRetries.toNat_lt
  have hword64 (n : UInt64) : n.toNat ≤ 18446744073709551615 := Nat.le_pred_of_lt n.toNat_lt
  -- the four lines, each with its key and its number
  unfold fields at h
  obtain _ | ⟨⟨hk₁, sp₁, hn₁⟩, _ | ⟨⟨hk₂, sp₂, hn₂⟩, _ | ⟨⟨hk₃, sp₃, hn₃⟩,
    _ | ⟨⟨hk₄, sp₄, hn₄⟩, _ | _⟩⟩⟩⟩ := h
  simp [ofMembers, withMember, hk₁, hn₁, hk₂, hn₂, hk₃, hn₃, hk₄, hn₄, numberOf_integer, hword32,
    hword64, bind, Except.bind, pure, Except.pure]

/-- A text is written only if all values fit the format, and then it is one line for each field.
-/
theorem render?_eq_some {s : Settings} {text : List Char} (h : s.render? = some text) :
    (∀ e ∈ s.fields, e.2 < UInt64.size / 2) ∧
      text = s.fields.flatMap fun (key, n) => line key n := by
  unfold render? at h
  split at h
  · rename_i hall
    refine ⟨fun e he => ?_, (Option.some.inj h).symm⟩
    have hle : e.2 ≤ tomlLimit := by simpa using List.all_eq_true.mp hall e he
    have hlimit : tomlLimit < UInt64.size / 2 := by decide
    omega
  · cases h

/-- **Settings that were written are read.** -/
theorem parse_render {s : Settings} {text : List Char} (h : s.render? = some text) :
    parse text = .ok s := by
  obtain ⟨hsmall, htext⟩ := render?_eq_some h
  have hbare : ∀ e ∈ s.fields, Toml.IsBare e.1.toList := by
    simp only [fields, List.forall_mem_cons]
    refine ⟨?_, ?_, ?_, ?_, by simp⟩ <;> exact ⟨by decide, List.all_eq_true.mp (by decide)⟩
  have hdistinct : (s.fields.map (·.1)).Nodup := by
    show ["max_retries", "retry_delay_ms", "base_rate", "workers"].Nodup
    decide
  -- one round of the reader for each line, and one for the end
  have hlength : s.fields.length < text.length + 1 := by
    have hfront : "max_retries".toList.length ≤ text.length := by
      rw [htext]
      simp only [fields, List.flatMap_cons, line, List.append_assoc, List.length_append]
      omega
    have hkey : s.fields.length < "max_retries".toList.length := by
      show 4 < "max_retries".toList.length
      decide
    omega
  obtain ⟨ms, hms, hrest⟩ := Toml.documentRest_lines hbare hsmall hdistinct (d := {}) rfl
    (fun _ _ => rfl) text.length hlength
  have hlines : text = s.fields.flatMap fun (key, n) =>
      key.toList ++ " = ".toList ++ Decimal.digits n ++ ['\n'] := htext
  -- the text does not begin with a byte order mark
  have hmark : Toml.withoutMark text = text := by
    rw [htext]
    rfl
  rw [← hlines] at hrest
  have hparse : Toml.parse text = .ok ms := by
    rw [Toml.parse, hmark, hrest]
    rfl
  rw [parse, hparse]
  exact ofMembers_fields hms

end Settings

end Courier
