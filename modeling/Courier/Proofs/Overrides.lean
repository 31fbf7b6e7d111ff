import Mathlib.Data.List.Permutation
import Courier.Program.Client
import Courier.Program.Daemon
import Courier.Proofs.Layers
import Courier.Proofs.Utf8

/-!
# The command line wins over the file

The settings of a program are three layers: the values given on its command line over those of the
settings file over the defaults. They are checked when the file is loaded, when the values of the
command line are put on top, and once more for the number of workers. The last two checks come to
one check of all three layers; but the first one has been made by then, of the file alone.

Main results:

* `Settings.load_eq` — what loading a file comes to.
* `Tuning.resolve_eq`, `Program.Daemon.settingsOf_eq` — the settings of the two programs.
* `Program.runs_in_layers` — what the two programs run with, and when they refuse to.
* `Program.file_refused` — a file is refused whose fault the command line would have mended.
-/

namespace Courier

open CommandLine (ClientCommand ClientOptions DaemonOptions)

/-! ## Sound settings -/

namespace Settings

/-- Settings that a program may run with. -/
def Sound (s : Settings) : Prop :=
  1 ≤ s.baseRate.toNat ∧ 1 ≤ s.maxRetries.toNat ∧ 1 ≤ s.workers.toNat

instance (s : Settings) : Decidable s.Sound :=
  inferInstanceAs (Decidable (_ ∧ _ ∧ _))

/-- Settings have no flaw just when they are sound. -/
theorem flaw?_eq_none_iff (s : Settings) : s.flaw? = none ↔ s.Sound := by
  have hpos32 (n : UInt32) : n ≠ 0 ↔ 1 ≤ n.toNat := by
    rw [Nat.one_le_iff_ne_zero, not_iff_not]
    exact UInt32.toNat_inj.symm
  have hpos64 (n : UInt64) : n ≠ 0 ↔ 1 ≤ n.toNat := by
    rw [Nat.one_le_iff_ne_zero, not_iff_not]
    exact UInt64.toNat_inj.symm
  rw [flaw?_eq_none, hpos64, hpos32, hpos64, Sound]

/-- Sound settings pass the check as they are. -/
theorem validated_of_sound {s : Settings} (h : s.Sound) : s.validated = .ok s := by
  rw [validated, (flaw?_eq_none_iff s).mpr h]

/-- Settings that are not sound have a flaw. -/
theorem flaw_of_not_sound {s : Settings} (h : ¬ s.Sound) : ∃ flaw, s.flaw? = some flaw := by
  cases hflaw : s.flaw? with
  | none => exact absurd ((flaw?_eq_none_iff s).mp hflaw) h
  | some flaw => exact ⟨flaw, rfl⟩

/-- And the first one is what the check reports. -/
theorem validated_of_flaw {s : Settings} {flaw : Flaw} (h : s.flaw? = some flaw) :
    s.validated = .error (.flawed flaw) := by
  rw [validated, h]

/-! ## Loading -/

/-- What a settings file gives: nothing if it is missing, or else what its keys say. -/
inductive Gives (fs : Files) (path : Path) : Layer → Prop where
  | missing : fs.existsAt path = false → Gives fs path {}
  | read {content : Bytes} {text : String} {ms : Toml.Members} {s : Settings} :
    fs.existsAt path = true → fs.read path = .ok content → Utf8.decode? content = some text →
    Toml.parse text.toList = .ok ms → ofMembers ms = .ok s → Gives fs path (.ofMembers ms)

/-- What is loaded from a file is what it gives, if that passes the check. -/
theorem load_eq {fs : Files} {path : Path} {file : Layer} (h : Gives fs path file) :
    load fs path = file.settings.validated := by
  cases h with
  | missing hmissing =>
    rw [load, hmissing]
    rfl
  | read hthere hread htext hparse hms =>
    rename_i content text ms s
    have hs : s = (Layer.ofMembers ms).settings := ofMembers_eq (Toml.distinct_of_parse hparse) hms
    have hboth : parse text.toList = .ok s := by
      rw [parse, hparse]
      exact hms
    rw [load, hthere, hread]
    simp only [if_true, ofContent, htext, hboth, hs]

end Settings

/-! ## Values of the command line -/

/-- What a command line gives, the number of workers apart. -/
def Tuning.layer (t : Tuning) (workers : Option UInt64) : Layer where
  maxRetries := t.maxRetries
  retryDelayMillis := t.retryDelayMillis
  baseRate := t.baseRate
  workers := workers

/-- The settings file that is read. -/
def Tuning.file (t : Tuning) (home : Option Path) : Path :=
  t.config.getD (Settings.userFile home)

namespace Tuning

variable {t : Tuning} {home : Option Path} {fs : Files} {file : Layer}

/-- To apply the values of a command line is to put its layer over that of the file. -/
theorem apply_eq (t : Tuning) (file : Layer) :
    t.apply file.settings = ((t.layer none).atop file).settings :=
  calc
    t.apply file.settings = (t.layer none).onto (file.onto {}) := by
      simp [apply, layer, Layer.settings, Layer.onto]
    _ = ((t.layer none).atop file).onto {} := (Layer.onto_atop ..).symm

/-- A flaw in the file is reported, whatever the flags say. -/
theorem resolve_of_flaw (hfile : Settings.Gives fs (t.file home) file) {flaw : Settings.Flaw}
    (hflaw : file.settings.flaw? = some flaw) : t.resolve home fs = .error (.flawed flaw) := by
  have hload : Settings.load fs (t.config.getD (Settings.userFile home)) = .error (.flawed flaw) :=
    (Settings.load_eq hfile).trans (Settings.validated_of_flaw hflaw)
  rw [resolve, hload]

/-- Where the file is sound by itself, the other two layers are checked with it as one. -/
theorem resolve_eq (hfile : Settings.Gives fs (t.file home) file) (hsound : file.settings.Sound) :
    t.resolve home fs = ((t.layer none).atop file).settings.validated := by
  have hload : Settings.load fs (t.config.getD (Settings.userFile home)) = .ok file.settings :=
    (Settings.load_eq hfile).trans (Settings.validated_of_sound hsound)
  rw [resolve, hload, ← apply_eq]

end Tuning

namespace Program

/-- How a program starts with a file that would make for the settings `own` by itself, and with
settings `merged` of all layers. If both are sound it goes on, with the merged ones. Otherwise it
ends with a report of what is wrong, and has done nothing. -/
structure Starts (own merged : Settings)
    (go : Settings → Network → Machine → Outcome × Network × Machine) (n : Network) (m : Machine)
    (result : Outcome × Network × Machine) : Prop where
  runs : own.Sound → merged.Sound → result = go merged n m
  refuses : ¬(own.Sound ∧ merged.Sound) → ∃ flaw,
    (own.flaw? = some flaw ∨ own.Sound ∧ merged.flaw? = some flaw) ∧
      result = fail [flaw.text] n m

/-- Goes on with settings, if there are any. -/
def withSettings (settings : Except Settings.LoadError Settings)
    (go : Settings → Network → Machine → Outcome × Network × Machine) (n : Network) (m : Machine) :
    Outcome × Network × Machine :=
  match settings with
  | .error e => fail e.texts n m
  | .ok s => go s n m

/-- A program whose settings are checked in this way, before all else. -/
theorem Starts.of_settings {own merged : Settings} {settings : Except Settings.LoadError Settings}
    {go : Settings → Network → Machine → Outcome × Network × Machine} {n : Network} {m : Machine}
    (hflaw : ∀ flaw, own.flaw? = some flaw → settings = .error (.flawed flaw))
    (hsound : own.Sound → settings = merged.validated) :
    Starts own merged go n m (withSettings settings go n m) where
  runs hown hmerged := by
    rw [hsound hown, Settings.validated_of_sound hmerged]
    rfl
  refuses h := by
    -- a flaw of the file is found first
    by_cases hown : own.Sound
    · obtain ⟨flaw, hmerged⟩ := Settings.flaw_of_not_sound fun hmerged => h ⟨hown, hmerged⟩
      refine ⟨flaw, .inr ⟨hown, hmerged⟩, ?_⟩
      rw [hsound hown, Settings.validated_of_flaw hmerged]
      rfl
    · obtain ⟨flaw, hown⟩ := Settings.flaw_of_not_sound hown
      refine ⟨flaw, .inl hown, ?_⟩
      rw [hflaw flaw hown]
      rfl

/-! ## The client -/

namespace Client

/-- Carries a command out with some settings. -/
def perform (command : ClientCommand) (s : Settings) :
    Network → Machine → Outcome × Network × Machine :=
  match command with
  | .push file remote => push s file remote
  | .pull remote file print => pull s remote file print

/-- The client runs with the settings that its flags and its file come to. -/
theorem run_eq {args : List String} {options : ClientOptions}
    (hparse : ClientOptions.parse args = .ok options) (n : Network) (m : Machine) :
    run args n m =
      withSettings (options.tuning.resolve m.home m.files) (perform options.command) n m := by
  unfold run withSettings
  rw [hparse]
  dsimp only
  cases options.tuning.resolve m.home m.files with
  | error e => rfl
  | ok s =>
    cases options.command with
    | push file remote => rfl
    | pull remote file print => rfl

end Client

/-! ## The daemon -/

namespace Daemon

/-- Makes all ready with some settings, and listens. -/
def openWith (options : DaemonOptions) (s : Settings) (n : Network) (m : Machine) :
    Outcome × Network × Machine :=
  match prepareRoot options.root m.files with
  | (.error texts, files) => fail texts n { m with files }
  | (.ok root, files) =>
    match openLog options.logFile files with
    | (.error texts, files) => fail texts n { m with files }
    | (.ok log, files) => serve options s root log n { m with files }

/-- So does the daemon. -/
theorem run_eq {args : List String} {options : DaemonOptions}
    (hparse : DaemonOptions.parse args = .ok options) (n : Network) (m : Machine) :
    run args n m = withSettings (settingsOf options m.home m.files) (openWith options) n m := by
  unfold run
  rw [hparse]
  rfl

variable {options : DaemonOptions} {home : Option Path} {fs : Files} {file : Layer}

/-- The daemon reports a flaw in the file as the client does. -/
theorem settingsOf_of_flaw (hfile : Settings.Gives fs (options.tuning.file home) file)
    {flaw : Settings.Flaw} (hflaw : file.settings.flaw? = some flaw) :
    settingsOf options home fs = .error (.flawed flaw) := by
  rw [settingsOf, Tuning.resolve_of_flaw hfile hflaw]

/-- A fault other than in the number of workers stays, whatever that number becomes. -/
theorem flaw?_with_workers {s : Settings} {flaw : Settings.Flaw} (h : s.flaw? = some flaw)
    (hworkers : s.workers ≠ 0) (w : UInt64) : { s with workers := w }.flaw? = some flaw := by
  unfold Settings.flaw? at h ⊢
  dsimp only
  -- the number of workers is looked at last
  by_cases hrate : s.baseRate = 0
  · rwa [if_pos hrate] at h ⊢
  by_cases hattempts : s.maxRetries = 0
  · rwa [if_neg hrate, if_pos hattempts] at h ⊢
  · rw [if_neg hrate, if_neg hattempts, if_neg hworkers] at h
    cases h

/-- Where the file is sound by itself, the three checks are one of all layers. -/
theorem settingsOf_eq (hfile : Settings.Gives fs (options.tuning.file home) file)
    (hsound : file.settings.Sound) :
    settingsOf options home fs =
      ((options.tuning.layer options.workers).atop file).settings.validated := by
  have hmerged : ((options.tuning.layer options.workers).atop file).settings =
      { ((options.tuning.layer none).atop file).settings with
        workers :=
          options.workers.getD ((options.tuning.layer none).atop file).settings.workers } := by
    simp [Tuning.layer, Layer.settings, Layer.onto, Layer.atop]
  rw [settingsOf, Tuning.resolve_eq hfile hsound, hmerged]
  cases hflaw : ((options.tuning.layer none).atop file).settings.flaw? with
  | none => rw [Settings.validated_of_sound ((Settings.flaw?_eq_none_iff _).mp hflaw)]
  | some flaw =>
    -- the number of workers was that of the file so far, so that was not it
    have hworkers : ((options.tuning.layer none).atop file).settings.workers ≠ 0 :=
      ((Settings.flaw?_eq_none _).mp ((Settings.flaw?_eq_none_iff _).mpr hsound)).2.2
    rw [Settings.validated_of_flaw hflaw,
      Settings.validated_of_flaw (flaw?_with_workers hflaw hworkers _)]

/-- A daemon checks the settings of all layers, and those of the file by themselves. -/
theorem starts {args : List String} (hparse : DaemonOptions.parse args = .ok options)
    (n : Network) (m : Machine)
    (hfile : Settings.Gives m.files (options.tuning.file m.home) file) :
    Starts file.settings ((options.tuning.layer options.workers).atop file).settings
      (openWith options) n m (run args n m) := by
  rw [run_eq hparse]
  exact .of_settings (fun _ => settingsOf_of_flaw hfile) (settingsOf_eq hfile)

/-- A daemon that listens does so with its settings. -/
theorem listener_of_openWith {s : Settings} {n n' : Network} {m m' : Machine} {place : Nat}
    (h : openWith options s n m = (.serving place, n', m')) :
    ∃ l, n'.listeners[place]? = some l ∧ l.context.settings = s ∧
      l.workers = s.workers.toNat := by
  unfold openWith at h
  -- without its root or its log the daemon does not listen
  split at h
  · cases h
  split at h
  · cases h
  unfold serve at h
  dsimp only at h
  split at h
  · cases h
  rename_i l n₁ hlisten
  unfold Network.listen at hlisten
  -- nor where the place is taken, or without workers
  split at hlisten
  · cases hlisten
  split at hlisten
  · cases hlisten
  rename_i pool hpool
  cases hlisten
  cases h
  have hsize : pool.workers.length = s.workers.toNat := by
    unfold Pool.create at hpool
    split at hpool
    · cases hpool
    · cases hpool
      exact List.length_replicate ..
  refine ⟨_, List.getElem?_set_self ?_, rfl, hsize⟩
  simp

end Daemon

/-! ## Both programs -/

/-- What the two programs do with their command lines and a settings file. -/
structure InLayers (args : List String) (n : Network) (m : Machine) (file : Layer) : Prop where
  /-- The client carries its command out with the merged settings, or refuses to. -/
  client (options : ClientOptions) : ClientOptions.parse args = .ok options →
    Settings.Gives m.files (options.tuning.file m.home) file →
    Starts file.settings ((options.tuning.layer none).atop file).settings
      (Client.perform options.command) n m (Client.run args n m)
  /-- The daemon makes ready and listens with them, or refuses to. -/
  daemon (options : DaemonOptions) : DaemonOptions.parse args = .ok options →
    Settings.Gives m.files (options.tuning.file m.home) file →
    Starts file.settings ((options.tuning.layer options.workers).atop file).settings
      (Daemon.openWith options) n m (Daemon.run args n m)
  /-- Its listener works with the merged settings and with so many workers. -/
  listener (options : DaemonOptions) {place : Nat} {n' : Network} {m' : Machine} :
    DaemonOptions.parse args = .ok options →
    Settings.Gives m.files (options.tuning.file m.home) file →
    Daemon.run args n m = (.serving place, n', m') →
    ∃ l, n'.listeners[place]? = some l ∧
      l.context.settings = ((options.tuning.layer options.workers).atop file).settings ∧
      l.workers = ((options.tuning.layer options.workers).atop file).settings.workers.toNat

/-- **The command line wins over the file, and the file over the defaults**, where the file is
sound by itself. -/
theorem runs_in_layers (args : List String) (n : Network) (m : Machine) (file : Layer) :
    InLayers args n m file where
  client options hparse hfile := by
    rw [Client.run_eq hparse]
    exact .of_settings (fun _ => Tuning.resolve_of_flaw hfile) (Tuning.resolve_eq hfile)
  daemon options hparse hfile := Daemon.starts hparse n m hfile
  listener options place n' m' hparse hfile hrun := by
    have hstarts := Daemon.starts hparse n m hfile
    by_cases hboth : file.settings.Sound ∧
        ((options.tuning.layer options.workers).atop file).settings.Sound
    · rw [hstarts.runs hboth.1 hboth.2] at hrun
      exact Daemon.listener_of_openWith hrun
    · obtain ⟨flaw, -, hrefused⟩ := hstarts.refuses hboth
      rw [hrefused] at hrun
      cases hrun

/-- A working folder with a file `conf`. -/
def filesWith (content : Bytes) : Files :=
  { tree := ⟨[([], .folder 0o755), ([bytes "conf"], .file 0o644 1 content)]⟩, here := [] }

/-- A file with a document in it gives what the document says. -/
theorem gives_conf {conf : String} {ms : Toml.Members} {s : Settings}
    (hparse : Toml.parse conf.toList = .ok ms) (hms : Settings.ofMembers ms = .ok s) :
    Settings.Gives (filesWith (bytes conf)) (.of "conf") (.ofMembers ms) := by
  -- where the path leads does not depend on the content
  have hstat (content : Bytes) : (filesWith content).stat (.of "conf") =
      .ok ([bytes "conf"], .file 0o644 1 content) := by
    cbv
  refine .read ?_ ?_ (Utf8.decode?_eq_some_iff.mpr rfl) hparse hms
  · rw [Files.existsAt, hstat]
    rfl
  · rw [Files.read, hstat]

/-- The file gives two fields; either program has one of them from its command line. -/
theorem runs_in_layers_both :
    let m : Machine := ⟨filesWith (bytes "base_rate = 9\nworkers = 7\n"), default, {}, none⟩
    let push : ClientOptions :=
      ⟨.push (.of "note") "ferry://host/", { config := some (.of "conf"), baseRate := some 5 }⟩
    let serve : DaemonOptions :=
      ⟨"host:1", .of "./archive", some 2, none, none, { config := some (.of "conf") }⟩
    ClientOptions.parse ["--config", "conf", "--base-rate=5", "push", "note", "ferry://host/"] =
        .ok push ∧
      DaemonOptions.parse ["-w", "2", "--config=conf", "--bind", "host:1"] = .ok serve ∧
      Settings.Gives m.files (.of "conf") { baseRate := some 9, workers := some 7 } ∧
      Client.run ["--config", "conf", "--base-rate=5", "push", "note", "ferry://host/"] {} m =
        Client.perform push.command ⟨3, 1000, 5, 7⟩ {} m ∧
      Daemon.run ["-w", "2", "--config=conf", "--bind", "host:1"] {} m =
        Daemon.openWith serve ⟨3, 1000, 9, 2⟩ {} m := by
  intro m push serve
  have hpush : ClientOptions.parse
      ["--config", "conf", "--base-rate=5", "push", "note", "ferry://host/"] = .ok push := rfl
  have hserve : DaemonOptions.parse ["-w", "2", "--config=conf", "--bind", "host:1"] =
      .ok serve := rfl
  have hfile : Settings.Gives m.files (.of "conf") { baseRate := some 9, workers := some 7 } := by
    have hms : Toml.parse "base_rate = 9\nworkers = 7\n".toList =
        .ok [("base_rate", .value (.integer 9) ⟨12, 1⟩),
          ("workers", .value (.integer 7) ⟨24, 1⟩)] := rfl
    exact gives_conf hms (s := { baseRate := 9, workers := 7 }) rfl
  exact ⟨hpush, hserve, hfile,
    ((runs_in_layers _ {} m _).client push hpush hfile).runs (by decide) (by decide),
    ((runs_in_layers _ {} m _).daemon serve hserve hfile).runs (by decide) (by decide)⟩

/-- **A file is refused by itself**, also where the command line would have mended its fault. -/
theorem file_refused :
    let m : Machine := ⟨filesWith (bytes "base_rate = 0\n"), default, {}, none⟩
    let args := ["--config", "conf", "--base-rate=5", "push", "note", "nowhere"]
    let options : ClientOptions :=
      ⟨.push (.of "note") "nowhere", { config := some (.of "conf"), baseRate := some 5 }⟩
    let merged := ((options.tuning.layer none).atop { baseRate := some 0 }).settings
    ClientOptions.parse args = .ok options ∧
      Settings.Gives m.files (.of "conf") { baseRate := some 0 } ∧ merged.Sound ∧
      Client.run args {} m = fail ["base_rate must be at least 1 byte/sec"] {} m ∧
      Client.run args {} m ≠ Client.perform options.command merged {} m := by
  intro m args options merged
  have hparse : ClientOptions.parse args = .ok options := rfl
  have hfile : Settings.Gives m.files (.of "conf") { baseRate := some 0 } := by
    have hms : Toml.parse "base_rate = 0\n".toList =
        .ok [("base_rate", .value (.integer 0) ⟨12, 1⟩)] := rfl
    exact gives_conf hms (s := { baseRate := 0 }) rfl
  have hrun : Client.run args {} m = fail ["base_rate must be at least 1 byte/sec"] {} m := by
    have hflaw : ({ baseRate := some 0 } : Layer).settings.flaw? = some .noRate := by decide
    rw [Client.run_eq hparse, Tuning.resolve_of_flaw hfile hflaw]
    rfl
  -- with the merged settings it would go on, and find fault with the address
  have hpush : Client.perform options.command merged {} m =
      fail ["not a ferry:// URL: nowhere"] {} m := by
    have haddress : Remote.parse "nowhere" = .error (.otherScheme "nowhere") := rfl
    show Client.push merged (.of "note") "nowhere" {} m = _
    rw [Client.push, haddress]
    rfl
  refine ⟨hparse, hfile, by decide, hrun, ?_⟩
  rw [hrun, hpush]
  intro h
  have hreport : report ["base_rate must be at least 1 byte/sec"] =
      report ["not a ferry:// URL: nowhere"] :=
    (List.cons.inj (congrArg (fun result => result.2.2.console.err) h)).1
  revert hreport
  decide

end Program

end Courier
