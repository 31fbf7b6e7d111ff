import Courier.Files.Basic
import Courier.Settings.Text
import Courier.Transfer.Staged

/-!
# The settings file

Settings are read from a file, or from a file of the user where no other is named; a missing
file stands for the values used without one. They are saved through a temporary file that
takes the place of the old one, so that a failed saving leaves that as it was. What is given
on the command line wins over the file.

* `Settings.load`, `Settings.save`;
* `Tuning.resolve`: the settings that a program runs with.
-/

namespace Courier

namespace Settings

/-! ## The user's file -/

def userFolder (home : Option Path) : Path :=
  match home with
  | some home => (home.join (.of ".config")).join (.of "ferry")
  | none => .of ".ferry"

def userFile (home : Option Path) : Path :=
  (userFolder home).join (.of "ferry.toml")

/-! ## Loading -/

inductive LoadError where
  | notRead (path : Path) (fault : Fault)
  /-- What is wrong with the text, in words. -/
  | notToml (path : Path) (problem : String)
  | flawed (flaw : Flaw)
deriving DecidableEq, Repr, Inhabited

/-- What is said of the error, and then of what is behind it. -/
def LoadError.texts : LoadError → List String
  | .notRead path fault => [s!"read config {path.display}", fault.text]
  | .notToml path problem => [s!"parse config {path.display}", problem]
  | .flawed flaw => [flaw.text]

def validated (s : Settings) : Except LoadError Settings :=
  match s.flaw? with
  | some flaw => .error (.flawed flaw)
  | none => .ok s

def ofContent (path : Path) (content : Bytes) : Except LoadError Settings :=
  match Utf8.decode? content with
  | none => .error (.notRead path .notText)
  | some text =>
    match parse text.toList with
    | .error problem => .error (.notToml path (problem.text text.toList))
    | .ok s => s.validated

def load (fs : Files) (path : Path) : Except LoadError Settings :=
  if fs.existsAt path then
    match fs.read path with
    | .error f => .error (.notRead path f)
    | .ok content => ofContent path content
  else .ok {}

/-! ## Saving -/

inductive SaveError where
  /-- A field is beyond the numbers of TOML. -/
  | tooLarge
  | notStaged (path : Path) (fault : Fault)
  | notWritten (path : Path) (fault : Fault)
  /-- The temporary file did not take the place of the old one. It stays as long as the error is
  held. -/
  | notPersisted (temporary : Path) (fault : Fault)
deriving DecidableEq, Repr, Inhabited

def SaveError.texts : SaveError → List String
  | .tooLarge => ["out-of-range value for u64 type"]
  | .notStaged path fault | .notWritten path fault =>
    [(Staged.faultAt fault path).text, fault.text]
  | .notPersisted _ fault => [s!"failed to persist temporary file: {fault.text}", fault.text]

/-- What becomes of the files when the error is let go of. -/
def SaveError.drop (e : SaveError) (fs : Files) : Files :=
  match e with
  | .notPersisted temporary _ => (fs.remove temporary).2
  | _ => fs

def temporaryLead : Bytes :=
  bytes ".tmp"

def save (s : Settings) (path : Path) (fs : Files) : Except SaveError Unit × Files :=
  -- folders that cannot be made are found out about when the temporary file is
  let fs := (fs.makeFolders path.folder).2
  match s.render? with
  | none => (.error .tooLarge, fs)
  | some text =>
    let folder := (Files.pathOf fs.here).join path.folder
    match Files.createUnique folder temporaryLead [] 0o600 fs.draws fs with
    | (.error (f, p), fs) => (.error (.notStaged p f), fs)
    | (.ok (temporary, handle), fs) =>
      match fs.append handle (Utf8.encodeChars text) with
      | (.error f, fs) => (.error (.notWritten temporary f), (fs.remove temporary).2)
      | (.ok (), fs) =>
        match fs.rename temporary path with
        | (.ok (), fs) => (.ok (), fs)
        -- the temporary file is kept in the error, and so it is still there
        | (.error f, fs) => (.error (.notPersisted temporary f), fs)

end Settings

/-! ## Values given on the command line -/

structure Tuning where
  config : Option Path := none
  maxRetries : Option UInt32 := none
  retryDelayMillis : Option UInt64 := none
  baseRate : Option UInt64 := none
deriving DecidableEq, Repr, Inhabited

namespace Tuning

/-- Settings with every field that is given replaced. -/
def apply (t : Tuning) (s : Settings) : Settings :=
  { s with
    maxRetries := t.maxRetries.getD s.maxRetries
    retryDelayMillis := t.retryDelayMillis.getD s.retryDelayMillis
    baseRate := t.baseRate.getD s.baseRate }

/-- The settings of the file, checked, with those of the command line, checked again. -/
def resolve (t : Tuning) (home : Option Path) (fs : Files) : Except Settings.LoadError Settings :=
  match Settings.load fs (t.config.getD (Settings.userFile home)) with
  | .error e => .error e
  | .ok s => (t.apply s).validated

end Tuning

end Courier
