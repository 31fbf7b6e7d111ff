import Courier.CommandLine.Programs
import Courier.Endpoint.Dialer
import Courier.Program.Outcome

/-!
# The client

Sends or fetches one file and tells what came of it. Options come first, then the settings,
then the address; a connection is made only once all of them are sound.
-/

namespace Courier.Program.Client

/-- The remote path of an upload: that of the address, or else the name of the file. -/
def remotePath? (file : Path) (target : Remote) : Option String :=
  if target.path.isEmpty then file.fileName?.map Utf8.lossy else some target.path

def verb : Direction → String
  | .send => "sent"
  | .receive => "received"

def summary (r : Report) : String :=
  let note := if r.isEmptyReceive then " (empty file)" else ""
  s!"Transfer completed. Success: true{note}\n" ++
    s!"Total bytes {verb r.direction}: {r.size} in {r.seconds.fixed 2}s\n"

def emptyWarning (file : Path) : String :=
  s!"warning: received 0 bytes into {file.display}; the remote file may not exist"

def summarize (r : Report) (m : Machine) : Machine :=
  let m := if r.isEmptyReceive then m.warn (emptyWarning r.path) else m
  m.print (summary r)

def push (settings : Settings) (file : Path) (remote : String) (n : Network) (m : Machine) :
    Outcome × Network × Machine :=
  match Remote.parse remote with
  | .error flaw => fail [flaw.text] n m
  | .ok target =>
    match remotePath? file target with
    | none => fail [s!"cannot derive remote name from {file.display}"] n m
    | some path =>
      let m := m.print s!"Operation started: sending {file.display} to {remote}\n"
      match Dialer.upload ⟨target.host, target.port, settings⟩ file path n m with
      | (.error error, n, m) => failTransfer s!"send {file.display}" error n m
      | (.ok r, n, m) => (.done, n, summarize r m)

def pull (settings : Settings) (remote : String) (file : Path) (print : Bool) (n : Network)
    (m : Machine) : Outcome × Network × Machine :=
  match Remote.parse remote with
  | .error flaw => fail [flaw.text] n m
  | .ok target =>
    if target.path.isEmpty then fail [s!"remote path required: {remote}"] n m
    else
      let m := m.print s!"Operation started: receiving {remote} into {file.display}\n"
      match Dialer.download ⟨target.host, target.port, settings⟩ target.path file n m with
      | (.error error, n, m) => failTransfer s!"receive {remote}" error n m
      | (.ok r, n, m) =>
        let m := summarize r m
        (.done, n, if print then m.showContent r.path else m)

/-- What is printed when the user interrupts the client. -/
def interruption : String :=
  "\nInterrupted by user. Exiting (Ctrl-C)..."

def run (args : List String) (n : Network) (m : Machine) : Outcome × Network × Machine :=
  match CommandLine.ClientOptions.parse args with
  | .error refusal => (.refused refusal, n, m)
  | .ok options =>
    match options.tuning.resolve m.home m.files with
    | .error error => fail error.texts n m
    | .ok settings =>
      match options.command with
      | .push file remote => push settings file remote n m
      | .pull remote file print => pull settings remote file print n m

end Courier.Program.Client
