import Courier.Files.Basic
import Courier.Stream.Outbound
import Courier.Text.Lines

/-!
# Showing a received file

A received file can be shown line by line between two banners. Octets that are no text appear
as `U+FFFD`, and every line ends with a line feed.
-/

namespace Courier.Transfer

/-- The pieces in which a file is shown: the first banner, for each line its text and its end,
and the last banner. -/
def contentPieces (content : Bytes) : List Bytes :=
  let shown := Text.lines '\n' '\r' (Utf8.lossy content).toList
  bytes "\n=== File Content ===\n" ::
    shown.flatMap (fun line => [Utf8.encodeChars line, bytes "\n"]) ++
    [bytes "=== End of File ===\n\n"]

def writePieces : List Bytes → Outbound → Ambient → Except Fault Unit × Outbound × Ambient
  | [], s, a => (.ok (), s, a)
  | piece :: rest, s, a =>
    match s.writeAll piece a with
    | (.error f, s, a) => (.error f, s, a)
    | (.ok (), s, a) => writePieces rest s a

/-- Writes the file at a path to a stream. -/
def writeContent (fs : Files) (p : Path) (s : Outbound) (a : Ambient) :
    Except Fault Unit × Outbound × Ambient :=
  match fs.read p with
  | .error f => (.error f, s, a)
  | .ok content =>
    match writePieces (contentPieces content) s a with
    | (.error f, s, a) => (.error f, s, a)
    | (.ok (), s, a) => (s.flush, s, a)

end Courier.Transfer
