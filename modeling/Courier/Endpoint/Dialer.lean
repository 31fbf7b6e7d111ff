import Courier.Endpoint.Network

/-!
# Dialers

The calling side: one connection for each file that is sent or fetched.

* `Dialer.upload`: sends a file under a remote path;
* `Dialer.download`: fetches a remote path into a file.
-/

namespace Courier

structure Dialer where
  host : String
  port : Nat
  settings : Settings
deriving DecidableEq, Repr, Inhabited

namespace Dialer

/-- What goes over the connection of an upload: the header and then the file. -/
def deliver (d : Dialer) (file : Path) (remote : String) (m : Machine) :
    Except TransferError Report × Outbound × Machine :=
  match Header.write ⟨.store, remote⟩ .willing m.ambient with
  | (.error e, s, ambient) => (.error e, s, { m with ambient })
  | (.ok (), s, ambient) =>
    let (result, s, ambient) := Transfer.sendFile d.settings m.files file s ambient
    (result, s, { m with ambient })

/-- Sends a regular file and waits until the listener has closed the connection. Of how the
session over there went nothing is heard. -/
def upload (d : Dialer) (file : Path) (remote : String) (n : Network) (m : Machine) :
    Except TransferError Report × Network × Machine :=
  if m.files.isFile file then
    match n.connect d.host d.port with
    | .error f => (.error (.transport (.connect d.host d.port) f), n, m)
    | .ok (place, peer, n) =>
      let (result, s, m) := d.deliver file remote m
      let (_, n, m) := n.exchange place peer s.wire m
      (result, n, m)
  else (.error (.filesystem .openSource file Session.noRegularFile), n, m)

/-- Fetches into a file what the listener sends until it closes the connection. -/
def download (d : Dialer) (remote : String) (file : Path) (n : Network) (m : Machine) :
    Except TransferError Report × Network × Machine :=
  match n.connect d.host d.port with
  | .error f => (.error (.transport (.connect d.host d.port) f), n, m)
  | .ok (place, peer, n) =>
    let (asked, s, ambient) := Header.write ⟨.retrieve, remote⟩ .willing m.ambient
    let (octets, n, m) := n.exchange place peer s.wire { m with ambient }
    match asked with
    | .error e => (.error e, n, m)
    | .ok () =>
      let (result, _, ambient, files) :=
        Transfer.receiveFile d.settings file (.ofBytes octets) m.ambient m.files
      (result, n, { m with ambient, files })

end Dialer

end Courier
