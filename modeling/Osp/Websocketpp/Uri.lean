import Osp.Lib.Libc
import Osp.Lib.Search

/-!
# URIs

The class `uri` of `uri.hpp`. A string is read once; an object that is not valid is left out, as nothing is asked of it.
-/

namespace Osp.Websocketpp

open Lib

/-- A valid `uri`. -/
structure Uri where
  scheme : Bytes
  secure : Bool
  host : Bytes
  port : Nat
  resource : Bytes
deriving DecidableEq

/-- The schemes in the order in which they are tried, and whether they are secure. -/
def schemes : List (Bytes × Bool) :=
  [(textBytes "wss", true), (textBytes "ws", false), (textBytes "http", false), (textBytes "https", true)]

/-- A scheme and the rest, which has at least one character. -/
def readScheme (s : Bytes) : Option (Bytes × Bool × Bytes) :=
  schemes.findSome? fun (scheme, secure) =>
    let lead := scheme ++ textBytes "://"
    if lead.length < s.length ∧ lead <+: s then some (scheme, secure, s.drop lead.length) else none

/-- A character that does not end the name of a host. -/
def isHostChar (c : UInt8) : Bool := c ≠ 47 && c ≠ 58

/-- A host, which loses its brackets, and the rest. -/
def readHost (s : Bytes) : Option (Bytes × Bytes) :=
  if s.head? = some 91 then search [93] s.tail else some (s.takeWhile isHostChar, s.dropWhile isHostChar)

/-- The text of a port, which is empty if there is none, and what follows the slash. -/
def readPort : Bytes → Option (Bytes × Bytes)
  | [] => some ([], [])
  | 47 :: s => some ([], s)
  | 58 :: s => some (s.takeWhile (· ≠ 47), (s.dropWhile (· ≠ 47)).drop 1)
  | _ => none

/-- `uri_default_secure_port` and `uri_default_port`. -/
def defaultPort (secure : Bool) : Nat := if secure then 443 else 80

/-- `get_port_from_string`. The number of `atoi` is that of `strtol`, cut to 32 bits. -/
def getPortFromString (secure : Bool) (port : Bytes) : Option Nat :=
  if port = [] then some (defaultPort secure)
  else
    let port := ((strtoll port).1 % 2 ^ 32).toNat
    if 65535 < port ∨ port = 0 then none else some port

namespace Uri

/-- The constructor from a string. -/
def parse (s : Bytes) : Option Uri := do
  let (scheme, secure, s) ← readScheme s
  let (host, s) ← readHost s
  let (port, s) ← readPort s
  let port ← getPortFromString secure port
  some ⟨scheme, secure, host, port, 47 :: s⟩

/-- The port as it is printed: not at all if it is the default. -/
def portText (u : Uri) : Bytes := if u.port = defaultPort u.secure then [] else 58 :: decimalBytes u.port

/-- `get_host_port`. -/
def getHostPort (u : Uri) : Bytes := u.host ++ u.portText

/-- `str`. -/
def str (u : Uri) : Bytes := u.scheme ++ textBytes "://" ++ (u.host ++ u.portText ++ u.resource)

end Uri

end Osp.Websocketpp
