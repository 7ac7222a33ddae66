import TlsProbe.Lib.Digits
import TlsProbe.Lib.Words
import TlsProbe.Listeners.Basic

-- The lines of `/proc/net/tcp` and `/proc/net/tcp6`, as Linux prints them on a little-endian host.
namespace TlsProbe.Listeners

-- `%08X`, or with another number of digits
def hex (digits n : Nat) : Text :=
  (Digits.padded 16 digits n).map Char.toUpper

-- A word of an IPv6 address.
def word (octets : Vector UInt8 16) (i : Fin 4) : Vector UInt8 4 :=
  .ofFn fun j => octets[4 * i.val + j.val]

namespace IpAddr

-- The 32-bit words in network order.
def words : IpAddr → List (Vector UInt8 4)
  | v4 octets => [octets]
  | v6 octets => [word octets 0, word octets 1, word octets 2, word octets 3]

-- The address with the bytes of each word turned around.
def swapped : IpAddr → IpAddr
  | v4 octets => .v4 octets.reverse
  | v6 octets => .v6 ((word octets 0).reverse ++ (word octets 1).reverse ++
      (word octets 2).reverse ++ (word octets 3).reverse)

-- The parser that goes with an address.
def parser : IpAddr → ParseAddr
  | v4 _ => parseIpv4Hex
  | v6 _ => parseIpv6Hex .little

end IpAddr

def hexAddr (addr : IpAddr) : Text :=
  addr.words.flatMap fun word => hex 8 (leValue word)

def hexSocket (addr : IpAddr) (port : UInt16) : Text :=
  hexAddr addr ++ ':' :: hex 4 port.toNat

-- What stands in front of the sockets: `%4d: `
def lineNumber (sl : Nat) : Text :=
  let digits := Nat.toDigits 10 sl
  List.replicate (4 - digits.length) ' ' ++ digits ++ [':', ' ']

-- The line of a listening socket. What comes behind the state may be anything.
def procLine (sl : Nat) (addr : IpAddr) (port : UInt16) (remAddr : IpAddr) (remPort : UInt16)
    (fields : Text) : Text :=
  lineNumber sl ++ hexSocket addr port ++ ' ' :: (hexSocket remAddr remPort ++
    ' ' :: (hex 2 stateListen ++ ' ' :: fields))

-- The text does not end the line that it is printed on.
def OnLine (text : Text) : Prop :=
  ∀ c ∈ text, c ≠ '\n' ∧ c ≠ '\r'

abbrev LinePart := { text : Text // OnLine text }

-- A socket of one family, in any state.
structure Socket (Octets : Type) where
  addr    : Octets
  port    : UInt16
  remAddr : Octets
  remPort : UInt16
  state   : UInt8
  fields  : LinePart

namespace Socket

variable {Octets : Type} (ip : Octets → IpAddr)

def line (sl : Nat) (socket : Socket Octets) : Text :=
  lineNumber sl ++ hexSocket (ip socket.addr) socket.port ++
    ' ' :: (hexSocket (ip socket.remAddr) socket.remPort ++
      ' ' :: (hex 2 socket.state.toNat ++ ' ' :: socket.fields.val))

-- What the socket is read as, if it listens.
def listens (socket : Socket Octets) : Option ListenEntry :=
  if socket.state.toNat = stateListen then some ⟨(ip socket.addr).swapped, socket.port⟩ else none

end Socket

-- One of the files: a line of titles, and the lines of the sockets.
structure SocketTable (Octets : Type) where
  titles  : LinePart
  sockets : List (Socket Octets)

def SocketTable.print {Octets : Type} (ip : Octets → IpAddr) (table : SocketTable Octets) : Text :=
  Words.unlines '\n' <|
    table.titles.val :: table.sockets.zipIdx.map fun (socket, sl) => socket.line ip sl

-- What is read of the sockets of a file, which may be missing.
def SocketTable.listening {Octets : Type} (ip : Octets → IpAddr)
    (table : Option (SocketTable Octets)) : List ListenEntry :=
  table.toList.flatMap fun table => table.sockets.filterMap (·.listens ip)

end TlsProbe.Listeners
