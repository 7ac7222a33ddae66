import TlsProbe.Classifier.Frame
import TlsProbe.Common.Wire
import TlsProbe.Process.Basic

namespace TlsProbe.Process

-- The addresses of the two ends of a connection, that of the host first.
inductive Addrs
  | v4 (host peer : Vector UInt8 4)
  | v6 (host peer : Vector UInt8 16)
  deriving DecidableEq

structure Connection where
  addrs    : Addrs
  hostPort : UInt16
  peerPort : UInt16
  deriving DecidableEq

def Connection.isIpv6 (conn : Connection) : Bool :=
  match conn.addrs with
  | .v4 .. => false
  | .v6 .. => true

-- An IPv4 address in front of zeros.
def padded (addr : Vector UInt8 4) : Addr :=
  addr ++ (.replicate 12 0 : Vector UInt8 12)

-- `::ffff:a.b.c.d`
def mapped (addr : Vector UInt8 4) : Addr :=
  (#v[0, 0, 0, 0, 0, 0, 0, 0, 0, 0, 0xff, 0xff] : Vector UInt8 12) ++ addr

-- The key of a connection: the host comes first, and IPv4 addresses are padded.
def Connection.key (conn : Connection) : ConnKey :=
  match conn.addrs with
  | .v4 host peer => ⟨padded host, padded peer, conn.hostPort, conn.peerPort⟩
  | .v6 host peer => ⟨host, peer, conn.hostPort, conn.peerPort⟩

-- The connection that a packet belongs to, as its sender or its receiver has it.
def connectionOf (pkt : Packet) (isEgress : Bool) : Connection :=
  let ports := (pkt.word pkt.tcpHeader, pkt.word (pkt.tcpHeader + 2))
  let addrs :=
    match pkt.isIpv6, isEgress with
    | false, true  => .v4 (pkt.field 4 26) (pkt.field 4 30)
    | false, false => .v4 (pkt.field 4 30) (pkt.field 4 26)
    | true, true   => .v6 (pkt.field 16 22) (pkt.field 16 38)
    | true, false  => .v6 (pkt.field 16 38) (pkt.field 16 22)
  if isEgress then
    ⟨addrs, ports.1, ports.2⟩
  else
    ⟨addrs, ports.2, ports.1⟩

-- The key with which the classifier looks for the process of a packet.
def lookupKey (pkt : Packet) (isEgress : Bool) : Option ConnKey :=
  (Classifier.segment pkt).map (Classifier.checkKey · isEgress)

inductive Family
  | inet
  | inet6
  deriving DecidableEq

def Family.code : Family → UInt16
  | .inet  => afInet
  | .inet6 => afInet6

-- A socket that has a connection. IPv6 needs a socket of its own family, IPv4 does not.
structure Socket where
  ptr     : UInt64
  family  : Family
  conn    : Connection
  ptr_ne  : ptr ≠ 0
  of_ipv6 : conn.isIpv6 → family = .inet6

-- Whether a socket of the family of IPv6 has a connection over IPv4.
def Socket.isMapped (sock : Socket) : Bool :=
  sock.family = .inet6 && !sock.conn.isIpv6

-- `u16::to_ne_bytes`
def u16ToNeBytes : Endian → UInt16 → Vector UInt8 2
  | .little, v => #v[.ofNat v.toNat, .ofNat (v.toNat / 256)]
  | .big,    v => #v[.ofNat (v.toNat / 256), .ofNat v.toNat]

-- The fields of `sock_common` for a socket that has its connection.
structure Holds (endian : Endian) (memory : Memory) (sock : Socket) : Prop where
  family : memory 2 (sock.ptr + skcFamilyOffset) = some (u16ToNeBytes endian sock.family.code)
  num    : memory 2 (sock.ptr + skcNumOffset) = some (u16ToNeBytes endian sock.conn.hostPort)
  dport  : memory 2 (sock.ptr + skcDportOffset) = some (u16ToNeBytes .big sock.conn.peerPort)
  v4     : ∀ host peer, sock.conn.addrs = .v4 host peer →
    memory 4 (sock.ptr + skcRcvSaddrOffset) = some host ∧
    memory 4 (sock.ptr + skcDaddrOffset) = some peer
  v6     : ∀ host peer, sock.conn.addrs = .v6 host peer →
    memory 16 (sock.ptr + skcV6RcvSaddrOffset) = some host ∧
    memory 16 (sock.ptr + skcV6DaddrOffset) = some peer

-- The fields of IPv6 addresses for a connection over IPv4.
def HoldsMapped (memory : Memory) (sock : Socket) : Prop :=
  ∀ host peer, sock.conn.addrs = .v4 host peer →
    memory 16 (sock.ptr + skcV6RcvSaddrOffset) = some (mapped host) ∧
    memory 16 (sock.ptr + skcV6DaddrOffset) = some (mapped peer)

inductive Opening
  | connect
  | accept
  deriving DecidableEq

-- The probes that fire in a task while a socket gets its connection. To connect to an IPv4 address,
-- `tcp_v6_connect` calls `tcp_v4_connect`.
inductive Opens (endian : Endian) (sock : Socket) : Opening → List Probe → Prop
  | inet {memory} (f : sock.family = .inet) (h : Holds endian memory sock) :
    Opens endian sock .connect [.tcpV4Connect (some sock.ptr), .tcpV4ConnectRet 0 memory]
  | inet6 {memory} (v : sock.conn.isIpv6) (h : Holds endian memory sock) :
    Opens endian sock .connect [.tcpV6Connect (some sock.ptr), .tcpV6ConnectRet 0 memory]
  | mapped {memory memory'} (m : sock.isMapped) (h : Holds endian memory sock) :
    Opens endian sock .connect [
      .tcpV6Connect (some sock.ptr), .tcpV4Connect (some sock.ptr),
      .tcpV4ConnectRet 0 memory, .tcpV6ConnectRet 0 memory']
  | accept {memory} (h : Holds endian memory sock)
    (m : sock.family = .inet6 → HoldsMapped memory sock) :
    Opens endian sock .accept [.inetCskAccept sock.ptr memory]

-- The probes that fire in a task.
def probesOf (pidTgid : UInt64) (events : List Event) : List Probe :=
  events.filterMap fun
    | .fires task probe => if task.pidTgid = pidTgid then some probe else none
    | _                 => none

end TlsProbe.Process
