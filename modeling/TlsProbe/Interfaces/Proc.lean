import TlsProbe.Interfaces.Basic
import TlsProbe.Listeners.Proc

-- The lines of `/proc/net/route` and `/proc/net/if_inet6`, as Linux prints them on a little-endian
-- host.
namespace TlsProbe.Interfaces

open Listeners (Text LinePart hex leValue isWhitespace)

-- The name of an interface. The kernel takes none with blanks in it.
abbrev Name := { name : Text // Words.IsWord isWhitespace name }

-- A route, with its destination and its gateway in network order.
structure Route where
  iface   : Name
  dest    : Vector UInt8 4
  gateway : Vector UInt8 4
  fields  : LinePart

-- `%s\t%08X\t%08X\t`
def Route.line (route : Route) : Text :=
  route.iface.val ++ '\t' :: (hex 8 (leValue route.dest) ++
    '\t' :: (hex 8 (leValue route.gateway) ++ '\t' :: route.fields.val))

structure RouteTable where
  titles : LinePart
  routes : List Route

def RouteTable.print (table : RouteTable) : Text :=
  Words.unlines '\n' (table.titles.val :: table.routes.map Route.line)

-- `%02x`
def lowerHex (byte : UInt8) : Text :=
  Digits.padded 16 2 byte.toNat

structure IfAddr where
  octets    : Vector UInt8 16
  ifindex   : UInt8
  prefixLen : UInt8
  scope     : UInt8
  flags     : UInt8
  iface     : Name

-- `%pi6 %02x %02x %02x %02x %8s`
def IfAddr.line (addr : IfAddr) : Text :=
  addr.octets.toList.flatMap lowerHex ++ ' ' :: (lowerHex addr.ifindex ++
    ' ' :: (lowerHex addr.prefixLen ++ ' ' :: (lowerHex addr.scope ++
      ' ' :: (lowerHex addr.flags ++ ' ' ::
        (List.replicate (8 - addr.iface.val.length) ' ' ++ addr.iface.val)))))

def printAddrs (addrs : List IfAddr) : Text :=
  Words.unlines '\n' (addrs.map IfAddr.line)

namespace Route

-- The destination is in 169.254.0.0/16.
def LinkLocal (route : Route) : Prop :=
  route.dest.toList.take 2 = [169, 254]

instance {route : Route} : Decidable route.LinkLocal :=
  inferInstanceAs (Decidable (_ = _))

def Routable (route : Route) (iface : Text) : Prop :=
  route.iface.val = iface ∧ (¬route.LinkLocal ∨ route.gateway ≠ .replicate 4 0)

instance {route : Route} {iface : Text} : Decidable (route.Routable iface) :=
  inferInstanceAs (Decidable (_ ∧ (_ ∨ _)))

end Route

def IfAddr.Routable (addr : IfAddr) (iface : Text) : Prop :=
  addr.iface.val = iface ∧ addr.scope ≠ 0x20

instance {addr : IfAddr} {iface : Text} : Decidable (addr.Routable iface) :=
  inferInstanceAs (Decidable (_ ∧ _))

inductive OperState
  | unknown
  | notPresent
  | down
  | lowerLayerDown
  | testing
  | dormant
  | up
  deriving DecidableEq

def OperState.print : OperState → Text
  | unknown        => "unknown\n".toList
  | notPresent     => "notpresent\n".toList
  | down           => "down\n".toList
  | lowerLayerDown => "lowerlayerdown\n".toList
  | testing        => "testing\n".toList
  | dormant        => "dormant\n".toList
  | up             => "up\n".toList

-- What there is to know of the interfaces of a host. Without IPv6 there is no second table, and
-- there can be entries in the directory that are no interfaces.
structure Net where
  routes    : RouteTable
  addrs     : Option (List IfAddr)
  devices   : List Text
  operstate : Text → Option OperState

namespace Net

variable (net : Net)

def host : Host where
  procRoute     := .ok net.routes.print
  procIfInet6   :=
    match net.addrs with
    | some addrs => .ok (printAddrs addrs)
    | none       => .error "No such file or directory"
  sysfsNetDir   := .ok (net.devices.map some)
  operstate     := fun iface =>
    match net.operstate iface with
    | some state => .ok state.print
    | none       => .error "No such file or directory"

-- The interfaces to watch: they are up and have addresses that are not those of a link only.
def Watchable (iface : Text) : Prop :=
  iface ≠ "lo".toList ∧
  (net.operstate iface = some .up ∨ net.operstate iface = some .unknown) ∧
  ((∃ route ∈ net.routes.routes, route.Routable iface) ∨
    ∃ addr ∈ net.addrs.getD [], addr.Routable iface)

instance : DecidablePred net.Watchable :=
  fun _ => inferInstanceAs (Decidable (_ ∧ (_ ∨ _) ∧ (_ ∨ _)))

end Net

-- A name in the list of `--interface`, with blanks around it.
structure Item where
  before : Nat
  name   : Name
  after  : Nat
  single : ',' ∉ name.val

def Item.print (item : Item) : Text :=
  List.replicate item.before ' ' ++ (item.name.val ++ List.replicate item.after ' ')

def printItems (items : List Item) : Text :=
  [','].intercalate (items.map Item.print)

-- What `--interface` says. A list of names is not one of the two modes.
inductive Selection
  | auto
  | all
  | names (items : List Item) (nonempty : items ≠ []) (notAuto : printItems items ≠ "auto".toList)
      (notAll : printItems items ≠ "all".toList)

def Selection.print : Selection → Text
  | auto            => "auto".toList
  | all             => "all".toList
  | names items ..  => printItems items

-- The interfaces that are selected.
def Net.selected (net : Net) : Selection → Except ProbeError (List Text)
  | .auto           =>
    match net.routes.routes.find? (·.dest = .replicate 4 0) with
    | some route => .ok [route.iface.val]
    | none       => .error <| .loadError
      "No default route found. Use --interface to specify explicitly."
  | .all            =>
    if net.devices.filter net.Watchable = [] then
      .error (.loadError "No routable interfaces found. Use --interface to specify explicitly.")
    else
      .ok (net.devices.filter net.Watchable)
  | .names items .. => .ok (items.map (·.name.val))

end TlsProbe.Interfaces
