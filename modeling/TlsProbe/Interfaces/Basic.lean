import TlsProbe.Listeners.Table

namespace TlsProbe.Interfaces

open Listeners (Text File isWhitespace splitWhitespace fromStrRadix lines)

inductive ProbeError
  | loadError (message : String)
  | attachError (message : String)
  deriving DecidableEq

-- What the program finds on its host when it looks for interfaces: the two tables, the entries of
-- the directory of the interfaces, and the states of the interfaces.
structure Host where
  procRoute   : File
  procIfInet6 : File
  sysfsNetDir : Except String (List (Option Text))
  operstate   : Text → File

def loopbackIface : Text := "lo".toList

def defaultRouteDest : Text := "00000000".toList

def activeOperstates : List Text := ["up".toList, "unknown".toList]

def ipv4LinkLocalPrefix : UInt32 := 0x0000fea9

def ipv4LinkLocalMask : UInt32 := 0x0000ffff

def ipv6ScopeLinkLocal : UInt32 := 0x20

-- `u32::from_str_radix(src, 16)`
def u32FromHex (src : Text) : Option UInt32 :=
  (fromStrRadix 32 src).map .ofNat

-- `str::trim`
def trim (s : Text) : Text :=
  ((s.dropWhile isWhitespace).reverse.dropWhile isWhitespace).reverse

section Lines

-- The interface of a line that has the default route.
def defaultIface (line : Text) : Option Text :=
  match splitWhitespace line with
  | iface :: dest :: _ => if dest = defaultRouteDest then some iface else none
  | _                  => none

-- Whether the line has a route of the interface that leads out of its link.
def isRoutableRoute (iface line : Text) : Bool :=
  match splitWhitespace line with
  | name :: dest :: gateway :: _ =>
    name = iface &&
      match u32FromHex dest with
      | some dest =>
        -- A gateway that cannot be read counts as none.
        let gateway := (u32FromHex gateway).getD 0
        dest &&& ipv4LinkLocalMask != ipv4LinkLocalPrefix || gateway != 0
      | none      => false
  | _ => false

-- Whether the line has an address of the interface that is not of its link only.
def isRoutableAddr (iface line : Text) : Bool :=
  match splitWhitespace line with
  | _ :: _ :: _ :: scope :: _ :: name :: _ =>
    name = iface &&
      match u32FromHex scope with
      | some scope => scope != ipv6ScopeLinkLocal
      | none       => false
  | _ => false

end Lines

namespace Host

variable (host : Host)

def detectDefaultInterface : Except ProbeError Text :=
  match host.procRoute with
  | .error e  => .error (.loadError ("Failed to read route table: " ++ e))
  | .ok route =>
    match ((lines route).drop 1).findSome? defaultIface with
    | some iface => .ok iface
    | none       => .error <| .loadError
      "No default route found. Use --interface to specify explicitly."

def isOperationallyUp (iface : Text) : Bool :=
  match host.operstate iface with
  | .ok s    => activeOperstates.contains (trim s)
  | .error _ => false

def hasRoutableIpv4 (iface : Text) : Bool :=
  match host.procRoute with
  | .ok route => ((lines route).drop 1).any (isRoutableRoute iface)
  | .error _  => false

def hasRoutableIpv6 (iface : Text) : Bool :=
  match host.procIfInet6 with
  | .ok content => (lines content).any (isRoutableAddr iface)
  | .error _    => false

def hasRoutableAddress (iface : Text) : Bool :=
  host.hasRoutableIpv4 iface || host.hasRoutableIpv6 iface

def detectRoutableInterfaces : Except ProbeError (List Text) :=
  match host.sysfsNetDir with
  | .error e    => .error (.loadError ("Failed to read /sys/class/net: " ++ e))
  | .ok entries =>
    let candidates := (entries.filterMap id).filter fun name =>
      name ≠ loopbackIface && host.isOperationallyUp name && host.hasRoutableAddress name
    if candidates.isEmpty then
      .error (.loadError "No routable interfaces found. Use --interface to specify explicitly.")
    else
      .ok candidates

def detectInterfaces (mode : Text) : Except ProbeError (List Text) :=
  if mode = "auto".toList then
    host.detectDefaultInterface.map fun iface => [iface]
  else if mode = "all".toList then
    host.detectRoutableInterfaces
  else
    .ok ((mode.splitOn ',').map trim)

end Host

inductive EbpfProgram
  | ingress
  | egress
  deriving DecidableEq

-- The loader, and the programs that it has attached to interfaces.
structure Loader where
  programsLoaded     : Bool
  attachedInterfaces : List Text
  links              : List (EbpfProgram × Text)

-- The errors that the calls give which load and attach programs, if they fail. Each interface of a
-- list has calls of its own.
structure Calls where
  loadPrograms : Option ProbeError
  attach       : Nat → EbpfProgram → Option ProbeError

namespace Loader

def loadPrograms (calls : Calls) (loader : Loader) : Except ProbeError Loader :=
  match calls.loadPrograms with
  | some e => .error e
  | none   => .ok { loader with programsLoaded := true }

-- The egress classifier is not attached where the ingress one cannot be.
def attachInterface (attach : EbpfProgram → Option ProbeError) (iface : Text) (loader : Loader) :
    Loader × Option ProbeError :=
  match attach .ingress with
  | some e => (loader, some e)
  | none   =>
    let loader := { loader with links := loader.links ++ [(.ingress, iface)] }
    match attach .egress with
    | some e => (loader, some e)
    | none   => ({ loader with links := loader.links ++ [(.egress, iface)] }, none)

-- A turn of the loop over the interfaces, which also notes the names of what it attaches.
def attachNext (attach : Nat → EbpfProgram → Option ProbeError) :
    Loader × List Text → Text × Nat → Loader × List Text
  | (loader, attached), (iface, i) =>
    match loader.attachInterface (attach i) iface with
    | (loader, some _) => (loader, attached)
    | (loader, none)   =>
      ({ loader with attachedInterfaces := loader.attachedInterfaces ++ [iface] },
        attached ++ ["tc:".toList ++ iface ++ ":ingress".toList,
          "tc:".toList ++ iface ++ ":egress".toList])

def attach (calls : Calls) (interfaces : List Text) (loader : Loader) :
    Except ProbeError (Loader × List Text) := do
  let loader ← if loader.programsLoaded then .ok loader else loader.loadPrograms calls
  let (loader, attached) := interfaces.zipIdx.foldl (attachNext calls.attach) (loader, [])
  if attached.isEmpty then
    .error <| .attachError "No probes were attached. Use --interface to specify a valid interface."
  else
    return (loader, attached)

def new : Loader where
  programsLoaded     := false
  attachedInterfaces := []
  links              := []

end Loader

-- How the program starts to watch interfaces.
def start (host : Host) (calls : Calls) (mode : Text) :
    Except ProbeError (Loader × List Text) := do
  let interfaces ← host.detectInterfaces mode
  Loader.new.attach calls interfaces

end TlsProbe.Interfaces
