import Mathlib.Data.List.Infix

namespace TlsProbe

structure ContainerIdentity where
  containerId : String
  podUid      : Option String
  deriving DecidableEq, Repr

-- A path is the text of it, and its segments are what stands between slashes.
abbrev CgroupPath := List Char

-- The id in the last segment of the form `<marker><id>.scope`.
def scopeId (marker path : CgroupPath) : Option CgroupPath := do
  guard (marker <:+: path ∧ ".scope".toList <:+ path)
  let scopePart ← (path.splitOn '/').findRev? fun p => marker <+: p ∧ ".scope".toList <:+ p
  let rest ← scopePart.dropPrefix? marker
  rest.dropSuffix? ".scope".toList

-- The pod UID in the first segment that has one, with its underscores as dashes.
def podUid (path : CgroupPath) : Option CgroupPath :=
  (path.splitOn '/').findSome? fun segment => do
    guard ("pod".toList <:+: segment ∧ ".slice".toList <:+ segment)
    let podPart ← segment.dropPrefix? "kubepods-".toList
    let uidPart ← podPart.dropPrefix? "pod".toList
    let uid ← uidPart.dropSuffix? ".slice".toList
    return uid.map fun c => if c = '_' then '-' else c

def parseCrio (path : CgroupPath) : Option ContainerIdentity := do
  let containerId ← scopeId "crio-".toList path
  return { containerId := .ofList containerId, podUid := (podUid path).map .ofList }

-- What the parsers of the other runtimes have in common.
def parseScope (marker path : CgroupPath) : Option ContainerIdentity := do
  let containerId ← scopeId marker path
  return { containerId := .ofList containerId, podUid := none }

def parseContainerd (path : CgroupPath) : Option ContainerIdentity :=
  parseScope "cri-containerd-".toList path

def parseDocker (path : CgroupPath) : Option ContainerIdentity :=
  parseScope "docker-".toList path

def parsePodman (path : CgroupPath) : Option ContainerIdentity :=
  parseScope "libpod-".toList path

def parseContainerPath (path : CgroupPath) : Option ContainerIdentity :=
  parseCrio path <|> parseContainerd path <|> parseDocker path <|> parsePodman path

-- What the resolver does with an inode is up to `resolveInode`.
def resolveCgroupId (resolveInode : UInt64 → Option CgroupPath) (cgroupId : UInt64) :
    Option String × Option String :=
  if cgroupId = 0 then
    (none, none)
  else
    match resolveInode cgroupId with
    | none      => (none, none)
    | some path =>
      match parseContainerPath path with
      | none          => (none, none)
      | some identity => (some identity.containerId, identity.podUid)

end TlsProbe
