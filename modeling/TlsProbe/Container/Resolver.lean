import TlsProbe.Container.Basic
import TlsProbe.Lib.Machine
import TlsProbe.Parser.Extensions

open Std

namespace TlsProbe

-- In nanoseconds. The clock may be set back at any time.
abbrev SystemTime := Int

inductive FileType
  | dir
  | file
  | symlink
  deriving DecidableEq

-- What `read_dir` goes through. An error is one of an entry or of its metadata, and a directory that
-- cannot be opened is one that begins with an error.
inductive Listing
  | done
  | error
  | entry (name : List UInt8) (inode : UInt64) (type : FileType) (content next : Listing)

-- The path of an entry of a directory, relative to the root.
def join (dir name : List UInt8) : List UInt8 :=
  if dir.isEmpty then name else dir ++ '/'.toUInt8 :: name

def toStringLossy (path : List UInt8) : CgroupPath :=
  (fromUtf8Lossy path).toList

abbrev InoMap := ExtTreeMap UInt64 CgroupPath

def recurse (dir : List UInt8) (map : InoMap) : Listing → Option InoMap
  | .done  => map
  | .error => none
  | .entry name inode type content next => do
    let path := join dir name
    let map := map.insert inode (toStringLossy path)
    let map ← if type = .dir ∧ type ≠ .symlink then recurse path map content else some map
    recurse dir map next

-- A root that does not exist is an empty tree.
def walkCgroupTree (cgroupRoot : Option Listing) : Option InoMap :=
  match cgroupRoot with
  | some listing => recurse [] ∅ listing
  | none         => some ∅

structure ResolverCache where
  inoMap   : InoMap := ∅
  negative : ExtTreeMap UInt64 SystemTime := ∅
  lastWalk : Option SystemTime := none

-- `self.elapsed()` at a time, in whole seconds
def elapsedSecs (since now : SystemTime) : Option Int :=
  if since ≤ now then some ((now - since) / 1000000000) else none

-- A call of `resolve_inode`, with what a walk finds during it and with what the clock says each
-- time that it is read.
structure ResolveCall where
  inode      : UInt64
  cgroupRoot : Option Listing
  elapsedAt  : SystemTime
  walkedAt   : SystemTime
  notFoundAt : SystemTime

-- Whether the inode has been looked for in vain less than 5 seconds ago.
def isNegative (cache : ResolverCache) (call : ResolveCall) : Bool :=
  match cache.negative[call.inode]? with
  | some negTime => ((elapsedSecs negTime call.elapsedAt).map fun secs => decide (secs < 5)).getD false
  | none         => false

def resolveInode (cache : ResolverCache) (call : ResolveCall) :
    ResolverCache × Option CgroupPath :=
  if call.inode = 0 then
    (cache, none)
  else
    match cache.inoMap[call.inode]? with
    | some path => (cache, some path)
    | none      =>
      if isNegative cache call then
        (cache, none)
      else
        let negative := cache.negative.erase call.inode
        match walkCgroupTree call.cgroupRoot with
        | some inoMap =>
          match inoMap[call.inode]? with
          | some path => (⟨inoMap, negative, call.walkedAt⟩, some path)
          | none      => (⟨inoMap, negative.insert call.inode call.notFoundAt, call.walkedAt⟩, none)
        | none =>
          ({ cache with negative := negative.insert call.inode call.notFoundAt }, none)

def resolver : Machine ResolverCache ResolveCall (Option CgroupPath) where
  step cache call :=
    let (cache, path) := resolveInode cache call
    (cache, [path])

end TlsProbe
