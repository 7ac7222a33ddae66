import TlsProbe.Classifier.Basic
import TlsProbe.Lib.Machine

open Std

namespace TlsProbe.Process

-- The byte order of the host.
inductive Endian
  | little
  | big
  deriving DecidableEq

def skcDaddrOffset      : UInt64 := 0
def skcRcvSaddrOffset   : UInt64 := 4
def skcDportOffset      : UInt64 := 12
def skcNumOffset        : UInt64 := 14
def skcFamilyOffset     : UInt64 := 16
def skcV6DaddrOffset    : UInt64 := 32
def skcV6RcvSaddrOffset : UInt64 := 48

def afInet  : UInt16 := 2
def afInet6 : UInt16 := 10

-- A `u16` that is read from two bytes of memory.
def u16FromNeBytes : Endian → Vector UInt8 2 → UInt16
  | .little, bytes => u16FromBeBytes (bytes.get 1) (bytes.get 0)
  | .big,    bytes => u16FromBeBytes (bytes.get 0) (bytes.get 1)

-- `u16::from_be`
def u16FromBe : Endian → UInt16 → UInt16
  | .little, v => .ofNat (v.toNat % 256 * 256 + v.toNat / 256)
  | .big,    v => v

-- What `bpf_probe_read_kernel` gets for a number of bytes at an address.
abbrev Memory := (n : Nat) → UInt64 → Option (Vector UInt8 n)

-- What the helpers of the kernel say about the task in which a probe fires.
structure Task where
  pidTgid  : UInt64
  comm     : Option (Vector UInt8 16)
  cgroupId : UInt64

-- The classifier has no use for the `tgid`.
structure ConnInfo extends TlsProbe.ConnInfo where
  tgid : UInt32

structure ConnStash where
  sockPtr : UInt64
  info    : ConnInfo

structure Maps where
  connectStash : ExtTreeMap UInt64 ConnStash
  connMap      : ExtTreeMap ConnKey ConnInfo

def currentConnInfo (task : Task) : ConnInfo where
  pid      := (task.pidTgid >>> 32).toUInt32
  tgid     := task.pidTgid.toUInt32
  comm     := task.comm.getD (.replicate 16 0)
  cgroupId := task.cgroupId

section Reads

variable (endian : Endian) (memory : Memory)

def readU16 (ptr : UInt64) : Option UInt16 :=
  (memory 2 ptr).map (u16FromNeBytes endian)

def readPorts (sk : UInt64) : UInt16 × UInt16 :=
  let dport := (readU16 endian memory (sk + skcDportOffset)).getD 0
  let sport := (readU16 endian memory (sk + skcNumOffset)).getD 0
  (sport, u16FromBe endian dport)

-- The four bytes of an address are the first ones of the zeros that they are copied to.
def readAddr4 (ptr : UInt64) : Addr :=
  match memory 4 ptr with
  | some addr => addr ++ (.replicate 12 0 : Vector UInt8 12)
  | none      => .replicate 16 0

def readAddr6 (ptr : UInt64) : Addr :=
  (memory 16 ptr).getD (.replicate 16 0)

def readKeyV4 (sk : UInt64) : ConnKey :=
  let (sport, dport) := readPorts endian memory sk
  {
    srcAddr := readAddr4 memory (sk + skcRcvSaddrOffset)
    dstAddr := readAddr4 memory (sk + skcDaddrOffset)
    srcPort := sport
    dstPort := dport
  }

def readKeyV6 (sk : UInt64) : ConnKey :=
  let (sport, dport) := readPorts endian memory sk
  {
    srcAddr := readAddr6 memory (sk + skcV6RcvSaddrOffset)
    dstAddr := readAddr6 memory (sk + skcV6DaddrOffset)
    srcPort := sport
    dstPort := dport
  }

end Reads

-- An entry that a probe puts into `CONN_MAP`.
structure Insertion where
  pidTgid : UInt64
  key     : ConnKey
  info    : ConnInfo

def Maps.insertConn (maps : Maps) (task : Task) (key : ConnKey) (info : ConnInfo) :
    Maps × List Insertion :=
  ({ maps with connMap := maps.connMap.insert key info }, [⟨task.pidTgid, key, info⟩])

def stashConnectEntry (maps : Maps) (task : Task) : Option UInt64 → Maps
  | none    => maps
  | some sk => { maps with
    connectStash := maps.connectStash.insert task.pidTgid ⟨sk, currentConnInfo task⟩ }

-- `finish_connect_v4` and `finish_connect_v6` differ in the fields of the socket that they read.
def finishConnect (readKey : UInt64 → ConnKey) (maps : Maps) (task : Task) (ret : Int32) :
    Maps × List Insertion :=
  let forgotten := { maps with connectStash := maps.connectStash.erase task.pidTgid }
  if ret ≠ 0 then
    (forgotten, [])
  else
    match maps.connectStash[task.pidTgid]? with
    | none       => (maps, [])
    | some stash => forgotten.insertConn task (readKey stash.sockPtr) stash.info

section Probes

variable (endian : Endian)

def finishConnectV4 (memory : Memory) : Maps → Task → Int32 → Maps × List Insertion :=
  finishConnect (readKeyV4 endian memory)

def finishConnectV6 (memory : Memory) : Maps → Task → Int32 → Maps × List Insertion :=
  finishConnect (readKeyV6 endian memory)

def tryRecordAccept (memory : Memory) (maps : Maps) (task : Task) (sk : UInt64) :
    Maps × List Insertion :=
  if sk = 0 then
    (maps, [])
  else
    match readU16 endian memory (sk + skcFamilyOffset) with
    | none        => (maps, [])
    | some family =>
      if family = afInet then
        maps.insertConn task (readKeyV4 endian memory sk) (currentConnInfo task)
      else if family = afInet6 then
        maps.insertConn task (readKeyV6 endian memory sk) (currentConnInfo task)
      else
        (maps, [])

-- The probes with what they get to see: the first argument or the returned value, and the memory of
-- the kernel.
inductive Probe
  | tcpV4Connect (arg0 : Option UInt64)
  | tcpV6Connect (arg0 : Option UInt64)
  | tcpV4ConnectRet (ret : Int32) (memory : Memory)
  | tcpV6ConnectRet (ret : Int32) (memory : Memory)
  | inetCskAccept (ret : UInt64) (memory : Memory)

-- A map that is full drops entries to make room.
inductive Event
  | fires (task : Task) (probe : Probe)
  | dropsStash (pidTgid : UInt64)
  | dropsConn (key : ConnKey)

def fire (maps : Maps) (task : Task) : Probe → Maps × List Insertion
  | .tcpV4Connect arg0          => (stashConnectEntry maps task arg0, [])
  | .tcpV6Connect arg0          => (stashConnectEntry maps task arg0, [])
  | .tcpV4ConnectRet ret memory => finishConnectV4 endian memory maps task ret
  | .tcpV6ConnectRet ret memory => finishConnectV6 endian memory maps task ret
  | .inetCskAccept ret memory   => tryRecordAccept endian memory maps task ret

def machine : Machine Maps Event Insertion where
  step maps
    | .fires task probe   => fire endian maps task probe
    | .dropsStash pidTgid => ({ maps with connectStash := maps.connectStash.erase pidTgid }, [])
    | .dropsConn key      => ({ maps with connMap := maps.connMap.erase key }, [])

end Probes

end TlsProbe.Process
