import TlsProbe.Classifier.Theorems.Frame
import TlsProbe.Process.Socket

open Std

namespace TlsProbe.Process

section Ports

variable {endian : Endian} {v : UInt16}

theorem u16FromNeBytes_toNeBytes : u16FromNeBytes endian (u16ToNeBytes endian v) = v := by
  have h : u16FromBeBytes (.ofNat (v.toNat / 256)) (.ofNat v.toNat) = v := by
    have := v.toNat_lt
    refine UInt16.toNat_inj.mp ?_
    rw [u16FromBeBytes_toNat, UInt8.toNat_ofNat', UInt8.toNat_ofNat']
    omega
  cases endian <;> exact h

theorem u16FromBe_fromNeBytes {bytes : Vector UInt8 2} :
    u16FromBe endian (u16FromNeBytes endian bytes) = u16FromNeBytes .big bytes := by
  cases endian
  case big    => rfl
  case little =>
    have := (bytes.get 0).toNat_lt
    have := (bytes.get 1).toNat_lt
    refine UInt16.toNat_inj.mp ?_
    have h₁ : ((bytes.get 1).toNat * 256 + (bytes.get 0).toNat) % 256 = (bytes.get 0).toNat := by omega
    have h₂ : ((bytes.get 1).toNat * 256 + (bytes.get 0).toNat) / 256 = (bytes.get 1).toNat := by omega
    rw [u16FromBe, UInt16.toNat_ofNat', u16FromNeBytes, u16FromBeBytes_toNat, h₁, h₂,
      u16FromNeBytes, u16FromBeBytes_toNat]
    exact Nat.mod_eq_of_lt <| by omega

-- The port of the peer is in the byte order of the network on each host.
theorem u16FromBe_toBeBytes : u16FromBe endian (u16FromNeBytes endian (u16ToNeBytes .big v)) = v :=
  u16FromBe_fromNeBytes.trans u16FromNeBytes_toNeBytes

end Ports

section Keys

variable {endian : Endian} {memory : Memory} {sock : Socket} {host peer : Vector UInt8 4}

theorem Holds.readPorts_eq (h : Holds endian memory sock) :
    readPorts endian memory sock.ptr = (sock.conn.hostPort, sock.conn.peerPort) := by
  simp [readPorts, readU16, h.num, h.dport, u16FromNeBytes_toNeBytes, u16FromBe_toBeBytes]

theorem Holds.readKeyV4_eq (h : Holds endian memory sock) (hv : ¬sock.conn.isIpv6) :
    readKeyV4 endian memory sock.ptr = sock.conn.key := by
  unfold Connection.isIpv6 at hv
  split at hv
  case h_2 => simp at hv
  case h_1 host peer ha =>
    obtain ⟨hs, hd⟩ := h.v4 host peer ha
    simp [readKeyV4, h.readPorts_eq, readAddr4, hs, hd, Connection.key, ha, padded]

theorem Holds.readKeyV6_eq (h : Holds endian memory sock) (hv : sock.conn.isIpv6) :
    readKeyV6 endian memory sock.ptr = sock.conn.key := by
  unfold Connection.isIpv6 at hv
  split at hv
  case h_1 => simp at hv
  case h_2 host peer ha =>
    obtain ⟨hs, hd⟩ := h.v6 host peer ha
    simp [readKeyV6, h.readPorts_eq, readAddr6, hs, hd, Connection.key, ha]

theorem Holds.readKeyV6_mapped (h : Holds endian memory sock) (hm : HoldsMapped memory sock)
    (ha : sock.conn.addrs = .v4 host peer) : readKeyV6 endian memory sock.ptr =
      ⟨mapped host, mapped peer, sock.conn.hostPort, sock.conn.peerPort⟩ := by
  obtain ⟨hs, hd⟩ := hm host peer ha
  simp [readKeyV6, h.readPorts_eq, readAddr6, hs, hd]

theorem mapped_ne_padded : mapped host ≠ padded peer := by
  have hm : (mapped host)[10] = 0xff := Vector.getElem_append_left (by decide)
  have hp : (padded peer)[10] = 0 := (Vector.getElem_append_right (by decide) (by decide)).trans <|
    Vector.getElem_replicate ..
  intro h
  rw [h, hp] at hm
  contradiction

theorem accept_eq (h : Holds endian memory sock) (maps : Maps) (task : Task) :
    tryRecordAccept endian memory maps task sock.ptr =
      match sock.family with
      | .inet  => maps.insertConn task (readKeyV4 endian memory sock.ptr) (currentConnInfo task)
      | .inet6 => maps.insertConn task (readKeyV6 endian memory sock.ptr) (currentConnInfo task) := by
  rw [tryRecordAccept, if_neg sock.ptr_ne, readU16, h.family, Option.map_some,
    u16FromNeBytes_toNeBytes]
  cases sock.family <;> rfl

end Keys

section Packets

variable {pkt : Packet} {isEgress : Bool} {key : ConnKey}

-- Whatever direction a packet takes, the classifier looks for the key of its connection.
theorem lookupKey_eq (h : lookupKey pkt isEgress = some key) :
    key = (connectionOf pkt isEgress).key := by
  obtain ⟨seg, hs, rfl⟩ := Option.map_eq_some_iff.mp h
  obtain ⟨-, -, -, rfl⟩ := Classifier.segment_eq_some hs
  simp only [Classifier.checkKey, Classifier.tcpSegment, Packet.address, connectionOf,
    Connection.key]
  cases isEgress <;> cases pkt.isIpv6 <;> rfl

-- As long as the key of a connection has an entry, the events about it are those of that process.
theorem attributed {kernel : Classifier.Kernel} {reasmMap : Classifier.ReasmMap} {conn : Connection}
    {ev : RawTlsCapture} {info : TlsProbe.ConnInfo} (hk : kernel.connInfo conn.key = some info)
    (hc : connectionOf pkt isEgress = conn)
    (he : (Classifier.tryCaptureTls reasmMap kernel pkt isEgress).2 = some ev) :
    ev.pid = info.pid ∧ ev.comm = info.comm ∧ ev.cgroupId = info.cgroupId := by
  obtain ⟨seg, rec, hs, -, -, rfl⟩ := Classifier.tryCaptureTls_eq_some (Prod.ext rfl he)
  have hl : lookupKey pkt isEgress = some (Classifier.checkKey seg isEgress) :=
    congrArg (Option.map _) hs
  rw [←hc, ←lookupKey_eq hl] at hk
  simp [Classifier.captureEvent, hk]

-- A packet of a connection over IPv4, which its host sends.
def sentPacket (host peer : Vector UInt8 4) (hostPort peerPort : UInt16) : Packet :=
  let sport := u16ToNeBytes .big hostPort
  let dport := u16ToNeBytes .big peerPort
  .ofBytes <| List.flatten [
    [0, 0, 0, 0, 0, 0, 0, 0, 0, 0, 0, 0, 0x08, 0x00],
    [0x45, 0, 0, 46, 0, 0, 0, 0, 64, 6, 0, 0],
    List.ofFn host.get, List.ofFn peer.get, List.ofFn sport.get, List.ofFn dport.get,
    [0, 0, 0, 1, 0, 0, 0, 1, 0x50, 0x18, 0, 1, 0, 0, 0, 0],
    [0x16, 0x03, 0x01, 0x00, 0x01, 0x01]
  ]

variable {host peer : Vector UInt8 4} {hostPort peerPort : UInt16}

theorem etherType_sentPacket : (sentPacket host peer hostPort peerPort).etherType = 0x0800 := by
  have hh : (sentPacket host peer hostPort peerPort).byte 12 = 0x08 := rfl
  have hl : (sentPacket host peer hostPort peerPort).byte 13 = 0x00 := rfl
  rw [Packet.etherType, Packet.word, hh, hl]
  decide

theorem isIpv6_sentPacket : (sentPacket host peer hostPort peerPort).isIpv6 = false := by
  rw [Packet.isIpv6, etherType_sentPacket]
  decide

theorem ipHeaderLen_sentPacket : (sentPacket host peer hostPort peerPort).ipHeaderLen = 20 := by
  have hb : (sentPacket host peer hostPort peerPort).byte 14 = 0x45 := rfl
  rw [Packet.ipHeaderLen, isIpv6_sentPacket, hb]
  rfl

theorem tcpHeader_sentPacket : (sentPacket host peer hostPort peerPort).tcpHeader = 34 :=
  congrArg (14 + ·) ipHeaderLen_sentPacket

theorem tcpHeaderLen_sentPacket : (sentPacket host peer hostPort peerPort).tcpHeaderLen = 20 := by
  have hb : (sentPacket host peer hostPort peerPort).byte 46 = 0x50 := rfl
  rw [Packet.tcpHeaderLen, tcpHeader_sentPacket, hb]
  rfl

theorem isTcp_sentPacket : (sentPacket host peer hostPort peerPort).isTcp := by
  have hb : (sentPacket host peer hostPort peerPort).byte 23 = 6 := rfl
  rw [Packet.isTcp, Packet.protocol, isIpv6_sentPacket, ipHeaderLen_sentPacket,
    etherType_sentPacket]
  simp [hb]

theorem connectionOf_sentPacket : connectionOf (sentPacket host peer hostPort peerPort) true =
    ⟨.v4 host peer, hostPort, peerPort⟩ := by
  have hs : (sentPacket host peer hostPort peerPort).field 4 26 = host := by
    refine Vector.ext fun i hi => (Packet.field_getElem hi).trans ?_
    obtain rfl | rfl | rfl | rfl : i = 0 ∨ i = 1 ∨ i = 2 ∨ i = 3 := by omega
    all_goals rfl
  have hd : (sentPacket host peer hostPort peerPort).field 4 30 = peer := by
    refine Vector.ext fun i hi => (Packet.field_getElem hi).trans ?_
    obtain rfl | rfl | rfl | rfl : i = 0 ∨ i = 1 ∨ i = 2 ∨ i = 3 := by omega
    all_goals rfl
  have hp : (sentPacket host peer hostPort peerPort).word 34 = hostPort :=
    @u16FromNeBytes_toNeBytes .big hostPort
  have hq : (sentPacket host peer hostPort peerPort).word 36 = peerPort :=
    @u16FromNeBytes_toNeBytes .big peerPort
  simp [connectionOf, isIpv6_sentPacket, tcpHeader_sentPacket, hs, hd, hp, hq]

theorem lookupKey_sentPacket : lookupKey (sentPacket host peer hostPort peerPort) true =
    some ⟨padded host, padded peer, hostPort, peerPort⟩ := by
  have hr : (sentPacket host peer hostPort peerPort).Readable :=
    Packet.readable_ofBytes (by simp) (by simp)
  have hl : (sentPacket host peer hostPort peerPort).tcpData + 6 ≤
      (sentPacket host peer hostPort peerPort).len := by
    rw [Packet.tcpData, tcpHeader_sentPacket, tcpHeaderLen_sentPacket]
    exact Nat.le_refl 60
  have hs := Classifier.segment_of_readable hr isTcp_sentPacket tcpHeaderLen_sentPacket.ge hl
  have hk : lookupKey (sentPacket host peer hostPort peerPort) true = some _ :=
    congrArg (Option.map _) hs
  rw [hk, lookupKey_eq hk, connectionOf_sentPacket]
  rfl

end Packets

section Runs

-- The process of a task.
def ConnInfo.IsOf (info : ConnInfo) (pidTgid : UInt64) : Prop :=
  info.pid = (pidTgid >>> 32).toUInt32 ∧ info.tgid = pidTgid.toUInt32

-- What is still to fire in a task while the socket gets its connection, with what is stashed for
-- the task. Unless the stash is dropped, `n` more entries are put into `CONN_MAP`.
inductive Pending (endian : Endian) (sock : Socket) (pidTgid : UInt64) :
    List Probe → Option ConnStash → Nat → Prop
  | done {stash} : Pending endian sock pidTgid [] stash 0
  | enterV4 {probes stash n}
    (h : ∀ info, info.IsOf pidTgid → Pending endian sock pidTgid probes (some ⟨sock.ptr, info⟩) n) :
    Pending endian sock pidTgid (.tcpV4Connect (some sock.ptr) :: probes) stash n
  | enterV6 {probes stash n}
    (h : ∀ info, info.IsOf pidTgid → Pending endian sock pidTgid probes (some ⟨sock.ptr, info⟩) n) :
    Pending endian sock pidTgid (.tcpV6Connect (some sock.ptr) :: probes) stash n
  | returnV4 {probes memory info n} (h : readKeyV4 endian memory sock.ptr = sock.conn.key)
    (hi : info.IsOf pidTgid) (hp : Pending endian sock pidTgid probes none n) :
    Pending endian sock pidTgid (.tcpV4ConnectRet 0 memory :: probes) (some ⟨sock.ptr, info⟩) (n + 1)
  | returnV6 {probes memory info n} (h : readKeyV6 endian memory sock.ptr = sock.conn.key)
    (hi : info.IsOf pidTgid) (hp : Pending endian sock pidTgid probes none n) :
    Pending endian sock pidTgid (.tcpV6ConnectRet 0 memory :: probes) (some ⟨sock.ptr, info⟩) (n + 1)
  | spentV4 {probes memory n} (hp : Pending endian sock pidTgid probes none n) :
    Pending endian sock pidTgid (.tcpV4ConnectRet 0 memory :: probes) none n
  | spentV6 {probes memory n} (hp : Pending endian sock pidTgid probes none n) :
    Pending endian sock pidTgid (.tcpV6ConnectRet 0 memory :: probes) none n
  | accept {memory stash} (h : ∀ maps task, tryRecordAccept endian memory maps task sock.ptr =
      maps.insertConn task sock.conn.key (currentConnInfo task)) :
    Pending endian sock pidTgid [.inetCskAccept sock.ptr memory] stash 1

variable {endian : Endian} {sock : Socket} {opening : Opening} {maps : Maps} {task : Task}
variable {probe : Probe} {probes : List Probe} {stash : Option ConnStash} {pidTgid : UInt64}
variable {event : Event} {events : List Event} {n : Nat}

theorem Pending.dropped (h : Pending endian sock pidTgid probes stash n) :
    ∃ m, Pending endian sock pidTgid probes none m := by
  cases h
  case done            => exact ⟨0, .done⟩
  case enterV4 h       => exact ⟨n, .enterV4 h⟩
  case enterV6 h       => exact ⟨n, .enterV6 h⟩
  case returnV4 h _ hp => exact ⟨_, .spentV4 hp⟩
  case returnV6 h _ hp => exact ⟨_, .spentV6 hp⟩
  case spentV4 hp      => exact ⟨n, .spentV4 hp⟩
  case spentV6 hp      => exact ⟨n, .spentV6 hp⟩
  case accept h        => exact ⟨1, .accept h⟩

theorem Opens.pending (h : Opens endian sock opening probes)
    (hm : ¬(opening = .accept ∧ sock.isMapped)) : Pending endian sock pidTgid probes stash 1 := by
  have hv (hf : sock.family = .inet) : ¬sock.conn.isIpv6 := by
    intro hv
    simp [sock.of_ipv6 hv] at hf
  cases h
  case inet memory f h =>
    exact .enterV4 fun _ hi => .returnV4 (h.readKeyV4_eq (hv f)) hi .done
  case inet6 memory v h =>
    exact .enterV6 fun _ hi => .returnV6 (h.readKeyV6_eq v) hi .done
  case mapped memory _ m h =>
    have hv : ¬sock.conn.isIpv6 := by
      simp only [Socket.isMapped, Bool.and_eq_true] at m
      simpa using m.2
    exact .enterV6 fun _ _ => .enterV4 fun _ hi =>
      .returnV4 (h.readKeyV4_eq hv) hi (.spentV6 .done)
  case accept memory h _ =>
    refine .accept fun maps task => ?_
    rw [accept_eq h]
    cases hf : sock.family
    case inet  => exact congrArg (maps.insertConn task · _) (h.readKeyV4_eq (hv hf))
    case inet6 =>
      have hk := h.readKeyV6_eq <| by simpa [Socket.isMapped, hf] using hm
      exact congrArg (maps.insertConn task · _) hk

theorem finishConnect_zero {readKey : UInt64 → ConnKey} :
    finishConnect readKey maps task 0 =
      match maps.connectStash[task.pidTgid]? with
      | none       => (maps, [])
      | some stash =>
        ({ maps with connectStash := maps.connectStash.erase task.pidTgid } : Maps).insertConn task
          (readKey stash.sockPtr) stash.info :=
  rfl

-- A probe that fires in the task puts at most one entry into `CONN_MAP`: the process of the task,
-- under the key of the connection.
theorem Pending.step
    (h : Pending endian sock task.pidTgid (probe :: probes) maps.connectStash[task.pidTgid]? n) :
    ∃ m, Pending endian sock task.pidTgid probes
        (fire endian maps task probe).1.connectStash[task.pidTgid]? m ∧
      (fire endian maps task probe).2.length + m = n ∧
      ∀ ins ∈ (fire endian maps task probe).2,
        ins.key = sock.conn.key ∧ ins.info.IsOf task.pidTgid := by
  generalize hs : maps.connectStash[task.pidTgid]? = stash at h
  cases h
  case enterV4 h =>
    refine ⟨n, ?_, by simp [fire], by simp [fire]⟩
    simpa [fire, stashConnectEntry] using h _ ⟨rfl, rfl⟩
  case enterV6 h =>
    refine ⟨n, ?_, by simp [fire], by simp [fire]⟩
    simpa [fire, stashConnectEntry] using h _ ⟨rfl, rfl⟩
  case returnV4 m h hi hp =>
    refine ⟨m, ?_⟩
    simp [fire, finishConnectV4, finishConnect_zero, hs, Maps.insertConn, hp, h, hi,
      Nat.add_comm]
  case returnV6 m h hi hp =>
    refine ⟨m, ?_⟩
    simp [fire, finishConnectV6, finishConnect_zero, hs, Maps.insertConn, hp, h, hi,
      Nat.add_comm]
  case spentV4 hp =>
    exact ⟨n, by simp [fire, finishConnectV4, finishConnect_zero, hs, hp]⟩
  case spentV6 hp =>
    exact ⟨n, by simp [fire, finishConnectV6, finishConnect_zero, hs, hp]⟩
  case accept h =>
    refine ⟨0, .done, ?_⟩
    simp [fire, h, Maps.insertConn, ConnInfo.IsOf, currentConnInfo]

theorem finishConnect_other {readKey : UInt64 → ConnKey} {ret : Int32}
    (h : task.pidTgid ≠ pidTgid) :
    (finishConnect readKey maps task ret).1.connectStash[pidTgid]? =
      maps.connectStash[pidTgid]? := by
  unfold finishConnect
  split
  case isTrue => simp [ExtTreeMap.getElem?_erase, h]
  case isFalse =>
    split
    case h_1 => simp
    case h_2 => simp [Maps.insertConn, ExtTreeMap.getElem?_erase, h]

theorem tryRecordAccept_stash {memory : Memory} {sk : UInt64} :
    (tryRecordAccept endian memory maps task sk).1.connectStash = maps.connectStash := by
  unfold tryRecordAccept
  split
  case isTrue  => rfl
  case isFalse =>
    split
    case h_1 => rfl
    case h_2 => split_ifs <;> rfl

-- The probes of one task leave what is stashed for the others.
theorem fire_other (h : task.pidTgid ≠ pidTgid) :
    (fire endian maps task probe).1.connectStash[pidTgid]? = maps.connectStash[pidTgid]? := by
  cases probe
  case tcpV4Connect arg0 | tcpV6Connect arg0 =>
    cases arg0 <;> simp [fire, stashConnectEntry, ExtTreeMap.getElem?_insert, h]
  case tcpV4ConnectRet | tcpV6ConnectRet => exact finishConnect_other h
  case inetCskAccept                     => exact congrArg (·[pidTgid]?) tryRecordAccept_stash

theorem finishConnect_pidTgid {readKey : UInt64 → ConnKey} {ret : Int32} :
    ∀ ins ∈ (finishConnect readKey maps task ret).2, ins.pidTgid = task.pidTgid := by
  unfold finishConnect
  split
  case isTrue  => simp
  case isFalse => split <;> simp [Maps.insertConn]

theorem fire_pidTgid : ∀ ins ∈ (fire endian maps task probe).2, ins.pidTgid = task.pidTgid := by
  cases probe
  case tcpV4Connect | tcpV6Connect       => simp [fire]
  case tcpV4ConnectRet | tcpV6ConnectRet => exact finishConnect_pidTgid
  case inetCskAccept =>
    simp only [fire, tryRecordAccept]
    split
    case isTrue  => simp
    case isFalse =>
      split
      case h_1 => simp
      case h_2 => split_ifs <;> simp [Maps.insertConn]

-- The entries that the probes of a task put into `CONN_MAP`.
def insertionsOf (pidTgid : UInt64) (insertions : List Insertion) : List Insertion :=
  insertions.filter (·.pidTgid = pidTgid)

theorem insertionsOf_append {xs ys : List Insertion} :
    insertionsOf pidTgid (xs ++ ys) = insertionsOf pidTgid xs ++ insertionsOf pidTgid ys :=
  List.filter_append ..

theorem insertionsOf_fire : insertionsOf pidTgid (fire endian maps task probe).2 =
    if task.pidTgid = pidTgid then (fire endian maps task probe).2 else [] := by
  split
  case isTrue h =>
    subst h
    exact List.filter_eq_self.mpr fun ins hi => decide_eq_true (fire_pidTgid ins hi)
  case isFalse h =>
    refine List.filter_eq_nil_iff.mpr fun ins hi => ?_
    simpa [fire_pidTgid ins hi] using h

theorem Pending.run
    (h : Pending endian sock pidTgid (probesOf pidTgid events) maps.connectStash[pidTgid]? n) :
    (.dropsStash pidTgid ∉ events →
      (insertionsOf pidTgid ((machine endian).output maps events)).length = n) ∧
    ∀ ins ∈ insertionsOf pidTgid ((machine endian).output maps events),
      ins.key = sock.conn.key ∧ ins.info.IsOf pidTgid := by
  induction events generalizing maps n
  case nil =>
    replace h : Pending endian sock pidTgid [] maps.connectStash[pidTgid]? n := h
    generalize maps.connectStash[pidTgid]? = stash at h
    cases h
    simp [insertionsOf]
  case cons event events hi =>
    rw [Machine.output_cons, insertionsOf_append]
    cases event
    case fires task probe =>
      simp only [machine, insertionsOf_fire, List.mem_cons, reduceCtorEq, false_or]
      by_cases ht : task.pidTgid = pidTgid
      case pos =>
        subst ht
        have hc : probesOf task.pidTgid (.fires task probe :: events) =
            probe :: probesOf task.pidTgid events := by simp [probesOf]
        obtain ⟨m, hp, hl, hk⟩ := (hc ▸ h).step
        obtain ⟨hn, hks⟩ := hi hp
        rw [if_pos rfl]
        refine ⟨fun hd => ?_, fun ins hm => ?_⟩
        · rw [List.length_append, ←hl, ←hn hd]
          rfl
        · exact (List.mem_append.mp hm).elim (hk ins) (hks ins)
      case neg =>
        have hc : probesOf pidTgid (.fires task probe :: events) = probesOf pidTgid events := by
          simp [probesOf, ht]
        rw [if_neg ht]
        exact hi <| (fire_other ht).symm ▸ hc ▸ h
    case dropsStash p =>
      by_cases hp : p = pidTgid
      case pos =>
        subst hp
        obtain ⟨m, hd⟩ := h.dropped
        have he : (maps.connectStash.erase p)[p]? = none := ExtTreeMap.getElem?_erase_self
        refine ⟨fun hm => absurd (List.mem_cons_self ..) hm, ?_⟩
        exact (hi (he.symm ▸ hd)).2
      case neg =>
        have he : (maps.connectStash.erase p)[pidTgid]? = maps.connectStash[pidTgid]? := by
          simp [ExtTreeMap.getElem?_erase, hp]
        obtain ⟨hn, hk⟩ := @hi { maps with connectStash := maps.connectStash.erase p } n (he.symm ▸ h)
        exact ⟨fun hm => hn fun hd => hm <| List.mem_cons_of_mem _ hd, hk⟩
    case dropsConn key =>
      obtain ⟨hn, hk⟩ := @hi { maps with connMap := maps.connMap.erase key } n h
      exact ⟨fun hm => hn fun hd => hm <| List.mem_cons_of_mem _ hd, hk⟩

-- The process of the task is stored once, unless what is stashed for the task gets lost, and the
-- classifier finds it under the key that it has for any packet of the connection.
structure Agreed (endian : Endian) (sock : Socket) (pidTgid : UInt64) (maps : Maps)
    (events : List Event) : Prop where
  stored : .dropsStash pidTgid ∉ events → ∃ ins,
    insertionsOf pidTgid ((machine endian).output maps events) = [ins] ∧ ins.info.IsOf pidTgid
  agrees : ∀ ins ∈ insertionsOf pidTgid ((machine endian).output maps events),
    ∀ pkt isEgress key, connectionOf pkt isEgress = sock.conn →
      lookupKey pkt isEgress = some key → key = ins.key

-- A socket of IPv6 that accepts a connection over IPv4 is stored under its mapped addresses.
theorem accept_mapped (h : Opens endian sock .accept (probesOf pidTgid events))
    (hm : sock.isMapped) : ∃ host peer, sock.conn.addrs = .v4 host peer ∧
      ∃ ins ∈ insertionsOf pidTgid ((machine endian).output maps events),
        ins.key = ⟨mapped host, mapped peer, sock.conn.hostPort, sock.conn.peerPort⟩ := by
  generalize hp : probesOf pidTgid events = probes at h
  cases h
  case accept memory h hh =>
    simp only [Socket.isMapped, Bool.and_eq_true, decide_eq_true_eq] at hm
    obtain ⟨hf, hv⟩ := hm
    cases ha : sock.conn.addrs
    case v6 => simp [Connection.isIpv6, ha] at hv
    case v4 host peer =>
      refine ⟨host, peer, rfl, ?_⟩
      have hk := h.readKeyV6_mapped (hh hf) ha
      obtain ⟨js, event, ks, rfl, -, he, -⟩ := List.filterMap_eq_cons_iff.mp hp
      cases event
      case dropsStash | dropsConn => simp at he
      case fires task probe =>
        obtain ⟨rfl, rfl⟩ : task.pidTgid = pidTgid ∧ probe = .inetCskAccept sock.ptr memory := by
          simpa using he
        have hacc := accept_eq h ((machine endian).state maps js) task
        rw [hf] at hacc
        refine ⟨⟨task.pidTgid, readKeyV6 endian memory sock.ptr, currentConnInfo task⟩, ?_, hk⟩
        rw [Machine.output_append, Machine.output_cons, insertionsOf_append, insertionsOf_append]
        refine List.mem_append_right _ <| List.mem_append_left _ ?_
        refine List.mem_filter.mpr ⟨?_, decide_eq_true rfl⟩
        change _ ∈ (tryRecordAccept endian memory _ task sock.ptr).2
        rw [hacc]
        exact List.mem_singleton_self _

theorem not_agreed_of_mapped (h : Opens endian sock .accept (probesOf pidTgid events))
    (hm : sock.isMapped) : ¬Agreed endian sock pidTgid maps events := by
  intro ha
  obtain ⟨host, peer, haddrs, ins, hi, hk⟩ := accept_mapped h hm
  have hc : connectionOf (sentPacket host peer sock.conn.hostPort sock.conn.peerPort) true =
      sock.conn := by
    rw [connectionOf_sentPacket, ←haddrs]
  have he := ha.agrees ins hi _ true _ hc lookupKey_sentPacket
  rw [hk] at he
  exact mapped_ne_padded (congrArg ConnKey.srcAddr he).symm

theorem agreed_iff (h : Opens endian sock opening (probesOf pidTgid events)) :
    Agreed endian sock pidTgid maps events ↔ ¬(opening = .accept ∧ sock.isMapped) := by
  constructor
  case mp =>
    rintro ha ⟨rfl, hm⟩
    exact not_agreed_of_mapped h hm ha
  case mpr =>
    intro hm
    obtain ⟨hn, hk⟩ := (h.pending hm).run
    refine ⟨fun hd => ?_, fun ins hi pkt isEgress key hc hl => ?_⟩
    · obtain ⟨ins, hi⟩ := List.length_eq_one_iff.mp (hn hd)
      exact ⟨ins, hi, (hk ins (by simp [hi])).2⟩
    · rw [lookupKey_eq hl, hc, (hk ins hi).1]

end Runs

section Examples

-- A connection over IPv4 from 10.0.0.2 to 10.0.0.1, which has a socket of the family of IPv6.
def dualStack : Socket where
  ptr     := 0x1000
  family  := .inet6
  conn    := ⟨.v4 #v[10, 0, 0, 1] #v[10, 0, 0, 2], 443, 40000⟩
  ptr_ne  := by decide
  of_ipv6 := by decide

-- Its `sock_common` on a little-endian host, up to the addresses of IPv6.
def sockCommon : List UInt8 :=
  [10, 0, 0, 2, 10, 0, 0, 1, 0, 0, 0, 0, 0x9c, 0x40, 0xbb, 0x01, 10, 0] ++ List.replicate 14 0 ++
    (mapped #v[10, 0, 0, 2]).toList ++ (mapped #v[10, 0, 0, 1]).toList

def dualStackMemory : Memory := fun n ptr =>
  let offset := (ptr - dualStack.ptr).toNat
  if offset + n ≤ sockCommon.length then
    some <| .ofFn fun i => sockCommon.getD (offset + i) 0
  else
    none

theorem holds_dualStack : Holds .little dualStackMemory dualStack where
  family := by decide +kernel
  num    := by decide +kernel
  dport  := by decide +kernel
  v4 host peer h := by
    obtain ⟨rfl, rfl⟩ := Addrs.v4.inj h
    decide +kernel
  v6 host peer h := Addrs.noConfusion h

theorem holdsMapped_dualStack : HoldsMapped dualStackMemory dualStack := by
  intro host peer h
  obtain ⟨rfl, rfl⟩ := Addrs.v4.inj h
  decide +kernel

def noMaps : Maps where
  connectStash := ∅
  connMap      := ∅

def nginx : Task where
  pidTgid  := 0x0000002a0000002a
  comm     := none
  cgroupId := 1

-- The call of `tcp_v6_connect` for the address ::ffff:10.0.0.2
def connects : List Event :=
  [
    .tcpV6Connect (some dualStack.ptr), .tcpV4Connect (some dualStack.ptr),
    .tcpV4ConnectRet 0 dualStackMemory, .tcpV6ConnectRet 0 dualStackMemory
  ].map (.fires nginx)

theorem connects_agreed : Agreed .little dualStack nginx.pidTgid noMaps connects :=
  (agreed_iff <| .mapped rfl holds_dualStack).mpr (by simp)

theorem accept_not_agreed : ¬∀ endian sock opening pidTgid maps events,
    Opens endian sock opening (probesOf pidTgid events) →
      Agreed endian sock pidTgid maps events := by
  intro h
  let events : List Event := [.fires nginx (.inetCskAccept dualStack.ptr dualStackMemory)]
  have ho : Opens .little dualStack .accept (probesOf nginx.pidTgid events) :=
    .accept holds_dualStack fun _ => holdsMapped_dualStack
  exact not_agreed_of_mapped ho rfl <| h .little dualStack .accept nginx.pidTgid noMaps events ho

end Examples

end TlsProbe.Process
