import TlsProbe.Common.Process
import TlsProbe.Reassembler.Theorems.Projection

open Std

namespace TlsProbe

-- The same traffic as seen from the host at the other end.
section Mirror

def RawTlsCapture.mirror (cap : RawTlsCapture) : RawTlsCapture :=
  { cap with flags := cap.flags ^^^ flagIngress }

def FlowKey.mirror (k : FlowKey) : FlowKey :=
  { k with dir := !k.dir }

def Clock.mirror (clk : Clock) : Clock where
  created   := clk.created
  checked k := clk.checked k.mirror

def HeadInfo.mirror (head : HeadInfo) : HeadInfo where
  seq     := head.seq
  capture := head.capture.mirror

def ReassemblyEntry.mirror (entry : ReassemblyEntry) : ReassemblyEntry :=
  { entry with head := entry.head.map (·.mirror) }

def AssembledRecord.mirror (record : AssembledRecord) : AssembledRecord :=
  { record with headCapture := record.headCapture.mirror }

def Flow.Event.mirror : Flow.Event → Flow.Event
  | .head cap created                 => .head cap.mirror created
  | .continuation cap created checked => .continuation cap.mirror created checked
  | .sweep checked                    => .sweep checked
  | .evict                            => .evict

def Reassembler.Event.mirror : Reassembler.Event → Reassembler.Event
  | .capture clk cap => .capture clk.mirror cap.mirror
  | .sweep clk       => .sweep clk.mirror

end Mirror

namespace RawTlsCapture

variable {cap : RawTlsCapture}

@[simp]
theorem mirror_isIngress : cap.mirror.isIngress = !cap.isIngress := by
  have h (f : UInt8) : ((f ^^^ flagIngress) &&& flagIngress != 0) = !(f &&& flagIngress != 0) := by
    obtain ⟨⟨f⟩⟩ := f
    revert f
    decide +kernel
  exact h cap.flags

-- Only the direction changes among the flags.
theorem mirror_flags {flag : UInt8} (h : flagIngress &&& flag = 0) :
    cap.mirror.flags &&& flag = cap.flags &&& flag := by
  have h := congrArg UInt8.toNat h
  apply UInt8.toNat_inj.mp
  simp only [UInt8.toNat_and, UInt8.toNat_zero] at h
  simp only [mirror, UInt8.toNat_and, UInt8.toNat_xor, Nat.and_xor_distrib_right, h, Nat.xor_zero]

@[simp]
theorem mirror_isAlert : cap.mirror.isAlert = cap.isAlert := by
  rw [isAlert, isAlert, mirror_flags (by decide)]

@[simp]
theorem mirror_isFragment : cap.mirror.isFragment = cap.isFragment := by
  rw [isFragment, isFragment, mirror_flags (by decide)]

@[simp]
theorem mirror_isContinuation : cap.mirror.isContinuation = cap.isContinuation := by
  rw [isContinuation, isContinuation, mirror_flags (by decide)]

end RawTlsCapture

namespace FlowKey

variable {k k' : FlowKey}

@[simp]
theorem mirror_mirror : k.mirror.mirror = k := by
  simp [mirror]

theorem mirror_inj : k.mirror = k'.mirror ↔ k = k' :=
  ⟨fun h => by simpa using congrArg mirror h, congrArg mirror⟩

@[simp]
theorem fromCapture_mirror {cap : RawTlsCapture} :
    fromCapture cap.mirror = (fromCapture cap).mirror := by
  simp only [fromCapture, mirror]
  congr 1
  exact cap.mirror_isIngress

-- The connection that a flow is one direction of.
def conn (k : FlowKey) : ConnKey where
  srcAddr := k.srcAddr
  dstAddr := k.dstAddr
  srcPort := k.srcPort
  dstPort := k.dstPort

end FlowKey

@[simp]
theorem Clock.mirror_checked {clk : Clock} {k : FlowKey} :
    clk.mirror.checked k.mirror = clk.checked k := by
  simp [mirror]

namespace ReassemblyEntry

variable {entry : ReassemblyEntry} {cap : RawTlsCapture}

theorem mirror_completed : entry.mirror.completed = entry.completed.map (·.mirror) := by
  simp only [completed, mirror]
  cases entry.head
  case none => rfl
  case some head =>
    cases entry.expectedTotal
    case none => rfl
    case some total =>
      have hs : head.mirror.seq = head.seq := rfl
      by_cases hb : total ≤ (entry.fragments.walk head.seq).contiguousBytes
      all_goals
        simp only [Option.map_some, hs, hb, if_true, if_false]
        rfl

theorem mirror_finalized : entry.mirror.finalized = entry.finalized.map (·.mirror) := by
  simp only [finalized, mirror]
  cases entry.head <;> rfl

theorem mirror_receiveHead :
    (entry.receiveHead cap).mirror = entry.mirror.receiveHead cap.mirror :=
  rfl

theorem mirror_receiveContinuation :
    (entry.receiveContinuation cap).mirror = entry.mirror.receiveContinuation cap.mirror :=
  rfl

end ReassemblyEntry

namespace Flow

variable {timeout : Duration} {e : Option ReassemblyEntry} {entry : ReassemblyEntry}

def mirrored (s : Option ReassemblyEntry × List AssembledRecord) :
    Option ReassemblyEntry × List AssembledRecord :=
  (s.1.map (·.mirror), s.2.map (·.mirror))

theorem mirror_settle : settle entry.mirror = mirrored (settle entry) := by
  simp only [settle, entry.mirror_completed]
  cases entry.completed <;> rfl

theorem mirror_close : close entry.mirror = mirrored (close entry) := by
  simp only [close, entry.mirror_finalized]
  cases entry.finalized <;> rfl

theorem mirror_getD {created : Instant} :
    (e.map (·.mirror)).getD (Reassembler.orphan created) =
      (e.getD (Reassembler.orphan created)).mirror := by
  cases e <;> rfl

theorem mirror_step (ev : Event) :
    step timeout (e.map (·.mirror)) ev.mirror = mirrored (step timeout e ev) := by
  cases ev <;> simp only [Event.mirror, step, mirror_getD]
  case head cap created => rw [←ReassemblyEntry.mirror_receiveHead, mirror_settle]
  case continuation cap created checked =>
    have ha : (e.map (·.mirror)).any (·.fragments.contains cap.mirror.tcpSeq) =
        e.any (·.fragments.contains cap.tcpSeq) := by
      cases e <;> rfl
    rw [ha]
    split
    case isTrue  => rfl
    case isFalse =>
      rw [←ReassemblyEntry.mirror_receiveContinuation]
      have hb (entry : ReassemblyEntry) :
          (4 ≤ entry.mirror.fragments.size ∨ timeout ≤ entry.mirror.elapsed checked) ↔
            (4 ≤ entry.fragments.size ∨ timeout ≤ entry.elapsed checked) := Iff.rfl
      simp only [hb]
      split
      · exact mirror_close
      · exact mirror_settle
  case sweep checked =>
    cases e
    case none => rfl
    case some entry =>
      have ht : entry.mirror.elapsed checked = entry.elapsed checked := rfl
      simp only [Option.map_some, ht]
      split
      · exact mirror_close
      · rfl
  case evict => rfl

end Flow

namespace Reassembler

variable {r r' : Reassembler} {k : FlowKey} {ev : Event} {clk : Clock} {cap : RawTlsCapture}

-- `r'` holds for each flow what `r` holds for the flow in the other direction.
structure Mirrors (r r' : Reassembler) : Prop where
  flows    : ∀ k : FlowKey, r'.flows[k.mirror]? = r.flows[k]?.map (·.mirror)
  maxFlows : r'.maxFlows = r.maxFlows
  timeout  : r'.timeout = r.timeout

theorem mirror_ownEvent : ownEvent k.mirror ev.mirror = (ownEvent k ev).map (·.mirror) := by
  cases ev <;> simp only [Event.mirror, ownEvent, FlowKey.fromCapture_mirror, ne_eq,
    FlowKey.mirror_inj, RawTlsCapture.mirror_isFragment, RawTlsCapture.mirror_isContinuation,
    Clock.mirror_checked]
  case sweep => rfl
  case capture clk cap =>
    repeat' split
    all_goals rfl

theorem mem_mirror_capture? (h : cap ∈ ev.mirror.capture?) :
    ∃ cap' ∈ ev.capture?, cap'.mirror = cap := by
  cases ev
  case sweep => contradiction
  case capture clk cap' => exact ⟨cap', rfl, Option.some.inj h⟩

theorem Mirrors.step (h : r.Mirrors r') (hr : r.flows.size < r.maxFlows)
    (hr' : r'.flows.size < r'.maxFlows) :
    (machine.step r ev).1.Mirrors (machine.step r' ev.mirror).1 := by
  refine ⟨fun k => ?_, ?_, ?_⟩
  case refine_1 =>
    rw [step_flows, step_flows, survivor_of_room hr, survivor_of_room hr', mirror_ownEvent, h.flows,
      h.timeout]
    cases ownEvent k ev
    case none    => rfl
    case some fe => exact congrArg Prod.fst (Flow.mirror_step fe)
  case refine_2 => rw [step_maxFlows, step_maxFlows, h.maxFlows]
  case refine_3 => rw [step_timeout, step_timeout, h.timeout]

theorem cleanup_of_room (h : r.flows.size < r.maxFlows) : r.cleanupIfOverLimit = r := by
  rw [cleanupIfOverLimit_eq, evicted_eq_none h]

theorem Mirrors.records (h : r.Mirrors r') (hr : r.flows.size < r.maxFlows)
    (hr' : r'.flows.size < r'.maxFlows) :
    (machine.step r' (.capture clk.mirror cap.mirror)).2 =
      (machine.step r (.capture clk cap)).2.map (·.mirror) := by
  cases hf : cap.isFragment <;> cases hc : cap.isContinuation
  case false.false =>
    rw [step_noFlags hf hc, step_noFlags (by simpa using hf) (by simpa using hc)]
    rfl
  case false.true =>
    rw [step_continuation hf hc, step_continuation (by simpa using hf) (by simpa using hc)]
    simp only [FlowKey.fromCapture_mirror, h.flows, h.timeout, Clock.mirror_checked]
    exact congrArg Prod.snd (Flow.mirror_step (.continuation cap clk.created _))
  all_goals
    rw [step_head hf, step_head (by simpa using hf)]
    simp only [cleanup_of_room hr, cleanup_of_room hr', FlowKey.fromCapture_mirror, h.flows,
      h.timeout]
    exact congrArg Prod.snd (Flow.mirror_step (.head cap clk.created))

-- All flows belong to the connection `c`.
def Of (c : ConnKey) (r : Reassembler) : Prop :=
  ∀ k : FlowKey, r.flows[k]? ≠ none → k.conn = c

theorem Of.size_le {c : ConnKey} (h : r.Of c) : r.flows.size ≤ 2 := by
  have hs : r.flows.keys ⊆ [⟨c.srcAddr, c.dstAddr, c.srcPort, c.dstPort, false⟩,
      ⟨c.srcAddr, c.dstAddr, c.srcPort, c.dstPort, true⟩] := by
    intro k hk
    rw [ExtTreeMap.mem_keys, ExtTreeMap.mem_iff_isSome_getElem?] at hk
    have hc := h k (Option.isSome_iff_ne_none.mp hk)
    subst hc
    obtain ⟨_, _, _, _, dir⟩ := k
    cases dir <;> simp [FlowKey.conn]
  have hn : r.flows.keys.Nodup := ExtTreeMap.nodup_keys
  have := List.subperm_of_subset hn hs |>.length_le
  rwa [ExtTreeMap.length_keys] at this

theorem Of.step {c : ConnKey} (h : r.Of c) (hc : ∀ cap ∈ ev.capture?, cap.connKey = c) :
    (machine.step r ev).1.Of c := by
  intro k hk
  by_contra hn
  have hs : r.survivor k ev = none := by
    have := not_imp_comm.mp (h k) hn
    simp [survivor, this]
  rw [step_flows, hs] at hk
  cases ev
  case sweep => exact hk rfl
  case capture clk cap =>
    have ho : ownEvent k (.capture clk cap) = none := by
      have hf : FlowKey.fromCapture cap ≠ k := by
        rintro rfl
        exact hn (hc cap rfl)
      simp [ownEvent, hf]
    exact hk (by rw [ho])

-- The same for reassemblers that only know the connection `c`, and thus have room for its flows.
structure MirrorsOf (c : ConnKey) (r r' : Reassembler) : Prop extends r.Mirrors r' where
  own  : r.Of c
  own' : r'.Of c
  many : 2 < r.maxFlows

namespace MirrorsOf

variable {c : ConnKey} {events : List Event}

theorem room (h : MirrorsOf c r r') : r.flows.size < r.maxFlows :=
  h.own.size_le.trans_lt h.many

theorem room' (h : MirrorsOf c r r') : r'.flows.size < r'.maxFlows :=
  h.own'.size_le.trans_lt (h.maxFlows ▸ h.many)

theorem step (h : MirrorsOf c r r') (hc : ∀ cap ∈ ev.capture?, cap.connKey = c) :
    MirrorsOf c (machine.step r ev).1 (machine.step r' ev.mirror).1 where
  toMirrors := h.toMirrors.step h.room h.room'
  own       := h.own.step hc
  own'      := h.own'.step fun cap hm => by
    obtain ⟨cap', hm', rfl⟩ := mem_mirror_capture? hm
    exact hc cap' hm'
  many      := step_maxFlows.symm ▸ h.many

theorem run (h : MirrorsOf c r r') (hc : ∀ ev ∈ events, ∀ cap ∈ ev.capture?, cap.connKey = c) :
    MirrorsOf c (machine.state r events) (machine.state r' (events.map (·.mirror))) := by
  induction events generalizing r r'
  case nil => exact h
  case cons ev events hi =>
    exact hi (h.step (hc ev (by simp))) fun ev' hm => hc ev' (by simp [hm])

end MirrorsOf

end Reassembler
end TlsProbe
