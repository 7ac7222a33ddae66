import TlsProbe.Classifier.Theorems.Flow
import TlsProbe.Common.Wire
import TlsProbe.Reassembler.Basic

open Std

namespace TlsProbe.Classifier

variable {reasmMap : ReasmMap} {a b : Arrival} {key : ReasmKey} {as : List Arrival}

-- The event continues a record with the payload of the packet.
structure Continues (a : Arrival) (ev : RawTlsCapture) : Prop where
  continuation : ev.isContinuation
  seq          : ev.tcpSeq = a.pkt.seqNumber

-- The bytes behind the TCP headers of the packets.
def restSum (as : List Arrival) : Nat :=
  (as.map (·.pkt.rest.length)).sum

namespace Flow

variable {state : ReasmState}

theorem event_continues (h : Sound a) (hl : Long a) : Continues a (event a true) where
  continuation := isContinuation_event
  seq          := tcpSeq_event h hl

theorem long_of_output {pending : Option ReasmState}
    (h : (machine.output pending as).length = as.length) : ∀ b ∈ as, Long b := by
  have h₁ := @output_length_le as pending
  have h₂ := List.length_filter_le (decide <| Long ·) as
  simpa using List.length_filter_eq_length_iff.mp (h₂.antisymm (h ▸ h₁))

-- Without an entry, a packet is not emitted, or not as a continuation.
theorem not_continues (ha : Sound a) :
    ¬List.Forall₂ Continues (a :: as) (machine.output none (a :: as)) := by
  intro h
  have hl := long_of_output h.length_eq.symm a (List.mem_cons_self ..)
  rw [Machine.output_cons] at h
  simp only [machine, step_idle ha hl] at h
  split at h
  case isTrue =>
    obtain ⟨hc, _⟩ := List.forall₂_cons.mp h
    simpa using hc.continuation
  case isFalse =>
    have h₁ : (machine.output none as).length ≤ as.length :=
      output_length_le.trans (List.length_filter_le ..)
    have h₂ := h.length_eq
    simp only [machine, List.nil_append, List.length_cons] at h₁ h₂
    omega

theorem step_eq (state : ReasmState) (h : Sound a) (hl : Long a) :
    (machine.step (some state) a).1.map countdown =
      (countdown state).next a.pkt.rest.length ∧
    (machine.step (some state) a).2 = [event a true] := by
  simp [machine, step_pending h hl, continued_countdown h.length_lt]

theorem continues_cons (state : ReasmState) (h : Sound a) (hl : Long a) :
    List.Forall₂ Continues (a :: as) (machine.output (some state) (a :: as)) ↔
      List.Forall₂ Continues as (machine.output (machine.step (some state) a).1 as) := by
  rw [Machine.output_cons, (step_eq state h hl).2, List.singleton_append, List.forall₂_cons,
    and_iff_right (event_continues h hl)]

theorem continues_iff (hs : ∀ b ∈ a :: as, Sound b) (hl : ∀ b ∈ a :: as, Long b)
    (hp : 0 < (countdown state).sum) :
    List.Forall₂ Continues (a :: as) (machine.output (some state) (a :: as)) ∧
      machine.state (some state) (a :: as) = none ↔
    restSum (a :: as).dropLast < (countdown state).sum ∧
      as.length ≤ (countdown state).number ∧
      ((countdown state).sum ≤ restSum (a :: as) ∨ as.length = (countdown state).number) := by
  have ha := hs a (List.mem_cons_self ..)
  have hla := hl a (List.mem_cons_self ..)
  have hc := (step_eq state ha hla).1
  rw [continues_cons state ha hla, Machine.state_cons]
  induction as generalizing a state
  case nil =>
    rw [Machine.output_nil, Machine.state_nil, ←Option.map_eq_none_iff, hc,
      Countdown.next_eq_none]
    simp [restSum, hp, eq_comm]
  case cons b as hi =>
    have hb := hs b (by simp)
    have hlb := hl b (by simp)
    cases hn : (machine.step (some state) a).1
    case none =>
      rw [hn, Option.map_none, eq_comm, Countdown.next_eq_none] at hc
      simp only [not_continues hb, false_and, false_iff, restSum, List.dropLast_cons_cons,
        List.map_cons, List.sum_cons, List.length_cons]
      omega
    case some state' =>
      rw [hn, Option.map_some, eq_comm, Countdown.next_eq_some] at hc
      obtain ⟨h₁, h₂, hc⟩ := hc
      have hp' : 0 < (countdown state').sum := by rw [hc]; exact Nat.sub_pos_of_lt h₁
      have hi := hi (fun c hm => hs c (List.mem_cons_of_mem _ hm))
        (fun c hm => hl c (List.mem_cons_of_mem _ hm)) hp' hb hlb (step_eq state' hb hlb).1
      rw [continues_cons state' hb hlb, Machine.state_cons]
      refine hi.trans ?_
      rw [hc]
      simp only [restSum, List.dropLast_cons_cons, List.map_cons, List.sum_cons, List.length_cons]
      omega

theorem step_none : ∀ ev ∈ (step none a).2, ev.isContinuation = false := by
  unfold step
  split
  case h_1 => simp
  case h_2 =>
    split
    case h_1 => simp
    case h_2 => simp only; split <;> simp

end Flow

-- The rest of the record comes in one to three packets with payload, and ends in the last of them.
structure Completes (key : ReasmKey) (reasmMap : ReasmMap) (a : Arrival) (as : List Arrival) : Prop
    extends Follows key reasmMap a as where
  nonempty : ∀ b ∈ own key as, b.pkt.tcpPayload ≠ []
  some     : own key as ≠ []
  few      : (own key as).length ≤ 3
  total    : ∃ total,
    recordTotal ((a :: own key as).flatMap (·.pkt.tcpPayload)) = Option.some total ∧
    ((a :: own key as).dropLast.flatMap (·.pkt.tcpPayload)).length < total ∧
    total ≤ ((a :: own key as).flatMap (·.pkt.tcpPayload)).length

-- Each of the packets is emitted once, as a continuation, and the record is forgotten with the last
-- one, so that what comes next in the flow is no continuation.
structure Followed (key : ReasmKey) (reasmMap : ReasmMap) (as : List Arrival) : Prop where
  events : List.Forall₂ Continues (own key as) (ownEvents key (machine.output reasmMap as))
  gone   : (machine.state reasmMap as)[key]? = none
  next   : ∀ b, b.flow = some key →
    ∀ ev ∈ (machine.step (machine.state reasmMap as) b).2, ev.isContinuation = false

theorem followed_iff_flow : Followed key reasmMap as ↔
    List.Forall₂ Continues (own key as) (Flow.machine.output reasmMap[key]? (own key as)) ∧
      Flow.machine.state reasmMap[key]? (own key as) = none := by
  rw [←output_own, ←state_own]
  refine ⟨fun h => ⟨h.events, h.gone⟩, fun ⟨he, hg⟩ => ⟨he, hg, fun b hb ev hev => ?_⟩⟩
  have hk : eventKey ev = key := Option.some.inj <| (flow_of_event hev).symm.trans hb
  have hm : ev ∈ ownEvents key (machine.step (machine.state reasmMap as) b).2 :=
    List.mem_filter.mpr ⟨hev, decide_eq_true hk⟩
  rw [step_own.2, if_pos hb, hg] at hm
  exact Flow.step_none ev hm

theorem followed_iff (h : Completes key reasmMap a as) :
    Followed key (machine.step reasmMap a).1 as ↔
      (∀ b ∈ own key as, Flow.Long b) ∧
      restSum (a :: own key as).dropLast < Flow.announced a ∧
      Flow.announced a ≤ restSum (a :: own key as) := by
  obtain ⟨-, -, hn, state, hs, hc, -⟩ := h.pending
  have hsound := (List.forall_mem_cons.mp h.sound).2
  have hfew := h.few
  rw [followed_iff_flow, hs]
  cases ho : own key as
  case nil => exact absurd ho h.some
  case cons b bs =>
    rw [ho] at hsound hfew
    by_cases hl : ∀ c ∈ b :: bs, Flow.Long c
    case neg => exact iff_of_false (fun h => hl <| Flow.long_of_output h.1.length_eq.symm) (hl ·.1)
    case pos =>
      have hp : 0 < (Flow.countdown state).sum := hc ▸ Nat.sub_pos_of_lt hn
      rw [Flow.continues_iff hsound hl hp, and_iff_right hl, hc]
      simp only [restSum, List.dropLast_cons_cons, List.map_cons, List.sum_cons,
        List.length_cons] at *
      omega

-- A frame with payload of the connection between 10.0.0.1:443 and 10.0.0.2:40000.
def tcpFrame (seq : UInt8) (payload : List UInt8) : Packet :=
  .ofBytes <| List.replicate 12 0 ++ [0x08, 0x00] ++
    [0x45, 0] ++ u16ToBeBytes (.ofNat (40 + payload.length)) ++
    [0, 0, 0, 0, 64, 6, 0, 0, 10, 0, 0, 1, 10, 0, 0, 2] ++
    [0x01, 0xbb, 0x9c, 0x40, 0, 0, 0, seq, 0, 0, 0, 0, 0x50, 0, 0, 0, 0, 0, 0, 0] ++ payload

def sent (seq : UInt8) (payload : List UInt8) : Arrival :=
  ⟨idleKernel, tcpFrame seq payload, true⟩

theorem sent_sound {seq : UInt8} {payload : List UInt8}
    (h : let pkt := tcpFrame seq payload
      (pkt.isTcp ∧ 20 ≤ pkt.tcpHeaderLen ∧ pkt.tcpData ≤ pkt.datagramEnd ∧
        pkt.datagramEnd ≤ pkt.len) ∧ 34 ≤ pkt.len ∧ pkt.len < 2 ^ 32) :
    Flow.Sound (sent seq payload) :=
  ⟨⟨h.1.1, h.1.2.1, h.1.2.2.1, h.1.2.2.2⟩, Packet.readable_ofBytes h.2.1 h.2.2⟩

-- A ServerHello of 25 bytes, and the key of its flow.
def hello : List UInt8 :=
  [0x16, 3, 3, 0, 20, 2] ++ List.replicate 19 0

def helloKey : ReasmKey :=
  reasmKey (tcpSegment (tcpFrame 0 hello)) true

def helloInTwo (n : Nat) : Arrival × Arrival :=
  (sent 0 (hello.take n), sent (.ofNat n) (hello.drop n))

theorem helloInTwo_completes {n : Nat} (h : n = 22 ∨ n = 19) :
    Completes helloKey ∅ (helloInTwo n).1 [(helloInTwo n).2] where
  fragment := by rcases h with rfl | rfl <;> decide +kernel
  flow     := by rcases h with rfl | rfl <;> decide +kernel
  sound b hb := by
    obtain rfl | hb := List.mem_cons.mp hb
    case inl => exact sent_sound (by rcases h with rfl | rfl <;> decide +kernel)
    case inr =>
      obtain rfl := List.mem_singleton.mp (List.mem_of_mem_filter hb)
      exact sent_sound (by rcases h with rfl | rfl <;> decide +kernel)
  inOrder  := by rcases h with rfl | rfl <;> decide +kernel
  nonempty := by rcases h with rfl | rfl <;> decide +kernel
  some     := by rcases h with rfl | rfl <;> decide +kernel
  few      := by rcases h with rfl | rfl <;> decide +kernel
  total    := ⟨25, by rcases h with rfl | rfl <;> decide +kernel⟩

-- The last three bytes of the record come in a packet that is too short to be looked at.
theorem short_last_not_followed : ¬∀ key reasmMap a as, Completes key reasmMap a as →
    Followed key (machine.step reasmMap a).1 as := by
  intro h
  have hf := h _ _ _ _ (helloInTwo_completes (.inl rfl))
  have ho : own helloKey [(helloInTwo 22).2] = [(helloInTwo 22).2] := by
    rw [own, List.filter_eq_self]
    decide +kernel
  have hl := Flow.long_of_output (followed_iff_flow.mp hf).1.length_eq.symm
  rw [ho] at hl
  exact absurd (hl _ (List.mem_cons_self ..)) (by decide +kernel)

theorem hello_followed :
    Followed helloKey (machine.step ∅ (helloInTwo 19).1).1 [(helloInTwo 19).2] := by
  have hl : ∀ b ∈ [(helloInTwo 19).2], Flow.Long b := by decide +kernel
  refine (followed_iff (helloInTwo_completes (.inr rfl))).mpr ⟨?_, ?_⟩
  · exact fun b hb => hl b (List.mem_of_mem_filter hb)
  · decide +kernel

end TlsProbe.Classifier
