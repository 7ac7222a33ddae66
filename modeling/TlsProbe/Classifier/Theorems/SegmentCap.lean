import Mathlib.Algebra.Order.BigOperators.Group.List
import Mathlib.Algebra.Order.Group.Nat
import Mathlib.Data.List.Chain
import TlsProbe.Classifier.Theorems.Followed
import TlsProbe.Reassembler.Theorems.Capped

namespace TlsProbe.Classifier

variable {reasmMap : ReasmMap} {a b : Arrival} {key : ReasmKey} {as xs : List Arrival}

-- The packets of the flow that are looked at.
def longs (key : ReasmKey) (as : List Arrival) : List Arrival :=
  (own key as).filter (Flow.Long ·)

-- The entry of the flow is there whenever a packet arrives.
def Pending (key : ReasmKey) (reasmMap : ReasmMap) (as : List Arrival) : Prop :=
  machine.AllSteps (fun reasmMap _ => reasmMap[key]?.isSome) reasmMap as

-- Before the entry is gone, the flow has no more continuations than userspace takes segments.
def CapHeld (key : ReasmKey) (reasmMap : ReasmMap) (as : List Arrival) : Prop :=
  ∀ xs, xs <+: as → Pending key reasmMap xs →
    (ownEvents key (machine.output reasmMap xs)).countP (·.isContinuation) ≤
      maxReasmSegments.toNat - 1

section Prefixes

variable {α : Type*} {p : α → Bool} {l : List α} {n : Nat}

-- The start of a list before the `n`-th element that meets `p`.
theorem exists_filter_take (h : n < (l.filter p).length) :
    ∃ ys x zs, l = ys ++ x :: zs ∧ p x ∧ ys.filter p = (l.filter p).take n := by
  have hd := List.drop_eq_getElem_cons h
  have he := (List.take_append_drop n (l.filter p)).symm
  rw [hd] at he
  obtain ⟨l₁, l₂, hl, h₁, h₂⟩ := List.filter_eq_append_iff.mp he
  obtain ⟨u, v, hu, hn, hp, hv⟩ := List.filter_eq_cons_iff.mp h₂
  refine ⟨l₁ ++ u, _, v, hl.trans (by rw [hu, List.append_assoc]), hp, ?_⟩
  rw [List.filter_append, h₁, List.filter_eq_nil_iff.mpr hn, List.append_nil]

end Prefixes

theorem longs_append : longs key (as ++ xs) = longs key as ++ longs key xs := by
  simp [longs, own]

theorem longs_mono (h : xs <+: as) : longs key xs <+: longs key as :=
  (h.filter _).filter _

theorem exists_longs_take {n : Nat} (h : n < (longs key as).length) :
    ∃ ys x zs, as = ys ++ x :: zs ∧ longs key [x] = [x] ∧ longs key ys = (longs key as).take n := by
  simp only [longs, own, List.filter_filter] at *
  obtain ⟨ys, x, zs, ha, hx, hy⟩ := exists_filter_take h
  exact ⟨ys, x, zs, ha, List.filter_cons_of_pos hx, hy⟩

theorem restSum_mono (h : xs.Sublist as) : restSum xs ≤ restSum as :=
  List.Sublist.sum_le_sum (h.map _) fun _ _ => Nat.zero_le _

theorem pending_flow (h : Pending key reasmMap as) :
    Flow.machine.AllSteps (fun pending _ => pending.isSome) reasmMap[key]? (own key as) := by
  induction as generalizing reasmMap
  case nil => simp [own, Machine.AllSteps]
  case cons a as hi =>
    have ht := hi h.tail
    rw [step_own.1] at ht
    by_cases hf : a.flow = some key
    case pos =>
      rw [if_pos hf] at ht
      rw [own, List.filter_cons_of_pos (by simpa using hf)]
      intro t hm
      obtain rfl | hm := List.mem_cons.mp hm
      · exact h.head
      · exact ht t hm
    case neg =>
      rw [if_neg hf] at ht
      rwa [own, List.filter_cons_of_neg (by simpa using hf)]

-- What is left of a record with the packet that starts it.
structure Counting (key : ReasmKey) (reasmMap : ReasmMap) (total : Nat) (as : List Arrival) : Prop
    where
  sound : ∀ b ∈ own key as, Flow.Sound b
  pos   : 0 < total
  entry : ∃ state, reasmMap[key]? = some state ∧ Flow.countdown state = ⟨total, 3⟩

theorem Follows.counting (h : Follows key reasmMap a as) : Counting key
    (machine.step reasmMap a).1 (Flow.announced a - a.pkt.rest.length) as := by
  obtain ⟨-, -, hn, state, hs, hc, -⟩ := h.pending
  exact ⟨(List.forall_mem_cons.mp h.sound).2, Nat.sub_pos_of_lt hn, state, hs, hc⟩

namespace Counting

variable {total : Nat}

theorem of_prefix (c : Counting key reasmMap total as) (h : xs <+: as) :
    Counting key reasmMap total xs where
  sound b hb := c.sound b <| (h.filter _).subset hb
  pos        := c.pos
  entry      := c.entry

theorem amounts_eq : Flow.amounts (own key as) = (longs key as).map (·.pkt.rest.length) :=
  rfl

-- The entry after packets that have found one.
theorem state_eq (c : Counting key reasmMap total as) (hp : Pending key reasmMap as) :
    (machine.state reasmMap as)[key]?.map Flow.countdown =
      Countdown.run (some ⟨total, 3⟩) ((longs key as).map (·.pkt.rest.length)) ∧
    ownEvents key (machine.output reasmMap as) = (longs key as).map (Flow.event · true) := by
  obtain ⟨state, hs, hc⟩ := c.entry
  have hf := hs ▸ pending_flow hp
  obtain ⟨h₁, h₂⟩ := Flow.run_while c.sound hf
  rw [state_own, output_own, hs, h₁, h₂, hc]
  exact ⟨rfl, rfl⟩

-- Few packets that do not bring all of the record leave an entry.
theorem isSome (c : Counting key reasmMap total as) (hn : (longs key as).length ≤ 3)
    (ht : restSum (longs key as) < total) : (machine.state reasmMap as)[key]?.isSome := by
  obtain ⟨state, hs, hc⟩ := c.entry
  have hr : (Countdown.run (some (Flow.countdown state)) (Flow.amounts (own key as))).isSome := by
    rw [hc, Countdown.run_isSome c.pos, amounts_eq]
    exact ⟨ht, by simpa using hn⟩
  have h := (Flow.run_pending c.sound hr).1
  rw [state_own, hs, ←Option.isSome_map, h, hr]

theorem lt_of_isSome (c : Counting key reasmMap total as) (hp : Pending key reasmMap as)
    (hs : (machine.state reasmMap as)[key]?.isSome) :
    restSum (longs key as) < total ∧ (longs key as).length ≤ 3 := by
  rw [←@Option.isSome_map _ _ Flow.countdown, (c.state_eq hp).1, Countdown.run_isSome c.pos] at hs
  simpa [restSum] using hs

theorem countP_events (c : Counting key reasmMap total as) (hp : Pending key reasmMap as) :
    (ownEvents key (machine.output reasmMap as)).countP (·.isContinuation) =
      (longs key as).length := by
  rw [(c.state_eq hp).2, List.countP_map, List.countP_eq_length]
  simp

-- So each packet up to the one behind them finds an entry.
theorem pending_concat (c : Counting key reasmMap total as) (hn : (longs key as).length ≤ 3)
    (ht : restSum (longs key as) < total) {x : Arrival} : Pending key reasmMap (as ++ [x]) := by
  rintro ⟨t, b⟩ hm
  obtain ⟨js, ks, he, rfl⟩ := Machine.mem_trace hm
  have hj : js <+: as := by
    refine List.prefix_of_prefix_length_le ⟨_, he.symm⟩ (List.prefix_append as [x]) ?_
    have := congrArg List.length he
    simp at this
    omega
  have hl : longs key js <+: longs key as := longs_mono hj
  exact (c.of_prefix hj).isSome (hl.length_le.trans hn) ((restSum_mono hl.sublist).trans_lt ht)

-- The entry outlives a third packet that does not bring all of the record, and a fourth one takes it.
theorem capHeld_iff (c : Counting key reasmMap total as) : CapHeld key reasmMap as ↔
    (longs key as).length ≤ 3 ∨ total ≤ restSum ((longs key as).take 3) := by
  constructor
  case mp =>
    intro h
    by_contra hn
    obtain ⟨hl, ht⟩ := not_or.mp hn
    obtain ⟨ys, x, zs, rfl, hx, hy⟩ := exists_longs_take (Nat.not_le.mp hl)
    have hxs : ys ++ [x] <+: ys ++ x :: zs := ⟨zs, by simp⟩
    have hp : Pending key reasmMap (ys ++ [x]) := by
      refine (c.of_prefix (List.prefix_append ys _)).pending_concat ?_ ?_
      · rw [hy]
        exact List.length_take_le ..
      · rw [hy]
        exact Nat.not_le.mp ht
    have := h _ hxs hp
    rw [(c.of_prefix hxs).countP_events hp, longs_append, List.length_append, hy, hx,
      List.length_take, List.length_singleton] at this
    change _ ≤ 3 at this
    omega
  case mpr =>
    intro h xs hxs hp
    rw [(c.of_prefix hxs).countP_events hp]
    by_contra hn
    have hl : 3 < (longs key xs).length := Nat.not_le.mp hn
    obtain ⟨ys, x, zs, rfl, hx, hy⟩ := exists_longs_take hl
    have hp' : Pending key reasmMap ys := fun t ht => hp t (by simp [Machine.trace_append, ht])
    have hs : (machine.state reasmMap ys)[key]?.isSome :=
      hp (machine.state reasmMap ys, x) (by simp [Machine.trace_append])
    have hys : ys <+: as := (List.prefix_append ys _).trans hxs
    have ht := ((c.of_prefix hys).lt_of_isSome hp' hs).1
    have hly : longs key (ys ++ x :: zs) <+: longs key as := longs_mono hxs
    obtain h | h := h
    case inl => exact absurd (hl.trans_le (hly.length_le.trans h)) (Nat.lt_irrefl _)
    case inr =>
      have hq : longs key ys = (longs key as).take 3 := by
        obtain ⟨_, he⟩ := hly
        rw [hy, ←he, List.take_append_of_le_length hl.le]
      rw [hq] at ht
      omega

theorem dropLast_lt (c : Counting key reasmMap total as) (hp : Pending key reasmMap as)
    (hn : longs key as ≠ []) : restSum (longs key as).dropLast < total := by
  have hl := List.length_pos_iff.mpr hn
  obtain ⟨ys, x, zs, rfl, -, hy⟩ := exists_longs_take (Nat.sub_one_lt_of_lt hl)
  have hp' : Pending key reasmMap ys := fun t ht => hp t (by simp [Machine.trace_append, ht])
  have hs : (machine.state reasmMap ys)[key]?.isSome :=
    hp (machine.state reasmMap ys, x) (by simp [Machine.trace_append])
  rw [List.dropLast_eq_take, ←hy]
  exact ((c.of_prefix (List.prefix_append ..)).lt_of_isSome hp' hs).1

theorem le_of_none (c : Counting key reasmMap total as) (hp : Pending key reasmMap as)
    (hs : (machine.state reasmMap as)[key]? = none) (hn : (longs key as).length ≤ 3) :
    total ≤ restSum (longs key as) := by
  have he := (c.state_eq hp).1
  by_contra ht
  have hr : (Countdown.run (some ⟨total, 3⟩) ((longs key as).map (·.pkt.rest.length))).isSome :=
    (Countdown.run_isSome c.pos).mpr ⟨Nat.not_le.mp ht, by simpa using hn⟩
  rw [←he, hs] at hr
  contradiction

end Counting

theorem capHeld_iff (h : Follows key reasmMap a as) :
    CapHeld key (machine.step reasmMap a).1 as ↔
      (longs key as).length ≤ 3 ∨
      Flow.announced a ≤ restSum (a :: (longs key as).take 3) := by
  rw [h.counting.capHeld_iff, Nat.sub_le_iff_le_add']
  rfl

section Delivery

-- The flow under which userspace reassembles what the classifier tracks under `key`.
def flowKey (key : ReasmKey) : FlowKey where
  srcAddr := key.conn.srcAddr
  dstAddr := key.conn.dstAddr
  srcPort := key.conn.srcPort
  dstPort := key.conn.dstPort
  dir     := key.dir != 0

theorem fromCapture_eq {ev : RawTlsCapture} : FlowKey.fromCapture ev = flowKey (eventKey ev) := by
  have h : ev.isIngress = ((if ev.isIngress then 1 else 0 : UInt8) != 0) := by
    cases ev.isIngress <;> rfl
  simp only [FlowKey.fromCapture, flowKey, eventKey, RawTlsCapture.connKey, ←h]
  rfl

theorem fromCapture_event {isContinuation : Bool} (h : b.flow = some key) :
    FlowKey.fromCapture (Flow.event b isContinuation) = flowKey key := by
  have he := (Option.ite_none_right_eq_some.mp h).2
  rw [fromCapture_eq, Flow.event, eventKey_captureEvent, Option.some.inj he]

-- Userspace gets all of the packet, and nothing but payload.
structure Whole (a : Arrival) : Prop where
  noPadding : a.pkt.tcpPayload = a.pkt.rest
  long      : Flow.Long a
  fits      : a.pkt.rest.length ≤ rawPayloadSize

theorem Whole.payloadSlice {isContinuation : Bool} (h : Whole a) (hs : Flow.Sound a) :
    (Flow.event a isContinuation).payloadSlice = a.pkt.rest := by
  rw [Flow.payloadSlice_event hs h.long, List.take_of_length_le h.fits]

-- Userspace gets four different segments, or fewer with all of their bytes.
def Delivered (key : ReasmKey) (a : Arrival) (as : List Arrival) : Prop :=
  ((longs key as).length = 3 ∧ ((a :: longs key as).map (·.pkt.seqNumber)).Nodup) ∨
  ((longs key as).length < 3 ∧ (∀ b ∈ a :: own key as, Whole b) ∧
    a.pkt.seqNumber.toNat + restSum (a :: own key as) < 2 ^ 32)

theorem rest_getElem {i : Nat} (h : i < (a.pkt.rest.take rawPayloadSize).length) :
    (a.pkt.rest.take rawPayloadSize)[i] = a.pkt.byte (a.pkt.tcpData + i) := by
  have hl : a.pkt.tcpData + i < a.pkt.bytes.length := by
    simp only [List.length_take, Packet.rest, List.length_drop] at h
    omega
  simp [Packet.rest, Packet.byte, List.getElem?_eq_getElem hl]

theorem recordTotal_rest (hl : Flow.Long a) :
    recordTotal (a.pkt.rest.take rawPayloadSize) = some (Flow.announced a) := by
  have hr : 5 ≤ (a.pkt.rest.take rawPayloadSize).length := by
    simp only [List.length_take, rawPayloadSize, Flow.Long] at *
    omega
  refine recordTotal_eq_some.mpr ⟨hr, ?_⟩
  rw [rest_getElem, rest_getElem, Nat.add_comm]
  simp [Flow.announced, recordLen, Flow.recordStart, tlsRecordHdrLen]

theorem whole_adjoins {isContinuation : Bool} {bs : List Arrival} (hs : ∀ c ∈ b :: bs, Flow.Sound c)
    (hw : ∀ c ∈ b :: bs, Whole c)
    (hc : (b :: bs).IsChain fun b c =>
      c.pkt.seqNumber = b.pkt.seqNumber + UInt32.ofNat b.pkt.tcpPayload.length)
    (hn : b.pkt.seqNumber.toNat + restSum (b :: bs) < 2 ^ 32) :
    (Flow.event b isContinuation :: bs.map (Flow.event · true)).IsChain Adjoins := by
  induction bs generalizing b isContinuation
  case nil => exact .singleton _
  case cons c bs hi =>
    obtain ⟨hb, hs'⟩ := List.forall_mem_cons.mp hs
    obtain ⟨hwb, hw'⟩ := List.forall_mem_cons.mp hw
    obtain ⟨hbc, hc'⟩ := List.isChain_cons_cons.mp hc
    have hseq : c.pkt.seqNumber.toNat = b.pkt.seqNumber.toNat + b.pkt.rest.length := by
      rw [hbc, hwb.noPadding, UInt32.toNat_add, UInt32.toNat_ofNat']
      simp only [restSum, List.map_cons, List.sum_cons] at hn
      omega
    refine .cons_cons ?_ <| hi hs' hw' hc' ?_
    · have hsc := hs' c (List.mem_cons_self ..)
      have hwc := hw' c (List.mem_cons_self ..)
      rw [Adjoins, Flow.tcpSeq_event hsc hwc.long, Flow.tcpSeq_event hb hwb.long,
        hwb.payloadSlice hb, hseq]
    · rw [hseq]
      simpa [restSum, Nat.add_assoc] using hn

variable {r : Reassembler} {events : List Reassembler.Event}

theorem own_events (h : Follows key reasmMap a as)
    (hp : Pending key (machine.step reasmMap a).1 as) :
    ownEvents key (machine.output reasmMap (a :: as)) =
      Flow.event a false :: (longs key as).map (Flow.event · true) := by
  obtain ⟨-, -, -, _, -, -, he⟩ := h.pending
  rw [Machine.output_cons, ownEvents, List.filter_append]
  exact congrArg₂ (· ++ ·) he (h.counting.state_eq hp).2

theorem mem_longs : b ∈ longs key as ↔ b ∈ own key as ∧ Flow.Long b := by
  simp [longs]

theorem flow_of_mem_own (hb : b ∈ own key as) : b.flow = some key := by
  simpa using (List.mem_filter.mp hb).2

theorem dropLast_cons_lt (h : Follows key reasmMap a as)
    (hp : Pending key (machine.step reasmMap a).1 as) (hn : longs key as ≠ []) :
    restSum (a :: longs key as).dropLast < Flow.announced a := by
  have h₁ := h.counting.dropLast_lt hp hn
  rw [List.dropLast_cons_of_ne_nil hn]
  simp only [restSum, List.map_cons, List.sum_cons] at *
  omega

theorem key_event (h : Follows key reasmMap a as) :
    ∀ cap ∈ Flow.event a false :: (longs key as).map (Flow.event · true),
      FlowKey.fromCapture cap = flowKey key := by
  intro cap hc
  obtain rfl | hc := List.mem_cons.mp hc
  case inl => exact fromCapture_event h.flow
  case inr =>
    obtain ⟨b, hb, rfl⟩ := List.mem_map.mp hc
    exact fromCapture_event (flow_of_mem_own (mem_longs.mp hb).1)

theorem continuation_event :
    ∀ cap ∈ (longs key as).map (Flow.event · true), cap.isFragment = false ∧ cap.isContinuation := by
  intro cap hc
  obtain ⟨b, -, rfl⟩ := List.mem_map.mp hc
  simp [Flow.isFragment_event]

theorem fragment_event (h : Follows key reasmMap a as) : (Flow.event a false).isFragment := by
  obtain ⟨-, -, hn, -⟩ := h.pending
  simpa [Flow.isFragment_event] using hn

theorem sound_long (h : Follows key reasmMap a as) :
    ∀ b ∈ a :: longs key as, Flow.Sound b ∧ Flow.Long b := by
  obtain ⟨hl, -⟩ := h.pending
  intro b hb
  obtain rfl | hb := List.mem_cons.mp hb
  case inl => exact ⟨h.sound b (List.mem_cons_self ..), hl⟩
  case inr =>
    obtain ⟨hm, hl⟩ := mem_longs.mp hb
    exact ⟨h.sound b (List.mem_cons_of_mem _ hm), hl⟩

theorem map_tcpSeq (h : Follows key reasmMap a as) :
    (Flow.event a false :: (longs key as).map (Flow.event · true)).map (·.tcpSeq) =
      (a :: longs key as).map (·.pkt.seqNumber) := by
  have hs := sound_long h
  have ha := hs a (List.mem_cons_self ..)
  rw [List.map_cons, List.map_map, List.map_cons, Flow.tcpSeq_event ha.1 ha.2]
  refine congrArg _ <| List.map_congr_left fun b hb => ?_
  have hb := hs b (List.mem_cons_of_mem _ hb)
  exact Flow.tcpSeq_event hb.1 hb.2

theorem map_payloadSlice (h : Follows key reasmMap a as) :
    (Flow.event a false :: (longs key as).map (Flow.event · true)).map (·.payloadSlice) =
      (a :: longs key as).map (·.pkt.rest.take rawPayloadSize) := by
  have hs := sound_long h
  have ha := hs a (List.mem_cons_self ..)
  rw [List.map_cons, List.map_map, List.map_cons, Flow.payloadSlice_event ha.1 ha.2]
  refine congrArg _ <| List.map_congr_left fun b hb => ?_
  have hb := hs b (List.mem_cons_of_mem _ hb)
  exact Flow.payloadSlice_event hb.1 hb.2

theorem payloadSlice_sum_le (h : Follows key reasmMap a as) :
    ((Flow.event a false :: (longs key as).map (Flow.event · true)).dropLast.map
      (·.payloadSlice.length)).sum ≤ restSum (a :: longs key as).dropLast := by
  have he := congrArg (List.map List.length) <| congrArg List.dropLast (map_payloadSlice h)
  rw [←List.map_dropLast, ←List.map_dropLast, List.map_map, List.map_map] at he
  refine (congrArg List.sum he).trans_le <| List.sum_le_sum fun b _ => ?_
  simp only [Function.comp_apply, List.length_take]
  exact Nat.min_le_right ..

theorem capped (h : Follows key reasmMap a as) (hp : Pending key (machine.step reasmMap a).1 as)
    (hl : (longs key as).length = 3)
    (hd : ((a :: longs key as).map (·.pkt.seqNumber)).Nodup) :
    Capped (flowKey key) (Flow.event a false) ((longs key as).map (Flow.event · true)) where
  key          := key_event h
  fragment     := fragment_event h
  continuation := continuation_event
  four         := by rw [List.length_map, hl]
  distinct     := by rwa [map_tcpSeq h]
  incomplete total ht := by
    have ha := sound_long h a (List.mem_cons_self ..)
    rw [Flow.payloadSlice_event ha.1 ha.2, recordTotal_rest ha.2, Option.some.injEq] at ht
    subst ht
    have hne : longs key as ≠ [] := fun hn => by simp [hn] at hl
    exact (payloadSlice_sum_le h).trans_lt (dropLast_cons_lt h hp hne)

section Whole

variable (h : Follows key reasmMap a as) (hw : ∀ b ∈ a :: own key as, Whole b)

include hw

theorem longs_of_whole : longs key as = own key as :=
  List.filter_eq_self.mpr fun b hb => decide_eq_true (hw b (List.mem_cons_of_mem _ hb)).long

theorem recordTotal_of_whole : recordTotal a.pkt.rest = some (Flow.announced a) := by
  have ha := hw a (List.mem_cons_self ..)
  rw [←recordTotal_rest ha.long, List.take_of_length_le ha.fits]

include h

theorem map_payloadSlice_of_whole :
    (Flow.event a false :: (longs key as).map (Flow.event · true)).map (·.payloadSlice) =
      (a :: longs key as).map (·.pkt.rest) := by
  rw [map_payloadSlice h]
  refine List.map_congr_left fun b hb => List.take_of_length_le ?_
  exact (hw b (longs_of_whole hw ▸ hb)).fits

theorem flatMap_payloadSlice_of_whole :
    (Flow.event a false :: (longs key as).map (Flow.event · true)).flatMap (·.payloadSlice) =
      (a :: longs key as).flatMap (·.pkt.rest) := by
  rw [List.flatMap_def, map_payloadSlice_of_whole h hw, ←List.flatMap_def]

end Whole

theorem segmented (h : Follows key reasmMap a as) (hp : Pending key (machine.step reasmMap a).1 as)
    (hg : (machine.state (machine.step reasmMap a).1 as)[key]? = none)
    (hl : (longs key as).length < 3) (hw : ∀ b ∈ a :: own key as, Whole b)
    (hn : a.pkt.seqNumber.toNat + restSum (a :: own key as) < 2 ^ 32) :
    Segmented (flowKey key) (((a :: longs key as).flatMap (·.pkt.rest)).take (Flow.announced a))
      (Flow.event a false) ((longs key as).map (Flow.event · true)) := by
  obtain ⟨hla, -, hlt, -⟩ := h.pending
  have hle := h.counting.le_of_none hp hg hl.le
  have hne : longs key as ≠ [] := by
    intro he
    rw [he] at hle
    have : restSum [] = 0 := rfl
    omega
  have hrec : (((a :: longs key as).flatMap (·.pkt.rest)).take (Flow.announced a)).length =
      Flow.announced a := by
    have : ((a :: longs key as).flatMap (·.pkt.rest)).length = restSum (a :: longs key as) :=
      List.length_flatMap ..
    rw [List.length_take, this]
    simp only [restSum, List.map_cons, List.sum_cons] at *
    omega
  have hhead : (Flow.event a false).payloadSlice = a.pkt.rest :=
    (hw a (List.mem_cons_self ..)).payloadSlice (h.sound a (List.mem_cons_self ..))
  have hpre : a.pkt.rest <+: ((a :: longs key as).flatMap (·.pkt.rest)).take (Flow.announced a) :=
    List.prefix_of_prefix_length_le (List.prefix_append ..) (List.take_prefix ..)
      (hlt.le.trans_eq hrec.symm)
  refine ⟨key_event h, fragment_event h, continuation_event, ?few, ?nonempty, ?consecutive, ?header,
    ?notWhole, ?total, ?cut, ?last⟩
  case few         => simpa using Nat.succ_lt_succ hl
  case consecutive => exact longs_of_whole hw ▸ whole_adjoins h.sound hw h.inOrder hn
  case header      => exact hhead ▸ Nat.le_of_succ_le hla
  case notWhole    => rwa [hhead, hrec]
  case cut         => exact flatMap_payloadSlice_of_whole h hw ▸ List.take_prefix ..
  case nonempty =>
    intro cap hc he
    have hm := List.mem_map_of_mem (f := (·.payloadSlice)) hc
    rw [map_payloadSlice_of_whole h hw] at hm
    obtain ⟨b, hb, hb'⟩ := List.mem_map.mp hm
    have hlong := (sound_long h b hb).2
    simp [Flow.Long, hb', he] at hlong
  case total =>
    rw [hrec, ←recordTotal_of_isPrefix hpre (Nat.le_of_succ_le hla), recordTotal_of_whole hw]
  case last =>
    rw [hrec, List.length_flatMap]
    exact (payloadSlice_sum_le h).trans_lt (dropLast_cons_lt h hp hne)

-- The last of the packets brings the end of the record.
def Reached (key : ReasmKey) (a : Arrival) (as : List Arrival) : Prop :=
  ∃ bs b, as = bs ++ [b] ∧ longs key [b] = [b] ∧
    restSum (a :: longs key bs) < Flow.announced a ∧
    Flow.announced a ≤ restSum (a :: longs key as)

theorem reached (h : Follows key reasmMap a as) (hp : Pending key (machine.step reasmMap a).1 as)
    (hg : (machine.state (machine.step reasmMap a).1 as)[key]? = none)
    (hl : (longs key as).length ≤ 3) : Reached key a as := by
  have c := h.counting
  have hle := c.le_of_none hp hg hl
  obtain ⟨-, -, hlt, -⟩ := h.pending
  obtain rfl | ⟨bs, b, rfl⟩ := List.eq_nil_or_concat' as
  case inl =>
    have : restSum (longs key []) = 0 := rfl
    omega
  case inr =>
    have hp' : Pending key (machine.step reasmMap a).1 bs :=
      fun t ht => hp t (by simp [Machine.trace_append, ht])
    have hs := hp (machine.state (machine.step reasmMap a).1 bs, b) (by simp [Machine.trace_append])
    have hlt' := ((c.of_prefix (List.prefix_append ..)).lt_of_isSome hp' hs).1
    refine ⟨bs, b, rfl, ?_, ?_, ?_⟩
    · by_contra hn
      have hb : longs key [b] = [] := by
        by_cases hl : b.flow = some key ∧ Flow.Long b <;> simp_all [longs, own]
      rw [longs_append, hb, List.append_nil] at hle
      omega
    · simp only [restSum, List.map_cons, List.sum_cons] at *
      omega
    · simp only [restSum, List.map_cons, List.sum_cons] at *
      omega

theorem forgotten (h : Follows key reasmMap a as)
    (hp : Pending key (machine.step reasmMap a).1 as)
    (hg : (machine.state (machine.step reasmMap a).1 as)[key]? = none)
    (hd : Delivered key a as) (hn : r.flows[flowKey key]? = none)
    (ho : Reassembler.ownCaptures (flowKey key) events =
      ownEvents key (machine.output reasmMap (a :: as)))
    (hu : Reassembler.machine.AllSteps (Reassembler.Undisturbed (flowKey key)) r events) :
    (Reassembler.machine.state r events).flows[flowKey key]? = none := by
  rw [own_events h hp] at ho
  obtain ⟨hl, hd⟩ | ⟨hl, hw, hs⟩ := hd
  case inl => exact Reassembler.capped_forgotten (capped h hp hl hd) hn ho hu
  case inr =>
    have hh (now : Instant) : Holds (Flow.event a false) []
        (r.flows[flowKey key]?.getD (Reassembler.orphan now)) := by
      simpa [hn] using Holds.orphan now
    exact (Reassembler.arrivals (segmented h hp hg hl hw hs) hh (.of_eq ho) (by simp [ho]) hu).2

theorem Follows.of_prefix (h : Follows key reasmMap a as) (hx : xs <+: as) :
    Follows key reasmMap a xs where
  fragment := h.fragment
  flow     := h.flow
  sound b hb := h.sound b <| (List.cons_subset_cons _ (hx.filter _).subset) hb
  inOrder  := by
    obtain ⟨t, rfl⟩ := hx
    have := h.inOrder
    rw [own, List.filter_append, ←List.cons_append] at this
    exact this.left_of_append

end Delivery

-- The classifier keeps to the cap, and once its entry is gone, a reassembler that is fed the events
-- of the record, in time and with room for the flow, has forgotten it too.
structure Agreed (key : ReasmKey) (reasmMap : ReasmMap) (a : Arrival) (as : List Arrival) : Prop
    where
  held      : CapHeld key (machine.step reasmMap a).1 as
  forgotten : ∀ xs, xs <+: as → Pending key (machine.step reasmMap a).1 xs →
    (machine.state (machine.step reasmMap a).1 xs)[key]? = none →
    ∀ (r : Reassembler) (events : List Reassembler.Event), r.flows[flowKey key]? = none →
    Reassembler.ownCaptures (flowKey key) events =
      ownEvents key (machine.output reasmMap (a :: xs)) →
    Reassembler.machine.AllSteps (Reassembler.Undisturbed (flowKey key)) r events →
    (Reassembler.machine.state r events).flows[flowKey key]? = none

theorem agreed_of_delivered (h : Follows key reasmMap a as) :
    (CapHeld key (machine.step reasmMap a).1 as ↔ (longs key as).length ≤ 3 ∨
      Flow.announced a ≤ restSum (a :: (longs key as).take 3)) ∧
    ((longs key as).length ≤ 3 ∨ Flow.announced a ≤ restSum (a :: (longs key as).take 3) →
      (∀ xs, xs <+: as → Reached key a xs → Delivered key a xs) →
      Agreed key reasmMap a as) := by
  refine ⟨capHeld_iff h, fun hc hd => ⟨(capHeld_iff h).mpr hc, ?_⟩⟩
  intro xs hx hp hg r events hn ho hu
  have h' := h.of_prefix hx
  have hl : (longs key xs).length ≤ 3 := by
    have := (capHeld_iff h).mpr hc xs hx hp
    rwa [h'.counting.countP_events hp] at this
  exact forgotten h' hp hg (hd xs hx (reached h' hp hg hl)) hn ho hu

-- A ServerHello of 35 bytes, in five packets.
def longHello : List UInt8 :=
  [0x16, 3, 3, 0, 30, 2] ++ List.replicate 29 0

def inFive (i : Nat) : Arrival :=
  sent (.ofNat (7 * i)) <| (longHello.drop (7 * i)).take 7

theorem inFive_follows : Follows helloKey ∅ (inFive 0) ([1, 2, 3, 4].map inFive) where
  fragment := by decide +kernel
  flow     := by decide +kernel
  sound b hb := by
    have hs : ∀ b ∈ [0, 1, 2, 3, 4].map inFive, Flow.Sound b := by
      refine List.forall_mem_map.mpr fun i hi => sent_sound ?_
      revert i
      decide +kernel
    exact hs b <| List.cons_subset_cons (inFive 0) (List.filter_subset_self _) hb
  inOrder  := by decide +kernel

-- All four packets behind the first one are emitted as continuations.
theorem inFive_not_agreed : ¬∀ key reasmMap a as, Follows key reasmMap a as →
    Agreed key reasmMap a as := by
  intro h
  have hc := (h _ _ _ _ inFive_follows).held
  rw [capHeld_iff inFive_follows] at hc
  exact absurd hc (by decide +kernel)

theorem hello_agreed : Agreed helloKey ∅ (helloInTwo 19).1 [(helloInTwo 19).2] := by
  have h := (helloInTwo_completes (.inr rfl)).toFollows
  refine (agreed_of_delivered h).2 (by decide +kernel) fun xs hx _ => .inr ⟨?_, fun b hb => ?_, ?_⟩
  · exact ((longs_mono hx).length_le).trans_lt (by decide +kernel)
  · replace hb : b ∈ [(helloInTwo 19).1, (helloInTwo 19).2] :=
      List.cons_subset_cons _ (fun c hc => hx.subset (List.mem_of_mem_filter hc)) hb
    refine ⟨?_, ?_, ?_⟩ <;> revert b <;> decide +kernel
  · have hs : restSum (own helloKey xs) ≤ restSum (own helloKey [(helloInTwo 19).2]) :=
      restSum_mono (hx.filter _).sublist
    have hn : (helloInTwo 19).1.pkt.seqNumber.toNat +
        restSum ((helloInTwo 19).1 :: own helloKey [(helloInTwo 19).2]) < 2 ^ 32 := by
      decide +kernel
    simp only [restSum, List.map_cons, List.sum_cons] at *
    omega

end TlsProbe.Classifier
