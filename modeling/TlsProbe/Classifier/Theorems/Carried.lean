import TlsProbe.Classifier.Theorems.SegmentCap

namespace TlsProbe.Classifier

variable {reasmMap : ReasmMap} {a : Arrival} {key : ReasmKey} {as : List Arrival}
variable {record : List UInt8}

theorem own_own : own key (own key as) = own key as := by
  simp [own]

-- The packet `a` starts a record, and the few packets of its flow among `as` bring the rest of it.
-- Userspace gets all of each.
structure Carries (key : ReasmKey) (reasmMap : ReasmMap) (record : List UInt8) (a : Arrival)
    (as : List Arrival) : Prop where
  idle    : reasmMap[key]? = none
  flow    : a.flow = some key
  starts  : startsRecord (Flow.recordStart a)
  sound   : ∀ b ∈ a :: own key as, Flow.Sound b
  whole   : ∀ b ∈ a :: own key as, Whole b
  few     : (own key as).length < 3
  inOrder : (a :: own key as).IsChain fun b c =>
    c.pkt.seqNumber = b.pkt.seqNumber + UInt32.ofNat b.pkt.tcpPayload.length
  noWrap  : a.pkt.seqNumber.toNat + restSum (a :: own key as) < 2 ^ 32
  carried : (a :: own key as).flatMap (·.pkt.tcpPayload) = record
  total   : recordTotal record = some record.length

namespace Carries

-- The packets of other flows make no difference.
theorem alone (h : Carries key reasmMap record a as) :
    Carries key reasmMap record a (own key as) := by
  have ⟨idle, flow, starts, sound, whole, few, inOrder, noWrap, carried, total⟩ := h
  rw [←@own_own key as] at sound whole few inOrder noWrap carried
  exact ⟨idle, flow, starts, sound, whole, few, inOrder, noWrap, carried, total⟩

theorem flatMap_rest (h : Carries key reasmMap record a as) :
    (a :: own key as).flatMap (·.pkt.rest) = record := by
  rw [←h.carried, List.flatMap_def, List.flatMap_def]
  exact congrArg List.flatten <| List.map_congr_left fun b hb => (h.whole b hb).noPadding.symm

theorem restSum_eq (h : Carries key reasmMap record a as) :
    restSum (a :: own key as) = record.length := by
  rw [←h.flatMap_rest, List.length_flatMap]
  rfl

theorem announced_eq (h : Carries key reasmMap record a as) :
    Flow.announced a = record.length := by
  have hl : Flow.Long a := (h.whole a (List.mem_cons_self ..)).long
  have hp : a.pkt.rest <+: record := h.flatMap_rest ▸ List.prefix_append ..
  have ht := recordTotal_of_isPrefix hp (Nat.le_of_succ_le hl)
  rw [recordTotal_of_whole h.whole, h.total] at ht
  exact Option.some.inj ht

theorem longs_eq (h : Carries key reasmMap record a as) : longs key as = own key as :=
  longs_of_whole h.whole

theorem step_eq (h : Carries key reasmMap record a as) :
    ownEvents key (machine.step reasmMap a).2 = [Flow.event a false] := by
  have hs := h.sound a (List.mem_cons_self ..)
  have hl := (h.whole a (List.mem_cons_self ..)).long
  rw [step_own.2, if_pos h.flow, h.idle, Flow.step_idle hs hl, if_pos h.starts]

-- A packet that holds all of the record.
theorem event_of_nil (h : Carries key reasmMap record a as) (hn : own key as = []) :
    (Flow.event a false).payloadSlice = record ∧ (Flow.event a false).isFragment = false := by
  have hr := h.flatMap_rest
  rw [hn, List.flatMap_singleton] at hr
  have hw := h.whole a (List.mem_cons_self ..)
  refine ⟨(hw.payloadSlice (h.sound a (List.mem_cons_self ..))).trans hr, ?_⟩
  rw [Flow.isFragment_event, h.announced_eq, hr]
  simp

section Fragmented

variable (h : Carries key reasmMap record a as) (hn : own key as ≠ [])

include h hn

theorem length_lt : a.pkt.rest.length < Flow.announced a := by
  obtain ⟨b, bs, hb⟩ := List.exists_cons_of_ne_nil hn
  have hl : 6 ≤ b.pkt.rest.length := (h.whole b (by simp [hb])).long
  have hs := h.restSum_eq
  rw [h.announced_eq, ←hs, hb]
  simp only [restSum, List.map_cons, List.sum_cons]
  omega

theorem follows : Follows key reasmMap a (own key as) where
  fragment := by
    refine ⟨Flow.event a false, List.mem_of_mem_filter (h.step_eq ▸ List.mem_cons_self ..), ?_⟩
    rw [Flow.isFragment_event]
    simpa using h.length_lt hn
  flow     := h.flow
  sound    := h.alone.sound
  inOrder  := h.alone.inOrder

-- Each of the packets finds the entry of the flow.
theorem pending : Pending key (machine.step reasmMap a).1 (own key as) := by
  obtain ⟨bs, b, hb⟩ := (List.eq_nil_or_concat' (own key as)).resolve_left hn
  have hf := h.follows hn
  have hl : longs key bs ++ longs key [b] = bs ++ [b] := by
    rw [←longs_append, ←hb, h.alone.longs_eq, own_own]
  have hw : Flow.Long b := (h.whole b (by simp [hb])).long
  have hb' : longs key [b] = [b] := by
    have : b.flow = some key := @flow_of_mem_own b key as (by simp [hb])
    simp [longs, own, this, hw]
  rw [hb', List.append_cancel_right_eq] at hl
  have hs := h.restSum_eq
  have ha := h.announced_eq
  have hfew := h.few
  rw [hb] at hs hf hfew ⊢
  refine (hf.counting.of_prefix (List.prefix_append ..)).pending_concat ?_ ?_
  · rw [hl]
    simp at hfew
    omega
  · rw [hl]
    have hw' : 6 ≤ b.pkt.rest.length := hw
    simp only [restSum, List.map_cons, List.map_append, List.sum_cons, List.sum_append,
      List.map_nil, List.sum_nil] at *
    omega

theorem gone : (machine.state (machine.step reasmMap a).1 (own key as))[key]? = none := by
  have hc := (h.follows hn).counting
  refine Option.not_isSome_iff_eq_none.mp fun hs => ?_
  have ht := (hc.lt_of_isSome (h.pending hn) hs).1
  rw [h.alone.longs_eq, own_own] at ht
  have hr := h.restSum_eq
  have ha := h.announced_eq
  simp only [restSum, List.map_cons, List.sum_cons] at *
  omega

theorem segmented : Segmented (flowKey key) record (Flow.event a false)
    ((own key as).map (Flow.event · true)) := by
  have hl : longs key (own key as) = own key as := by rw [h.alone.longs_eq, own_own]
  have hs := Classifier.segmented (h.follows hn) (h.pending hn) (h.gone hn)
    (by rw [hl]; exact h.few) h.alone.whole h.alone.noWrap
  rw [hl, h.flatMap_rest, h.announced_eq, List.take_length] at hs
  exact hs

end Fragmented

-- The events of the flow: one for each of the packets.
theorem events (h : Carries key reasmMap record a as) :
    ownEvents key (machine.output reasmMap (a :: as)) =
      Flow.event a false :: (own key as).map (Flow.event · true) := by
  by_cases hn : own key as = []
  case pos =>
    rw [Machine.output_cons, ownEvents, List.filter_append]
    refine congrArg₂ (· ++ ·) h.step_eq ?_
    rw [hn]
    exact output_own.trans (by rw [hn]; rfl)
  case neg =>
    have ho : ownEvents key (machine.output reasmMap (a :: as)) =
        ownEvents key (machine.output reasmMap (a :: own key as)) := by
      have (bs : List Arrival) : own key (a :: bs) = a :: own key bs :=
        List.filter_cons_of_pos (by simp [h.flow])
      rw [output_own, output_own, this, this, own_own]
    rw [ho, own_events (h.follows hn) (h.pending hn), h.alone.longs_eq, own_own]

end Carries
end TlsProbe.Classifier
