import TlsProbe.Classifier.Flow
import TlsProbe.Classifier.Theorems.Frame
import TlsProbe.Lib.Countdown

open Std

namespace TlsProbe.Classifier

variable {reasmMap : ReasmMap} {a : Arrival} {key : ReasmKey} {as : List Arrival}

section Projection

theorem flow_of_segment {seg : Segment} (h : segment a.pkt = some seg) :
    a.flow = some (reasmKey seg a.isEgress) := by
  obtain ⟨hp, -, -, rfl⟩ := segment_eq_some h
  exact if_pos hp

theorem eventFlags_ingress : ∀ isEgress isAlert isContinuation isFragmented,
    (eventFlags isEgress isAlert isContinuation isFragmented &&& flagIngress != 0) = !isEgress := by
  decide

@[simp]
theorem eventKey_captureEvent {kernel : Kernel} {pkt : Packet} {seg : Segment} {rec : RecordStart}
    {isEgress isContinuation : Bool} :
    eventKey (captureEvent kernel pkt seg rec isEgress isContinuation) = reasmKey seg isEgress := by
  have h : (captureEvent kernel pkt seg rec isEgress isContinuation).isIngress = !isEgress :=
    eventFlags_ingress ..
  simp only [eventKey, h, reasmKey]
  cases isEgress <;> rfl

theorem continueReassembly_getElem? {k : ReasmKey} {n : Nat} :
    (continueReassembly reasmMap k n)[key]? =
      if k = key then reasmMap[key]?.bind (Flow.continued · n) else reasmMap[key]? := by
  unfold continueReassembly Flow.continued
  by_cases hk : k = key
  case pos =>
    subst hk
    cases hs : reasmMap[k]?
    case none => simp [hs]
    case some state =>
      simp only [Option.bind_some, if_true]
      split <;> simp
  case neg =>
    rw [if_neg hk]
    cases reasmMap[k]?
    case none => rfl
    case some state =>
      simp only
      split <;> simp [ExtTreeMap.getElem?_erase, ExtTreeMap.getElem?_insert, hk]

theorem startReassembly_getElem? {k : ReasmKey} {total n : Nat} (hn : reasmMap[k]? = none) :
    (startReassembly reasmMap k total n)[key]? =
      if k = key then Flow.started total n else reasmMap[key]? := by
  unfold startReassembly Flow.started
  by_cases hk : k = key
  case pos =>
    subst hk
    split <;> simp [hn]
  case neg =>
    split <;> simp [ExtTreeMap.getElem?_insert, hk]

-- The flow `key` of the classifier changes as a flow on its own does.
theorem step_own : (machine.step reasmMap a).1[key]? =
      (if a.flow = some key then (Flow.step reasmMap[key]? a).1 else reasmMap[key]?) ∧
    ownEvents key (machine.step reasmMap a).2 =
      (if a.flow = some key then (Flow.step reasmMap[key]? a).2 else []) := by
  simp only [machine, tryCaptureTls, Flow.step]
  cases hs : segment a.pkt
  case none => simp [ownEvents]
  case some seg =>
    simp only [flow_of_segment hs, Option.some.injEq]
    cases hr : a.pkt.loadBytes 6 seg.tlsStart
    case none => simp [ownEvents]
    case some rec =>
      set k := reasmKey seg a.isEgress with hk
      have hc : reasmMap.contains k = reasmMap[k]?.isSome := ExtTreeMap.contains_eq_isSome_getElem?
      simp only [hc]
      cases hp : reasmMap[k]?
      case some state =>
        simp only [Option.isSome_some, Bool.true_or, if_true, continueReassembly_getElem?,
          Option.toList_some, ownEvents, List.filter_singleton, eventKey_captureEvent, ←hk]
        by_cases he : k = key
        case pos => subst he; simp [hp]
        case neg => simp [he]
      case none =>
        simp only [Option.isSome_none, Bool.false_or, Bool.false_eq_true, if_false]
        by_cases hr : startsRecord rec = true
        case pos =>
          simp only [hr, if_true, startReassembly_getElem? hp, Option.toList_some, ownEvents,
            List.filter_singleton, eventKey_captureEvent, ←hk]
          by_cases he : k = key
          case pos => subst he; simp [hp]
          case neg => simp [he]
        case neg =>
          by_cases he : k = key
          case pos => subst he; simp [hp, hr, ownEvents]
          case neg => simp [he, hr, ownEvents]

theorem projects (key : ReasmKey) : machine.Projects Flow.machine (·[key]?)
    (fun _ a => own key [a]) (ownEvents key) (fun _ => True) where
  inv _ _ _    := trivial
  state _ a _  := by
    by_cases h : a.flow = some key <;> simp [step_own, own, h, Flow.machine]
  output _ a _ := by
    by_cases h : a.flow = some key <;> simp [step_own, own, h, Flow.machine]

theorem inputs_own : Machine.Projects.inputs machine (fun _ a => own key [a]) reasmMap as =
    own key as := by
  induction as generalizing reasmMap
  case nil         => rfl
  case cons a _ hi =>
    rw [Machine.Projects.inputs_cons, hi]
    exact (List.filter_append ..).symm

theorem state_own : (machine.state reasmMap as)[key]? =
    Flow.machine.state reasmMap[key]? (own key as) := by
  rw [(projects key).state_run trivial, inputs_own]

theorem output_own : ownEvents key (machine.output reasmMap as) =
    Flow.machine.output reasmMap[key]? (own key as) := by
  rw [(projects key).output_run trivial rfl fun _ _ => List.filter_append .., inputs_own]

end Projection

namespace Flow

variable {state : ReasmState} {pending : Option ReasmState} {n : Nat}

theorem long_iff : Long a ↔ a.pkt.tcpData + 6 ≤ a.pkt.len := by
  have : a.pkt.rest.length = a.pkt.len - a.pkt.tcpData := List.length_drop ..
  simp only [Long]
  omega

section Steps

theorem Sound.segment_eq (h : Sound a) (hl : Long a) : segment a.pkt = some (tcpSegment a.pkt) :=
  segment_of_readable h.readable h.wellFormed.tcp h.wellFormed.tcpHeader (long_iff.mp hl)

theorem Sound.recordStart_eq (h : Sound a) (hl : Long a) :
    a.pkt.loadBytes 6 (tcpSegment a.pkt).tlsStart = some (recordStart a) :=
  loadBytes_of_readable h.readable (Nat.succ_pos 5) (long_iff.mp hl)

theorem step_short (hl : ¬Long a) : step pending a = (pending, []) := by
  unfold step
  split
  case h_1         => rfl
  case h_2 seg hs => exact absurd (long_iff.mpr (segment_eq_some hs).2.2.1) hl

theorem step_pending (h : Sound a) (hl : Long a) :
    step (some state) a = (continued state a.pkt.rest.length, [event a true]) := by
  simp only [step, h.segment_eq hl, h.recordStart_eq hl, payloadAvail_eq]
  rfl

theorem step_idle (h : Sound a) (hl : Long a) : step none a =
    if startsRecord (recordStart a) then
      (started (announced a) a.pkt.rest.length, [event a false])
    else
      (none, []) := by
  simp only [step, h.segment_eq hl, h.recordStart_eq hl, payloadAvail_eq]
  rfl

@[simp]
theorem isContinuation_event {isContinuation : Bool} :
    (event a isContinuation).isContinuation = isContinuation :=
  isContinuation_captureEvent

theorem isFragment_event {isContinuation : Bool} : (event a isContinuation).isFragment =
    (!isContinuation && a.pkt.rest.length < announced a) := by
  rw [event, isFragment_captureEvent, isFragmented, payloadAvail_eq, announced]

theorem tcpSeq_event {isContinuation : Bool} (h : Sound a) (hl : Long a) :
    (event a isContinuation).tcpSeq = a.pkt.seqNumber := by
  have h₁ := long_iff.mp hl
  have h₂ := h.wellFormed.tcpHeader
  have h₃ : a.pkt.tcpData = a.pkt.tcpHeader + a.pkt.tcpHeaderLen := rfl
  exact tcpSeq_of_readable h.readable (by omega)

theorem payloadSlice_event {isContinuation : Bool} (h : Sound a) (hl : Long a) :
    (event a isContinuation).payloadSlice = a.pkt.rest.take rawPayloadSize := by
  have h₁ := long_iff.mp hl
  rw [event, payloadSlice_captureEvent, copiedPayload_of_readable h.readable (by omega)]

end Steps

section Countdowns

def countdown (state : ReasmState) : Countdown where
  sum    := state.remaining.toNat
  number := state.segmentsLeft.toNat

theorem countdown_injective : Function.Injective countdown := by
  rintro ⟨r, l⟩ ⟨r', l'⟩ h
  simpa [countdown, UInt32.toNat_inj, UInt8.toNat_inj] using h

-- What the packets that are looked at count for.
def amounts (as : List Arrival) : List Nat :=
  (as.filter (Long ·)).map (·.pkt.rest.length)

theorem saturatingSub_toNat (x y : UInt32) : (saturatingSub x y).toNat = x.toNat - y.toNat := by
  unfold saturatingSub
  split
  case isTrue h  => exact UInt32.toNat_sub_of_le _ _ h
  case isFalse h =>
    have := UInt32.not_le.mp h
    rw [UInt32.lt_iff_toNat_lt] at this
    simp
    omega

theorem continued_countdown (hn : n < 2 ^ 32) :
    (continued state n).map countdown = (countdown state).next n := by
  have hr := saturatingSub_toNat state.remaining (UInt32.ofNat n)
  rw [UInt32.toNat_ofNat_of_lt' hn] at hr
  have hz : saturatingSub state.remaining (UInt32.ofNat n) = 0 ↔ state.remaining.toNat ≤ n := by
    rw [←UInt32.toNat_inj, hr]
    exact Nat.sub_eq_zero_iff_le
  have hl : state.segmentsLeft = 0 ↔ state.segmentsLeft.toNat = 0 := UInt8.toNat_inj.symm
  by_cases ho : state.remaining.toNat ≤ n ∨ state.segmentsLeft.toNat = 0
  case pos =>
    rw [Countdown.next_eq_none.mpr ho, continued, if_pos (by rwa [hz, hl])]
    rfl
  case neg =>
    have h₁ : 1 ≤ state.segmentsLeft := by
      rw [UInt8.le_iff_toNat_le, UInt8.toNat_one]
      omega
    rw [continued, if_neg (by rwa [hz, hl])]
    refine (Countdown.next_eq_some.mpr ⟨?_, ?_, ?_⟩).symm
    · exact Nat.not_le.mp fun h => ho <| .inl h
    · exact Nat.pos_of_ne_zero fun h => ho <| .inr h
    · simp [countdown, hr, UInt8.toNat_sub_of_le _ _ h₁]

theorem started_countdown {total : Nat} (hn : n < total) (ht : total < 2 ^ 32) :
    (started total n).map countdown = some ⟨total - n, 3⟩ := by
  have : (UInt32.ofNat (total - n)).toNat = total - n :=
    UInt32.toNat_ofNat_of_lt' <| (Nat.sub_le ..).trans_lt ht
  simp [started, hn, countdown, this]
  rfl

theorem announced_lt : announced a < 2 ^ 32 := by
  have := (u16FromBeBytes (recordStart a)[3] (recordStart a)[4]).toNat_lt
  simp only [announced, recordLen, tlsRecordHdrLen]
  omega

theorem amounts_cons : amounts (a :: as) =
    if Long a then a.pkt.rest.length :: amounts as else amounts as := by
  by_cases h : Long a <;> simp [amounts, h]

theorem amounts_append {bs : List Arrival} : amounts (as ++ bs) = amounts as ++ amounts bs := by
  simp [amounts]

theorem Sound.length_lt (h : Sound a) : a.pkt.rest.length < 2 ^ 32 := by
  have : a.pkt.rest.length = a.pkt.len - a.pkt.tcpData := List.length_drop ..
  have := h.readable.len_lt
  omega

-- A packet that is looked at continues the pending record and counts down what it lacks.
theorem step_countdown (h : Sound a) :
    (step (some state) a).1.map countdown =
      Countdown.run (some (countdown state)) (amounts [a]) ∧
    (step (some state) a).2 = ([a].filter (Long ·)).map (event · true) := by
  rw [amounts_cons]
  by_cases hl : Long a
  case neg => simp [step_short hl, hl, amounts, Countdown.run]
  case pos =>
    have hn := @continued_countdown state _ h.length_lt
    simp [step_pending h hl, hl, amounts, Countdown.run, hn]

-- The packets behind it go on where it stops.
theorem run_cons {state' : ReasmState} (h : Sound a) (hc : (step (some state) a).1 = some state')
    (hr : (machine.state (some state') as).map countdown =
        Countdown.run (some (countdown state')) (amounts as) ∧
      machine.output (some state') as = (as.filter (Long ·)).map (event · true)) :
    (machine.state (some state) (a :: as)).map countdown =
      Countdown.run (some (countdown state)) (amounts (a :: as)) ∧
    machine.output (some state) (a :: as) = ((a :: as).filter (Long ·)).map (event · true) := by
  obtain ⟨hs, ho⟩ := @step_countdown a state h
  rw [hc, Option.map_some] at hs
  have hm : machine.step (some state) a = (some state', _) := Prod.ext hc ho
  rw [Machine.state_cons, Machine.output_cons, hm, hr.1, hr.2, hs, ←Countdown.run_append,
    ←amounts_append, ←List.map_append, ←List.filter_append]
  exact ⟨rfl, rfl⟩

-- As long as the countdown goes on, the packets that are looked at continue the record.
theorem run_pending (hs : ∀ a ∈ as, Sound a)
    (hp : (Countdown.run (some (countdown state)) (amounts as)).isSome) :
    (machine.state (some state) as).map countdown =
      Countdown.run (some (countdown state)) (amounts as) ∧
    machine.output (some state) as = (as.filter (Long ·)).map (event · true) := by
  induction as generalizing state
  case nil => simp [amounts, Countdown.run]
  case cons a as hi =>
    obtain ⟨ha, hs⟩ := List.forall_mem_cons.mp hs
    have hc := (@step_countdown a state ha).1
    rw [←List.singleton_append, amounts_append, Countdown.run_append, ←hc] at hp
    cases hn : (step (some state) a).1
    case none => simp [hn] at hp
    case some state' =>
      rw [hn, Option.map_some] at hp
      exact run_cons ha hn (hi hs hp)

-- So do they as long as the entry is there whenever one of them arrives.
theorem run_while (hs : ∀ a ∈ as, Sound a)
    (hp : machine.AllSteps (fun pending _ => pending.isSome) (some state) as) :
    (machine.state (some state) as).map countdown =
      Countdown.run (some (countdown state)) (amounts as) ∧
    machine.output (some state) as = (as.filter (Long ·)).map (event · true) := by
  induction as generalizing state
  case nil => simp [amounts, Countdown.run]
  case cons a as hi =>
    obtain ⟨ha, hs⟩ := List.forall_mem_cons.mp hs
    have ht : machine.AllSteps (fun pending _ => pending.isSome) (step (some state) a).1 as :=
      hp.tail
    cases hn : (step (some state) a).1
    case some state' =>
      rw [hn] at ht
      exact run_cons ha hn (hi hs ht)
    case none =>
      -- Nothing comes behind the packet that ends the countdown.
      rw [hn] at ht
      cases as
      case nil =>
        obtain ⟨hc, ho⟩ := @step_countdown a state ha
        exact ⟨hc, by simpa [machine] using ho⟩
      case cons b _ => simpa using ht.head

end Countdowns

theorem step_output_le : (step pending a).2.length ≤ 1 := by
  unfold step
  split
  case h_1 => simp
  case h_2 =>
    split
    case h_1 => simp
    case h_2 =>
      split
      case h_1 => simp
      case h_2 => split <;> simp

theorem output_length_le :
    (machine.output pending as).length ≤ (as.filter (Long ·)).length := by
  induction as generalizing pending
  case nil => simp
  case cons a as hi =>
    rw [Machine.output_cons, List.length_append]
    by_cases hl : Long a
    case neg => simpa [machine, step_short hl, hl] using hi
    case pos =>
      have h₁ : (step pending a).2.length ≤ 1 := step_output_le
      have h₂ : (machine.output (step pending a).1 as).length ≤ (as.filter (Long ·)).length := hi
      rw [List.filter_cons_of_pos (by simpa using hl), List.length_cons]
      change (step pending a).2.length + (machine.output (step pending a).1 as).length ≤ _
      omega

end Flow

-- The packets of the flow among `as` come right behind the packet `a`, which starts a record that it
-- does not hold all of.
structure Follows (key : ReasmKey) (reasmMap : ReasmMap) (a : Arrival) (as : List Arrival) : Prop
    where
  fragment : ∃ ev ∈ (machine.step reasmMap a).2, ev.isFragment
  flow     : a.flow = some key
  sound    : ∀ b ∈ a :: own key as, Flow.Sound b
  inOrder  : (a :: own key as).IsChain fun b c =>
    c.pkt.seqNumber = b.pkt.seqNumber + UInt32.ofNat b.pkt.tcpPayload.length

theorem flow_of_event {ev : RawTlsCapture} (h : ev ∈ (machine.step reasmMap a).2) :
    a.flow = some (eventKey ev) := by
  by_contra hn
  have he : ev ∈ ownEvents (eventKey ev) (machine.step reasmMap a).2 := by simpa [ownEvents] using h
  rw [step_own.2, if_neg hn] at he
  simp at he

-- The first packet of a record leaves an entry that counts what the record still lacks.
theorem Follows.pending (h : Follows key reasmMap a as) :
    Flow.Long a ∧ startsRecord (Flow.recordStart a) ∧
    a.pkt.rest.length < Flow.announced a ∧ ∃ state,
      (machine.step reasmMap a).1[key]? = some state ∧
      Flow.countdown state = ⟨Flow.announced a - a.pkt.rest.length, 3⟩ ∧
      ownEvents key (machine.step reasmMap a).2 = [Flow.event a false] := by
  obtain ⟨ev, he, hf⟩ := h.fragment
  have hk : eventKey ev = key := Option.some.inj <| (flow_of_event he).symm.trans h.flow
  have ha := h.sound a (List.mem_cons_self ..)
  have ho : ownEvents key (machine.step reasmMap a).2 = (Flow.step reasmMap[key]? a).2 := by
    rw [step_own.2, if_pos h.flow]
  have hs : (machine.step reasmMap a).1[key]? = (Flow.step reasmMap[key]? a).1 := by
    rw [step_own.1, if_pos h.flow]
  have he : ev ∈ (Flow.step reasmMap[key]? a).2 :=
    ho ▸ List.mem_filter.mpr ⟨he, decide_eq_true hk⟩
  by_cases hl : Flow.Long a
  case neg => simp [Flow.step_short hl] at he
  case pos =>
    cases hp : reasmMap[key]?
    case some state =>
      rw [hp, Flow.step_pending ha hl, List.mem_singleton] at he
      simp [he, Flow.isFragment_event] at hf
    case none =>
      rw [hp, Flow.step_idle ha hl] at he hs ho
      split at he
      case isFalse => contradiction
      case isTrue hr =>
        obtain rfl := List.mem_singleton.mp he
        rw [if_pos hr] at hs ho
        have hn : a.pkt.rest.length < Flow.announced a := by simpa [Flow.isFragment_event] using hf
        have hc := Flow.started_countdown hn (Flow.announced_lt ..)
        obtain ⟨state, hst, hc⟩ := Option.map_eq_some_iff.mp hc
        exact ⟨hl, hr, hn, state, hs.trans hst, hc, ho⟩

end TlsProbe.Classifier
