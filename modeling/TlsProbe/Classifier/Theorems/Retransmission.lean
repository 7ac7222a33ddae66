import TlsProbe.Classifier.Theorems.SegmentCap

namespace TlsProbe.Classifier

variable {reasmMap : ReasmMap} {a x y : Arrival} {key : ReasmKey} {as as' bs cs : List Arrival}

-- Two packets with the same segment. The other fields of their headers may differ.
structure Same (x y : Arrival) : Prop where
  seq  : y.pkt.seqNumber = x.pkt.seqNumber
  rest : y.pkt.rest = x.pkt.rest

-- A packet on its way, for the first time or again.
inductive Sending
  | first (a : Arrival)
  | again (a : Arrival)

namespace Sending

def arrival : Sending → Arrival
  | first a | again a => a

def original? : Sending → Option Arrival
  | first a => a
  | again _ => none

end Sending

def arrivals (ss : List Sending) : List Arrival :=
  ss.map (·.arrival)

def originals (ss : List Sending) : List Arrival :=
  ss.filterMap (·.original?)

variable {ss ss₁ ss₂ : List Sending}

-- What is sent again behind the packet `a` has been sent before.
def Retransmits (a : Arrival) (ss : List Sending) : Prop :=
  ∀ ss₁ y ss₂, ss = ss₁ ++ .again y :: ss₂ → ∃ x ∈ a :: originals ss₁, Same x y

-- The sequence numbers and payloads that are emitted for a flow.
def emitted (key : ReasmKey) (reasmMap : ReasmMap) (as : List Arrival) :
    List (UInt32 × List UInt8) :=
  (ownEvents key (machine.output reasmMap as)).map fun ev => (ev.tcpSeq, ev.payloadSlice)

-- The budgets of the entry that `a` leaves outlast the packets `bs`.
def Lasts (a : Arrival) (bs : List Arrival) : Prop :=
  a.pkt.rest.length + (Flow.amounts bs).sum < Flow.announced a ∧ (Flow.amounts bs).length ≤ 3

-- They do up to the first transmission of every packet that is looked at, copies included.
def InBudget (a : Arrival) (ss : List Sending) : Prop :=
  ∀ ss₁ x ss₂, ss = ss₁ ++ .first x :: ss₂ → Flow.Long x → Lasts a (arrivals ss₁)

namespace Flow

variable {state : ReasmState} {pending : Option ReasmState}

def pair (a : Arrival) : UInt32 × List UInt8 :=
  (a.pkt.seqNumber, a.pkt.rest.take rawPayloadSize)

theorem pair_event {isContinuation : Bool} (h : Sound a) (hl : Long a) :
    ((event a isContinuation).tcpSeq, (event a isContinuation).payloadSlice) = pair a := by
  rw [tcpSeq_event h hl, payloadSlice_event h hl, pair]

-- Whatever is emitted is the segment of a packet that is looked at.
theorem pair_of_mem_output {ev : RawTlsCapture} (hs : ∀ b ∈ bs, Sound b)
    (h : ev ∈ machine.output pending bs) :
    ∃ b ∈ bs, Long b ∧ (ev.tcpSeq, ev.payloadSlice) = pair b := by
  obtain ⟨⟨p, b⟩, ht, hm⟩ := Machine.mem_output.mp h
  obtain ⟨js, ks, rfl, -⟩ := Machine.mem_trace ht
  have hb := hs b (by simp)
  refine ⟨b, by simp, ?_⟩
  by_cases hl : Long b
  case neg =>
    rw [show machine.step p b = (p, []) from step_short hl] at hm
    contradiction
  case pos =>
    refine ⟨hl, ?_⟩
    cases p
    case some state =>
      rw [show machine.step (some state) b = _ from step_pending hb hl] at hm
      rw [List.mem_singleton.mp hm, pair_event hb hl]
    case none =>
      rw [show machine.step none b = _ from step_idle hb hl] at hm
      split at hm
      case isTrue  => rw [List.mem_singleton.mp hm, pair_event hb hl]
      case isFalse => contradiction

-- A packet that finds an entry is emitted.
theorem mem_output_of_isSome (hs : ∀ b ∈ bs ++ x :: cs, Sound b) (hl : Long x)
    (hp : (Countdown.run (some (countdown state)) (amounts bs)).isSome) :
    event x true ∈ machine.output (some state) (bs ++ x :: cs) := by
  have hr := (run_pending (fun b hb => hs b (by simp [hb])) hp).1
  obtain ⟨state', hst⟩ : ∃ state', machine.state (some state) bs = some state' := by
    rw [←Option.isSome_iff_exists, ←@Option.isSome_map _ _ countdown, hr, hp]
  rw [Machine.output_append, hst, Machine.output_cons,
    show machine.step (some state') x = _ from step_pending (hs x (by simp)) hl]
  simp

-- When no packet that finds no entry starts a record, the entry is what the countdown says, and what
-- is emitted are the packets that come before the countdown ends.
theorem run_exact (hs : ∀ b ∈ bs, Sound b) (hn : ∀ cs y ds, bs = cs ++ y :: ds →
      ¬(Countdown.run (some (countdown state)) (amounts cs)).isSome → ¬startsRecord (recordStart y)) :
    (machine.state (some state) bs).map countdown =
      Countdown.run (some (countdown state)) (amounts bs) ∧
    ∀ ev ∈ machine.output (some state) bs, ∃ cs y ds, bs = cs ++ y :: ds ∧
      (Countdown.run (some (countdown state)) (amounts cs)).isSome ∧ Long y ∧
      ev = event y true := by
  induction bs using List.reverseRecOn
  case nil => simp [amounts, Countdown.run]
  case append_singleton bs b hi =>
    obtain ⟨hst, ho⟩ := hi (fun c hc => hs c (by simp [hc])) fun cs y ds he =>
      hn cs y (ds ++ [b]) (by simp [he])
    have hb := hs b (by simp)
    have ho' : ∀ ev ∈ machine.output (some state) bs, ∃ cs y ds, bs ++ [b] = cs ++ y :: ds ∧
        (Countdown.run (some (countdown state)) (amounts cs)).isSome ∧ Long y ∧
        ev = event y true := by
      intro ev hev
      obtain ⟨cs, y, ds, rfl, h⟩ := ho ev hev
      exact ⟨cs, y, ds ++ [b], by simp, h⟩
    rw [Machine.state_append, Machine.output_append, Machine.state_cons, Machine.state_nil,
      Machine.output_cons, Machine.output_nil, List.append_nil, amounts_append]
    by_cases hl : Long b
    case neg =>
      rw [show machine.step _ b = (_, []) from step_short hl, List.append_nil,
        show amounts [b] = [] by simp [amounts, hl], List.append_nil]
      exact ⟨hst, ho'⟩
    case pos =>
      rw [show amounts [b] = [b.pkt.rest.length] by simp [amounts, hl], Countdown.run_append, ←hst]
      cases hp : machine.state (some state) bs
      case none =>
        have hr : ¬startsRecord (recordStart b) := hn bs b [] rfl (by rw [←hst, hp]; simp)
        rw [show machine.step none b = _ from step_idle hb hl, if_neg hr]
        simpa using ho'
      case some state' =>
        rw [show machine.step (some state') b = _ from step_pending hb hl]
        refine ⟨continued_countdown hb.length_lt, fun ev hev => ?_⟩
        obtain hev | hev := List.mem_append.mp hev
        · exact ho' ev hev
        · refine ⟨bs, b, [], rfl, ?_, hl, List.mem_singleton.mp hev⟩
          rw [←hst, hp]
          rfl

end Flow

theorem mem_emitted (h : Follows key reasmMap a as) {p : UInt32 × List UInt8} :
    p ∈ emitted key reasmMap (a :: as') ↔ p = Flow.pair a ∨
      ∃ ev ∈ Flow.machine.output (machine.step reasmMap a).1[key]? (own key as'),
        (ev.tcpSeq, ev.payloadSlice) = p := by
  obtain ⟨hl, -, -, -, -, -, he⟩ := h.pending
  have ho : ownEvents key (machine.output reasmMap (a :: as')) = Flow.event a false ::
      Flow.machine.output (machine.step reasmMap a).1[key]? (own key as') := by
    rw [Machine.output_cons, ownEvents, List.filter_append, ←output_own]
    exact congrArg (· ++ _) he
  rw [emitted, ho, List.map_cons, List.mem_cons, List.mem_map,
    Flow.pair_event (h.sound a (List.mem_cons_self ..)) hl]

theorem mem_arrivals : y ∈ arrivals ss ↔ ∃ s ∈ ss, s.arrival = y :=
  List.mem_map

theorem originals_sublist : (originals ss).Sublist (arrivals ss) := by
  induction ss
  case nil => exact .slnil
  case cons s ss hi =>
    cases s
    case first x => exact hi.cons_cons x
    case again x => exact hi.cons x

theorem Retransmits.of_append (hr : Retransmits a (ss₁ ++ ss₂)) : Retransmits a ss₁ :=
  fun ts y ts' he => hr ts y (ts' ++ ss₂) (by simp [he])

-- Each packet is a first transmission or a copy of one.
theorem Retransmits.same (hr : Retransmits a ss) (hy : y ∈ arrivals ss) :
    ∃ x ∈ a :: originals ss, Same x y := by
  obtain ⟨s, hs, rfl⟩ := mem_arrivals.mp hy
  obtain ⟨ss₁, ss₂, rfl⟩ := List.append_of_mem hs
  cases s
  case first x => exact ⟨x, by simp [originals, Sending.original?], rfl, rfl⟩
  case again x =>
    obtain ⟨x', hx, hsame⟩ := hr ss₁ x ss₂ rfl
    refine ⟨x', ?_, hsame⟩
    obtain rfl | hx := List.mem_cons.mp hx
    · simp
    · rw [originals, List.filterMap_append]
      exact List.mem_cons_of_mem _ <| List.mem_append_left _ hx

theorem Same.pair (h : Same x y) : Flow.pair y = Flow.pair x := by
  rw [Flow.pair, Flow.pair, h.seq, h.rest]

theorem Same.long (h : Same x y) : Flow.Long y ↔ Flow.Long x := by
  rw [Flow.Long, Flow.Long, h.rest]

theorem lasts_iff {state : ReasmState} (hlt : a.pkt.rest.length < Flow.announced a)
    (hc : Flow.countdown state = ⟨Flow.announced a - a.pkt.rest.length, 3⟩) :
    Lasts a bs ↔ (Countdown.run (some (Flow.countdown state)) (Flow.amounts bs)).isSome := by
  rw [hc, Countdown.run_isSome (Nat.sub_pos_of_lt hlt), Lasts]
  simp only
  omega

theorem Lasts.of_sublist (h : Lasts a cs) (hs : bs.Sublist cs) : Lasts a bs := by
  have hm : (Flow.amounts bs).Sublist (Flow.amounts cs) := (hs.filter _).map _
  have h₁ := List.Sublist.sum_le_sum hm fun _ _ => Nat.zero_le _
  have h₂ := hm.length_le
  obtain ⟨h₃, h₄⟩ := h
  exact ⟨by omega, by omega⟩

theorem exists_sending (hx : originals ss = bs ++ x :: cs) :
    ∃ ss₁ ss₂, ss = ss₁ ++ .first x :: ss₂ ∧ originals ss₁ = bs := by
  obtain ⟨ss₁, ss', rfl, h₁, h'⟩ := List.filterMap_eq_append_iff.mp hx
  obtain ⟨ss₂, s, ss₃, rfl, hn, hs, -⟩ := List.filterMap_eq_cons_iff.mp h'
  cases s
  case again => contradiction
  case first y =>
    obtain rfl := Option.some.inj hs
    refine ⟨ss₁ ++ ss₂, ss₃, by simp, ?_⟩
    rw [originals, List.filterMap_append, h₁, List.filterMap_eq_nil_iff.mpr hn, List.append_nil]

theorem exists_arrival (hy : arrivals ss = bs ++ y :: cs) :
    ∃ ss₁ s ss₂, ss = ss₁ ++ s :: ss₂ ∧ arrivals ss₁ = bs ∧ s.arrival = y := by
  obtain ⟨ss₁, ss', rfl, h₁, h'⟩ := List.map_eq_append_iff.mp hy
  obtain ⟨s, ss₂, rfl, hs, -⟩ := List.map_eq_cons_iff.mp h'
  exact ⟨ss₁, s, ss₂, rfl, h₁, hs⟩

-- In budget, the flow emits the segments of all packets that are looked at.
theorem mem_emitted_iff (h : Follows key reasmMap a as) (hs : ∀ b ∈ own key as', Flow.Sound b)
    (ho : own key as' = arrivals ss) (hr : Retransmits a ss) (hb : InBudget a ss)
    {p : UInt32 × List UInt8} : p ∈ emitted key reasmMap (a :: as') ↔
      ∃ x ∈ a :: originals ss, Flow.Long x ∧ Flow.pair x = p := by
  obtain ⟨hl, -, hlt, state, hst, hc, -⟩ := h.pending
  rw [ho] at hs
  rw [mem_emitted h, hst, ho]
  constructor
  case mp =>
    rintro (rfl | ⟨ev, hev, rfl⟩)
    case inl => exact ⟨a, List.mem_cons_self .., hl, rfl⟩
    case inr =>
      obtain ⟨y, hy, hly, he⟩ := Flow.pair_of_mem_output hs hev
      obtain ⟨x, hx, hsame⟩ := hr.same hy
      exact ⟨x, hx, hsame.long.mp hly, hsame.pair.symm.trans he.symm⟩
  case mpr =>
    rintro ⟨x, hx, hlx, rfl⟩
    obtain rfl | hx := List.mem_cons.mp hx
    case inl => exact .inl rfl
    case inr =>
      obtain ⟨bs, cs, hbs⟩ := List.append_of_mem hx
      obtain ⟨ss₁, ss₂, rfl, -⟩ := exists_sending hbs
      have he : arrivals (ss₁ ++ .first x :: ss₂) = arrivals ss₁ ++ x :: arrivals ss₂ :=
        List.map_append
      rw [he] at hs
      have hp := (lasts_iff hlt hc).mp <| hb ss₁ x ss₂ rfl hlx
      exact .inr ⟨_, he ▸ Flow.mem_output_of_isSome hs hlx hp, Flow.pair_event (hs x (by simp)) hlx⟩

-- The packets as they were sent for the first time.
theorem originals_first : originals (bs.map .first) = bs ∧ arrivals (bs.map .first) = bs := by
  constructor
  · rw [originals, List.filterMap_map]
    exact List.filterMap_some
  · rw [arrivals, List.map_map]
    exact List.map_id _

theorem InBudget.originals (hb : InBudget a ss) : InBudget a ((originals ss).map .first) := by
  intro ss₁ x ss₂ he hl
  obtain ⟨bs, cs, hbs, rfl, hcs⟩ := List.map_eq_append_iff.mp he
  obtain ⟨y, cs, rfl, hy, -⟩ := List.map_eq_cons_iff.mp hcs
  cases hy
  obtain ⟨ss₁, ss₂, rfl, rfl⟩ := exists_sending hbs
  rw [originals_first.2]
  exact (hb ss₁ _ ss₂ rfl hl).of_sublist originals_sublist

-- The runs with and without the copies emit the same segments of the flow.
def SameEmitted (key : ReasmKey) (reasmMap : ReasmMap) (as as' : List Arrival) : Prop :=
  ∀ p, p ∈ emitted key reasmMap as' ↔ p ∈ emitted key reasmMap as

theorem sameEmitted_of_inBudget (h : Follows key reasmMap a as)
    (hs : ∀ b ∈ own key as', Flow.Sound b) (ho : own key as = originals ss)
    (ho' : own key as' = arrivals ss) (hr : Retransmits a ss) (hb : InBudget a ss) :
    SameEmitted key reasmMap (a :: as) (a :: as') := by
  intro p
  have hn : Retransmits a ((own key as).map .first) := by
    intro ss₁ y ss₂ he
    have hm : Sending.again y ∈ (own key as).map .first := by simp [he]
    simp at hm
  have hbase := mem_emitted_iff (p := p) h (List.forall_mem_cons.mp h.sound).2
    originals_first.2.symm hn (ho ▸ hb.originals)
  rw [mem_emitted_iff h hs ho' hr hb, hbase, originals_first.1, ho]

section Converse

-- All packets that are looked at are emitted when no copies come.
def AllEmitted (key : ReasmKey) (reasmMap : ReasmMap) (a : Arrival) (as : List Arrival) : Prop :=
  ∀ x ∈ own key as, Flow.Long x → Flow.pair x ∈ emitted key reasmMap (a :: as)

-- What comes when the budgets are used up does not look like the start of a record.
def NoRestart (a : Arrival) (ss : List Sending) : Prop :=
  ∀ ss₁ s ss₂, ss = ss₁ ++ s :: ss₂ → ¬Lasts a (arrivals ss₁) →
    ¬startsRecord (Flow.recordStart s.arrival)

theorem inBudget_of_sameEmitted (h : Follows key reasmMap a as)
    (hs : ∀ b ∈ own key as', Flow.Sound b) (ho : own key as = originals ss)
    (ho' : own key as' = arrivals ss) (hr : Retransmits a ss)
    (hd : ((a :: originals ss).map (·.pkt.seqNumber)).Nodup)
    (he : AllEmitted key reasmMap a as) (hn : NoRestart a ss)
    (hsame : SameEmitted key reasmMap (a :: as) (a :: as')) : InBudget a ss := by
  obtain ⟨hl, -, hlt, state, hst, hc, -⟩ := h.pending
  rintro ss₁ x ss₂ rfl hlx
  by_contra hx
  have hx' : x ∈ originals (ss₁ ++ .first x :: ss₂) := by
    simp [originals, Sending.original?]
  have hdist : ∀ z ∈ a :: originals ss₁, z.pkt.seqNumber ≠ x.pkt.seqNumber := by
    have hcons : a :: originals (ss₁ ++ .first x :: ss₂) =
        (a :: originals ss₁) ++ x :: originals ss₂ := by
      simp [originals, Sending.original?]
    rw [hcons, List.map_append, List.nodup_append] at hd
    exact fun z hz => hd.2.2 _ (List.mem_map_of_mem hz) _ (by simp)
  have hsplit' : arrivals (ss₁ ++ .first x :: ss₂) = arrivals ss₁ ++ x :: arrivals ss₂ :=
    List.map_append
  rw [ho'] at hs
  have hex := Flow.run_exact hs fun cs y ds hsplit hnot => by
    obtain ⟨ss₁, s, ss₂, he, rfl, rfl⟩ := exists_arrival hsplit
    exact hn ss₁ s ss₂ he fun hl => hnot <| (lasts_iff hlt hc).mp hl
  have hp := (hsame _).mpr <| he x (ho ▸ hx') hlx
  rw [mem_emitted h, hst, ho'] at hp
  obtain hp | ⟨ev, hev, hp⟩ := hp
  case inl => exact hdist a (List.mem_cons_self ..) (congrArg Prod.fst hp).symm
  case inr =>
    obtain ⟨cs, y, ds, hsplit, hcs, hly, rfl⟩ := hex.2 ev hev
    rw [Flow.pair_event (hs y (by simp [hsplit])) hly] at hp
    have hcs := (lasts_iff hlt hc).mpr hcs
    obtain hle | hgt := Nat.lt_or_ge cs.length (arrivals ss₁).length
    case inl =>
      have hpre : cs ++ [y] <+: arrivals ss₁ := by
        refine List.prefix_of_prefix_length_le ⟨ds, ?_⟩ ⟨_, hsplit'.symm⟩
          (by simpa using Nat.succ_le_of_lt hle)
        rw [hsplit, List.append_assoc, List.singleton_append]
      have hy : y ∈ arrivals ss₁ := hpre.subset (List.mem_append_right _ (List.mem_singleton_self y))
      obtain ⟨z, hz, hzy⟩ := hr.of_append.same hy
      exact hdist z hz <| hzy.seq.symm.trans (congrArg Prod.fst hp)
    case inr =>
      have hpre : arrivals ss₁ <+: cs :=
        List.prefix_of_prefix_length_le ⟨_, hsplit'.symm⟩ ⟨_, hsplit.symm⟩ hgt
      exact hx <| hcs.of_sublist hpre.sublist

end Converse

-- The packets of the flow among `as'` are those among `as` with copies in between.
structure Resent (key : ReasmKey) (reasmMap : ReasmMap) (a : Arrival) (as as' : List Arrival)
    (ss : List Sending) : Prop extends Follows key reasmMap a as where
  sent     : own key as = originals ss
  received : own key as' = arrivals ss
  copies   : Retransmits a ss
  sound'   : ∀ b ∈ own key as', Flow.Sound b

theorem sameEmitted_resent (h : Resent key reasmMap a as as' ss) :
    (InBudget a ss → SameEmitted key reasmMap (a :: as) (a :: as')) ∧
    (((a :: originals ss).map (·.pkt.seqNumber)).Nodup → AllEmitted key reasmMap a as →
      NoRestart a ss → (SameEmitted key reasmMap (a :: as) (a :: as') ↔ InBudget a ss)) := by
  have hp := sameEmitted_of_inBudget h.toFollows h.sound' h.sent h.received h.copies
  refine ⟨hp, fun hd he hn => ⟨?_, hp⟩⟩
  exact inBudget_of_sameEmitted h.toFollows h.sound' h.sent h.received h.copies hd he hn

section Schedules

theorem concat_eq_append {α : Type*} {l l₁ l₂ : List α} {u v : α} (h : l ++ [u] = l₁ ++ v :: l₂) :
    (l = l₁ ∧ u = v) ∨ ∃ l₃, l = l₁ ++ v :: l₃ := by
  obtain rfl | ⟨l₃, w, rfl⟩ := List.eq_nil_or_concat' l₂
  case inl =>
    obtain ⟨hl, hu⟩ := List.append_inj' h rfl
    exact .inl ⟨hl, List.head_eq_of_cons_eq hu⟩
  case inr =>
    rw [←List.cons_append, ←List.append_assoc] at h
    exact .inr ⟨l₃, (List.append_inj' h rfl).1⟩

theorem Retransmits.nil : Retransmits a [] := by
  intro ss₁ y ss₂ he
  simp at he

theorem Retransmits.first (hr : Retransmits a ss) : Retransmits a (ss ++ [.first x]) := by
  intro ss₁ y ss₂ he
  obtain ⟨rfl, he⟩ | ⟨ss₃, rfl⟩ := concat_eq_append he
  · contradiction
  · exact hr ss₁ y ss₃ rfl

theorem Retransmits.again (hr : Retransmits a ss) (hx : x ∈ a :: originals ss) (h : Same x y) :
    Retransmits a (ss ++ [.again y]) := by
  intro ss₁ z ss₂ he
  obtain ⟨rfl, hs⟩ | ⟨ss₃, rfl⟩ := concat_eq_append he
  · exact ⟨x, hx, Sending.again.inj hs ▸ h⟩
  · exact hr ss₁ z ss₃ rfl

theorem InBudget.nil : InBudget a [] := by
  intro ss₁ x ss₂ he
  simp at he

theorem InBudget.first (hb : InBudget a ss) (h : Lasts a (arrivals ss)) :
    InBudget a (ss ++ [.first x]) := by
  intro ss₁ y ss₂ he hl
  obtain ⟨rfl, -⟩ | ⟨ss₃, rfl⟩ := concat_eq_append he
  · exact h
  · exact hb ss₁ y ss₃ rfl hl

theorem InBudget.again (hb : InBudget a ss) : InBudget a (ss ++ [.again x]) := by
  intro ss₁ y ss₂ he hl
  obtain ⟨-, he⟩ | ⟨ss₃, rfl⟩ := concat_eq_append he
  · contradiction
  · exact hb ss₁ y ss₃ rfl hl

end Schedules

-- The ServerHello of 25 bytes in three packets.
def inThree : Nat → Arrival
  | 0     => sent 0 (hello.take 13)
  | 1     => sent 13 ((hello.drop 13).take 6)
  | _ + 2 => sent 19 (hello.drop 19)

theorem inThree_sound (i : Nat) : Flow.Sound (inThree i) ∧ (inThree i).flow = some helloKey := by
  match i with
  | 0     => exact ⟨sent_sound (by decide +kernel), by decide +kernel⟩
  | 1     => exact ⟨sent_sound (by decide +kernel), by decide +kernel⟩
  | _ + 2 => exact ⟨sent_sound (by decide +kernel), (by decide +kernel : (inThree 2).flow = _)⟩

theorem inThree_resent {ss : List Sending} (h : ∀ s ∈ ss, ∃ i, s.arrival = inThree i)
    (hs : originals ss = [inThree 1, inThree 2]) (hr : Retransmits (inThree 0) ss) :
    Resent helloKey ∅ (inThree 0) [inThree 1, inThree 2] (arrivals ss) ss := by
  have hs₁ : own helloKey [inThree 1, inThree 2] = [inThree 1, inThree 2] := by
    simp [own, inThree_sound]
  have hs₂ : own helloKey (arrivals ss) = arrivals ss := by
    refine List.filter_eq_self.mpr fun b hb => ?_
    obtain ⟨s, hm, rfl⟩ := mem_arrivals.mp hb
    obtain ⟨i, hi⟩ := h s hm
    simp [hi, inThree_sound]
  refine ⟨⟨by decide +kernel, (inThree_sound 0).2, ?_, by decide +kernel⟩, hs₁.trans hs.symm, hs₂,
    hr, ?_⟩
  · simp [hs₁, inThree_sound]
  · intro b hb
    obtain ⟨s, hm, rfl⟩ := mem_arrivals.mp (hs₂ ▸ hb)
    obtain ⟨i, hi⟩ := h s hm
    exact hi ▸ (inThree_sound i).1

-- A copy of the second packet comes before the third one.
def earlyCopy : List Sending :=
  [] ++ [.first (inThree 1)] ++ [.again (inThree 1)] ++ [.first (inThree 2)]

-- The copy comes behind the third one.
def lateCopy : List Sending :=
  [] ++ [.first (inThree 1)] ++ [.first (inThree 2)] ++ [.again (inThree 1)]

theorem earlyCopy_resent :
    Resent helloKey ∅ (inThree 0) [inThree 1, inThree 2] (arrivals earlyCopy) earlyCopy := by
  refine inThree_resent ?_ rfl <| .first <| .again (.first .nil) ?_ ⟨rfl, rfl⟩
  · simp [earlyCopy, Sending.arrival]
  · exact List.mem_cons_of_mem _ (List.mem_singleton_self _)

theorem lateCopy_resent :
    Resent helloKey ∅ (inThree 0) [inThree 1, inThree 2] (arrivals lateCopy) lateCopy := by
  refine inThree_resent ?_ rfl <| .again (.first (.first .nil)) ?_ ⟨rfl, rfl⟩
  · simp [lateCopy, Sending.arrival]
  · exact List.mem_cons_of_mem _ (List.mem_cons_self ..)

-- The early copy uses up what the entry counts for the third packet.
theorem earlyCopy_not_sameEmitted : ¬∀ key reasmMap a as as' ss,
    Resent key reasmMap a as as' ss → SameEmitted key reasmMap (a :: as) (a :: as') := by
  intro h
  have hs := h _ _ _ _ _ _ earlyCopy_resent (Flow.pair (inThree 2))
  have hf := earlyCopy_resent.toFollows
  obtain ⟨-, -, -, state, hst, hc, -⟩ := hf.pending
  have hstate : state = ⟨12, 3⟩ := Flow.countdown_injective (hc.trans (by decide +kernel))
  rw [mem_emitted hf, mem_emitted hf, hst, hstate] at hs
  exact absurd hs (by decide +kernel)

theorem lateCopy_sameEmitted : SameEmitted helloKey ∅ (inThree 0 :: [inThree 1, inThree 2])
    (inThree 0 :: arrivals lateCopy) := by
  refine (sameEmitted_resent lateCopy_resent).1 <| .again <| .first (.first .nil ?_) ?_
  · exact ⟨by decide +kernel, by decide +kernel⟩
  · exact ⟨by decide +kernel, by decide +kernel⟩

end TlsProbe.Classifier
