import TlsProbe.Reassembler.Theorems.Soundness

open Std Stream
open scoped UInt32.CommRing

namespace TlsProbe

-- The segment of `cap₂` starts where that of `cap₁` ends, without a wrap of the sequence numbers.
def Adjoins (cap₁ cap₂ : RawTlsCapture) : Prop :=
  cap₂.tcpSeq.toNat = cap₁.tcpSeq.toNat + cap₁.payloadSlice.length

-- The captures of a flow that carry a record in less than four consecutive segments, where only the
-- last segment reaches the end of the record.
structure Segmented (k : FlowKey) (record : List UInt8) (head : RawTlsCapture)
    (tail : List RawTlsCapture) : Prop where
  key          : ∀ cap ∈ head :: tail, FlowKey.fromCapture cap = k
  fragment     : head.isFragment
  continuation : ∀ cap ∈ tail, cap.isFragment = false ∧ cap.isContinuation
  few          : (head :: tail).length < 4
  nonempty     : ∀ cap ∈ head :: tail, cap.payloadSlice ≠ []
  consecutive  : (head :: tail).IsChain Adjoins
  header       : 5 ≤ head.payloadSlice.length
  notWhole     : head.payloadSlice.length < record.length
  total        : recordTotal record = some record.length
  cut          : record <+: (head :: tail).flatMap (·.payloadSlice)
  last         : ((head :: tail).dropLast.flatMap (·.payloadSlice)).length < record.length

namespace Adjoins

variable {cap cap₁ cap₂ : RawTlsCapture} {caps : List RawTlsCapture}

theorem seq_eq (h : Adjoins cap₁ cap₂) : cap₂.tcpSeq = cap₁.tcpSeq + cap₁.payloadSlice.length := by
  have h₁ : cap₂.tcpSeq.toNat = cap₁.tcpSeq.toNat + cap₁.payloadSlice.length := h
  have h₂ := cap₂.tcpSeq.toNat_lt
  apply UInt32.toNat_inj.mp
  rw [UInt32.toNat_add, toNat_natCast]
  omega

theorem chain_le (h : (cap :: caps).IsChain Adjoins) : ∀ cap' ∈ caps,
    cap.tcpSeq.toNat + cap.payloadSlice.length ≤ cap'.tcpSeq.toNat := by
  induction caps generalizing cap
  case nil => simp
  case cons c caps hi =>
    have ⟨ha, hc⟩ := List.isChain_cons_cons.mp h
    intro cap' hm
    obtain rfl | hm := List.mem_cons.mp hm
    · exact ha.ge
    · have := hi hc cap' hm
      have : c.tcpSeq.toNat = _ := ha
      omega

-- The segments of a chain lie close together.
theorem chain_near (h : (cap :: caps).IsChain Adjoins) : ∀ cap' ∈ caps,
    cap'.tcpSeq.toNat ≤ cap.tcpSeq.toNat + rawPayloadSize * caps.length := by
  induction caps generalizing cap
  case nil => simp
  case cons c caps hi =>
    have ⟨ha, hc⟩ := List.isChain_cons_cons.mp h
    have := cap.payloadSlice_length_le
    have : c.tcpSeq.toNat = _ := ha
    intro cap' hm
    rw [List.length_cons, Nat.mul_succ]
    obtain rfl | hm := List.mem_cons.mp hm
    · omega
    · have := hi hc cap' hm
      omega

end Adjoins

namespace Segmented

variable {k : FlowKey} {record : List UInt8} {head : RawTlsCapture} {tail : List RawTlsCapture}

theorem lt (s : Segmented k record head tail) :
    (head :: tail).Pairwise fun cap₁ cap₂ => cap₁.tcpSeq.toNat < cap₂.tcpSeq.toNat := by
  have h := s.consecutive
  have hn := s.nonempty
  generalize head :: tail = caps at h hn
  induction caps
  case nil => exact .nil
  case cons cap caps hi =>
    refine .cons (fun cap' hm => ?_) <| hi h.of_cons fun cap' hm => hn cap' (by simp [hm])
    have := Adjoins.chain_le h cap' hm
    have := List.length_pos_iff.mpr <| hn cap (by simp)
    omega

theorem nodup (s : Segmented k record head tail) : (head :: tail).Nodup :=
  s.lt.imp fun h he => absurd h (by simp [he])

theorem seq_inj (s : Segmented k record head tail) : ∀ cap₁ ∈ head :: tail, ∀ cap₂ ∈ head :: tail,
    cap₁.tcpSeq = cap₂.tcpSeq → cap₁ = cap₂ := by
  have : ((head :: tail).map (·.tcpSeq)).Nodup :=
    List.pairwise_map.mpr <| s.lt.imp fun h he => absurd h (by simp [he])
  exact fun _ h₁ _ h₂ => List.inj_on_of_nodup_map this h₁ h₂

end Segmented

-- An entry that has received the segments of the captures `seen`, in whatever order.
structure Holds (head : RawTlsCapture) (seen : List RawTlsCapture) (entry : ReassemblyEntry) :
    Prop where
  fragments : ∀ seq payload, entry.fragments[seq]? = some payload ↔
    ∃ cap ∈ seen, cap.tcpSeq = seq ∧ cap.payloadSlice = payload
  size      : entry.fragments.size = seen.length
  headSeen  : head ∈ seen → entry.head = some ⟨head.tcpSeq, head⟩ ∧
    entry.expectedTotal = recordTotal head.payloadSlice
  noHead    : head ∉ seen → entry.head = none

namespace Holds

variable {k : FlowKey} {record : List UInt8} {head cap : RawTlsCapture}
variable {tail seen : List RawTlsCapture} {entry : ReassemblyEntry}

theorem orphan (created : Instant) : Holds head [] (Reassembler.orphan created) := by
  constructor <;> simp [Reassembler.orphan]

theorem contains_iff (h : Holds head seen entry) (seq : UInt32) :
    entry.fragments.contains seq ↔ ∃ cap ∈ seen, cap.tcpSeq = seq := by
  rw [ExtTreeMap.contains_eq_isSome_getElem?, Option.isSome_iff_exists]
  simp [h.fragments]

theorem not_duplicate {e : Option ReassemblyEntry} {created : Instant}
    (h : Holds head seen (e.getD (Reassembler.orphan created)))
    (hn : ∀ c ∈ seen, c.tcpSeq ≠ cap.tcpSeq) :
    e.any (·.fragments.contains cap.tcpSeq) = false := by
  cases e
  case none => rfl
  case some entry =>
    refine Bool.eq_false_iff.mpr fun hm => ?_
    obtain ⟨c, hc, he⟩ := (h.contains_iff cap.tcpSeq).mp hm
    exact hn c hc he

-- How the fragments of an entry change with a segment at a new position.
theorem insert_fragments (h : Holds head seen entry) (hn : ∀ c ∈ seen, c.tcpSeq ≠ cap.tcpSeq)
    (seq : UInt32) (payload : List UInt8) :
    (entry.fragments.insert cap.tcpSeq cap.payloadSlice)[seq]? = some payload ↔
      ∃ c ∈ cap :: seen, c.tcpSeq = seq ∧ c.payloadSlice = payload := by
  simp only [ExtTreeMap.getElem?_insert, Std.compare_eq_iff_eq, List.mem_cons, exists_eq_or_imp]
  split
  · subst ‹cap.tcpSeq = seq›
    simp only [Option.some.injEq, true_and, iff_self_or, forall_exists_index, and_imp]
    exact fun c hc he => absurd he (hn c hc)
  · simp [*, h.fragments]

theorem insert_size (h : Holds head seen entry) (hn : ∀ c ∈ seen, c.tcpSeq ≠ cap.tcpSeq) :
    (entry.fragments.insert cap.tcpSeq cap.payloadSlice).size = (cap :: seen).length := by
  have : ¬entry.fragments.contains cap.tcpSeq := by
    rw [h.contains_iff]
    simpa using hn
  rw [ExtTreeMap.size_insert, if_neg this, h.size, List.length_cons]

theorem receiveHead (h : Holds head seen entry) (hn : ∀ c ∈ seen, c.tcpSeq ≠ head.tcpSeq) :
    Holds head (head :: seen) (entry.receiveHead head) where
  fragments  := h.insert_fragments hn
  size       := h.insert_size hn
  headSeen _ := ⟨rfl, rfl⟩
  noHead hm  := absurd (List.mem_cons_self ..) hm

theorem receiveContinuation (h : Holds head seen entry) (hn : ∀ c ∈ seen, c.tcpSeq ≠ cap.tcpSeq)
    (hc : cap ≠ head) : Holds head (cap :: seen) (entry.receiveContinuation cap) where
  fragments   := h.insert_fragments hn
  size        := h.insert_size hn
  headSeen hm := h.headSeen <| List.mem_of_ne_of_mem hc.symm hm
  noHead hm   := h.noHead fun hs => hm <| List.mem_cons_of_mem _ hs

theorem segments_eq_none (h : Holds head seen entry) (hs : Segmented k record head tail)
    (hsub : seen ⊆ head :: tail) (hc : cap ∈ head :: tail) (hn : cap ∉ seen) :
    entry.fragments.segments cap.tcpSeq = none := by
  refine Option.eq_none_iff_forall_ne_some.mpr fun payload hp => ?_
  have ⟨c, hm, hq, _⟩ := (h.fragments ..).mp hp
  exact hn <| hs.seq_inj c (hsub hm) cap hc hq ▸ hm

theorem segments_eq_some (h : Holds head seen entry) (hm : cap ∈ seen) :
    entry.fragments.segments cap.tcpSeq = some cap.payloadSlice :=
  (h.fragments ..).mpr ⟨cap, hm, rfl, rfl⟩

-- The segments lie too close together for any of them to follow another one across the wrap.
theorem not_straddles (h : Holds head seen entry) (hs : Segmented k record head tail)
    (hsub : seen ⊆ head :: tail) (seq : UInt32) : ¬entry.fragments.Straddles seq := by
  rintro ⟨l, payload, -, hp, hw, hn⟩
  have near : ∀ c ∈ seen, head.tcpSeq.toNat ≤ c.tcpSeq.toNat ∧
      c.tcpSeq.toNat ≤ head.tcpSeq.toNat + rawPayloadSize * 3 := by
    intro c hc
    have hlen : tail.length < 3 := Nat.lt_of_succ_lt_succ hs.few
    obtain rfl | hc := List.mem_cons.mp <| hsub hc
    · simp
    · have h₁ := Adjoins.chain_le hs.consecutive c hc
      have h₂ := Adjoins.chain_near hs.consecutive c hc
      have h₃ := Nat.mul_le_mul_left rawPayloadSize hlen.le
      omega
  have ⟨c, hc, hq, hl⟩ := (h.fragments ..).mp hp
  have ⟨_, hn⟩ := Option.isSome_iff_exists.mp hn
  have ⟨c', hc', hq', _⟩ := (h.fragments ..).mp hn
  have h₁ := near c hc
  have h₂ := near c' hc'
  have h₃ := hl ▸ c.payloadSlice_length_le
  rw [←hq] at hq' hw
  have h₄ : c'.tcpSeq.toNat = (c.tcpSeq.toNat + payload.length % 2 ^ 32) % 2 ^ 32 := by
    rw [hq', UInt32.toNat_add, toNat_natCast]
  simp only [rawPayloadSize] at h₁ h₂ h₃
  omega

end Holds

section Chains

variable {m : UInt32 → Option (List UInt8)} {cap : RawTlsCapture} {caps : List RawTlsCapture}

theorem chain_of_adjoins (h : (cap :: caps).IsChain Adjoins)
    (hm : ∀ c ∈ cap :: caps, m c.tcpSeq = some c.payloadSlice) :
    Chain m cap.tcpSeq ((cap :: caps).flatMap (·.payloadSlice)) := by
  induction caps generalizing cap
  case nil => exact .cons (hm cap (by simp)) .nil
  case cons c caps hi =>
    have ⟨ha, hc⟩ := List.isChain_cons_cons.mp h
    refine .cons (hm cap (by simp)) ?_
    exact ha.seq_eq ▸ hi hc fun c hc => hm c (List.mem_cons_of_mem _ hc)

-- Where a segment is missing, the run stops before the last one.
theorem run_of_missing (h : (cap :: caps).IsChain Adjoins)
    (hn : ∀ c ∈ cap :: caps, c.payloadSlice ≠ [])
    (hm : ∀ c ∈ cap :: caps, m c.tcpSeq = none ∨ m c.tcpSeq = some c.payloadSlice)
    (hx : ∃ c ∈ cap :: caps, m c.tcpSeq = none) :
    ∃ l, Run m cap.tcpSeq l ∧
      l.length ≤ ((cap :: caps).dropLast.flatMap (·.payloadSlice)).length := by
  induction caps generalizing cap
  case nil => exact ⟨[], .stop (by simpa using hx), Nat.zero_le _⟩
  case cons c caps hi =>
    have ⟨ha, hc⟩ := List.isChain_cons_cons.mp h
    obtain hs | hs := hm cap (by simp)
    · exact ⟨[], .stop hs, Nat.zero_le _⟩
    · have hx : ∃ c' ∈ c :: caps, m c'.tcpSeq = none := by simpa [hs] using hx
      have ⟨l, hr, hl⟩ := hi hc (fun c hc => hn c (List.mem_cons_of_mem _ hc))
        (fun c hc => hm c (List.mem_cons_of_mem _ hc)) hx
      refine ⟨_, .cons hs (hn cap (by simp)) (ha.seq_eq ▸ hr), ?_⟩
      simpa using hl

end Chains

theorem recordTotal_of_isPrefix {l l' : List UInt8} (h : l <+: l') (hl : 5 ≤ l.length) :
    recordTotal l = recordTotal l' := by
  have := h.length_le
  simp only [recordTotal, dif_pos hl, dif_pos (hl.trans this)]
  simp only [h.getElem]

namespace Holds

variable {k : FlowKey} {record : List UInt8} {head cap : RawTlsCapture}
variable {tail seen : List RawTlsCapture} {entry : ReassemblyEntry}

theorem total (hs : Segmented k record head tail) :
    recordTotal head.payloadSlice = some record.length := by
  have h₁ : head.payloadSlice <+: (head :: tail).flatMap (·.payloadSlice) := by simp
  have h₂ := hs.notWhole
  have h₃ := hs.header
  rw [recordTotal_of_isPrefix (List.prefix_of_prefix_length_le h₁ hs.cut h₂.le) h₃, hs.total]

theorem completed_eq_none (h : Holds head seen entry) (hs : Segmented k record head tail)
    (hsub : seen ⊆ head :: tail) (hx : ∃ c ∈ head :: tail, c ∉ seen) : entry.completed = none := by
  refine Option.eq_none_iff_forall_ne_some.mpr fun rec hc => ?_
  have ⟨hd, total, hh, he, hl, _⟩ := ReassemblyEntry.completed_eq_some.mp hc
  by_cases hm : head ∈ seen
  case neg => simp [h.noHead hm] at hh
  case pos =>
    have ⟨hh', he'⟩ := h.headSeen hm
    cases hh'.symm.trans hh
    cases (he'.symm.trans he).symm.trans (Holds.total hs)
    have ⟨l, hr, hlen⟩ := run_of_missing (m := entry.fragments.segments) hs.consecutive hs.nonempty
      (fun c hc => (Classical.em (c ∈ seen)).symm.imp (h.segments_eq_none hs hsub hc)
        h.segments_eq_some)
      (hx.imp fun c ⟨hc, hn⟩ => ⟨hc, h.segments_eq_none hs hsub hc hn⟩)
    have hw := Fragments.walk_run <| h.not_straddles hs hsub head.tcpSeq
    have := hs.last
    rw [hw.unique hr] at hl
    omega

theorem completed_eq_some (h : Holds head seen entry) (hs : Segmented k record head tail)
    (hsub : seen ⊆ head :: tail) (hx : head :: tail ⊆ seen) :
    entry.completed = some ⟨head, record, false⟩ := by
  have ⟨hh, he⟩ := h.headSeen <| hx (List.mem_cons_self ..)
  have hc := chain_of_adjoins hs.consecutive fun c hc => h.segments_eq_some <| hx hc
  have hw := Fragments.walk_run <| h.not_straddles hs hsub head.tcpSeq
  have hp := hs.cut.trans <| hw.prefix_of_chain hc
  refine ReassemblyEntry.completed_eq_some.mpr
    ⟨_, record.length, hh, he.trans (Holds.total hs), hp.length_le, ?_⟩
  exact congrArg (AssembledRecord.mk head · false) <| List.prefix_iff_eq_take.mp hp

end Holds

namespace Flow

variable {k : FlowKey} {record : List UInt8} {head cap : RawTlsCapture} {timeout : Duration}
variable {tail seen : List RawTlsCapture} {e : Option ReassemblyEntry}

-- The event that a capture is for its flow.
def captureEvent (cap : RawTlsCapture) (created checked : Instant) : Event :=
  if cap.isFragment then .head cap created else .continuation cap created checked

-- In either branch of `insert`, the flow settles on the entry that holds one more segment.
theorem step_holds {created checked : Instant} {rest : List RawTlsCapture}
    (hs : Segmented k record head tail)
    (h : ∀ now, Holds head seen (e.getD (Reassembler.orphan now)))
    (hp : (cap :: seen ++ rest).Perm (head :: tail))
    (ht : (e.getD (Reassembler.orphan created)).elapsed checked < timeout) :
    ∃ entry, Holds head (cap :: seen) entry ∧
      step timeout e (captureEvent cap created checked) = settle entry := by
  have hnd : (cap :: seen ++ rest).Nodup := hp.nodup_iff.mpr hs.nodup
  have hsub : cap :: seen ⊆ head :: tail := fun _ hc => hp.subset (List.mem_append_left _ hc)
  have hn : ∀ c ∈ seen, c.tcpSeq ≠ cap.tcpSeq := by
    intro c hc he
    have := hs.seq_inj c (hsub <| by simp [hc]) cap (hsub <| by simp) he
    simp [←this, hc] at hnd
  by_cases hf : cap.isFragment
  case pos =>
    have : cap = head := by
      obtain rfl | hc := List.mem_cons.mp <| hsub (List.mem_cons_self ..)
      · rfl
      · simp [hs.continuation cap hc] at hf
    subst this
    exact ⟨_, (h created).receiveHead hn, by simp [captureEvent, hf, step]⟩
  case neg =>
    have hc : cap ≠ head := fun hc => hf <| hc ▸ hs.fragment
    have hh := (h created).receiveContinuation hn hc
    refine ⟨_, hh, ?_⟩
    have hdup := (h created).not_duplicate hn
    have hsize := hs.few
    simp only [←hp.length_eq, List.length_append, ←hh.size] at hsize
    simp only [captureEvent, if_neg hf, step, hdup]
    exact if_neg <| not_or.mpr ⟨by omega, Nat.not_le.mpr ht⟩

-- How a flow takes in one more of the captures, in time, when those of `rest` are still to come.
theorem step_segment {created checked : Instant} {rest : List RawTlsCapture}
    (hs : Segmented k record head tail)
    (h : ∀ now, Holds head seen (e.getD (Reassembler.orphan now)))
    (hp : (cap :: seen ++ rest).Perm (head :: tail))
    (ht : (e.getD (Reassembler.orphan created)).elapsed checked < timeout) :
    if rest = [] then
      step timeout e (captureEvent cap created checked) = (none, [⟨head, record, false⟩])
    else
      ∃ entry, Holds head (cap :: seen) entry ∧
        step timeout e (captureEvent cap created checked) = (some entry, []) := by
  have hsub : cap :: seen ⊆ head :: tail := fun _ hc => hp.subset (List.mem_append_left _ hc)
  have ⟨entry, hh, hstep⟩ := step_holds hs h hp ht
  rw [hstep, settle]
  split
  case isTrue hr =>
    have hx : head :: tail ⊆ cap :: seen := by simpa [hr] using hp.symm.subset
    rw [hh.completed_eq_some hs hsub hx]
  case isFalse hr =>
    have hx : ∃ c ∈ head :: tail, c ∉ cap :: seen := by
      obtain ⟨c, rest', hr⟩ := List.exists_cons_of_ne_nil hr
      have hc : c ∈ rest := by simp [hr]
      have hd := List.disjoint_of_nodup_append (hp.nodup_iff.mpr hs.nodup)
      exact ⟨c, hp.subset (List.mem_append_right _ hc), fun hm => hd hm hc⟩
    rw [hh.completed_eq_none hs hsub hx]
    exact ⟨entry, hh, rfl⟩

end Flow

namespace Reassembler

-- The events that are captures of the flow `k`.
def Event.Of (k : FlowKey) (ev : Event) : Prop :=
  ∃ cap ∈ ev.capture?, FlowKey.fromCapture cap = k

instance {k : FlowKey} {ev : Event} : Decidable (ev.Of k) :=
  inferInstanceAs <| Decidable <| ∃ cap ∈ ev.capture?, FlowKey.fromCapture cap = k

def ownCaptures (k : FlowKey) (events : List Event) : List RawTlsCapture :=
  (events.filter (Event.Of k)).filterMap (·.capture?)

-- What the inserts of the flow `k` return, call by call.
def ownResults (k : FlowKey) (r : Reassembler) (events : List Event) :
    List (List AssembledRecord) :=
  ((machine.trace r events).filter (·.2.Of k)).map fun t => (machine.step t.1 t.2).2

variable {k : FlowKey} {r : Reassembler} {ev : Event} {events : List Event}

-- The call stays inside the timeout of the flow `k`.
def InTime (k : FlowKey) (r : Reassembler) : Event → Prop
  | .capture clk cap => FlowKey.fromCapture cap = k →
    (r.flows[k]?.getD (orphan clk.created)).elapsed (clk.checked k) < r.timeout
  | .sweep clk => ∀ entry ∈ r.flows[k]?, entry.elapsed (clk.checked k) < r.timeout

instance : DecidablePred (InTime k r)
  | .capture clk cap => inferInstanceAs <| Decidable <| FlowKey.fromCapture cap = k →
    (r.flows[k]?.getD (orphan clk.created)).elapsed (clk.checked k) < r.timeout
  | .sweep clk => inferInstanceAs <| Decidable <|
    ∀ entry ∈ r.flows[k]?, entry.elapsed (clk.checked k) < r.timeout

def Undisturbed (k : FlowKey) (r : Reassembler) (ev : Event) : Prop :=
  r.flows.size < r.maxFlows ∧ r.InTime k ev

instance : Decidable (Undisturbed k r ev) :=
  inferInstanceAs <| Decidable <| _ ∧ _

-- Calls for other flows leave the flow `k` alone.
theorem step_other (h : r.Undisturbed k ev) (hk : ¬ev.Of k) :
    (machine.step r ev).1.flows[k]? = r.flows[k]? := by
  rw [step_flows, survivor_of_room h.1]
  cases ev
  case capture clk cap =>
    have hk : FlowKey.fromCapture cap ≠ k := fun he => hk ⟨cap, rfl, he⟩
    simp [ownEvent, hk]
  case sweep clk =>
    simp only [ownEvent, Flow.step]
    cases he : r.flows[k]?
    case none       => rfl
    case some entry => simp [Nat.not_le.mpr <| h.2 entry he]

theorem step_own (clk : Clock) {cap : RawTlsCapture} (hr : r.flows.size < r.maxFlows)
    (hk : FlowKey.fromCapture cap = k) (hf : cap.isFragment ∨ cap.isContinuation) :
    let s := Flow.step r.timeout r.flows[k]? (Flow.captureEvent cap clk.created (clk.checked k))
    (machine.step r (.capture clk cap)).1.flows[k]? = s.1 ∧
    (machine.step r (.capture clk cap)).2 = s.2 := by
  have hc : r.cleanupIfOverLimit = r := by rw [cleanupIfOverLimit_eq, evicted_eq_none hr]
  subst hk
  simp only [Flow.captureEvent]
  by_cases hh : cap.isFragment
  case pos => simp [step_head hh, hc, hh]
  case neg => simp [step_continuation (Bool.eq_false_iff.mpr hh) (hf.resolve_left hh), hh]

section Arrivals

variable {record : List UInt8} {head cap : RawTlsCapture} {tail seen : List RawTlsCapture}

theorem ownCaptures_own {clk : Clock} (hk : FlowKey.fromCapture cap = k) :
    ownCaptures k (.capture clk cap :: events) = cap :: ownCaptures k events := by
  have : Event.Of k (.capture clk cap) := ⟨cap, rfl, hk⟩
  simp [ownCaptures, this, Event.capture?]

theorem ownCaptures_other (hk : ¬ev.Of k) :
    ownCaptures k (ev :: events) = ownCaptures k events := by
  simp [ownCaptures, hk]

theorem ownResults_own (hk : ev.Of k) : ownResults k r (ev :: events) =
    (machine.step r ev).2 :: ownResults k (machine.step r ev).1 events := by
  simp [ownResults, hk]

theorem ownResults_other (hk : ¬ev.Of k) :
    ownResults k r (ev :: events) = ownResults k (machine.step r ev).1 events := by
  simp [ownResults, hk]

-- Once all of the flow's captures are in, nothing more happens to it.
theorem arrivals_done (hn : r.flows[k]? = none) (ho : ownCaptures k events = [])
    (hu : machine.AllSteps (Undisturbed k) r events) :
    ownResults k r events = [] ∧ (machine.state r events).flows[k]? = none := by
  induction events generalizing r
  case nil => exact ⟨rfl, hn⟩
  case cons ev events hi =>
    by_cases hk : ev.Of k
    case pos =>
      have ⟨cap, hc, hkey⟩ := hk
      cases ev <;> cases hc
      simp [ownCaptures_own hkey] at ho
    case neg =>
      rw [ownResults_other hk]
      rw [ownCaptures_other hk] at ho
      exact hi ((step_other hu.head hk).trans hn) ho hu.tail

-- The induction is on the calls that are still to come: the entry holds the segments that have
-- arrived, and these make up the record together with those that will.
theorem arrivals (hs : Segmented k record head tail)
    (hh : ∀ now, Holds head seen (r.flows[k]?.getD (orphan now)))
    (hp : (seen ++ ownCaptures k events).Perm (head :: tail)) (ho : ownCaptures k events ≠ [])
    (hu : machine.AllSteps (Undisturbed k) r events) :
    ownResults k r events =
      List.replicate ((ownCaptures k events).length - 1) [] ++ [[⟨head, record, false⟩]] ∧
    (machine.state r events).flows[k]? = none := by
  induction events generalizing r seen
  case nil => contradiction
  case cons ev events hi =>
    by_cases hk : ev.Of k
    case neg =>
      rw [ownCaptures_other hk] at hp ho ⊢
      rw [ownResults_other hk]
      exact hi (step_other hu.head hk ▸ hh) hp ho hu.tail
    case pos =>
      have ⟨cap, hc, hkey⟩ := hk
      cases ev <;> cases hc
      case capture.refl clk =>
        rw [ownCaptures_own hkey] at hp ⊢
        rw [ownResults_own hk, Machine.state_cons]
        have hp := List.perm_middle.symm.trans hp
        have hf : cap.isFragment ∨ cap.isContinuation := by
          obtain rfl | hm := List.mem_cons.mp <| hp.subset (List.mem_cons_self ..)
          · exact .inl hs.fragment
          · exact .inr (hs.continuation cap hm).2
        have ⟨hflow, hout⟩ := step_own clk hu.head.1 hkey hf
        have hstep := Flow.step_segment hs hh hp (hu.head.2 hkey)
        split at hstep
        case isTrue hr =>
          simp only [hstep] at hflow hout
          have ⟨hres, hfin⟩ := arrivals_done hflow hr hu.tail
          simp [hout, hres, hfin, hr]
        case isFalse hr =>
          have ⟨entry, hh', hstep⟩ := hstep
          simp only [hstep] at hflow hout
          have hh now : Holds head (cap :: seen)
              ((machine.step r (.capture clk cap)).1.flows[k]?.getD (orphan now)) := by
            simpa [hflow] using hh'
          have ⟨hres, hfin⟩ := hi hh hp hr hu.tail
          refine ⟨?_, hfin⟩
          have hl := List.length_pos_iff.mpr hr
          rw [hout, hres, List.length_cons, Nat.add_sub_cancel, ←List.cons_append,
            ←List.replicate_succ, Nat.sub_one_add_one (by omega)]

end Arrivals

-- A record that is cut into fewer than four segments is returned once the last of these arrives,
-- whatever the order in which they do.
theorem record_complete {record : List UInt8} {head : RawTlsCapture} {tail : List RawTlsCapture}
    (hs : Segmented k record head tail) (hn : r.flows[k]? = none)
    (hp : (ownCaptures k events).Perm (head :: tail))
    (hu : machine.AllSteps (Undisturbed k) r events) :
    ownResults k r events = List.replicate tail.length [] ++ [[⟨head, record, false⟩]] ∧
    (machine.state r events).flows[k]? = none := by
  have hl : (ownCaptures k events).length - 1 = tail.length := by simp [hp.length_eq]
  have ho : ownCaptures k events ≠ [] := fun he => by simp [he] at hp
  rw [←hl]
  have hh now : Holds head [] (r.flows[k]?.getD (orphan now)) := by
    simpa [hn] using Holds.orphan now
  exact arrivals hs hh hp ho hu

-- A capture of another flow than that of `helloHead` and `helloTail`.
def foreignTail : RawTlsCapture :=
  { makeCapture 7 [0x01, 0x02] flagContinuation with srcPort := 1 }

theorem hello_segmented :
    Segmented (.fromCapture helloHead) helloRecord helloHead [helloTail] where
  key          := by decide +kernel
  fragment     := by decide +kernel
  continuation := by decide +kernel
  few          := by decide
  nonempty     := by decide +kernel
  consecutive  := .cons_cons (by decide +kernel : _ = _) (.singleton _)
  header       := by decide +kernel
  notWhole     := by decide +kernel
  total        := by decide +kernel
  cut          := by decide +kernel
  last         := by decide +kernel

def helloEvents : List Event :=
  [helloTail, foreignTail, helloHead].map (.capture .still) ++ [.sweep .still]

theorem helloEvents_own : (ownCaptures (.fromCapture helloHead) helloEvents).Perm
    [helloHead, helloTail] := by
  have h : ownCaptures (.fromCapture helloHead) helloEvents = [helloTail, helloHead] := by
    simp only [helloEvents, List.map_cons, List.map_nil, List.cons_append, List.nil_append]
    rw [ownCaptures_own (by decide +kernel), ownCaptures_other (by decide +kernel),
      ownCaptures_own rfl, ownCaptures_other (by decide +kernel)]
    rfl
  exact h ▸ .swap ..

theorem record_complete_hello :
    ownResults (.fromCapture helloHead) new helloEvents =
      [[], [⟨helloHead, helloRecord, false⟩]] ∧
    (machine.state new helloEvents).flows[FlowKey.fromCapture helloHead]? = none :=
  record_complete hello_segmented (by decide +kernel) helloEvents_own (by decide +kernel)

end Reassembler
end TlsProbe
