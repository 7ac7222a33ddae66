import TlsProbe.Reassembler.Theorems.Completeness

open Std

namespace TlsProbe

theorem Walk.go_length_le {w : Walk} {l : List (UInt32 × List UInt8)} :
    (w.go l).buffer.length ≤ w.buffer.length + (l.map (·.2.length)).sum := by
  induction l generalizing w
  case nil => simp [go]
  case cons x l hi =>
    rw [List.map_cons, List.sum_cons, go]
    split
    case isTrue =>
      refine hi.trans ?_
      simp [Walk.extend, Nat.add_assoc]
    case isFalse =>
      split
      case isTrue  => omega
      case isFalse => exact hi.trans (by omega)

-- The captures of a flow that bring four segments in order, of which three do not complete the record.
structure Capped (k : FlowKey) (head : RawTlsCapture) (tail : List RawTlsCapture) : Prop where
  key          : ∀ cap ∈ head :: tail, FlowKey.fromCapture cap = k
  fragment     : head.isFragment
  continuation : ∀ cap ∈ tail, cap.isFragment = false ∧ cap.isContinuation
  four         : tail.length = 3
  distinct     : ((head :: tail).map (·.tcpSeq)).Nodup
  incomplete   : ∀ total, recordTotal head.payloadSlice = some total →
    ((head :: tail).dropLast.map (·.payloadSlice.length)).sum < total

variable {k : FlowKey} {head cap : RawTlsCapture} {tail seen rest : List RawTlsCapture}

namespace Capped

theorem seen_nodup (hs : Capped k head tail)
    (hp : head :: tail = seen.reverse ++ cap :: rest) :
    ((cap :: seen).map (·.tcpSeq)).Nodup := by
  have h := hs.distinct
  rw [hp, List.append_cons] at h
  have := (List.map_append ▸ h).of_append_left
  simpa [List.nodup_reverse] using List.nodup_reverse.mpr this

theorem incomplete_of_rest (hs : Capped k head tail)
    (hp : head :: tail = seen.reverse ++ cap :: rest) (hr : rest ≠ []) :
    ∀ total, recordTotal head.payloadSlice = some total →
      ((cap :: seen).map (·.payloadSlice.length)).sum < total := by
  intro total ht
  have h := hs.incomplete total ht
  rw [hp, List.dropLast_append_cons, List.dropLast_cons_of_ne_nil hr] at h
  simp at h ⊢
  omega

end Capped

namespace Holds

variable {entry : ReassemblyEntry}

theorem toList_perm (h : Holds head seen entry) (hd : (seen.map (·.tcpSeq)).Nodup) :
    entry.fragments.toList.Perm (seen.map fun cap => (cap.tcpSeq, cap.payloadSlice)) := by
  refine (List.perm_ext_iff_of_nodup ?_ ?_).mpr fun (seq, payload) => ?_
  · exact entry.fragments.sorted.imp fun h he => absurd h (by simp [he])
  · exact List.Nodup.of_map Prod.fst (by simpa [Function.comp_def] using hd)
  · rw [Fragments.mem_toList, h.fragments]
    simp [List.mem_map]

theorem walk_length_le (h : Holds head seen entry) (hd : (seen.map (·.tcpSeq)).Nodup)
    (seq : UInt32) : (entry.fragments.walk seq).buffer.length ≤
      (seen.map (·.payloadSlice.length)).sum := by
  have hp := ((h.toList_perm hd).map (·.2.length)).sum_eq
  have := @Walk.go_length_le (.start seq) entry.fragments.toList
  rw [hp, List.map_map] at this
  exact this.trans (Nat.zero_add _).le

theorem incomplete (h : Holds head seen entry) (hd : (seen.map (·.tcpSeq)).Nodup)
    (hm : head ∈ seen) (hl : ∀ total, recordTotal head.payloadSlice = some total →
      (seen.map (·.payloadSlice.length)).sum < total) : entry.completed = none := by
  refine Option.eq_none_iff_forall_ne_some.mpr fun record hc => ?_
  obtain ⟨head', total, _, ht, hw, _⟩ := ReassemblyEntry.completed_eq_some.mp hc
  have h₁ := hl total <| (h.headSeen hm).2.symm.trans ht
  have h₂ := h.walk_length_le hd head'.seq
  omega

end Holds

namespace Flow

variable {timeout : Duration} {e : Option ReassemblyEntry} {created checked : Instant}

theorem step_continuation_of_new (hf : cap.isFragment = false)
    (hn : e.any (·.fragments.contains cap.tcpSeq) = false) :
    step timeout e (captureEvent cap created checked) =
      if 4 ≤ ((e.getD (Reassembler.orphan created)).receiveContinuation cap).fragments.size ∨
          timeout ≤ (e.getD (Reassembler.orphan created)).elapsed checked then
        close <| (e.getD (Reassembler.orphan created)).receiveContinuation cap
      else
        settle <| (e.getD (Reassembler.orphan created)).receiveContinuation cap := by
  simp [captureEvent, hf, step, hn]
  rfl

-- A flow that has taken in `seen`, with `rest` still to come, takes in one more capture. It is
-- forgotten with the last one.
theorem step_capped (hs : Capped k head tail) (hp : head :: tail = seen.reverse ++ cap :: rest)
    (h : ∀ now, Holds head seen (e.getD (Reassembler.orphan now)))
    (ht : (e.getD (Reassembler.orphan created)).elapsed checked < timeout) :
    if rest = [] then
      (step timeout e (captureEvent cap created checked)).1 = none
    else
      ∃ entry, Holds head (cap :: seen) entry ∧
        (step timeout e (captureEvent cap created checked)).1 = some entry := by
  have hd := hs.seen_nodup hp
  have hn : ∀ c ∈ seen, c.tcpSeq ≠ cap.tcpSeq := by
    intro c hc he
    exact (List.nodup_cons.mp hd).1 <| List.mem_map.mpr ⟨c, hc, he⟩
  have hl : seen.length + 1 + rest.length = 4 := by
    have := congrArg List.length hp
    simp [hs.four] at this
    omega
  have settles {entry : ReassemblyEntry} (hr : rest ≠ []) (hm : head ∈ cap :: seen)
      (hh : Holds head (cap :: seen) entry) : (settle entry).1 = some entry := by
    rw [settle, hh.incomplete hd hm (hs.incomplete_of_rest hp hr)]
  cases hseen : seen.reverse
  case nil =>
    obtain rfl := List.reverse_eq_nil_iff.mp hseen
    obtain ⟨rfl, rfl⟩ := List.cons.inj hp
    have hr : tail ≠ [] := fun hr => by simp [hr] at hl
    have hh := (h created).receiveHead hn
    rw [if_neg hr]
    refine ⟨_, hh, ?_⟩
    simpa [captureEvent, hs.fragment, step] using settles hr (List.mem_cons_self ..) hh
  case cons c cs =>
    rw [hseen] at hp
    obtain ⟨rfl, htail⟩ := List.cons.inj hp
    have hm : head ∈ seen := List.mem_reverse.mp (by simp [hseen])
    have hf : cap.isFragment = false := (hs.continuation cap (by simp [htail])).1
    have hc : cap ≠ head := fun he => hn head hm (he ▸ rfl)
    have hh := (h created).receiveContinuation hn hc
    have hsize := hh.size
    have hstep := @step_continuation_of_new cap timeout e created checked hf
      ((h created).not_duplicate hn)
    rw [List.length_cons] at hsize
    split
    case isTrue hr =>
      simp only [hr, List.length_nil] at hl
      rw [hstep, if_pos (.inl (by omega))]
      rfl
    case isFalse hr =>
      have := List.length_pos_iff.mpr hr
      rw [hstep, if_neg (not_or.mpr ⟨by omega, Nat.not_le.mpr ht⟩)]
      exact ⟨_, hh, settles hr (List.mem_cons_of_mem _ hm) hh⟩

end Flow

namespace Reassembler

variable {r : Reassembler} {events : List Event}

theorem arrivals_capped (hs : Capped k head tail)
    (hp : head :: tail = seen.reverse ++ ownCaptures k events) (ho : ownCaptures k events ≠ [])
    (hh : ∀ now, Holds head seen (r.flows[k]?.getD (orphan now)))
    (hu : machine.AllSteps (Undisturbed k) r events) :
    (machine.state r events).flows[k]? = none := by
  induction events generalizing r seen
  case nil => contradiction
  case cons ev events hi =>
    by_cases hk : ev.Of k
    case neg =>
      rw [ownCaptures_other hk] at hp ho
      exact hi hp ho (step_other hu.head hk ▸ hh) hu.tail
    case pos =>
      obtain ⟨cap, hc, hkey⟩ := hk
      cases ev <;> cases hc
      case capture.refl clk =>
        rw [ownCaptures_own hkey] at hp
        have hf : cap.isFragment ∨ cap.isContinuation := by
          have hm : cap ∈ head :: tail := by simp [hp]
          obtain rfl | hm := List.mem_cons.mp hm
          · exact .inl hs.fragment
          · exact .inr (hs.continuation cap hm).2
        obtain ⟨hflow, _⟩ := step_own clk hu.head.1 hkey hf
        have hstep := Flow.step_capped hs hp hh (hu.head.2 hkey)
        split at hstep
        case isTrue hr  => exact (arrivals_done (hflow.trans hstep) hr hu.tail).2
        case isFalse hr =>
          obtain ⟨entry, hh', hstep⟩ := hstep
          have hp : head :: tail = (cap :: seen).reverse ++ ownCaptures k events := by
            simpa using hp
          refine hi hp hr (fun now => ?_) hu.tail
          simpa [hflow.trans hstep] using hh'

-- The fourth segment releases the flow, whether the record is complete or not.
theorem capped_forgotten (hs : Capped k head tail) (hn : r.flows[k]? = none)
    (ho : ownCaptures k events = head :: tail) (hu : machine.AllSteps (Undisturbed k) r events) :
    (machine.state r events).flows[k]? = none := by
  have hp : head :: tail = ([] : List RawTlsCapture).reverse ++ ownCaptures k events := by simp [ho]
  refine arrivals_capped hs hp (by simp [ho]) (fun now => ?_) hu
  simpa [hn] using Holds.orphan now

end Reassembler
end TlsProbe
