import TlsProbe.Lib.Stream
import TlsProbe.Reassembler.Basic

open Std Stream
open scoped UInt32.CommRing

namespace TlsProbe

theorem toNat_natCast (n : Nat) : (n : UInt32).toNat = n % 2 ^ 32 :=
  UInt32.toNat_ofNat'

-- What the fragments of an entry hold, as a partial map from the positions where segments start.
abbrev Fragments.segments (fragments : Fragments) : UInt32 → Option (List UInt8) :=
  fun seq => fragments[seq]?

-- The chain of segments from `seq` goes on across the wrap of the sequence space.
def Fragments.Straddles (fragments : Fragments) (seq : UInt32) : Prop :=
  ∃ l payload, Chain fragments.segments seq l ∧
    fragments[seq + l.length]? = some payload ∧
    2 ^ 32 ≤ (seq + l.length).toNat + payload.length ∧
    fragments[seq + l.length + payload.length]?.isSome

namespace Walk

-- The invariant of the loops: what has been accumulated is a chain from the head's position, and
-- `next_seq` is the position where it ends.
structure Follows (fragments : Fragments) (seq : UInt32) (w : Walk) : Prop where
  chain           : Chain fragments.segments seq w.buffer
  nextSeq         : w.nextSeq = seq + w.buffer.length
  contiguousBytes : w.contiguousBytes = w.buffer.length

variable {fragments : Fragments} {seq : UInt32} {w : Walk} {l : List (UInt32 × List UInt8)}

theorem start_follows : (start seq).Follows fragments seq where
  chain           := .nil
  nextSeq         := by simp [start]
  contiguousBytes := rfl

theorem Follows.extend {payload : List UInt8} (f : w.Follows fragments seq)
    (h : fragments[w.nextSeq]? = some payload) : (w.extend payload).Follows fragments seq where
  chain           := f.chain.snoc (f.nextSeq ▸ h)
  nextSeq         := by simp [Walk.extend, f.nextSeq, add_assoc]; rfl
  contiguousBytes := by simp [Walk.extend, f.contiguousBytes]

theorem Follows.go (f : w.Follows fragments seq) (h : ∀ x ∈ l, fragments[x.1]? = some x.2) :
    (w.go l).Follows fragments seq := by
  induction l generalizing w <;> simp only [Walk.go]
  case nil => exact f
  case cons x l hi =>
    have hl := fun y hy => h y (List.mem_cons_of_mem x hy)
    split
    · exact hi (f.extend <| ‹_ = w.nextSeq› ▸ h x (List.mem_cons_self ..)) hl
    · split
      · exact f
      · exact hi f hl

theorem go_of_lt (h : ∀ x ∈ l, w.nextSeq < x.1) : w.go l = w := by
  cases l
  case nil => rfl
  case cons x l =>
    have := h x (List.mem_cons_self ..)
    simp [go, this, (UInt32.ne_of_lt this).symm]

-- The loops pass over the segments before the position that they expect.
theorem go_append_of_lt {l' : List (UInt32 × List UInt8)} (h : ∀ x ∈ l, x.1 < w.nextSeq) :
    w.go (l ++ l') = w.go l' := by
  induction l
  case nil => rfl
  case cons x l hi =>
    obtain ⟨hx, hl⟩ := List.forall_mem_cons.mp h
    rw [List.cons_append, go, if_neg (UInt32.ne_of_lt hx), if_neg (UInt32.lt_asymm hx), hi hl]

end Walk

namespace Fragments

variable {fragments : Fragments} {seq : UInt32}

theorem mem_toList {k : UInt32} {v : List UInt8} :
    (k, v) ∈ fragments.toList ↔ fragments[k]? = some v :=
  ExtTreeMap.mem_toList_iff_getElem?_eq_some

theorem sorted : fragments.toList.Pairwise fun x y => x.1 < y.1 := by
  simpa [compare_eq_lt] using ExtTreeMap.ordered_keys_toList (t := fragments)

theorem walk_follows : (fragments.walk seq).Follows fragments seq :=
  Walk.start_follows.go fun _ h => mem_toList.mp h

-- `passed` are the fragments that the loop has gone past. The chain can only go on with one of these
-- after a wrap.
theorem not_mem_passed {w : Walk} {payload : List UInt8} {passed rest : List (UInt32 × List UInt8)}
    (hs : ¬fragments.Straddles seq) (hl : fragments.toList = passed ++ (w.nextSeq, payload) :: rest)
    (hf : w.Follows fragments seq) (hp : payload ≠ []) :
    ∀ x ∈ passed ++ [(w.nextSeq, payload)], x.1 ≠ (w.extend payload).nextSeq := by
  intro x hx he
  have hm : fragments[w.nextSeq]? = some payload := mem_toList.mp (by simp [hl])
  have hx' : x ∈ fragments.toList := by simp_all; tauto
  have hle : x.1 ≤ w.nextSeq := by
    have h := fragments.sorted
    simp only [hl, List.pairwise_append, List.mem_cons] at h
    simp only [List.mem_append, List.mem_singleton] at hx
    cases hx
    case inl hx => exact UInt32.le_of_lt <| h.2.2 x hx _ (.inl rfl)
    case inr hx => exact hx ▸ UInt32.le_refl _
  by_cases hw : 2 ^ 32 ≤ w.nextSeq.toNat + payload.length
  case pos =>
    refine hs ⟨w.buffer, payload, hf.chain, hf.nextSeq ▸ hm, hf.nextSeq ▸ hw, ?_⟩
    have := mem_toList.mp hx'
    rw [he] at this
    rw [←hf.nextSeq]
    exact Option.isSome_of_eq_some this
  case neg =>
    have hn : (w.extend payload).nextSeq.toNat = w.nextSeq.toNat + payload.length := by
      simp only [Walk.extend, UInt32.toNat_add, UInt32.toNat_ofNat']
      omega
    have := List.length_pos_iff.mpr hp
    rw [he, UInt32.le_iff_toNat_le] at hle
    omega

theorem run_stop {w : Walk} (h : ∀ x ∈ fragments.toList, x.1 ≠ w.nextSeq) :
    Run fragments.segments w.nextSeq [] := by
  refine .stop <| Option.eq_none_iff_forall_ne_some.mpr fun payload hm => ?_
  exact h _ (mem_toList.mpr hm) rfl

-- The loop follows the chain from the head to its end, unless the chain straddles the wrap.
theorem go_run {w : Walk} {passed rest : List (UInt32 × List UInt8)}
    (hs : ¬fragments.Straddles seq) (hl : fragments.toList = passed ++ rest)
    (hf : w.Follows fragments seq) (hp : ∀ x ∈ passed, x.1 ≠ w.nextSeq) :
    ∃ l, (w.go rest).buffer = w.buffer ++ l ∧ Run fragments.segments w.nextSeq l := by
  induction rest generalizing w passed
  case nil => exact ⟨[], by simp [Walk.go], run_stop (by simpa [hl] using hp)⟩
  case cons x rest hi =>
    obtain ⟨fragSeq, payload⟩ := x
    have hgt : ∀ x ∈ rest, fragSeq < x.1 := by
      have := fragments.sorted
      simp only [hl, List.pairwise_append, List.pairwise_cons] at this
      exact this.2.1.1
    have hl' : fragments.toList = (passed ++ [(fragSeq, payload)]) ++ rest := by simp [hl]
    by_cases he : fragSeq = w.nextSeq
    case pos =>
      subst he
      have hm : fragments[w.nextSeq]? = some payload := mem_toList.mp (by simp [hl])
      by_cases hn : payload = []
      case pos =>
        have hw : w.extend payload = w := by simp [Walk.extend, hn]
        refine ⟨[], ?_, .empty (hn ▸ hm)⟩
        simp [Walk.go, hw, Walk.go_of_lt hgt]
      case neg =>
        have hp' := not_mem_passed hs hl hf hn
        have ⟨l, hb, hr⟩ := hi hl' (hf.extend hm) hp'
        refine ⟨payload ++ l, ?_, .cons hm hn hr⟩
        rw [←List.append_assoc, Walk.go, if_pos rfl, hb]
        rfl
    case neg =>
      by_cases hlt : w.nextSeq < fragSeq
      case pos =>
        refine ⟨[], by simp [Walk.go, he, hlt], run_stop fun x hx => ?_⟩
        simp only [hl, List.mem_append, List.mem_cons] at hx
        obtain hx | rfl | hx := hx
        · exact hp x hx
        · exact he
        · exact (UInt32.ne_of_lt <| UInt32.lt_trans hlt <| hgt x hx).symm
      case neg =>
        have hp' : ∀ x ∈ passed ++ [(fragSeq, payload)], x.1 ≠ w.nextSeq :=
          List.forall_mem_append.mpr ⟨hp, List.forall_mem_singleton.mpr he⟩
        simp only [Walk.go, he, hlt, ite_false]
        exact hi hl' hf hp'

theorem walk_run (hs : ¬fragments.Straddles seq) :
    Run fragments.segments seq (fragments.walk seq).buffer := by
  have ⟨l, hb, hr⟩ := go_run hs (List.nil_append _).symm Walk.start_follows (by simp)
  rwa [walk, hb]

end Fragments
end TlsProbe
