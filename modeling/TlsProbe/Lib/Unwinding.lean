import TlsProbe.Lib.Machine

-- What an observer sees of the runs of a machine that serves several parties.
namespace Machine

variable {σ ι ω ω' : Type*}

-- The observer has inputs `own`, sees `out` of the outputs, and cannot tell apart states that are
-- related by `R`. Steps that meet `C` show nothing but what becomes of the observer's own inputs.
structure Unwinds (m : Machine σ ι ω) (own : ι → Bool) (out : List ω → List ω') (I : σ → Prop)
    (R : σ → σ → Prop) (C : σ → ι → Prop) : Prop where
  inv   : ∀ s i, I s → I (m.step s i).1
  symm  : ∀ s t, R s t → R t s
  keeps : ∀ s t i, I s → I t → R s t → own i → C s i → C t i →
    R (m.step s i).1 (m.step t i).1 ∧ out (m.step s i).2 = out (m.step t i).2
  hides : ∀ s t i, I s → R s t → own i = false → C s i →
    R (m.step s i).1 t ∧ out (m.step s i).2 = []

namespace Unwinds

variable {m : Machine σ ι ω} {own : ι → Bool} {out : List ω → List ω'} {I : σ → Prop}
variable {R : σ → σ → Prop} {C : σ → ι → Prop} {s t : σ} {is js : List ι}

theorem inv_state (u : m.Unwinds own out I R C) (hs : I s) : I (m.state s is) :=
  inv_reachable u.inv hs

variable (hn : out [] = []) (ha : ∀ ws ws', out (ws ++ ws') = out ws ++ out ws')

include hn ha

theorem others (u : m.Unwinds own out I R C) (hs : I s) (hr : R s t) (hc : m.AllSteps C s is)
    (ho : ∀ i ∈ is, own i = false) : R (m.state s is) t ∧ out (m.output s is) = [] := by
  induction is generalizing s
  case nil => exact ⟨hr, hn⟩
  case cons i is hi =>
    have ⟨hi', ho⟩ := List.forall_mem_cons.mp ho
    have ⟨hr, he⟩ := u.hides s t i hs hr hi' hc.head
    have ⟨hr, hes⟩ := hi (u.inv s i hs) hr hc.tail ho
    exact ⟨hr, by rw [output_cons, ha, he, hes, List.append_nil]⟩

-- The observer's view of a run depends on the observer's own inputs alone.
theorem view_eq (u : m.Unwinds own out I R C) (hs : I s) (ht : I t) (hr : R s t)
    (hc : m.AllSteps C s is) (hd : m.AllSteps C t js) (h : is.filter own = js.filter own) :
    out (m.output s is) = out (m.output t js) := by
  induction is generalizing s t js
  case nil =>
    have ho : ∀ j ∈ js, own j = false := by
      simpa using List.filter_eq_nil_iff.mp h.symm
    rw [output_nil, hn, (u.others hn ha ht (u.symm s t hr) hd ho).2]
  case cons i is hi =>
    rw [output_cons, ha]
    cases hw : own i
    case false =>
      rw [List.filter_cons_of_neg (by simp [hw])] at h
      have ⟨hr, he⟩ := u.hides s t i hs hr hw hc.head
      rw [he, List.nil_append, hi (u.inv s i hs) ht hr hc.tail hd h]
    case true =>
      -- The other run gets to the same input after some that are not the observer's.
      rw [List.filter_cons_of_pos hw] at h
      obtain ⟨js₁, js₂, rfl, ho, -, h⟩ := List.filter_eq_cons_iff.mp h.symm
      obtain ⟨hd₁, hd₂⟩ := allSteps_append.mp hd
      have ⟨hr, hes⟩ := u.others hn ha ht (u.symm s t hr) hd₁ (by simpa using ho)
      have ht : I (m.state t js₁) := u.inv_state ht
      have ⟨hr, he⟩ := u.keeps s _ i hs ht (u.symm _ s hr) hw hc.head hd₂.head
      rw [output_append, ha, hes, List.nil_append, output_cons, ha, he,
        hi (u.inv s i hs) (u.inv _ i ht) hr hc.tail hd₂.tail h.symm]

end Unwinds
end Machine
