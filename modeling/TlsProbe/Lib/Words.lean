import Mathlib.Data.List.Basic

-- Tables as text: lines that end in a character of their own, of words with blanks between them.
namespace Words

variable {α : Type*}

def words (isBlank : α → Bool) (text : List α) : List (List α) :=
  (text.splitOnP isBlank).filter fun w => !w.isEmpty

structure IsWord (isBlank : α → Bool) (w : List α) : Prop where
  ne_nil : w ≠ []
  plain  : ∀ c ∈ w, isBlank c = false

variable {isBlank : α → Bool} {c : α} {w text rest : List α}

theorem words_append_blank (h : isBlank c) :
    words isBlank (text ++ c :: rest) = words isBlank text ++ words isBlank rest := by
  rw [words, List.splitOnP_append_cons _ _ h, List.filter_append]
  rfl

theorem words_blank (h : isBlank c) : words isBlank (c :: text) = words isBlank text := by
  rw [←List.nil_append (c :: text), words_append_blank h]
  simp [words]

theorem IsWord.words (h : IsWord isBlank w) : words isBlank w = [w] := by
  rw [Words.words, List.splitOnP_eq_singleton fun c hc => by simp [h.plain c hc],
    List.filter_cons_of_pos (by simpa using h.ne_nil), List.filter_nil]

theorem IsWord.words_append (h : IsWord isBlank w) (hc : isBlank c) :
    Words.words isBlank (w ++ c :: rest) = w :: Words.words isBlank rest := by
  rw [words_append_blank hc, h.words, List.singleton_append]

theorem words_replicate (n : Nat) (hc : isBlank c) :
    words isBlank (List.replicate n c ++ text) = words isBlank text := by
  induction n
  case zero      => rfl
  case succ n hi => rw [List.replicate_succ, List.cons_append, words_blank hc, hi]

section Lines

variable [BEq α] [LawfulBEq α] {stop : α} {ls : List (List α)}

-- The lines, each with its end.
def unlines (stop : α) (ls : List (List α)) : List α :=
  ls.flatMap fun l => l ++ [stop]

theorem splitOn_unlines (h : ∀ l ∈ ls, stop ∉ l) : (unlines stop ls).splitOn stop = ls ++ [[]] := by
  induction ls
  case nil => simp [unlines]
  case cons l ls hi =>
    obtain ⟨hl, hls⟩ := List.forall_mem_cons.mp h
    have hu : unlines stop (l :: ls) = l ++ stop :: unlines stop ls := by simp [unlines]
    rw [hu, List.splitOn_append_cons_self_of_not_mem hl, hi hls, List.cons_append]

end Lines

end Words
