import Mathlib.Data.List.Basic

-- Codes for values as words, after which other words may follow.
namespace Code

variable {α β : Type*}

-- Where the word of `a` stands, with something in `K` behind it, no other value can be read, and
-- nothing else can be what follows.
def Reads (f : α → List β) (K : List β → Prop) (a : α) : Prop :=
  ∀ ⦃a' k k'⦄, K k → K k' → f a ++ k = f a' ++ k' → a = a' ∧ k = k'

def Delimited (f : α → List β) (K : List β → Prop) : Prop :=
  ∀ a, Reads f K a

-- Whatever follows.
abbrev Any (_ : List β) : Prop :=
  True

-- The words one after the other, with a mark in front of each of them and another one at the end.
def marked (mark close : β) (words : List (List β)) : List β :=
  words.flatMap (mark :: ·) ++ [close]

-- The words in brackets, with a mark between them.
def bracketed (opening mark close : β) (words : List (List β)) : List β :=
  opening :: (marked mark close words).drop (if words = [] then 0 else 1)

variable {f : α → List β} {K : List β → Prop} {a : α} {as : List α} {b mark close opening : β}
variable {word k : List β} {words : List (List β)}

theorem marked_cons : marked mark close (word :: words) ++ k =
    mark :: (word ++ (marked mark close words ++ k)) := by
  simp [marked]

theorem bracketed_cons : bracketed opening mark close (word :: words) ++ k =
    opening :: (word ++ (marked mark close words ++ k)) := by
  simp [bracketed, marked]

theorem Delimited.injective (h : Delimited f K) (hk : K []) : Function.Injective f :=
  fun a _ he => (h a hk hk (congrArg (· ++ []) he)).1

-- Words that are not empty and can be told apart whatever follows can be told apart in a row.
theorem Delimited.flatMap_injective (h : Delimited f Any) (hn : ∀ a, f a ≠ []) :
    Function.Injective (List.flatMap f) := by
  intro as
  induction as
  case nil =>
    intro as' he
    cases as'
    case nil       => rfl
    case cons a' _ => simp [hn a'] at he
  case cons a as hi =>
    intro as' he
    cases as'
    case nil => simp [hn a] at he
    case cons a' as' =>
      rw [List.flatMap_cons, List.flatMap_cons] at he
      obtain ⟨rfl, ht⟩ := h a trivial trivial he
      rw [hi ht]

-- Words of which the first one can be read.
theorem delimited_of_read {read : List β → Option α} (h : ∀ a k, read (f a ++ k) = some a) :
    Delimited f Any := by
  intro a a' k k' _ _ he
  have ha : a = a' := Option.some.inj <| by rw [←h a k, he, h a' k']
  rw [ha] at he
  exact ⟨ha, List.append_cancel_left he⟩

-- Words of letters, with no letter behind them.
theorem delimited_of_all {p : β → Bool} (hf : Function.Injective f) (hp : ∀ a, ∀ b ∈ f a, p b) :
    Delimited f fun k => ∀ b ∈ k.head?, p b = false := by
  have ht (a : α) (k : List β) (hk : ∀ b ∈ k.head?, p b = false) :
      (f a ++ k).takeWhile p = f a := by
    rw [List.takeWhile_append_of_pos (hp a)]
    cases k
    case nil      => simp
    case cons b k => simp [hk b rfl]
  intro a a' k k' hk hk' he
  have ha : f a = f a' := by rw [←ht a k hk, he, ht a' k' hk']
  rw [ha] at he
  exact ⟨hf ha, List.append_cancel_left he⟩

section Lists

-- Words up to a mark that none of them starts with.
theorem Delimited.until (h : Delimited f Any) (hf : ∀ a k k', f a ++ k ≠ close :: k') :
    Delimited (fun as : List α => as.flatMap f ++ [close]) Any := by
  intro as
  induction as
  case nil =>
    intro as' k k' _ _ he
    cases as'
    case nil => exact ⟨rfl, List.cons_injective he⟩
    case cons =>
      simp only [List.flatMap_cons, List.append_assoc] at he
      exact absurd he.symm (hf _ _ _)
  case cons a as hi =>
    intro as' k k' _ _ he
    cases as'
    case nil =>
      simp only [List.flatMap_cons, List.append_assoc] at he
      exact absurd he (hf _ _ _)
    case cons a' as' =>
      simp only [List.flatMap_cons, List.append_assoc] at he
      obtain ⟨rfl, hr⟩ := h a trivial trivial he
      simp only [←List.append_assoc] at hr
      obtain ⟨rfl, hk⟩ := hi trivial trivial hr
      exact ⟨rfl, hk⟩

-- Each word is followed by a mark, or by the end.
theorem reads_marked (h : ∀ a ∈ as, Reads f K a) (hm : ∀ k, K (mark :: k)) (hc : ∀ k, K (close :: k))
    (hn : mark ≠ close) : Reads (fun as => marked mark close (as.map f)) Any as := by
  have hk (as : List α) (k : List β) : K (marked mark close (as.map f) ++ k) := by
    cases as
    case nil  => exact hc k
    case cons =>
      rw [List.map_cons, marked_cons]
      exact hm _
  induction as
  case nil =>
    intro as' k k' _ _ he
    cases as'
    case nil  => exact ⟨rfl, List.cons_injective he⟩
    case cons =>
      simp only [List.map_cons, marked_cons] at he
      exact absurd (List.head_eq_of_cons_eq he) hn.symm
  case cons a as hi =>
    intro as' k k' _ _ he
    simp only [List.map_cons, marked_cons] at he
    cases as'
    case nil => exact absurd (List.head_eq_of_cons_eq he) hn
    case cons a' as' =>
      simp only [List.map_cons, marked_cons] at he
      obtain ⟨rfl, hr⟩ := h a List.mem_cons_self (hk as k) (hk as' k') (List.cons_injective he)
      obtain ⟨rfl, ht⟩ := hi (fun a ha => h a (List.mem_cons_of_mem _ ha)) trivial trivial hr
      exact ⟨rfl, ht⟩

-- A word does not start with what closes the brackets.
theorem reads_bracketed (h : ∀ a ∈ as, Reads f K a) (hm : ∀ k, K (mark :: k))
    (hc : ∀ k, K (close :: k)) (hn : mark ≠ close) (hf : ∀ a k k', f a ++ k ≠ close :: k') :
    Reads (fun as => bracketed opening mark close (as.map f)) Any as := by
  intro as' k k' _ _ he
  cases as <;> cases as'
  case nil.nil => exact ⟨rfl, List.cons_injective (List.cons_injective he)⟩
  case nil.cons =>
    simp only [List.map_cons, bracketed_cons] at he
    exact absurd (List.cons_injective he).symm (hf _ _ _)
  case cons.nil =>
    simp only [List.map_cons, bracketed_cons] at he
    exact absurd (List.cons_injective he) (hf _ _ _)
  case cons.cons =>
    simp only [List.map_cons, bracketed_cons] at he
    refine reads_marked h hm hc hn trivial trivial ?_
    simp only [List.map_cons, marked_cons, List.cons_injective he]

-- What has been read of words that all end with a mark: the words up to its last mark.
theorem splitOn_of_prefix [BEq β] [LawfulBEq β] {w : List β} (hb : ∀ a, b ∉ f a)
    (h : w <+: as.flatMap fun a => f a ++ [b]) :
    (w.splitOn b).dropLast = (as.take (w.count b)).map f := by
  induction as generalizing w
  case nil =>
    rw [List.prefix_nil.mp h]
    rfl
  case cons a as hi =>
    rw [List.flatMap_cons] at h
    have hw : (∃ w', w = f a ++ b :: w' ∧ w' <+: as.flatMap fun a => f a ++ [b]) ∨ b ∉ w := by
      obtain hw | ⟨w', rfl⟩ := List.prefix_or_prefix_of_prefix h (List.prefix_append ..)
      case inl =>
        obtain rfl | hw := List.prefix_concat_iff.mp hw
        · exact .inl ⟨[], by simp, List.nil_prefix⟩
        · exact .inr fun hm => hb a (hw.subset hm)
      case inr => exact .inl ⟨w', by simp, (List.prefix_append_right_inj _).mp h⟩
    obtain ⟨w', rfl, hp⟩ | hm := hw
    case inl =>
      have hs : (f a ++ b :: w').splitOn b = f a :: w'.splitOn b :=
        List.splitOnP_append_cons_of_forall_mem (by grind) b (by simp) w'
      have hc : (f a ++ b :: w').count b = w'.count b + 1 := by
        simp [List.count_eq_zero_of_not_mem (hb a)]
      have hn : w'.splitOn b ≠ [] := List.splitOnP_ne_nil _ _
      rw [hs, hc, List.dropLast_cons_of_ne_nil hn, hi hp]
      rfl
    case inr =>
      have hs : w.splitOn b = [w] := List.splitOnP_eq_singleton (by grind)
      rw [hs, List.count_eq_zero_of_not_mem hm]
      rfl

end Lists

end Code
