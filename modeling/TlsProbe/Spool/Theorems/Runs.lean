import TlsProbe.Spool.Theorems.Rotate

open Std

namespace TlsProbe.Spool

variable {s t : State} {env : Env} {faults : Faults} {fault : Option Nat} {line : Bytes}
variable {call : Call} {calls : List Call}

section WriteLine

-- A line has been written to the current part.
def State.counted (s : State) (line : Bytes) : State :=
  { s with writer.currentBytes := s.writer.currentBytes + line.length }

theorem writeLine_of_error {e : IoError}
    (h : (BufferedLineWriter.writeLine env.faults line).run s = .error e t) :
    (writeLine env line).run s = .error e t :=
  EStateM.run_bind_of_error h

theorem writeLine_of_ok (h : (BufferedLineWriter.writeLine env.faults line).run s = .ok () t) :
    (writeLine env line).run s =
      if t.writer.maxChunkBytes ≤ (t.counted line).writer.currentBytes then
        (rotate env).run (t.counted line)
      else
        .ok () (t.counted line) := by
  rw [writeLine, EStateM.run_bind_of_ok h]
  by_cases hm : t.writer.maxChunkBytes ≤ t.writer.currentBytes + line.length <;>
    simp [State.counted, hm, EStateM.run_bind]

theorem Usable.counted (h : Usable s) : Usable (s.counted line) :=
  ⟨h.paths, h.opened, h.there⟩

end WriteLine

section Usability

-- Nothing fails behind the rename of the rotation that a call makes, if it makes one.
def Call.Recoverable (s : State) : Call → Prop
  | .flushIfNeeded .. => True
  | .writeLine env line =>
    ∀ t, (BufferedLineWriter.writeLine env.faults line).run s = .ok () t →
      t.writer.maxChunkBytes ≤ (t.counted line).writer.currentBytes →
        FlushFails env.faults.flush (t.counted line) ∨ env.faults.rename ∨
          Settles env (t.counted line)

theorem usable_step (h : Usable s) : Usable (machine.step s call).1 ↔ call.Recoverable s := by
  cases call
  case flushIfNeeded fault elapsed =>
    exact iff_of_true ((keeps_flushIfNeeded s).usable h) trivial
  case writeLine env line =>
    have hw := @keeps_bufferedWriteLine env.faults line s
    change Usable ((writeLine env line).after s) ↔ _
    cases hr : (BufferedLineWriter.writeLine env.faults line).run s
    case error e t =>
      rw [EStateM.after_of_error (writeLine_of_error hr)]
      refine iff_of_true ((EStateM.after_of_error hr ▸ hw).usable h) fun t' ht' => ?_
      simp [hr] at ht'
    case ok _ t =>
      have ht : Usable (t.counted line) := ((EStateM.after_of_ok hr ▸ hw).usable h).counted
      have hc : (Call.writeLine env line).Recoverable s ↔
          (t.writer.maxChunkBytes ≤ (t.counted line).writer.currentBytes →
            FlushFails env.faults.flush (t.counted line) ∨ env.faults.rename ∨
              Settles env (t.counted line)) := by
        simp [Call.Recoverable, hr]
      have hx := writeLine_of_ok hr
      rw [hc]
      split_ifs at hx with hm
      case pos =>
        rw [EStateM.after_congr hx]
        simpa only [hm, true_imp_iff] using usable_rotate ht
      case neg =>
        rw [EStateM.after_of_ok hx]
        exact iff_of_true ht fun hm' => absurd hm' hm

theorem usable_new {disk : Disk} {maxChunkBytes chunksEvicted : Nat} {maxTotalBytes : Option Nat}
    {nowSecs : UInt64} : Usable (new disk maxChunkBytes maxTotalBytes chunksEvicted nowSecs) where
  paths  := ⟨nowSecs, rfl⟩
  opened := rfl
  there  := ExtTreeMap.mem_insert_self

-- A spool can be used all along just the runs in which nothing fails behind a rename.
theorem recovers_iff {disk : Disk} {maxChunkBytes chunksEvicted : Nat} {maxTotalBytes : Option Nat}
    {nowSecs : UInt64} :
    machine.AllStates Recovers (new disk maxChunkBytes maxTotalBytes chunksEvicted nowSecs) calls ↔
      machine.AllSteps (fun s call => call.Recoverable s)
        (new disk maxChunkBytes maxTotalBytes chunksEvicted nowSecs) calls := by
  rw [←Machine.allStates_iff (fun _ _ => usable_step) usable_new]
  exact forall₂_congr fun _ _ => ⟨Recovers.usable, Usable.recovers⟩

def emptyDir : Disk where
  files    := ∅
  openName := none
  log      := []

-- The complete chunk is gone when it is to be removed.
def chunkGone : Env where
  nowSecs := 101
  order   := fun _ => 0
  faults  := { Faults.none with remove := fun _ => true }

theorem chunkGone_not_recovers :
    ¬machine.AllStates Recovers (new emptyDir 1 (some 0) 0 100) [.writeLine chunkGone [0x0a]] := by
  intro h
  have hu := (h _ List.prefix_rfl).usable
  have hr := (usable_step usable_new).mp hu _ rfl (Nat.le_refl 1)
  obtain hf | hr | hs := hr
  case inl      => simp [FlushFails, chunkGone, Faults.none] at hf
  case inr.inl  => contradiction
  case inr.inr  =>
    refine hs.1 0 rfl <| .inr ⟨⟨100, 1, (chunkPaths 100).2⟩, ?_, rfl⟩
    decide +kernel

end Usability

end TlsProbe.Spool
