import TlsProbe.Spool.Theorems.Conservation
import TlsProbe.Spool.Theorems.Thread

open Std

namespace TlsProbe.Spool

variable {s t : State} {env : Env} {faults : Faults} {fault : Option Nat} {line lines : Bytes}
variable {kind : BackendKind} {call : Call} {calls : List Call} {evicted : Nat} {ts : UInt64}

section Backends

-- The calls of the writer thread, for either kind of backend.
def BackendKind.perform (kind : BackendKind) : Call → SpoolM Unit
  | .flushIfNeeded fault elapsed => Spool.flushIfNeeded fault elapsed
  | .writeLine env line          =>
    match kind with
    | .plain => BufferedLineWriter.writeLine env.faults line
    | .spool => Spool.writeLine env line

def BackendKind.machine (kind : BackendKind) : Machine State Call Unit where
  step s call := ((kind.perform call).after s, [])

-- A new single file, or a new spool in an empty directory.
inductive Opened (evicted : Nat) (ts : UInt64) : BackendKind → State → Prop
  | plain {disk maxChunkBytes maxTotalBytes} :
    Opened evicted ts .plain (new disk maxChunkBytes maxTotalBytes evicted ts)
  | spool {maxChunkBytes maxTotalBytes} :
    Opened evicted ts .spool (new emptyDir maxChunkBytes maxTotalBytes evicted ts)

-- What is in the single file, or in the chunks that have been completed and in the current one.
def BackendKind.filed (kind : BackendKind) (s : State) : Bytes :=
  match kind with
  | .plain => s.disk.read s.writer.currentPartPath
  | .spool =>
    (History.puts s.disk.log).flatMap (·.2) ++ s.disk.read s.writer.currentPartPath

end Backends

section Buffer

-- What a process that is killed takes with it is no more than a buffer.
def Buffers (s : State) : Prop :=
  s.writer.currentWriter.buf.length ≤ bufCapacity

theorem buffers_buffered (h : Buffers s) : Buffers (s.buffered line) := by
  unfold Buffers at h ⊢
  by_cases hr : bufCapacity - s.writer.currentWriter.buf.length < line.length <;>
    by_cases hc : bufCapacity ≤ line.length <;>
    simp [State.buffered, State.roomFor, State.taken, hr, hc, State.drained, State.write] <;> omega

theorem buffers_flushed (h : Buffers s) : Buffers s.flushed := by
  unfold Buffers at h ⊢
  rw [State.flushed]
  split
  case isTrue  => exact Nat.zero_le _
  case isFalse => exact h

theorem buffers_flushIfNeeded {elapsed : Bool} (h : Buffers s)
    (hs : (flushIfNeeded fault elapsed).succeeds s) :
    Buffers ((flushIfNeeded fault elapsed).after s) := by
  obtain ⟨_, hr⟩ := EStateM.run_of_succeeds hs
  obtain ⟨_, _, hg, hr⟩ := EStateM.run_bind_eq_ok.mp hr
  obtain ⟨rfl, rfl⟩ := EStateM.Result.ok.inj hg
  dsimp only at hr
  split at hr
  case isTrue =>
    rw [forceFlush_of_ok hr]
    exact buffers_flushed h
  case isFalse => exact (EStateM.Result.ok.inj hr).2 ▸ h

theorem buffers_writeLine (hi : Intact s) (h : Buffers s) (hs : (writeLine env line).succeeds s) :
    Buffers ((writeLine env line).after s) := by
  have hf : ¬WriteAllFails env.faults line s := fun hf => writeLine_succeeds.mp hs (.inl hf)
  have hb := bufferedWriteLine_ok hf
  have hu : Usable ((s.buffered line).counted line) := (fills_writeLine hi hb).intact.toUsable
  have hr : (writeLine env line).run s = _ := writeLine_of_ok hb
  split_ifs at hr
  case pos =>
    have hs : (rotate env).succeeds ((s.buffered line).counted line) := by
      rwa [EStateM.succeeds, ←hr, ←EStateM.succeeds]
    rw [EStateM.after_congr hr, EStateM.after_of_ok (rotate_of_succeeds hu hs)]
    exact Nat.zero_le _
  case neg => exact EStateM.after_of_ok hr ▸ @buffers_buffered s line h

theorem buffers_perform (hi : Intact s) (h : Buffers s) (hs : (kind.perform call).succeeds s) :
    Buffers ((kind.perform call).after s) := by
  cases call
  case flushIfNeeded => exact buffers_flushIfNeeded h hs
  case writeLine env line =>
    cases kind
    case spool => exact buffers_writeLine hi h hs
    case plain =>
      have hf := bufferedWriteLine_succeeds.mp hs
      exact EStateM.after_of_ok (bufferedWriteLine_ok hf) ▸ buffers_buffered h

end Buffer

section Runs

theorem fills_plain (h : Intact s) (hs : (BackendKind.plain.perform call).succeeds s) :
    Intact ((BackendKind.plain.perform call).after s) ∧
      ((BackendKind.plain.perform call).after s).current = s.current ++ call.line := by
  obtain ⟨_, hr⟩ := EStateM.run_of_succeeds hs
  cases call
  case flushIfNeeded =>
    have hf := fills_flushIfNeeded h hr
    exact ⟨hf.intact, hf.current⟩
  case writeLine =>
    have hf := fills_writeLine h hr
    exact ⟨⟨⟨hf.intact.paths, hf.intact.opened, hf.intact.there⟩, hf.intact.buffered⟩, hf.current⟩

theorem intact_perform (h : Intact s) (hs : (kind.perform call).succeeds s) :
    Intact ((kind.perform call).after s) := by
  cases kind
  case plain => exact (fills_plain h hs).1
  case spool =>
    have hr : BackendKind.spool.perform call = call.run := by cases call <;> rfl
    rw [hr] at hs ⊢
    obtain ⟨t, hf, he⟩ := step_of_succeeds h hs
    change Intact (machine.step s call).1
    rw [he]
    cases call.rotation? s
    case none => exact hf.intact
    case some => exact intact_rotated

theorem buffers_state (hi : Intact s) (h : Buffers s)
    (hs : kind.machine.AllSteps (fun s call => (kind.perform call).succeeds s) s calls) :
    Buffers (kind.machine.state s calls) :=
  (Machine.inv_state (P := fun s => Intact s ∧ Buffers s)
    (fun _ _ h hs => ⟨intact_perform h.1 hs, buffers_perform h.1 h.2 hs⟩) ⟨hi, h⟩ hs).2

theorem current_plain (h : Intact s)
    (hs : BackendKind.plain.machine.AllSteps
      (fun s call => (BackendKind.plain.perform call).succeeds s) s calls) :
    Intact (BackendKind.plain.machine.state s calls) ∧
      (BackendKind.plain.machine.state s calls).current = s.current ++ calls.flatMap Call.line := by
  induction calls generalizing s
  case nil => simpa using h
  case cons call calls hi =>
    obtain ⟨hc, hs⟩ := Machine.allSteps_cons.mp hs
    obtain ⟨hn, hl⟩ := fills_plain h hc
    obtain ⟨hn, hk⟩ := hi hn hs
    refine ⟨hn, hk.trans ?_⟩
    rw [hl, List.flatMap_cons, List.append_assoc]

theorem spool_perform : BackendKind.spool.perform = Call.run := by
  funext call
  cases call <;> rfl

theorem spool_machine : BackendKind.spool.machine = machine := by
  rw [BackendKind.machine, spool_perform]
  rfl

-- What the invariants of the two kinds have in common.
structure Delivers (evicted : Nat) (kind : BackendKind) (lines : Bytes) (s : State) : Prop where
  intact  : Intact s
  buffers : Buffers s
  plain   : kind = .plain → s.current = lines
  spool   : kind = .spool → ∃ ts, Running evicted lines ts s

theorem delivers_state (ho : Opened evicted ts kind s)
    (ht : (ts :: calls.filterMap Call.now?).Pairwise (· ≤ ·))
    (hs : kind.machine.AllSteps (fun s call => (kind.perform call).succeeds s) s calls) :
    Delivers evicted kind (calls.flatMap Call.line) (kind.machine.state s calls) := by
  cases ho
  case plain disk maxChunkBytes maxTotalBytes =>
    have hi : Intact (new disk maxChunkBytes maxTotalBytes evicted ts) :=
      ⟨usable_new, Nat.le_refl 0⟩
    obtain ⟨hn, hc⟩ := current_plain hi hs
    refine ⟨hn, buffers_state hi (Nat.zero_le _) hs, fun _ => hc.trans ?_, by simp⟩
    simp [State.current, new, Disk.create, Disk.read, BufferedLineWriter.new]
  case spool =>
    have hb := buffers_state running_new.toIntact (Nat.zero_le _) hs
    rw [spool_perform, spool_machine] at hs
    rw [spool_machine] at hb ⊢
    obtain ⟨ts', hr⟩ := (running_run running_new ht hs).1
    rw [List.nil_append] at hr
    exact ⟨hr.toIntact, hb, by simp, fun _ => ⟨ts', hr⟩⟩

def BackendKind.finish (kind : BackendKind) (faults : Faults) : SpoolM Unit :=
  match kind with
  | .plain => forceFlush faults.flush
  | .spool => finalize faults

theorem Delivers.filed_finish (h : Delivers evicted kind lines s)
    (hs : (kind.finish faults).succeeds s) : kind.filed ((kind.finish faults).after s) = lines := by
  cases kind
  case plain =>
    obtain ⟨_, hr⟩ := EStateM.run_of_succeeds hs
    rw [forceFlush_of_ok hr, ←h.plain rfl]
    exact read_flushed h.intact
  case spool =>
    obtain ⟨ts, hr⟩ := h.spool rfl
    have hp : s.flushed.writer.currentPartPath ≠ s.flushed.writer.currentCompletePath :=
      (writes_flushed.usable h.intact.toUsable).part_ne
    rw [BackendKind.finish, finalize_of_succeeds h.intact hs]
    change _ ++ s.flushed.completed.disk.read s.flushed.writer.currentPartPath = _
    rw [State.finalized, hr.lines_completed]
    simp [State.completed, Disk.read, hp.symm]

end Runs

section Thread

-- The calls to the file in a turn of the writer thread.
def Received.fileCalls : Received → List Call
  | .line line fileEnv _ fileFlush _ =>
    [.writeLine fileEnv line, .flushIfNeeded fileFlush.fault fileFlush.elapsed]
  | .empty fileFlush _               => [.flushIfNeeded fileFlush.fault fileFlush.elapsed]

theorem fileWriter_receive {thread : WriterThread} {turn : Received}
    (h : thread.fileWriter = some ⟨kind, s⟩) :
    (thread.receive turn).fileWriter = some ⟨kind, kind.machine.state s turn.fileCalls⟩ := by
  cases turn
  case empty => simp [WriterThread.receive, h]; rfl
  case line  => cases kind <;> simp [WriterThread.receive, h] <;> rfl

theorem fileWriter_loop {thread : WriterThread} {turns : List Received}
    (h : thread.fileWriter = some ⟨kind, s⟩) :
    (WriterThread.loop.state thread turns).fileWriter =
      some ⟨kind, kind.machine.state s (turns.flatMap Received.fileCalls)⟩ := by
  induction turns generalizing thread s
  case nil => exact h
  case cons turn turns hi =>
    rw [Machine.state_cons, List.flatMap_cons, Machine.state_append]
    exact hi (fileWriter_receive h)

end Thread

end TlsProbe.Spool
