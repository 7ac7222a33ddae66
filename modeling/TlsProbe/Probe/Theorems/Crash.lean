import TlsProbe.Event.Theorems.Line
import TlsProbe.Probe.Theorems.Flow
import TlsProbe.Probe.Theorems.Shutdown
import TlsProbe.Spool.Theorems.Delivery

namespace TlsProbe.Probe

open Spool (BackendKind Bytes Call Received WriterThread bufCapacity)

variable {endian : Process.Endian} {kind : BackendKind} {file : Spool.State} {evicted : Nat}
variable {ts : UInt64} {turns : List Received} {events : List CaptureEvent} {s : State}

-- No call to the file fails in the turns of the writer thread, and the clock does not go back.
structure Works (kind : BackendKind) (ts : UInt64) (file : Spool.State) (turns : List Received) :
    Prop where
  succeeds : kind.machine.AllSteps (fun s call => (kind.perform call).succeeds s) file
    (turns.flatMap Received.fileCalls)
  clock    : (ts :: (turns.flatMap Received.fileCalls).filterMap Call.now?).Pairwise (· ≤ ·)

-- The lines that have left the channel for the writer thread.
theorem line_fileCalls : (turns.flatMap Received.fileCalls).flatMap Call.line =
    (turns.flatMap lineOf).flatten := by
  induction turns
  case nil => rfl
  case cons turn turns hi =>
    simp only [List.flatMap_cons, List.flatMap_append, List.flatten_append, hi]
    cases turn <;> simp [Received.fileCalls, lineOf, Call.line]

-- The end of the writer thread has left the file with all lines, unless it has failed.
def Ends (kind : BackendKind) (events : List CaptureEvent) (s : State) (file : Spool.State) : Prop :=
  ∃ faults, s.thread.fileWriter = some ⟨kind, (kind.finish faults).after file⟩ ∧
    ((kind.finish faults).succeeds file →
      kind.filed ((kind.finish faults).after file) = events.flatMap eventLine)

variable {os : List Observation} {emitToStdout : Bool} {stdout : Spool.State}

theorem delivers_turns (ho : Spool.Opened evicted ts kind file) (hw : Works kind ts file turns) :
    Spool.Delivers evicted kind (turns.flatMap lineOf).flatten
      (kind.machine.state file (turns.flatMap Received.fileCalls)) :=
  line_fileCalls ▸ Spool.delivers_state ho hw.clock hw.succeeds

theorem Sequential.fileWriter
    (h : Sequential endian (some ⟨kind, file⟩) emitToStdout stdout s os) (hd : ¬s.threadDone) :
    s.thread.fileWriter = some
      ⟨kind, kind.machine.state file ((os.flatMap received).flatMap Received.fileCalls)⟩ := by
  have hn : s.thread = WriterThread.loop.state (.start (some ⟨kind, file⟩) emitToStdout stdout)
      (os.flatMap received) := by
    simpa [Written, hd] using h.written
  rw [hn]
  exact Spool.fileWriter_loop rfl

theorem Sequential.ends (h : Sequential endian (some ⟨kind, file⟩) emitToStdout stdout s os)
    (ho : Spool.Opened evicted ts kind file) (hw : Works kind ts file (os.flatMap received))
    (hf : Finished s) : Ends kind (Worker.machine.output .new (os.flatMap passes)) s
      (kind.machine.state file ((os.flatMap received).flatMap Received.fileCalls)) := by
  have hc := h.complete hf
  obtain ⟨fileFaults, stdoutFlush, hn⟩ := hc.written
  refine ⟨fileFaults, ?_, fun hs => ?_⟩
  case refine_1 =>
    rw [hn, Spool.runWriterThread, WriterThread.finish, Spool.fileWriter_loop rfl]
    cases kind <;> rfl
  case refine_2 =>
    rw [(delivers_turns ho hw).filed_finish hs, hc.lines, ←List.flatMap_def]

end TlsProbe.Probe
