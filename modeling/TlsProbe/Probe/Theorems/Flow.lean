import TlsProbe.Probe.Theorems.Moves

namespace TlsProbe.Probe

open Spool (Bytes Faults FlushEnv Received WriterBackend WriterThread)

-- What the observations of a run tell.
section Observed

def arrived : Observation → List Bytes
  | .arrives item => [item]
  | _             => []

def read : Observation → List Bytes
  | .reads item => [item]
  | _           => []

def accepted : Observation → List RawTlsCapture
  | .accepts capture => [capture]
  | _                => []

def refused : Observation → List RawTlsCapture
  | .refuses capture => [capture]
  | _                => []

-- The captures that are offered to the worker, which may not take them.
def offered : Observation → List RawTlsCapture
  | .accepts capture | .refuses capture => [capture]
  | _                                   => []

def passes : Observation → List Pass
  | .turns pass _ => [pass]
  | _             => []

def events : Observation → List CaptureEvent
  | .turns _ events => events
  | _               => []

def received : Observation → List Received
  | .receives received => [received]
  | _                  => []

def lineOf : Received → List Bytes
  | .line line .. => [line]
  | .empty ..     => []

-- Something is lost without being counted.
def isLoss : Observation → Bool
  | .closed _ | .unsent _ => true
  | _                     => false

end Observed

variable {endian : Process.Endian} {s t : State} {a : Action} {os : List Observation}
variable {acts : List Action}

section Steps

theorem Moves.ring (h : Moves endian s a t os) :
    s.ring ++ os.flatMap arrived = os.flatMap read ++ t.ring := by
  cases h <;> simp_all [arrived, read]

theorem Moves.offered (h : Moves endian s a t os) :
    os.flatMap (fun o => (read o).filterMap (Ebpf.decode endian)) = os.flatMap Probe.offered := by
  cases h <;> simp_all [Probe.offered, read]

theorem Moves.captures (h : Moves endian s a t os) :
    s.captures.queue ++ os.flatMap accepted =
      os.flatMap (fun o => (passes o).map (·.capture)) ++ t.captures.queue := by
  cases h <;> simp_all [accepted, passes]

theorem Moves.worker (h : Moves endian s a t os) :
    t.worker = Worker.machine.state s.worker (os.flatMap passes) ∧
    os.flatMap events = Worker.machine.output s.worker (os.flatMap passes) := by
  cases h <;> simp_all [passes, events, Worker.machine]

theorem Moves.lines (h : Moves endian s a t os) :
    (s.lines.queue ++ s.outgoing) ++ os.flatMap (fun o => (events o).map eventLine) =
      os.flatMap (fun o => (received o).flatMap lineOf) ++ (t.lines.queue ++ t.outgoing) := by
  cases h <;> simp_all [events, received, lineOf]

theorem Moves.eventsDropped (h : Moves endian s a t os) :
    t.eventsDropped = s.eventsDropped + .ofNat (os.flatMap refused).length := by
  cases h <;> simp_all [refused]

theorem Moves.not_isLoss (h : Moves endian s a t os) : ∀ o ∈ os, isLoss o = false := by
  cases h <;> simp [isLoss]

end Steps

section Runs

-- The writer thread has gone through its turns, and come to its end if it is done.
def Written (thread : WriterThread) (turns : List Received) (s : State) : Prop :=
  if s.threadDone then
    ∃ fileFaults stdoutFlush,
      s.thread = (WriterThread.loop.state thread turns).finish fileFaults stdoutFlush
  else
    s.thread = WriterThread.loop.state thread turns

theorem Moves.written {thread : WriterThread} {turns : List Received} (h : Moves endian s a t os)
    (hs : Written thread turns s) : Written thread (turns ++ os.flatMap received) t := by
  unfold Written at hs ⊢
  cases h
  case writes ht _ hr | polls ht _ _ hr =>
    simp only [ht, Bool.false_eq_true, if_false] at hs ⊢
    simp [received, Machine.state_append, hs, WriterThread.loop]
  case threadEnds env ht _ _ _ =>
    simp only [ht, Bool.false_eq_true, if_false] at hs
    exact ⟨env.fileFaults, env.stdoutFlush, by simp [received, hs]⟩
  all_goals simpa [received] using hs

theorem projects_worker : Machine.Projects (machine endian) Worker.machine State.worker
    (fun s a => ((machine endian).step s a).2.flatMap passes) (·.flatMap events) Orderly where
  inv    _ _ h := (moves_step h).orderly h
  state  _ _ h := (moves_step h).worker.1
  output _ _ h := (moves_step h).worker.2

theorem fifo_state (endian : Process.Endian) {α : Type} {ins outs : Observation → List α}
    (φ : State → List α)
    (h : ∀ {s a t os}, Moves endian s a t os →
      φ s ++ os.flatMap ins = os.flatMap outs ++ φ t) (hs : Orderly s) (acts : List Action) :
    φ s ++ ((machine endian).output s acts).flatMap ins =
      ((machine endian).output s acts).flatMap outs ++ φ ((machine endian).state s acts) :=
  Machine.fifo (fun _ _ h => (moves_step h).orderly h) (fun _ _ hs => h (moves_step hs)) hs

theorem eventsDropped_state (h : Orderly s) : ((machine endian).state s acts).eventsDropped =
    s.eventsDropped + .ofNat (((machine endian).output s acts).flatMap refused).length := by
  induction acts generalizing s
  case nil => simp
  case cons a acts hi =>
    have hm : Moves endian s a _ _ := moves_step h
    rw [Machine.state_cons, hi (hm.orderly h), hm.eventsDropped, Machine.output_cons,
      List.flatMap_append, List.length_append, UInt64.ofNat_add, UInt64.add_assoc]

theorem written_state {thread : WriterThread} {turns : List Received} (h : Orderly s)
    (hs : Written thread turns s) :
    Written thread (turns ++ ((machine endian).output s acts).flatMap received)
      ((machine endian).state s acts) := by
  induction acts generalizing s turns
  case nil => simpa using hs
  case cons a acts hi =>
    have hm : Moves endian s a _ _ := moves_step h
    have hw := hi (hm.orderly h) (hm.written hs)
    rwa [List.append_assoc, ←List.flatMap_append] at hw

theorem not_isLoss (h : Orderly s) : ∀ o ∈ (machine endian).output s acts, isLoss o = false :=
  Machine.inv_output (C := fun _ _ => True) (fun _ _ h _ => (moves_step h).orderly h)
    (fun _ _ h _ => (moves_step h).not_isLoss) h (Machine.allSteps_of_forall fun _ _ => trivial)

variable (endian) (fileBackend : Option WriterBackend) (emitToStdout : Bool) (stdout : Spool.State)

-- What a run of the tasks comes down to: each item that arrives is read or still there, each one that
-- can be decoded is a capture that the worker gets or that is counted, and the worker and the writer
-- thread do what they would do one after the other.
structure Sequential (s : State) (os : List Observation) : Prop where
  ring     : os.flatMap arrived = os.flatMap read ++ s.ring
  offered  : (os.flatMap read).filterMap (Ebpf.decode endian) = os.flatMap offered
  captures : os.flatMap accepted = (os.flatMap passes).map (·.capture) ++ s.captures.queue
  dropped  : s.eventsDropped = .ofNat (os.flatMap refused).length
  worker   : s.worker = Worker.machine.state .new (os.flatMap passes)
  lines    : (Worker.machine.output .new (os.flatMap passes)).map eventLine =
    (os.flatMap received).flatMap lineOf ++ (s.lines.queue ++ s.outgoing)
  written  : Written (.start fileBackend emitToStdout stdout) (os.flatMap received) s
  lossless : ∀ o ∈ os, isLoss o = false

theorem sequential (acts : List Action) :
    Sequential endian fileBackend emitToStdout stdout
      ((machine endian).state (start fileBackend emitToStdout stdout) acts)
      ((machine endian).output (start fileBackend emitToStdout stdout) acts) := by
  let s := start fileBackend emitToStdout stdout
  have hs : Orderly s := orderly_start
  have hw : ((machine endian).state s acts).worker = _ := projects_worker.state_run hs
  have ho : ((machine endian).output s acts).flatMap events = _ :=
    projects_worker.output_run hs rfl fun _ _ => List.flatMap_append
  rw [Machine.Projects.inputs_output] at hw ho
  constructor
  case ring => simpa [s, start] using fifo_state endian State.ring Moves.ring hs acts
  case offered =>
    have hd := fifo_state endian (fun _ => []) (fun h => by simpa using Moves.offered h) hs acts
    simpa [List.filterMap_flatMap] using hd
  case captures =>
    have hc := fifo_state endian (·.captures.queue) Moves.captures hs acts
    simpa [s, start, Channel.empty, List.map_flatMap] using hc
  case dropped => simpa [s, start] using eventsDropped_state hs
  case worker  => exact hw
  case lines =>
    have hl := fifo_state endian (fun s => s.lines.queue ++ s.outgoing) Moves.lines hs
      acts
    rw [show Worker.new = s.worker from rfl, ←ho, List.map_flatMap, List.flatMap_assoc]
    simpa [s, start, Channel.empty] using hl
  case written  => exact written_state hs (Eq.refl (Machine.state _ _ []))
  case lossless => exact not_isLoss hs

-- What a run has come to when its tasks have ended: each capture that was offered has had its turn
-- or been counted as dropped, and each event has had its line written, in order, and been counted.
structure Complete (s : State) (os : List Observation) : Prop where
  captures : (os.flatMap passes).map (·.capture) = os.flatMap accepted
  counted  : ((os.flatMap read).filterMap (Ebpf.decode endian)).length =
    (os.flatMap passes).length + (os.flatMap refused).length
  lines    : (os.flatMap received).flatMap lineOf =
    (Worker.machine.output .new (os.flatMap passes)).map eventLine
  written  : ∃ fileFaults stdoutFlush, s.thread =
    Spool.runWriterThread (os.flatMap received) fileBackend emitToStdout stdout fileFaults stdoutFlush
  emitted  : s.thread.eventsEmitted = (Worker.machine.output .new (os.flatMap passes)).length

variable {endian fileBackend emitToStdout stdout}

theorem eventsEmitted_loop {thread : WriterThread} {turns : List Received} :
    (WriterThread.loop.state thread turns).eventsEmitted =
      thread.eventsEmitted + (turns.flatMap lineOf).length := by
  induction turns generalizing thread
  case nil => rfl
  case cons turn turns hi =>
    rw [Machine.state_cons, hi]
    cases turn
    case empty => rfl
    case line =>
      simp only [WriterThread.loop, WriterThread.receive, lineOf, List.flatMap_cons,
        List.length_append, List.length_singleton]
      omega

theorem length_offered : (os.flatMap offered).length =
    (os.flatMap accepted).length + (os.flatMap refused).length := by
  induction os
  case nil => rfl
  case cons o os hi =>
    simp only [List.flatMap_cons, List.length_append, hi]
    cases o <;> simp [offered, accepted, refused] <;> omega

theorem Sequential.complete (h : Sequential endian fileBackend emitToStdout stdout s os)
    (hf : Finished s) : Complete endian fileBackend emitToStdout stdout s os := by
  have hc : (os.flatMap passes).map (·.capture) = os.flatMap accepted := by
    rw [h.captures, hf.captures, List.append_nil]
  have hl : (os.flatMap received).flatMap lineOf =
      (Worker.machine.output .new (os.flatMap passes)).map eventLine := by
    rw [h.lines, hf.lines, hf.outgoing, List.append_nil, List.append_nil]
  have hw : ∃ fileFaults stdoutFlush, s.thread = (WriterThread.loop.state
      (.start fileBackend emitToStdout stdout) (os.flatMap received)).finish
        fileFaults stdoutFlush := by
    simpa [Written, hf.thread] using h.written
  refine ⟨hc, ?_, hl, hw, ?_⟩
  case refine_1 =>
    rw [h.offered, length_offered, ←hc, List.length_map]
  case refine_2 =>
    obtain ⟨fileFaults, stdoutFlush, hw⟩ := hw
    rw [hw, ←List.length_map eventLine, ←hl]
    exact eventsEmitted_loop.trans (Nat.zero_add _)

-- In whatever order the tasks make their steps, nothing gets lost between them but what is counted.
theorem interleavings_sequential (acts : List Action) :
    let s  := (machine endian).state (start fileBackend emitToStdout stdout) acts
    let os := (machine endian).output (start fileBackend emitToStdout stdout) acts
    Sequential endian fileBackend emitToStdout stdout s os ∧
      (s.threadDone → Complete endian fileBackend emitToStdout stdout s os) :=
  have hs := sequential endian fileBackend emitToStdout stdout acts
  ⟨hs, fun ht => hs.complete ((orderly_state orderly_start).finished ht)⟩

end Runs

end TlsProbe.Probe
