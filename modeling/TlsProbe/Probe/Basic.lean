import TlsProbe.Ebpf.Layout
import TlsProbe.Event.Line
import TlsProbe.Lib.Channel
import TlsProbe.Spool.Thread
import TlsProbe.Worker.Basic

namespace TlsProbe.Probe

open Spool (Bytes Faults FlushEnv Received WriterBackend WriterThread)

def eventChannelCapacity : Nat := 1000
def writeChannelCapacity : Nat := 256

-- Where the task is that drains the ring buffer: about to look at `running`, waiting for the ring
-- buffer to be readable, or reading items.
inductive Drain
  | check
  | wait
  | read
  | done
  deriving DecidableEq

-- The tasks of the program, and what they share. The worker has the lines of its turn still to
-- send. The first ones of these, `own` in number, belong to the capture of the turn.
structure State where
  running       : Bool
  ring          : List Bytes
  drain         : Drain
  captures      : Channel RawTlsCapture eventChannelCapacity
  eventsDropped : UInt64
  worker        : Worker
  outgoing      : List Bytes
  own           : Nat
  workerDone    : Bool
  lines         : Channel Bytes writeChannelCapacity
  writerTx      : Bool
  thread        : WriterThread
  threadDone    : Bool

-- The start of `run`. The writer thread has its backend, and nothing has been sent.
def start (fileBackend : Option WriterBackend) (emitToStdout : Bool) (stdout : Spool.State) :
    State where
  running       := true
  ring          := []
  drain         := .check
  captures      := .empty
  eventsDropped := 0
  worker        := .new
  outgoing      := []
  own           := 0
  workerDone    := false
  lines         := .empty
  writerTx      := true
  thread        := .start fileBackend emitToStdout stdout
  threadDone    := false

-- What the calls of the writer thread find in a turn, and at its end.
structure WriterEnv where
  fileEnv      : Spool.Env
  stdoutFaults : Faults
  fileFlush    : FlushEnv
  stdoutFlush  : FlushEnv
  fileFaults   : Faults

-- The steps of the tasks, in any order. One that is not possible leaves everything as it is: the
-- task has to wait.
inductive Action
  | arrives (item : Bytes)
  | stops
  | drains (readable : Bool)
  | aborts
  | works (pass : Pass)
  | writes (env : WriterEnv)
  | releases

-- What happens in a step.
inductive Observation
  | arrives (item : Bytes)
  | reads (item : Bytes)
  | accepts (capture : RawTlsCapture)
  | refuses (capture : RawTlsCapture)
  | closed (capture : RawTlsCapture)
  | turns (pass : Pass) (events : List CaptureEvent)
  | unsent (line : Bytes)
  | receives (received : Received)
  | finishes (fileFaults : Faults) (stdoutFlush : FlushEnv)

namespace State

-- An item that is read. The channel is closed when the worker is done.
def forward (endian : Process.Endian) (s : State) (item : Bytes) : State × List Observation :=
  match Ebpf.decode endian item with
  | none         => (s, [.reads item])
  | some capture =>
    if s.workerDone then
      ({ s with drain := .done }, [.reads item, .closed capture])
    else
      match s.captures.trySend capture with
      | some captures => ({ s with captures }, [.reads item, .accepts capture])
      | none          =>
        ({ s with eventsDropped := s.eventsDropped + 1 }, [.reads item, .refuses capture])

-- A step of the task that `run` of the loader spawns. It waits if nothing is there to be read,
-- unless an error wakes it.
def stepDrain (endian : Process.Endian) (s : State) (readable : Bool) : State × List Observation :=
  match s.drain with
  | .check => ({ s with drain := if s.running then .wait else .done }, [])
  | .wait  => ({ s with drain := if readable then .read else .check }, [])
  | .read  =>
    match s.ring with
    | []           => ({ s with drain := .check }, [])
    | item :: ring => { s with ring }.forward endian item
  | .done  => (s, [])

-- When the program stops, the loader aborts the task if that does not end by itself.
def abortDrain (s : State) : State :=
  if !s.running && s.drain = .wait then { s with drain := .done } else s

-- The number of lines in a turn that the worker cannot do without.
def ownLines (worker : Worker) (pass : Pass) : Nat :=
  match worker.receive pass with
  | (worker, some record) =>
    ((worker.tracking.handle pass record).events pass.env record).length
  | (_, none) => 0

-- The channel is closed when the writer thread is done. The worker then ends if it cannot send a
-- line of the capture, and gives up the others.
def sendLine (s : State) (line : Bytes) (outgoing : List Bytes) : State × List Observation :=
  if s.threadDone then
    ({ s with outgoing := [], workerDone := 0 < s.own }, [.unsent line])
  else
    match s.lines.trySend line with
    | some lines => ({ s with lines, outgoing, own := s.own - 1 }, [])
    | none       => (s, [])

-- The other fields of the pass are what the worker finds in its turn.
def takeTurn (s : State) (capture : RawTlsCapture) (pass : Pass) : State × List Observation :=
  let pass := { pass with capture }
  let (worker, events) := s.worker.step pass
  ({ s with worker, outgoing := events.map eventLine, own := ownLines s.worker pass },
    [.turns pass events])

-- A step of the worker: it sends its next line, or else takes the next capture. It ends when the
-- channel is empty and has lost its sender, the task that drains the ring buffer.
def stepWorker (s : State) (pass : Pass) : State × List Observation :=
  if s.workerDone then
    (s, [])
  else
    match s.outgoing with
    | line :: outgoing => s.sendLine line outgoing
    | []               =>
      match s.captures.tryRecv with
      | some (capture, captures) => { s with captures }.takeTurn capture pass
      | none                     => ({ s with workerDone := s.drain = .done }, [])

-- A turn of the writer thread. The channel is disconnected when the worker is done and `run` has
-- released its own sender.
def stepWriter (s : State) (env : WriterEnv) : State × List Observation :=
  if s.threadDone then
    (s, [])
  else
    match s.lines.tryRecv with
    | some (line, lines) =>
      let received := .line line env.fileEnv env.stdoutFaults env.fileFlush env.stdoutFlush
      ({ s with lines, thread := s.thread.receive received }, [.receives received])
    | none =>
      if s.writerTx || !s.workerDone then
        let received := .empty env.fileFlush env.stdoutFlush
        ({ s with thread := s.thread.receive received }, [.receives received])
      else
        ({ s with thread := s.thread.finish env.fileFaults env.stdoutFlush, threadDone := true },
          [.finishes env.fileFaults env.stdoutFlush])

-- `run` waits for the loader, which ends with its task, before it drops its sender.
def release (s : State) : State :=
  if !s.running && s.drain = .done then { s with writerTx := false } else s

end State

def machine (endian : Process.Endian) : Machine State Action Observation where
  step s
    | .arrives item    => ({ s with ring := s.ring ++ [item] }, [.arrives item])
    | .stops           => ({ s with running := false }, [])
    | .drains readable => s.stepDrain endian readable
    | .aborts          => (s.abortDrain, [])
    | .works pass      => s.stepWorker pass
    | .writes env      => s.stepWriter env
    | .releases        => (s.release, [])

end TlsProbe.Probe
