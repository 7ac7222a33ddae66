import TlsProbe.Spool.Basic

namespace TlsProbe.Spool

inductive BackendKind
  | plain
  | spool
  deriving DecidableEq

-- A single file has a state as well, of which only the buffer and the open file are in use.
structure WriterBackend where
  kind  : BackendKind
  state : State

-- The environment of `flush_if_needed`. A file is flushed with the buffer, which cannot fail, but
-- stdout has a buffer of its own (`inner`).
structure FlushEnv where
  fault   : Option Nat
  inner   : Bool
  elapsed : Bool

namespace WriterBackend

def after (w : WriterBackend) (x : SpoolM Unit) : WriterBackend :=
  { w with state := x.after w.state }

def writeLine (w : WriterBackend) (env : Env) (line : Bytes) : SpoolM Unit :=
  match w.kind with
  | .plain => BufferedLineWriter.writeLine env.faults line
  | .spool => Spool.writeLine env line

def flushIfNeeded (env : FlushEnv) : SpoolM Unit :=
  Spool.flushIfNeeded env.fault env.elapsed

def finalize (w : WriterBackend) (faults : Faults) : SpoolM Unit :=
  match w.kind with
  | .plain => forceFlush faults.flush
  | .spool => Spool.finalize faults

end WriterBackend

-- The writer of stdout, as the state of a file.
namespace Stdout

def writeLine (faults : Faults) (line : Bytes) : SpoolM Unit :=
  BufferedLineWriter.writeLine faults line

def forceFlush (fault : Option Nat) (inner : Bool) : SpoolM Unit := do
  if 0 < (← get).writer.currentWriter.pendingBytes then
    flushBuf fault
    if inner then throw .failed
    modify ({ · with writer.currentWriter.pendingBytes := 0 })

def flushIfNeeded (env : FlushEnv) : SpoolM Unit := do
  let pendingBytes := (← get).writer.currentWriter.pendingBytes
  if 0 < pendingBytes ∧ (flushThreshold ≤ pendingBytes ∨ env.elapsed) then
    forceFlush env.fault env.inner

end Stdout

structure WriterThread where
  fileWriter    : Option WriterBackend
  stdoutWriter  : Option State
  eventsEmitted : Nat

-- A turn of the loop, with what `try_recv` returns and what the calls of the turn find.
inductive Received
  | line (line : Bytes) (fileEnv : Env) (stdoutFaults : Faults) (fileFlush stdoutFlush : FlushEnv)
  | empty (fileFlush stdoutFlush : FlushEnv)

namespace WriterThread

-- What a write or a flush returns is ignored.
def receive (thread : WriterThread) : Received → WriterThread
  | .line line fileEnv stdoutFaults fileFlush stdoutFlush => {
      fileWriter    := thread.fileWriter.map fun w =>
        (w.after (w.writeLine fileEnv line)).after (WriterBackend.flushIfNeeded fileFlush)
      stdoutWriter  := thread.stdoutWriter.map fun s =>
        (Stdout.flushIfNeeded stdoutFlush).after ((Stdout.writeLine stdoutFaults line).after s)
      eventsEmitted := thread.eventsEmitted + 1
    }
  | .empty fileFlush stdoutFlush => { thread with
      fileWriter   := thread.fileWriter.map fun w =>
        w.after (WriterBackend.flushIfNeeded fileFlush)
      stdoutWriter := thread.stdoutWriter.map (Stdout.flushIfNeeded stdoutFlush).after
    }

def loop : Machine WriterThread Received Unit where
  step thread received := (thread.receive received, [])

-- What is done once the channel is disconnected.
def finish (thread : WriterThread) (fileFaults : Faults) (stdoutFlush : FlushEnv) :
    WriterThread :=
  { thread with
    fileWriter   := thread.fileWriter.map fun w => w.after (w.finalize fileFaults)
    stdoutWriter := thread.stdoutWriter.map
      (Stdout.forceFlush stdoutFlush.fault stdoutFlush.inner).after
  }

end WriterThread

-- The writer of stdout is a new one.
def WriterThread.start (fileBackend : Option WriterBackend) (emitToStdout : Bool)
    (stdout : State) : WriterThread where
  fileWriter    := fileBackend
  stdoutWriter  := if emitToStdout then some { stdout with writer.currentWriter := .new } else none
  eventsEmitted := 0

-- The loop goes on until the channel is disconnected.
def runWriterThread (received : List Received) (fileBackend : Option WriterBackend)
    (emitToStdout : Bool) (stdout : State) (fileFaults : Faults) (stdoutFlush : FlushEnv) :
    WriterThread :=
  let thread := WriterThread.start fileBackend emitToStdout stdout
  (WriterThread.loop.state thread received).finish fileFaults stdoutFlush

end TlsProbe.Spool
