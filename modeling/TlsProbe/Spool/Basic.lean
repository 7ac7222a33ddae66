import TlsProbe.Lib.Digits
import TlsProbe.Lib.Effect
import TlsProbe.Lib.Machine
import TlsProbe.Spool.Disk

open Std

namespace TlsProbe.Spool

def flushThreshold : Nat := 64 * 1024

-- The capacity of a `BufWriter`.
def bufCapacity : Nat := 8 * 1024

def chunkPrefix     : FileName := "capture-".toList
def chunkSuffix     : FileName := ".jsonl".toList
def chunkPartSuffix : FileName := ".jsonl.part".toList

-- The bytes of the buffer that are not written yet, and the number of those of the lines that were
-- written since the last flush.
structure BufferedLineWriter where
  buf          : Bytes
  pendingBytes : Nat

def BufferedLineWriter.new : BufferedLineWriter where
  buf          := []
  pendingBytes := 0

structure RotatingSpoolWriter where
  maxChunkBytes       : Nat
  maxTotalBytes       : Option Nat
  currentWriter       : BufferedLineWriter
  currentPartPath     : FileName
  currentCompletePath : FileName
  currentBytes        : Nat
  chunksEvicted       : Nat

structure State where
  writer : RotatingSpoolWriter
  disk   : Disk

-- What fails in a call: writing the bytes of a buffer or of a long line, after some of them, the
-- other steps as they are.
structure Faults where
  flushBuf : Option Nat
  writeAll : Option Nat
  flush    : Option Nat
  rename   : Bool
  readDir  : Bool
  remove   : FileName → Bool
  create   : Bool

def Faults.none : Faults where
  flushBuf := .none
  writeAll := .none
  flush    := .none
  rename   := false
  readDir  := false
  remove   := fun _ => false
  create   := false

-- What a call finds outside: the clock, the order in which the directory is listed, and what fails.
structure Env where
  nowSecs : UInt64
  order   : FileName → Nat
  faults  : Faults

abbrev SpoolM := EStateM IoError State

section Files

-- The bytes that are written until the fault.
def written (fault : Option Nat) (bytes : Bytes) : Bytes :=
  match fault with
  | some n => bytes.take n
  | none   => bytes

def State.write (s : State) (bytes : Bytes) : State :=
  { s with disk := s.disk.write bytes }

def writeFile (fault : Option Nat) (bytes : Bytes) : SpoolM Unit := do
  modify (·.write (written fault bytes))
  if fault.any (· < bytes.length) then throw .failed

def renameFile (fault : Bool) (src dst : FileName) : SpoolM Unit := do
  if fault then throw .failed
  match (← get).disk.rename src dst with
  | .ok disk => modify ({ · with disk })
  | .error e => throw e

def removeFile (fault : Bool) (name : FileName) : SpoolM Unit := do
  if fault then throw .failed
  match (← get).disk.remove name with
  | .ok disk => modify ({ · with disk })
  | .error e => throw e

def createFile (fault : Bool) (name : FileName) : SpoolM Unit := do
  if fault then throw .failed
  modify fun s => { s with disk := s.disk.create name }

end Files

section BufferedLineWriter

-- `BufWriter::flush_buf` keeps what could not be written.
def flushBuf (fault : Option Nat) : SpoolM Unit := do
  let buf := (← get).writer.currentWriter.buf
  modify ({ · with writer.currentWriter.buf := buf.drop (written fault buf).length })
  writeFile fault buf

def pushBuf (line : Bytes) : SpoolM Unit :=
  modify fun s => { s with writer.currentWriter.buf := s.writer.currentWriter.buf ++ line }

-- `BufWriter::write_all`
def writeAll (faults : Faults) (line : Bytes) : SpoolM Unit := do
  let spare := bufCapacity - (← get).writer.currentWriter.buf.length
  if line.length < spare then
    pushBuf line
  else
    if spare < line.length then flushBuf faults.flushBuf
    if bufCapacity ≤ line.length then writeFile faults.writeAll line else pushBuf line

def BufferedLineWriter.writeLine (faults : Faults) (line : Bytes) : SpoolM Unit := do
  writeAll faults line
  modify fun s => { s with
    writer.currentWriter.pendingBytes := s.writer.currentWriter.pendingBytes + line.length }

def forceFlush (fault : Option Nat) : SpoolM Unit := do
  if 0 < (← get).writer.currentWriter.pendingBytes then
    flushBuf fault
    modify ({ · with writer.currentWriter.pendingBytes := 0 })

-- `elapsed` tells whether the interval has passed since the last flush.
def flushIfNeeded (fault : Option Nat) (elapsed : Bool) : SpoolM Unit := do
  let pendingBytes := (← get).writer.currentWriter.pendingBytes
  if 0 < pendingBytes ∧ (flushThreshold ≤ pendingBytes ∨ elapsed) then
    forceFlush fault

end BufferedLineWriter

section Names

def decimal (ts : UInt64) : List Char :=
  Nat.toDigits 10 ts.toNat

def chunkPaths (ts : UInt64) : FileName × FileName :=
  let completePath := chunkPrefix ++ decimal ts ++ chunkSuffix
  let partPath     := chunkPrefix ++ decimal ts ++ chunkPartSuffix
  (partPath, completePath)

-- `str::parse::<u64>`
def parseU64 (s : List Char) : Option UInt64 :=
  let digits := if s.head? = some '+' then s.tail else s
  if digits ≠ [] ∧ digits.all (·.isDigit) ∧ Digits.read 10 digits < 2 ^ 64 then
    some <| .ofNat (Digits.read 10 digits)
  else
    none

def parseCompleteChunkTimestamp (name : FileName) : Option UInt64 := do
  let stem ← name.dropSuffix? chunkSuffix
  parseU64 (← stem.dropPrefix? chunkPrefix)

-- `Path::extension`: what follows the last dot, unless that is the first character.
def extension (name : FileName) : Option (List Char) :=
  let after := name.reverse.takeWhile (· ≠ '.')
  if name.length ≤ after.length + 1 then none else some after.reverse

end Names

structure Chunk where
  ts   : UInt64
  size : Nat
  path : FileName
  deriving DecidableEq

def listCompleteChunks (disk : Disk) (order : FileName → Nat) : List Chunk :=
  (disk.readDir order).filterMap fun path => do
    guard (extension path = some "jsonl".toList)
    let ts ← parseCompleteChunkTimestamp path
    return ⟨ts, (disk.read path).length, path⟩

def sortByTs (chunks : List Chunk) : List Chunk :=
  chunks.insertionSort (·.ts ≤ ·.ts)

def totalSize (chunks : List Chunk) : Nat :=
  (chunks.map (·.size)).sum

-- The loop of `enforce_cap`.
def evict (faults : Faults) : Nat → List Chunk → SpoolM Unit
  | _,      []              => pure ()
  | excess, chunk :: chunks =>
    if excess = 0 then
      pure ()
    else do
      removeFile (faults.remove chunk.path) chunk.path
      modify fun s => { s with writer.chunksEvicted := s.writer.chunksEvicted + 1 }
      evict faults (excess - chunk.size) chunks

def enforceCap (env : Env) (maxTotal : Nat) : SpoolM Unit := do
  if env.faults.readDir then throw .failed
  let chunks := sortByTs (listCompleteChunks (← get).disk env.order)
  if maxTotal < totalSize chunks then
    evict env.faults (totalSize chunks - maxTotal) chunks

-- The current chunk becomes complete.
def renamePart (fault : Bool) : SpoolM Unit := do
  let writer := (← get).writer
  renameFile fault writer.currentPartPath writer.currentCompletePath

-- The buffer of the writer that is replaced has been flushed.
def openChunk (env : Env) : SpoolM Unit := do
  let (partPath, completePath) := chunkPaths env.nowSecs
  createFile env.faults.create partPath
  modify ({ · with
    writer.currentWriter       := .new
    writer.currentPartPath     := partPath
    writer.currentCompletePath := completePath })

def rotate (env : Env) : SpoolM Unit := do
  forceFlush env.faults.flush
  renamePart env.faults.rename
  modify ({ · with writer.currentBytes := 0 })
  if let some maxTotal := (← get).writer.maxTotalBytes then
    enforceCap env maxTotal
  openChunk env

def writeLine (env : Env) (line : Bytes) : SpoolM Unit := do
  BufferedLineWriter.writeLine env.faults line
  modify fun s => { s with writer.currentBytes := s.writer.currentBytes + line.length }
  let writer := (← get).writer
  if writer.maxChunkBytes ≤ writer.currentBytes then
    rotate env

def finalize (faults : Faults) : SpoolM Unit := do
  forceFlush faults.flush
  let s ← get
  if s.writer.currentPartPath ∈ s.disk.files then
    renamePart faults.rename

-- `RotatingSpoolWriter::new`, in a directory that is there.
def new (disk : Disk) (maxChunkBytes : Nat) (maxTotalBytes : Option Nat) (chunksEvicted : Nat)
    (nowSecs : UInt64) : State :=
  let (partPath, completePath) := chunkPaths nowSecs
  {
    writer := {
      maxChunkBytes       := maxChunkBytes
      maxTotalBytes       := maxTotalBytes
      currentWriter       := .new
      currentPartPath     := partPath
      currentCompletePath := completePath
      currentBytes        := 0
      chunksEvicted       := chunksEvicted
    }
    disk := disk.create partPath
  }

-- The calls of the writer thread between `new` and `finalize`, which ignores what they return.
inductive Call
  | writeLine (env : Env) (line : Bytes)
  | flushIfNeeded (fault : Option Nat) (elapsed : Bool)

def Call.line : Call → Bytes
  | .writeLine _ line => line
  | .flushIfNeeded .. => []

def Call.run : Call → SpoolM Unit
  | .writeLine env line          => Spool.writeLine env line
  | .flushIfNeeded fault elapsed => Spool.flushIfNeeded fault elapsed

def machine : Machine State Call Unit where
  step s call := (call.run.after s, [])

end TlsProbe.Spool
