import TlsProbe.Spool.Theorems.Runs
import TlsProbe.Spool.Thread

open Std

namespace TlsProbe.Spool

variable {s t : State} {env : Env} {faults : Faults} {fault : Option Nat} {line : Bytes}

section WriteAll

-- The buffer has to be written and cannot be, or the line has to be and cannot be.
def WriteAllFails (faults : Faults) (line : Bytes) (s : State) : Prop :=
  (bufCapacity - s.writer.currentWriter.buf.length < line.length ∧
    ∃ n ∈ faults.flushBuf, n < s.writer.currentWriter.buf.length) ∨
  (bufCapacity ≤ line.length ∧ ∃ n ∈ faults.writeAll, n < line.length)

-- There is room for the line in the buffer, if it has to go there.
def State.roomFor (s : State) (line : Bytes) : State :=
  if bufCapacity - s.writer.currentWriter.buf.length < line.length then s.drained else s

def State.taken (s : State) (line : Bytes) : State :=
  if bufCapacity ≤ line.length then
    s.write line
  else
    { s with writer.currentWriter.buf := s.writer.currentWriter.buf ++ line }

-- The line has been written.
def State.buffered (s : State) (line : Bytes) : State :=
  let t := (s.roomFor line).taken line
  { t with writer.currentWriter.pendingBytes := t.writer.currentWriter.pendingBytes + line.length }

-- What `write_all` does once there is room.
def take (faults : Faults) (line : Bytes) : SpoolM Unit :=
  if bufCapacity ≤ line.length then writeFile faults.writeAll line else pushBuf line

theorem writeAll_eq : (writeAll faults line).run s =
    if bufCapacity - s.writer.currentWriter.buf.length < line.length then
      (flushBuf faults.flushBuf >>= fun _ => take faults line).run s
    else
      (take faults line).run s := by
  by_cases hl : line.length < bufCapacity - s.writer.currentWriter.buf.length
  case pos =>
    have hs : ¬bufCapacity - s.writer.currentWriter.buf.length < line.length := by omega
    have hc : ¬bufCapacity ≤ line.length := by omega
    simp [writeAll, hl, hs, take, hc]
  case neg =>
    by_cases hs : bufCapacity - s.writer.currentWriter.buf.length < line.length <;>
      simp [writeAll, hl, hs, take]

theorem take_ok (h : ¬(bufCapacity ≤ line.length ∧ ∃ n ∈ faults.writeAll, n < line.length)) :
    (take faults line).run s = .ok () (s.taken line) := by
  by_cases hc : bufCapacity ≤ line.length
  case pos =>
    rw [take, if_pos hc, State.taken, if_pos hc]
    exact (writeFile_ok fun hf => h ⟨hc, hf⟩).2
  case neg =>
    rw [take, if_neg hc, State.taken, if_neg hc]
    rfl

theorem writeAll_ok (h : ¬WriteAllFails faults line s) :
    (writeAll faults line).run s = .ok () ((s.roomFor line).taken line) := by
  obtain ⟨hf, ht⟩ := not_or.mp h
  rw [writeAll_eq, State.roomFor]
  split
  case isTrue hs =>
    rw [EStateM.run_bind_of_ok (flushBuf_ok fun hn => hf ⟨hs, hn⟩), take_ok ht]
  case isFalse => exact take_ok ht

theorem writeAll_error (h : WriteAllFails faults line s) :
    ∃ t, (writeAll faults line).run s = .error .failed t := by
  have ht (hc : bufCapacity ≤ line.length) (hn : ∃ n ∈ faults.writeAll, n < line.length)
      (s : State) : ∃ t, (take faults line).run s = .error .failed t := by
    rw [take, if_pos hc]
    exact ⟨_, writeFile_error hn⟩
  rw [writeAll_eq]
  split
  case isTrue hs =>
    by_cases hf : ∃ n ∈ faults.flushBuf, n < s.writer.currentWriter.buf.length
    case pos =>
      obtain ⟨t, he⟩ := flushBuf_error hf
      exact ⟨t, EStateM.run_bind_of_error he⟩
    case neg =>
      obtain ⟨hc, hn⟩ := h.resolve_left fun hl => hf hl.2
      rw [EStateM.run_bind_of_ok (flushBuf_ok hf)]
      exact ht hc hn _
  case isFalse hs =>
    obtain ⟨hc, hn⟩ := h.resolve_left fun hl => hs hl.1
    exact ht hc hn s

theorem bufferedWriteLine_ok (h : ¬WriteAllFails faults line s) :
    (BufferedLineWriter.writeLine faults line).run s = .ok () (s.buffered line) :=
  EStateM.run_bind_of_ok (writeAll_ok h)

theorem bufferedWriteLine_succeeds :
    (BufferedLineWriter.writeLine faults line).succeeds s ↔ ¬WriteAllFails faults line s := by
  constructor
  case mp =>
    intro hs hf
    obtain ⟨t, ht⟩ := writeAll_error hf
    exact EStateM.not_succeeds_of_error (EStateM.run_bind_of_error ht) hs
  case mpr => exact fun h => EStateM.succeeds_of_ok (bufferedWriteLine_ok h)

end WriteAll

section Rotate

-- A rotation fails to flush or to rename the part, or the part is not there any more, or it fails
-- to keep to the cap or to open a new part.
def RotateFails (env : Env) (s : State) : Prop :=
  FlushFails env.faults.flush s ∨ env.faults.rename ∨
    s.writer.currentPartPath ∉ s.flushed.disk.files ∨ ¬Settles env s

-- The name under which the file is open makes no difference to what follows.
def State.completedAs (s : State) (openName : Option FileName) : State :=
  { s.completed with disk.openName := openName }

theorem renamePart_there (h : s.writer.currentPartPath ∈ s.disk.files) :
    ∃ openName, (renamePart false).run s =
      .ok () { s with disk := (s.completedAs openName).disk } := by
  obtain ⟨bytes, hb⟩ := Option.isSome_iff_exists.mp <|
    (ExtTreeMap.isSome_getElem?_iff_mem (a := s.writer.currentPartPath)).mpr h
  let openName :=
    if s.disk.openName = some s.writer.currentPartPath then
      some s.writer.currentCompletePath
    else if s.disk.openName = some s.writer.currentCompletePath then
      none
    else
      s.disk.openName
  refine ⟨openName, ?_⟩
  simp [renamePart, renameFile, Disk.rename, hb, State.completedAs, State.completed, Disk.read,
    openName]

theorem renamePart_gone (h : s.writer.currentPartPath ∉ s.disk.files) :
    (renamePart false).run s = .error .notFound s := by
  have hb : s.disk.files[s.writer.currentPartPath]? = none :=
    ExtTreeMap.getElem?_eq_none h
  simp [renamePart, renameFile, Disk.rename, hb, EStateM.run_bind]

theorem settle_succeeds {openName : Option FileName} :
    (settle env s.writer.maxTotalBytes).succeeds (s.flushed.completedAs openName) ↔
      Settles env s := by
  have hc {t : State} : (openChunk env).succeeds t ↔ env.faults.create = false := by
    cases hf : env.faults.create
    case false => exact iff_of_true (EStateM.succeeds_of_ok (openChunk_ok hf)) rfl
    case true  => simp [EStateM.not_succeeds_of_error (openChunk_error hf)]
  cases hm : s.writer.maxTotalBytes
  case none => simp [settle, hc, Settles, hm]
  case some maxTotal =>
    have hs : Settles env s ↔ ¬CapFails env maxTotal (s.flushed.completedAs openName) ∧
        env.faults.create = false := by
      simp only [Settles, hm, Option.mem_def, Option.some.injEq, forall_eq']
      rfl
    rw [hs, settle]
    by_cases hf : CapFails env maxTotal (s.flushed.completedAs openName)
    case pos =>
      refine iff_of_false (fun h => ?_) fun h => h.1 hf
      obtain ⟨_, hx⟩ := EStateM.run_of_succeeds h
      obtain ⟨_, _, hx, _⟩ := EStateM.run_bind_eq_ok.mp hx
      exact enforceCap_error hf (EStateM.succeeds_of_ok hx)
    case neg =>
      rw [EStateM.succeeds_bind_of_ok (enforceCap_ok hf), hc]
      exact (and_iff_right hf).symm

theorem rotate_succeeds : (rotate env).succeeds s ↔ ¬RotateFails env s := by
  by_cases hf : FlushFails env.faults.flush s
  case pos =>
    obtain ⟨t, ht⟩ := forceFlush_error hf
    exact iff_of_false (EStateM.not_succeeds_of_error (EStateM.run_bind_of_error ht))
      (not_not.mpr (.inl hf))
  case neg =>
    cases hr : env.faults.rename
    case true =>
      rw [rotate, EStateM.succeeds_bind_of_ok (forceFlush_ok hf), hr]
      exact iff_of_false (EStateM.not_succeeds_of_error (EStateM.run_bind_of_error renamePart_error))
        (not_not.mpr (.inr (.inl hr)))
    case false =>
      have hp : s.flushed.writer.currentPartPath = s.writer.currentPartPath := by
        rw [writes_flushed.writer]
      by_cases ht : s.writer.currentPartPath ∈ s.flushed.disk.files
      case pos =>
        obtain ⟨openName, ho⟩ := renamePart_there (hp.symm ▸ ht)
        have hw : s.flushed.writer.maxTotalBytes = s.writer.maxTotalBytes := by
          rw [writes_flushed.writer]
        have hs : (rotate env).run s =
            (settle env s.writer.maxTotalBytes).run (s.flushed.completedAs openName) := by
          rw [rotate, EStateM.run_bind_of_ok (forceFlush_ok hf), hr, EStateM.run_bind_of_ok ho, ←hw]
          cases hm : s.flushed.writer.maxTotalBytes <;>
            simp [settle, hm, EStateM.run_bind, State.completedAs, State.completed]
        rw [EStateM.succeeds, hs, ←EStateM.succeeds, settle_succeeds]
        simp [RotateFails, hf, hr, ht]
      case neg =>
        rw [rotate, EStateM.succeeds_bind_of_ok (forceFlush_ok hf), hr]
        refine iff_of_false ?_ (not_not.mpr (.inr (.inr (.inl ht))))
        exact EStateM.not_succeeds_of_error <|
          EStateM.run_bind_of_error (renamePart_gone (hp.symm ▸ ht))

end Rotate

section WriteLine

-- A line cannot be written to the part, or not be followed by the rotation that is due.
def WriteLineFails (env : Env) (line : Bytes) (s : State) : Prop :=
  WriteAllFails env.faults line s ∨
    (s.writer.maxChunkBytes ≤ s.writer.currentBytes + line.length ∧
      RotateFails env ((s.buffered line).counted line))

theorem writeLine_succeeds : (writeLine env line).succeeds s ↔ ¬WriteLineFails env line s := by
  by_cases hf : WriteAllFails env.faults line s
  case pos =>
    obtain ⟨t, ht⟩ := writeAll_error hf
    have he := writeLine_of_error (EStateM.run_bind_of_error ht)
    exact iff_of_false (EStateM.not_succeeds_of_error he) (not_not.mpr (.inl hf))
  case neg =>
    have hb := bufferedWriteLine_ok hf
    have hw : (s.buffered line).writer =
        { s.writer with currentWriter := (s.buffered line).writer.currentWriter } :=
      (EStateM.after_of_ok hb ▸ keeps_bufferedWriteLine s : Writes s (s.buffered line)).writer
    have hm : (s.buffered line).writer.maxChunkBytes ≤
        ((s.buffered line).counted line).writer.currentBytes ↔
          s.writer.maxChunkBytes ≤ s.writer.currentBytes + line.length := by
      rw [State.counted, hw]
    have hr := writeLine_of_ok hb
    by_cases hd : s.writer.maxChunkBytes ≤ s.writer.currentBytes + line.length
    case pos =>
      rw [if_pos (hm.mpr hd)] at hr
      rw [EStateM.succeeds, hr, ←EStateM.succeeds, rotate_succeeds]
      simp [WriteLineFails, hf, hd]
    case neg =>
      rw [if_neg (hd ∘ hm.mp)] at hr
      exact iff_of_true (EStateM.succeeds_of_ok hr) (by simp [WriteLineFails, hf, hd])

end WriteLine

section WriterThread

variable {w : WriterBackend} {thread : WriterThread} {received : Received}
variable {turns : List Received}

def WriterBackend.WriteFails (w : WriterBackend) (env : Env) (line : Bytes) : Prop :=
  match w.kind with
  | .plain => WriteAllFails env.faults line w.state
  | .spool => WriteLineFails env line w.state

theorem WriterBackend.writeLine_succeeds :
    (w.writeLine env line).succeeds w.state ↔ ¬w.WriteFails env line := by
  unfold writeLine WriteFails
  cases w.kind
  case plain => exact bufferedWriteLine_succeeds
  case spool => exact Spool.writeLine_succeeds

namespace WriterThread

-- A line is received, and each configured output takes it.
def writes (thread : WriterThread) : Received → Bool
  | .line line fileEnv stdoutFaults _ _ =>
    thread.fileWriter.all (fun w => (w.writeLine fileEnv line).succeeds w.state) &&
      thread.stdoutWriter.all (Stdout.writeLine stdoutFaults line).succeeds
  | .empty .. => false

-- The number of lines that are written.
def written (thread : WriterThread) (turns : List Received) : Nat :=
  loop.total (fun thread received => (thread.writes received).toNat) thread turns

-- A line that is received can be written to each configured output.
def Takes (thread : WriterThread) : Received → Prop
  | .line line fileEnv stdoutFaults _ _ =>
    (∀ w ∈ thread.fileWriter, ¬w.WriteFails fileEnv line) ∧
      ∀ s ∈ thread.stdoutWriter, ¬WriteAllFails stdoutFaults line s
  | .empty .. => True

end WriterThread

end WriterThread

end TlsProbe.Spool
