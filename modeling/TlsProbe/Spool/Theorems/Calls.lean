import TlsProbe.Spool.Basic

open Std

namespace TlsProbe.Spool

variable {s t : State} {env : Env} {faults : Faults} {fault : Option Nat} {bytes line : Bytes}

section Writes

-- What a call leaves that at most writes to the open file.
structure Writes (s t : State) : Prop where
  writer : t.writer = { s.writer with currentWriter := t.writer.currentWriter }
  opened : t.disk.openName = s.disk.openName
  log    : t.disk.log = s.disk.log
  others : ∀ name, s.disk.openName ≠ some name → t.disk.files[name]? = s.disk.files[name]?
  there  : ∀ name ∈ s.disk.files, name ∈ t.disk.files

instance : Std.Refl Writes where
  refl _ := ⟨rfl, rfl, rfl, fun _ _ => rfl, fun _ h => h⟩

instance : IsTrans State Writes where
  trans _ _ _ h₁ h₂ := {
    writer := by rw [h₂.writer, h₁.writer]
    opened := h₂.opened.trans h₁.opened
    log    := h₂.log.trans h₁.log
    others := fun name hn => (h₂.others name (h₁.opened ▸ hn)).trans (h₁.others name hn)
    there  := fun name hn => h₂.there name (h₁.there name hn)
  }

theorem writes_buffer (w : BufferedLineWriter) : Writes s { s with writer.currentWriter := w } :=
  ⟨rfl, rfl, rfl, fun _ _ => rfl, fun _ h => h⟩

theorem write_of_open {name : FileName} (ho : s.disk.openName = some name) : s.write bytes =
    { s with disk.files := s.disk.files.insert name (s.disk.read name ++ bytes) } := by
  simp [State.write, Disk.write, ho]

theorem writes_write : Writes s (s.write bytes) := by
  cases ho : s.disk.openName
  case none =>
    have he : s.write bytes = s := by simp [State.write, Disk.write, ho]
    rw [he]
    exact refl s
  case some name =>
    rw [write_of_open ho]
    refine ⟨rfl, rfl, rfl, fun name' hn => ?_, fun name' hn => ?_⟩
    · have hn : name ≠ name' := fun h => hn (by rw [ho, h])
      simp [ExtTreeMap.getElem?_insert, hn]
    · simp [hn]

theorem keeps_writeFile : (writeFile fault bytes).Keeps Writes :=
  .bind (.modify fun _ => writes_write) fun _ => .ite .throw .pure

theorem keeps_flushBuf : (flushBuf fault).Keeps Writes :=
  .bind .get fun _ => .bind (.modify fun _ => writes_buffer _) fun _ => keeps_writeFile

theorem keeps_pushBuf : (pushBuf line).Keeps Writes :=
  .modify fun _ => writes_buffer _

theorem keeps_writeAll : (writeAll faults line).Keeps Writes :=
  have hw := .ite keeps_writeFile keeps_pushBuf
  .bind .get fun _ => .ite keeps_pushBuf <| .ite (.bind keeps_flushBuf fun _ => hw) hw

theorem keeps_bufferedWriteLine : (BufferedLineWriter.writeLine faults line).Keeps Writes :=
  .bind keeps_writeAll fun _ => .modify fun _ => writes_buffer _

theorem keeps_forceFlush : (forceFlush fault).Keeps Writes :=
  .bind .get fun _ =>
    .ite (.bind keeps_flushBuf fun _ => .modify fun _ => writes_buffer _) .pure

theorem keeps_flushIfNeeded {elapsed : Bool} : (flushIfNeeded fault elapsed).Keeps Writes :=
  .bind .get fun _ => .ite keeps_forceFlush .pure

end Writes

section Flushes

-- The buffer has been written.
def State.drained (s : State) : State :=
  { s.write s.writer.currentWriter.buf with writer.currentWriter.buf := [] }

def State.flushed (s : State) : State :=
  if 0 < s.writer.currentWriter.pendingBytes then
    { s.drained with writer.currentWriter.pendingBytes := 0 }
  else
    s

def FlushFails (fault : Option Nat) (s : State) : Prop :=
  0 < s.writer.currentWriter.pendingBytes ∧
    ∃ n ∈ fault, n < s.writer.currentWriter.buf.length

theorem writeFile_ok (h : ¬∃ n ∈ fault, n < bytes.length) :
    written fault bytes = bytes ∧ (writeFile fault bytes).run s = .ok () (s.write bytes) := by
  cases fault
  case none => exact ⟨rfl, rfl⟩
  case some n =>
    have hn : ¬n < bytes.length := fun hn => h ⟨n, rfl, hn⟩
    have hw : written (some n) bytes = bytes := List.take_of_length_le (Nat.not_lt.mp hn)
    exact ⟨hw, by simp [writeFile, hn, hw]⟩

theorem writeFile_error (h : ∃ n ∈ fault, n < bytes.length) :
    (writeFile fault bytes).run s = .error .failed (s.write (written fault bytes)) := by
  obtain ⟨n, rfl, hn⟩ := h
  simp [writeFile, hn, EStateM.run_bind]

theorem flushBuf_ok (h : ¬∃ n ∈ fault, n < s.writer.currentWriter.buf.length) :
    (flushBuf fault).run s = .ok () s.drained := by
  obtain ⟨hw, hr⟩ := @writeFile_ok
    { s with writer.currentWriter.buf := [] } fault s.writer.currentWriter.buf h
  simp [flushBuf, hw, hr, State.drained, State.write]

theorem flushBuf_error (h : ∃ n ∈ fault, n < s.writer.currentWriter.buf.length) :
    ∃ t, (flushBuf fault).run s = .error .failed t :=
  ⟨_, writeFile_error h⟩

theorem forceFlush_ok (h : ¬FlushFails fault s) : (forceFlush fault).run s = .ok () s.flushed := by
  by_cases hp : 0 < s.writer.currentWriter.pendingBytes
  case pos =>
    have hf := flushBuf_ok fun hf => h ⟨hp, hf⟩
    simp [forceFlush, hp, hf, State.flushed]
  case neg =>
    simp [forceFlush, hp, State.flushed]

theorem forceFlush_error (h : FlushFails fault s) :
    ∃ t, (forceFlush fault).run s = .error .failed t := by
  obtain ⟨t, ht⟩ := @flushBuf_error s fault h.2
  exact ⟨t, by simp [forceFlush, h.1, ht]⟩

theorem writes_flushed : Writes s s.flushed := by
  have h : ¬FlushFails none s := fun h => by simp [FlushFails] at h
  exact EStateM.after_of_ok (forceFlush_ok h) ▸ keeps_forceFlush s

end Flushes

end TlsProbe.Spool
