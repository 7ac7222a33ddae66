import TlsProbe.Spool.Theorems.Runs

open Std

namespace TlsProbe.Spool

variable {s t : State} {env : Env} {faults : Faults} {fault : Option Nat} {bytes line : Bytes}
variable {call : Call}

section Ok

theorem writeFile_of_ok (h : (writeFile fault bytes).run s = .ok () t) : t = s.write bytes := by
  by_cases hf : ∃ n ∈ fault, n < bytes.length
  case pos => simp [writeFile_error hf] at h
  case neg =>
    rw [(writeFile_ok hf).2] at h
    exact (EStateM.Result.ok.inj h).2.symm

theorem flushBuf_of_ok (h : (flushBuf fault).run s = .ok () t) : t = s.drained := by
  by_cases hf : ∃ n ∈ fault, n < s.writer.currentWriter.buf.length
  case pos =>
    obtain ⟨u, hu⟩ := flushBuf_error hf
    simp [hu] at h
  case neg =>
    rw [flushBuf_ok hf] at h
    exact (EStateM.Result.ok.inj h).2.symm

theorem forceFlush_of_ok (h : (forceFlush fault).run s = .ok () t) : t = s.flushed := by
  by_cases hf : FlushFails fault s
  case pos =>
    obtain ⟨u, hu⟩ := forceFlush_error hf
    simp [hu] at h
  case neg =>
    rw [forceFlush_ok hf] at h
    exact (EStateM.Result.ok.inj h).2.symm

end Ok

section Takes

-- The bytes of the current chunk, with those that are not written yet.
def State.current (s : State) : Bytes :=
  s.disk.read s.writer.currentPartPath ++ s.writer.currentWriter.buf

-- The current chunk has grown by a line.
structure Takes (line : Bytes) (s t : State) : Prop where
  current : t.current = s.current ++ line
  buffer  : t.writer.currentWriter.buf.length ≤ s.writer.currentWriter.buf.length + line.length
  pending : t.writer.currentWriter.pendingBytes = s.writer.currentWriter.pendingBytes

theorem read_write (h : Usable s) : (s.write bytes).disk.read s.writer.currentPartPath =
    s.disk.read s.writer.currentPartPath ++ bytes := by
  simp [write_of_open h.opened, Disk.read]

theorem takes_write (h : Usable s) (hb : s.writer.currentWriter.buf = []) :
    Takes line s (s.write line) where
  current := by
    have hr := @read_write s line h
    simp only [State.current, State.write, hb, List.append_nil] at hr ⊢
    exact hr
  buffer  := Nat.le_add_right ..
  pending := rfl

theorem takes_pushBuf (h : (pushBuf line).run s = .ok () t) : Takes line s t := by
  obtain ⟨-, rfl⟩ := EStateM.Result.ok.inj h
  exact ⟨by simp [State.current], by simp, rfl⟩

theorem current_drained (h : Usable s) : s.drained.current = s.current := by
  have hr := @read_write s s.writer.currentWriter.buf h
  simp only [State.current, State.drained, List.append_nil]
  exact hr

theorem usable_drained (h : Usable s) : Usable s.drained :=
  writes_buffer _ |>.usable (writes_write.usable h)

-- The buffer is empty when a long line is written past it.
theorem takes_long (h : Usable s) (hb : s.writer.currentWriter.buf = [])
    (hr : (if bufCapacity ≤ line.length then writeFile fault line else pushBuf line).run s =
      .ok () t) : Takes line s t := by
  split_ifs at hr
  case pos =>
    rw [writeFile_of_ok hr]
    exact takes_write h hb
  case neg => exact takes_pushBuf hr

theorem takes_writeAll (h : Usable s) (hr : (writeAll faults line).run s = .ok () t) :
    Takes line s t := by
  obtain ⟨_, _, hg, hr⟩ := EStateM.run_bind_eq_ok.mp hr
  obtain ⟨rfl, rfl⟩ := EStateM.Result.ok.inj hg
  dsimp only at hr
  by_cases hl : line.length < bufCapacity - s.writer.currentWriter.buf.length
  case pos =>
    rw [if_pos hl] at hr
    exact takes_pushBuf hr
  case neg =>
    rw [if_neg hl] at hr
    by_cases hs : bufCapacity - s.writer.currentWriter.buf.length < line.length
    case pos =>
      rw [if_pos hs] at hr
      obtain ⟨_, u, hf, hr⟩ := EStateM.run_bind_eq_ok.mp hr
      obtain rfl := flushBuf_of_ok hf
      have ht := takes_long (usable_drained h) rfl hr
      refine ⟨ht.current.trans ?_, ht.buffer.trans ?_, ht.pending⟩
      · rw [current_drained h]
      · simp [State.drained]
    case neg =>
      rw [if_neg hs] at hr
      by_cases hc : bufCapacity ≤ line.length
      case pos =>
        -- There is room for a line of the capacity of the buffer, which is empty then.
        have hb : s.writer.currentWriter.buf = [] := List.eq_nil_of_length_eq_zero <| by
          have : 0 < bufCapacity := by decide
          omega
        exact takes_long h hb hr
      case neg =>
        rw [if_neg hc] at hr
        exact takes_pushBuf hr

end Takes

section Fills

-- Besides, the buffer holds no more bytes than are counted as pending.
structure Intact (s : State) : Prop extends Usable s where
  buffered : s.writer.currentWriter.buf.length ≤ s.writer.currentWriter.pendingBytes

theorem Intact.buf_eq_nil (h : Intact s) (hp : ¬0 < s.writer.currentWriter.pendingBytes) :
    s.writer.currentWriter.buf = [] := by
  have := h.buffered
  exact List.eq_nil_of_length_eq_zero (by omega)

-- What a call does short of a rotation when it succeeds.
structure Fills (line : Bytes) (s t : State) : Prop where
  intact  : Intact t
  current : t.current = s.current ++ line
  writer  : t.writer = { s.writer with
    currentWriter := t.writer.currentWriter
    currentBytes  := s.writer.currentBytes + line.length }
  log     : t.disk.log = s.disk.log
  others  : ∀ name, name ≠ s.writer.currentPartPath → t.disk.files[name]? = s.disk.files[name]?

theorem Usable.others (h : Usable s) (w : Writes s t) (name : FileName)
    (hn : name ≠ s.writer.currentPartPath) : t.disk.files[name]? = s.disk.files[name]? := by
  refine w.others name fun ho => hn ?_
  rw [h.opened] at ho
  exact (Option.some.inj ho).symm

theorem fills_refl (h : Intact s) : Fills [] s s :=
  ⟨h, by simp, rfl, rfl, fun _ _ => rfl⟩

theorem fills_flushed (h : Intact s) : Fills [] s s.flushed where
  intact  := by
    refine ⟨writes_flushed.usable h.toUsable, ?_⟩
    rw [State.flushed]
    split
    case isTrue  => exact Nat.le_refl 0
    case isFalse => exact h.buffered
  current := by
    rw [State.flushed, List.append_nil]
    split
    case isTrue  => exact current_drained h.toUsable
    case isFalse => rfl
  writer  := writes_flushed.writer
  log     := writes_flushed.log
  others  := h.toUsable.others writes_flushed

theorem buf_flushed (h : Intact s) : s.flushed.writer.currentWriter.buf = [] := by
  rw [State.flushed]
  split
  case isTrue     => rfl
  case isFalse hp => exact h.buf_eq_nil hp

theorem read_flushed (h : Intact s) :
    s.flushed.disk.read s.flushed.writer.currentPartPath = s.current := by
  have hc := (fills_flushed h).current
  rwa [State.current, buf_flushed h, List.append_nil, List.append_nil] at hc

theorem fills_flushIfNeeded {elapsed : Bool} (h : Intact s)
    (hr : (flushIfNeeded fault elapsed).run s = .ok () t) : Fills [] s t := by
  obtain ⟨_, _, hg, hr⟩ := EStateM.run_bind_eq_ok.mp hr
  obtain ⟨rfl, rfl⟩ := EStateM.Result.ok.inj hg
  dsimp only at hr
  split at hr
  case isTrue =>
    rw [forceFlush_of_ok hr]
    exact fills_flushed h
  case isFalse =>
    obtain ⟨-, rfl⟩ := EStateM.Result.ok.inj hr
    exact fills_refl h

theorem fills_writeLine (h : Intact s)
    (hr : (BufferedLineWriter.writeLine faults line).run s = .ok () t) :
    Fills line s (t.counted line) := by
  obtain ⟨_, u, hu, hr⟩ := EStateM.run_bind_eq_ok.mp hr
  obtain ⟨-, rfl⟩ := EStateM.Result.ok.inj hr
  have ht := takes_writeAll h.toUsable hu
  have hw : Writes s u := EStateM.after_of_ok hu ▸ keeps_writeAll s
  have hu := hw.usable h.toUsable
  refine ⟨⟨⟨hu.paths, hu.opened, hu.there⟩, ?_⟩, ht.current, ?_, hw.log,
    fun name => h.toUsable.others hw name⟩
  · have := ht.buffer
    have := ht.pending
    have := h.buffered
    simp only [State.counted]
    omega
  · exact congrArg (fun w : RotatingSpoolWriter => { w with
      currentWriter := ⟨u.writer.currentWriter.buf,
        u.writer.currentWriter.pendingBytes + line.length⟩
      currentBytes  := w.currentBytes + line.length }) hw.writer

end Fills

section Steps

-- What the rotation that a call makes finds outside, if it makes one.
def Call.rotation? (s : State) : Call → Option Env
  | .writeLine env line =>
    if s.writer.maxChunkBytes ≤ s.writer.currentBytes + line.length then some env else none
  | .flushIfNeeded .. => none

theorem step_of_succeeds (h : Intact s) (hs : call.run.succeeds s) : ∃ t,
    Fills call.line s t ∧ (machine.step s call).1 = (call.rotation? s).elim t t.rotated := by
  obtain ⟨_, hr⟩ := EStateM.run_of_succeeds hs
  cases call
  case flushIfNeeded fault elapsed => exact ⟨_, fills_flushIfNeeded h hr, rfl⟩
  case writeLine env line =>
    cases hx : (BufferedLineWriter.writeLine env.faults line).run s
    case error e t =>
      have he := writeLine_of_error hx
      exact absurd hs (EStateM.not_succeeds_of_error he)
    case ok _ t =>
      have hf := fills_writeLine h hx
      have hx := writeLine_of_ok hx
      have hw : t.writer.maxChunkBytes ≤ (t.counted line).writer.currentBytes ↔
          s.writer.maxChunkBytes ≤ s.writer.currentBytes + line.length := by
        have hm : t.writer.maxChunkBytes = s.writer.maxChunkBytes :=
          congrArg (·.maxChunkBytes) hf.writer
        rw [hm, hf.writer]
      refine ⟨t.counted line, hf, ?_⟩
      change (writeLine env line).after s = _
      by_cases hm : s.writer.maxChunkBytes ≤ s.writer.currentBytes + line.length
      case pos =>
        rw [if_pos (hw.mpr hm)] at hx
        have hs : (rotate env).succeeds (t.counted line) := by
          rw [EStateM.succeeds, ←hx]
          exact EStateM.succeeds_of_ok hr
        rw [EStateM.after_congr hx, Call.rotation?, if_pos hm]
        exact EStateM.after_of_ok <| rotate_of_succeeds hf.intact.toUsable hs
      case neg =>
        rw [if_neg (mt hw.mp hm)] at hx
        rw [EStateM.after_of_ok hx, Call.rotation?, if_neg hm]
        rfl

end Steps

end TlsProbe.Spool
