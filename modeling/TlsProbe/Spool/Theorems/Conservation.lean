import TlsProbe.Spool.Theorems.Cap

open Std

namespace TlsProbe.Spool

variable {s t : State} {env : Env} {name : FileName} {chunk : Chunk} {chunks : List Chunk}
variable {order : FileName → Nat} {call : Call} {calls : List Call} {line lines : Bytes}
variable {evicted : Nat} {ts ts' nowSecs : UInt64}

section Logged

-- The complete chunks are those that the log tells of, and they have been named by a clock that
-- stands at `ts`. Each eviction has been counted.
structure Logged (evicted : Nat) (ts : UInt64) (s : State) : Prop where
  files   : ∀ name, (parseCompleteChunkTimestamp name).isSome →
    s.disk.files[name]? = History.value name s.disk.log
  stamps  : ∃ stamps : List UInt64,
    (History.puts s.disk.log).map (·.1) = stamps.map (fun ts => (chunkPaths ts).2) ∧
      stamps.Pairwise (· ≤ ·) ∧ ∀ ts' ∈ stamps, ts' ≤ ts
  evicted : s.writer.chunksEvicted = evicted + (History.deleted s.disk.log).length

theorem logged_new {maxChunkBytes : Nat} {maxTotalBytes : Option Nat} :
    Logged evicted ts (new emptyDir maxChunkBytes maxTotalBytes evicted ts) where
  files   := fun name hp => by
    simp [new, emptyDir, Disk.create, part_ne_parsed hp]
  stamps  := ⟨[], rfl, .nil, by simp⟩
  evicted := rfl

theorem Logged.fills (h : Logged evicted ts s) (hu : Usable s) (f : Fills line s t) :
    Logged evicted ts t where
  files   := fun name hp => by
    rw [f.others name (hu.part_ne_of_parse hp), f.log]
    exact h.files name hp
  stamps  := f.log ▸ h.stamps
  evicted := by
    rw [f.log, f.writer]
    exact h.evicted

-- The names that the clock gives grow with it.
theorem Logged.completed (h : Logged evicted ts s) (hu : Usable s)
    (hp : s.writer.currentCompletePath = (chunkPaths ts).2) : Logged evicted ts s.completed where
  files   := fun name hn => by
    have hne : s.writer.currentPartPath ≠ name := (hu.part_ne_of_parse hn).symm
    simp only [State.completed, History.value_concat, ExtTreeMap.getElem?_insert,
      ExtTreeMap.getElem?_erase, Std.compare_eq_iff_eq, hne, if_false, h.files name hn]
    rfl
  stamps  := by
    obtain ⟨stamps, hs, hle, hts⟩ := h.stamps
    refine ⟨stamps ++ [ts], ?_, ?_, ?_⟩
    · simp [State.completed, History.puts_concat_put, hs, hp]
    · exact List.pairwise_append.mpr ⟨hle, List.pairwise_singleton .., by simpa using hts⟩
    · simpa [or_imp, forall_and] using hts
  evicted := by
    rw [State.completed, History.deleted_concat_put]
    exact h.evicted

theorem Logged.evict (h : Logged evicted ts s) (hc : chunk ∈ listCompleteChunks s.disk order) :
    Logged evicted ts (s.evicted chunk) where
  files   := fun name hp => by
    simp only [State.evicted, History.value_concat, ExtTreeMap.getElem?_erase,
      Std.compare_eq_iff_eq, h.files name hp]
    rfl
  stamps  := by
    rw [State.evicted, History.puts_concat_del]
    exact h.stamps
  evicted := by
    obtain ⟨hs, hp⟩ := mem_listCompleteChunks_iff.mp hc
    rw [h.files chunk.path (Option.isSome_of_eq_some hp)] at hs
    have hv : (History.value chunk.path s.disk.log).isSome := by
      cases hv : History.value chunk.path s.disk.log <;> simp [hv] at hs ⊢
    simp only [State.evicted, History.deleted_concat_del, hv, if_true, h.evicted]
    rfl

theorem Logged.evictAll (h : Logged evicted ts s) (hn : (chunks.map (·.path)).Nodup)
    (hm : ∀ chunk ∈ chunks, chunk ∈ listCompleteChunks s.disk order) :
    Logged evicted ts (chunks.foldl State.evicted s) := by
  induction chunks generalizing s
  case nil => exact h
  case cons chunk chunks hi =>
    obtain ⟨hp, hn⟩ := List.nodup_cons.mp hn
    obtain ⟨hm, hms⟩ := List.forall_mem_cons.mp hm
    refine hi (h.evict hm) hn fun chunk' hc => mem_evicted.mpr ⟨hms chunk' hc, fun he => ?_⟩
    exact hp <| List.mem_map.mpr ⟨chunk', hc, he⟩

theorem Logged.capped (h : Logged evicted ts s) : Logged evicted ts (s.capped env) := by
  rw [State.capped]
  split
  case h_2 => exact h
  case h_1 => exact h.evictAll nodup_due fun _ => mem_of_due

theorem Logged.opened (h : Logged evicted ts s) (ht : ts ≤ nowSecs) :
    Logged evicted nowSecs (s.opened nowSecs) where
  files   := fun name hp => by
    simp only [State.opened, Disk.create, ExtTreeMap.getElem?_insert, Std.compare_eq_iff_eq,
      part_ne_parsed hp, if_false, h.files name hp]
  stamps  := by
    obtain ⟨stamps, hs, hle, hts⟩ := h.stamps
    exact ⟨stamps, hs, hle, fun ts' hm => UInt64.le_trans (hts ts' hm) ht⟩
  evicted := h.evicted

end Logged

section Running

-- No complete chunk has been replaced but for empty ones.
def NoneLost (s : State) : Prop :=
  ∀ e ∈ History.replaced s.disk.log, e.2 = []

theorem noneLost_congr (h : t.disk.log = s.disk.log) : NoneLost t ↔ NoneLost s := by
  rw [NoneLost, NoneLost, h]

theorem noneLost_completed (h : Logged evicted ts s)
    (hp : (parseCompleteChunkTimestamp s.writer.currentCompletePath).isSome) :
    NoneLost s.completed ↔ NoneLost s ∧ s.disk.read s.writer.currentCompletePath = [] := by
  refine Iff.trans (History.replaced_concat_put (q := (· = []))) (and_congr_right fun _ => ?_)
  rw [Disk.read, h.files _ hp]
  cases History.value s.writer.currentCompletePath s.disk.log <;> simp

-- Evictions only add deletions to the log.
theorem log_capped {α : Type} {f : List (Change FileName Bytes) → α}
    (hf : ∀ log name, f (log ++ [.del name]) = f log) :
    f (s.capped env).disk.log = f s.disk.log := by
  have hc (chunks : List Chunk) (s : State) :
      f (chunks.foldl State.evicted s).disk.log = f s.disk.log := by
    induction chunks generalizing s
    case nil                  => rfl
    case cons chunk chunks hi => exact (hi _).trans (hf ..)
  rw [State.capped]
  split
  case h_1 => exact hc ..
  case h_2 => rfl

-- What the calls have written is in the complete chunks and in the current one, in order.
structure Running (evicted : Nat) (lines : Bytes) (ts : UInt64) (s : State) : Prop
  extends Intact s where
  logged : Logged evicted ts s
  path   : s.writer.currentCompletePath = (chunkPaths ts).2
  lines  : (History.puts s.disk.log).flatMap (·.2) ++ s.current = lines

theorem running_new {maxChunkBytes : Nat} {maxTotalBytes : Option Nat} :
    Running evicted [] ts (new emptyDir maxChunkBytes maxTotalBytes evicted ts) where
  toIntact := ⟨usable_new, Nat.le_refl 0⟩
  logged   := logged_new
  path     := rfl
  lines    := by
    simp [new, emptyDir, Disk.create, State.current, Disk.read, BufferedLineWriter.new,
      History.puts]

theorem Running.fills (h : Running evicted lines ts s) (f : Fills line s t) :
    Running evicted (lines ++ line) ts t where
  toIntact := f.intact
  logged   := h.logged.fills h.toUsable f
  path     := by
    rw [f.writer]
    exact h.path
  lines    := by rw [f.log, f.current, ←List.append_assoc, h.lines]

theorem Running.flushed (h : Running evicted lines ts s) : Running evicted lines ts s.flushed := by
  have hf := h.fills (fills_flushed h.toIntact)
  rwa [List.append_nil] at hf

theorem Running.completed (h : Running evicted lines ts s) :
    Logged evicted ts s.flushed.completed :=
  h.flushed.logged.completed h.flushed.toUsable h.flushed.path

theorem Running.lines_completed (h : Running evicted lines ts s) :
    (History.puts s.flushed.completed.disk.log).flatMap (·.2) = lines := by
  have hl := h.flushed.lines
  rw [State.current, buf_flushed h.toIntact, List.append_nil] at hl
  simp [State.completed, History.puts_concat_put, hl]

theorem Running.isSome_path (h : Running evicted lines ts s) :
    (parseCompleteChunkTimestamp s.writer.currentCompletePath).isSome := by
  rw [h.path, parse_complete]
  rfl

theorem Running.read_fills (h : Running evicted lines ts s) (f : Fills line s t) :
    t.disk.read t.writer.currentCompletePath = s.disk.read s.writer.currentCompletePath := by
  have hne := h.toUsable.part_ne_of_parse h.isSome_path
  rw [f.writer, Disk.read, Disk.read, f.others _ hne]

theorem Running.noneLost_completed (h : Running evicted lines ts s) :
    NoneLost s.flushed.completed ↔
      NoneLost s ∧ s.disk.read s.writer.currentCompletePath = [] := by
  have hf := fills_flushed h.toIntact
  rw [Spool.noneLost_completed h.flushed.logged h.flushed.isSome_path, h.read_fills hf,
    noneLost_congr hf.log]

theorem Running.rotated (h : Running evicted lines ts s) (ht : ts ≤ env.nowSecs) :
    Running evicted lines env.nowSecs (s.rotated env) where
  toIntact := intact_rotated
  logged   := h.completed.capped.opened ht
  path     := rfl
  lines    := by
    have hl := h.lines_completed
    rw [←@log_capped s.flushed.completed env _ _ fun _ _ => History.puts_concat_del] at hl
    simp [State.rotated, State.opened, State.current, Disk.create, Disk.read,
      BufferedLineWriter.new, hl]

theorem Running.noneLost_rotated (h : Running evicted lines ts s) :
    NoneLost (s.rotated env) ↔ NoneLost s ∧ s.disk.read s.writer.currentCompletePath = [] := by
  rw [←h.noneLost_completed, NoneLost, NoneLost]
  have hl := @log_capped s.flushed.completed env _ _ fun _ _ => History.replaced_concat_del
  rw [←hl]
  rfl

end Running

section Runs

-- The time that a call finds.
def Call.now? : Call → Option UInt64
  | .writeLine env _  => some env.nowSecs
  | .flushIfNeeded .. => none

-- The current chunk does not take the place of one that holds anything.
def Call.Fresh (s : State) (call : Call) : Prop :=
  (call.rotation? s).isSome → s.disk.read s.writer.currentCompletePath = []

instance decidableFresh : Decidable (call.Fresh s) :=
  inferInstanceAs <| Decidable (_ → _)

theorem now?_of_rotation? (h : call.rotation? s = some env) : call.now? = some env.nowSecs := by
  cases call
  case flushIfNeeded => contradiction
  case writeLine env' line =>
    simp only [Call.rotation?] at h
    split at h
    case isTrue  => exact congrArg (Option.map Env.nowSecs) h
    case isFalse => contradiction

theorem running_step (h : Running evicted lines ts s) (hs : call.run.succeeds s)
    (ht : ∀ env, call.rotation? s = some env → ts ≤ env.nowSecs) :
    Running evicted (lines ++ call.line) ((call.rotation? s).elim ts (·.nowSecs))
      (machine.step s call).1 := by
  obtain ⟨t, hf, he⟩ := step_of_succeeds h.toIntact hs
  rw [he]
  cases hr : call.rotation? s
  case none     => exact h.fills hf
  case some env => exact (h.fills hf).rotated (ht env hr)

theorem noneLost_step (h : Running evicted lines ts s) (hs : call.run.succeeds s) :
    NoneLost (machine.step s call).1 ↔ NoneLost s ∧ call.Fresh s := by
  obtain ⟨t, hf, he⟩ := step_of_succeeds h.toIntact hs
  have hn : NoneLost t ↔ NoneLost s := noneLost_congr hf.log
  rw [he, Call.Fresh]
  cases call.rotation? s
  case none     => simpa using hn
  case some env => simpa [hn, h.read_fills hf] using (h.fills hf).noneLost_rotated

theorem running_run (h : Running evicted lines ts s)
    (ht : (ts :: calls.filterMap Call.now?).Pairwise (· ≤ ·))
    (hs : machine.AllSteps (fun s call => call.run.succeeds s) s calls) :
    (∃ ts', Running evicted (lines ++ calls.flatMap Call.line) ts' (machine.state s calls)) ∧
      (NoneLost (machine.state s calls) ↔
        NoneLost s ∧ machine.AllSteps (fun s call => call.Fresh s) s calls) := by
  induction calls generalizing s lines ts
  case nil => exact ⟨⟨ts, by simpa using h⟩, by simp [Machine.AllSteps]⟩
  case cons call calls hi =>
    obtain ⟨hs, hss⟩ := Machine.allSteps_cons.mp hs
    -- The clock has not gone back until the rotation, nor does it after it.
    have hr : (∀ env, call.rotation? s = some env → ts ≤ env.nowSecs) ∧
        ((call.rotation? s).elim ts (·.nowSecs) :: calls.filterMap Call.now?).Pairwise (· ≤ ·) := by
      cases hr : call.rotation? s
      case none =>
        refine ⟨by simp, ht.sublist (.cons_cons _ ?_)⟩
        exact (List.sublist_cons_self call calls).filterMap _
      case some env =>
        rw [List.filterMap_cons_some (now?_of_rotation? hr)] at ht
        obtain ⟨hle, ht⟩ := List.pairwise_cons.mp ht
        refine ⟨?_, ht⟩
        rintro _ ⟨rfl⟩
        exact hle _ (List.mem_cons_self ..)
    obtain ⟨⟨ts', hn⟩, hl⟩ := hi (running_step h hs hr.1) hr.2 hss
    rw [List.append_assoc] at hn
    refine ⟨⟨ts', hn⟩, hl.trans ?_⟩
    rw [noneLost_step h hs, Machine.allSteps_cons, and_assoc]

end Runs

section Order

-- The complete chunks, one behind the other in the order of their times.
def Disk.contents (disk : Disk) (order : FileName → Nat) : Bytes :=
  (sortByTs (listCompleteChunks disk order)).flatMap (disk.read ·.path)

theorem Logged.stamps_current (h : Logged evicted ts s) : ∃ stamps : List UInt64,
    (History.current s.disk.log).map (·.1) = stamps.map (fun ts => (chunkPaths ts).2) ∧
      stamps.Pairwise (· ≤ ·) := by
  obtain ⟨stamps, hs, hle, -⟩ := h.stamps
  have hc := (History.entries_sublist (p := (·.isNone)) (h := s.disk.log)).map (·.1)
  rw [hs] at hc
  obtain ⟨stamps', hsub, hs'⟩ := List.sublist_map_iff.mp hc
  exact ⟨stamps', hs', hle.sublist hsub⟩

theorem Logged.files_of_current (h : Logged evicted ts s) {bytes : Bytes}
    (hm : (name, bytes) ∈ History.current s.disk.log) :
    s.disk.files[name]? = some bytes ∧ ∃ ts, name = (chunkPaths ts).2 := by
  obtain ⟨stamps, hs, -⟩ := h.stamps_current
  have hn : name ∈ (History.current s.disk.log).map (·.1) := List.mem_map_of_mem hm
  rw [hs] at hn
  obtain ⟨ts', -, rfl⟩ := List.mem_map.mp hn
  refine ⟨?_, ts', rfl⟩
  rw [h.files _ (by rw [parse_complete]; rfl)]
  exact History.mem_current.mp hm

theorem Logged.current_of_mem (h : Logged evicted ts s)
    (hc : chunk ∈ listCompleteChunks s.disk order) :
    ∃ bytes, (chunk.path, bytes) ∈ History.current s.disk.log := by
  obtain ⟨hs, hp⟩ := mem_listCompleteChunks_iff.mp hc
  rw [h.files chunk.path (Option.isSome_of_eq_some hp)] at hs
  obtain ⟨bytes, hv, -⟩ := Option.map_eq_some_iff.mp hs
  exact ⟨bytes, History.mem_current.mpr hv⟩

theorem Logged.path_of_mem (h : Logged evicted ts s)
    (hc : chunk ∈ listCompleteChunks s.disk order) : chunk.path = (chunkPaths chunk.ts).2 := by
  obtain ⟨bytes, hm⟩ := h.current_of_mem hc
  obtain ⟨-, ts', hp⟩ := h.files_of_current hm
  have ht := (mem_listCompleteChunks_iff.mp hc).2
  rw [hp, parse_complete] at ht
  rw [hp, Option.some.inj ht]

theorem Logged.paths_perm (h : Logged evicted ts s) :
    ((sortByTs (listCompleteChunks s.disk order)).map (·.path)).Perm
      ((History.current s.disk.log).map (·.1)) := by
  have hn : ((sortByTs (listCompleteChunks s.disk order)).map (·.path)).Nodup :=
    (sortByTs_perm.map _).nodup_iff.mpr nodup_paths
  refine (List.perm_ext_iff_of_nodup hn History.nodup_current).mpr fun name => ?_
  rw [(sortByTs_perm.map _).mem_iff, List.mem_map, List.mem_map]
  constructor
  case mp =>
    rintro ⟨chunk, hc, rfl⟩
    obtain ⟨bytes, hm⟩ := h.current_of_mem hc
    exact ⟨_, hm, rfl⟩
  case mpr =>
    rintro ⟨⟨name, bytes⟩, hm, rfl⟩
    obtain ⟨hf, ts', rfl⟩ := h.files_of_current hm
    refine ⟨⟨ts', bytes.length, _⟩, mem_listCompleteChunks_iff.mpr ⟨?_, parse_complete⟩, rfl⟩
    simp only [hf, Option.map_some]

-- Sorted by their times, the chunks are in the order in which they were completed.
theorem Logged.paths_sorted (h : Logged evicted ts s) :
    (sortByTs (listCompleteChunks s.disk order)).map (·.path) =
      (History.current s.disk.log).map (·.1) := by
  obtain ⟨stamps, hs, hle⟩ := h.stamps_current
  set chunks := sortByTs (listCompleteChunks s.disk order)
  have hp : chunks.map (·.path) = (chunks.map (·.ts)).map (fun ts => (chunkPaths ts).2) := by
    rw [List.map_map]
    exact List.map_congr_left fun chunk hc => h.path_of_mem (sortByTs_perm.mem_iff.mp hc)
  have hperm : (chunks.map (·.ts)).Perm stamps := by
    have hperm := @Logged.paths_perm s order _ _ h
    rwa [hs, hp, List.map_perm_map_iff complete_injective] at hperm
  have hsorted : (chunks.map (·.ts)).Pairwise (· ≤ ·) :=
    List.pairwise_map.mpr (List.pairwise_insertionSort ..)
  rw [hp, hs, hperm.eq_of_pairwise (fun _ _ _ _ => UInt64.le_antisymm) hsorted hle]

theorem Logged.contents (h : Logged evicted ts s) :
    s.disk.contents order = (History.current s.disk.log).flatMap (·.2) := by
  calc s.disk.contents order
    _ = ((sortByTs (listCompleteChunks s.disk order)).map (·.path)).flatMap s.disk.read :=
      List.flatMap_map .. |>.symm
    _ = (History.current s.disk.log).flatMap (s.disk.read ·.1) := by
      rw [h.paths_sorted, List.flatMap_map]
    _ = (History.current s.disk.log).flatMap (·.2) := by
      refine List.flatMap_congr fun e he => ?_
      simp [Disk.read, (h.files_of_current he).1]

end Order

section Conserved

-- The chunks that were completed hold all lines, and those that are there are all of these but the
-- evicted ones, whose number is how far the counter has grown.
structure Conserved (order : FileName → Nat) (evicted : Nat) (lines : Bytes) (s : State) : Prop where
  lines   : (History.puts s.disk.log).flatMap (·.2) = lines
  chunks  : s.disk.contents order = (History.kept s.disk.log).flatMap (·.2)
  evicted : s.writer.chunksEvicted = evicted + (History.deleted s.disk.log).length

theorem Running.logged_finalized (h : Running evicted lines ts s) : Logged evicted ts s.finalized :=
  ⟨h.completed.files, h.completed.stamps, h.completed.evicted⟩

theorem Running.conserved_finalized (h : Running evicted lines ts s) :
    Conserved order evicted lines s.finalized ↔
      NoneLost s ∧ s.disk.read s.writer.currentCompletePath = [] := by
  have hc : s.finalized.disk.contents order = (History.kept s.finalized.disk.log).flatMap (·.2) ↔
      NoneLost s.flushed.completed := by
    rw [h.logged_finalized.contents]
    exact History.current_eq_kept
  rw [←h.noneLost_completed, ←hc]
  exact ⟨Conserved.chunks, fun hk => ⟨h.lines_completed, hk, h.logged_finalized.evicted⟩⟩

-- Chunks that are opened in the same second get the same name, and the later one takes the place of
-- the earlier one.
theorem conserved_iff {maxChunkBytes : Nat} {maxTotalBytes : Option Nat} {faults : Faults}
    (ht : (nowSecs :: calls.filterMap Call.now?).Pairwise (· ≤ ·))
    (hs : machine.AllSteps (fun s call => call.run.succeeds s)
      (new emptyDir maxChunkBytes maxTotalBytes evicted nowSecs) calls)
    (hf : (finalize faults).succeeds
      (machine.state (new emptyDir maxChunkBytes maxTotalBytes evicted nowSecs) calls)) :
    let start := new emptyDir maxChunkBytes maxTotalBytes evicted nowSecs
    let s     := machine.state start calls
    Conserved order evicted (calls.flatMap Call.line) ((finalize faults).after s) ↔
      machine.AllSteps (fun s call => call.Fresh s) start calls ∧
        s.disk.read s.writer.currentCompletePath = [] := by
  intro start s
  obtain ⟨⟨ts', hr⟩, hl⟩ := running_run running_new ht hs
  have hn : NoneLost start := fun e he => by simp [start, new, emptyDir, Disk.create,
    History.replaced] at he
  rw [List.nil_append] at hr
  rw [finalize_of_succeeds hr.toIntact hf, hr.conserved_finalized, hl, and_iff_right hn]

-- Each line fills a chunk, and the first one is evicted.
def twoChunks : List Call :=
  [.writeLine { quiet with nowSecs := 101 } [0x61], .writeLine { quiet with nowSecs := 102 } [0x62]]

theorem twoChunks_conserved : Conserved (fun _ => 0) 0 (twoChunks.flatMap Call.line)
    ((finalize .none).after (machine.state (new emptyDir 1 (some 1) 0 100) twoChunks)) := by
  have ht : (100 :: twoChunks.filterMap Call.now?).Pairwise (· ≤ ·) := by decide
  refine (conserved_iff ht ?_ ?_).mpr ?_
  all_goals decide +kernel

-- The first chunk is opened and completed within a second, and so is the empty one behind it.
theorem shortLine_not_conserved :
    (100 :: shortLine.filterMap Call.now?).Pairwise (· ≤ ·) ∧
    machine.AllSteps (fun s call => call.run.succeeds s) (new emptyDir 1 none 0 100) shortLine ∧
    (finalize .none).succeeds (machine.state (new emptyDir 1 none 0 100) shortLine) ∧
    ¬Conserved (fun _ => 0) 0 (shortLine.flatMap Call.line)
      ((finalize .none).after (machine.state (new emptyDir 1 none 0 100) shortLine)) := by
  refine ⟨by decide, by decide +kernel, by decide +kernel, fun h => ?_⟩
  exact absurd h.chunks (by decide +kernel)

end Conserved

end TlsProbe.Spool
