import TlsProbe.Spool.Theorems.Chunks

open Std

namespace TlsProbe.Spool

variable {s t : State} {env : Env} {fault : Option Nat} {maxTotal : Nat}

-- The open file is the current part.
structure Usable (s : State) : Prop where
  paths  : ∃ ts, (s.writer.currentPartPath, s.writer.currentCompletePath) = chunkPaths ts
  opened : s.disk.openName = some s.writer.currentPartPath
  there  : s.writer.currentPartPath ∈ s.disk.files

theorem Usable.part_ne (h : Usable s) :
    s.writer.currentPartPath ≠ s.writer.currentCompletePath := by
  obtain ⟨ts, hp⟩ := h.paths
  obtain ⟨hp, hc⟩ := Prod.mk.inj hp
  rw [hp, hc]
  exact part_ne_complete

theorem Writes.usable (w : Writes s t) (h : Usable s) : Usable t where
  paths  := by rw [w.writer]; exact h.paths
  opened := by rw [w.opened, w.writer]; exact h.opened
  there  := by rw [w.writer]; exact w.there _ h.there

section Rename

-- The part has got its name as a complete chunk.
def State.completed (s : State) : State where
  writer := { s.writer with currentBytes := 0 }
  disk   := {
    files    := (s.disk.files.erase s.writer.currentPartPath).insert s.writer.currentCompletePath
      (s.disk.read s.writer.currentPartPath)
    openName := some s.writer.currentCompletePath
    log      := s.disk.log ++
      [.put s.writer.currentCompletePath (s.disk.read s.writer.currentPartPath)]
  }

theorem renamePart_ok (h : Usable s) : (renamePart false).run s =
    .ok () { s with disk := s.completed.disk } := by
  obtain ⟨bytes, hb⟩ := Option.isSome_iff_exists.mp <|
    (ExtTreeMap.isSome_getElem?_iff_mem (a := s.writer.currentPartPath)).mpr h.there
  simp [renamePart, renameFile, Disk.rename, Disk.read, hb, h.opened, State.completed]

theorem renamePart_error : (renamePart true).run s = .error .failed s := by
  simp [renamePart, renameFile, EStateM.run_bind]

end Rename

section Cap

variable {env : Env} {maxTotal : Nat}

-- The chunks that are removed to keep to the cap.
def State.due (s : State) (env : Env) (maxTotal : Nat) : List Chunk :=
  let chunks := sortByTs (listCompleteChunks s.disk env.order)
  victims (totalSize chunks - maxTotal) chunks

def State.capped (s : State) (env : Env) : State :=
  match s.writer.maxTotalBytes with
  | some maxTotal => (s.due env maxTotal).foldl State.evicted s
  | none          => s

def CapFails (env : Env) (maxTotal : Nat) (s : State) : Prop :=
  env.faults.readDir ∨ ∃ chunk ∈ s.due env maxTotal, env.faults.remove chunk.path

theorem sortByTs_perm {chunks : List Chunk} : (sortByTs chunks).Perm chunks :=
  List.perm_insertionSort ..

theorem nodup_sorted : ((sortByTs (listCompleteChunks s.disk env.order)).map (·.path)).Nodup :=
  (sortByTs_perm.map _).nodup_iff.mpr nodup_paths

theorem mem_files_of_sorted {chunk : Chunk}
    (h : chunk ∈ sortByTs (listCompleteChunks s.disk env.order)) : chunk.path ∈ s.disk.files :=
  (mem_listCompleteChunks.mp <| sortByTs_perm.mem_iff.mp h).1

theorem due_initial :
    s.due env maxTotal <+: sortByTs (listCompleteChunks s.disk env.order) :=
  victims_prefix

theorem mem_of_due {chunk : Chunk} (h : chunk ∈ s.due env maxTotal) :
    chunk ∈ listCompleteChunks s.disk env.order :=
  sortByTs_perm.mem_iff.mp (due_initial.subset h)

theorem nodup_due : ((s.due env maxTotal).map (·.path)).Nodup :=
  (due_initial.sublist.map _).nodup nodup_sorted

theorem due_of_le (h : totalSize (sortByTs (listCompleteChunks s.disk env.order)) ≤ maxTotal) :
    s.due env maxTotal = [] := by
  simp only [State.due, Nat.sub_eq_zero_of_le h, victims_zero]

theorem enforceCap_ok (h : ¬CapFails env maxTotal s) :
    (enforceCap env maxTotal).run s = .ok () ((s.due env maxTotal).foldl State.evicted s) := by
  obtain ⟨hr, hv⟩ := not_or.mp h
  simp only [enforceCap, hr, Bool.false_eq_true, if_false, EStateM.run_bind, EStateM.run_get]
  split
  case isTrue  =>
    refine evict_ok (fun _ => mem_files_of_sorted) nodup_sorted fun chunk hc => ?_
    simpa using fun hr => hv ⟨chunk, hc, hr⟩
  case isFalse hl =>
    rw [due_of_le (Nat.not_lt.mp hl)]
    rfl

theorem enforceCap_error (h : CapFails env maxTotal s) :
    ¬(enforceCap env maxTotal).succeeds s := by
  by_cases hr : env.faults.readDir = true
  case pos =>
    refine EStateM.not_succeeds_of_error (e := .failed) (t := s) ?_
    simp [enforceCap, hr, EStateM.run_bind]
  case neg =>
    have hv := h.resolve_left hr
    have hl : maxTotal < totalSize (sortByTs (listCompleteChunks s.disk env.order)) := by
      by_contra hl
      simp [due_of_le (Nat.not_lt.mp hl)] at hv
    have he := @evict_error s _ _ _ hv
    simpa [enforceCap, hr, EStateM.succeeds, EStateM.run_bind, hl] using he

-- The cap leaves the paths of the writer, and does not give a name to the open file.
structure Trims (s t : State) : Prop where
  part   : t.writer.currentPartPath = s.writer.currentPartPath
  opened : t.disk.openName = s.disk.openName ∨ t.disk.openName = none

instance : Std.Refl Trims where
  refl _ := ⟨rfl, .inl rfl⟩

instance : IsTrans State Trims where
  trans _ _ _ h₁ h₂ := {
    part   := h₂.part.trans h₁.part
    opened := h₂.opened.elim (fun h => h ▸ h₁.opened) .inr
  }

theorem keeps_removeFile {fault : Bool} {name : FileName} : (removeFile fault name).Keeps Trims := by
  refine .ite (.bind .throw fun _ => ?_) ?_
  all_goals
    intro s
    cases hd : s.disk.remove name
    case error => simpa [EStateM.after, EStateM.run_bind, hd] using refl s
    case ok disk =>
      have ht : Trims s { s with disk } := by
        simp only [Disk.remove] at hd
        split at hd
        case isFalse => contradiction
        case isTrue =>
          obtain rfl := Except.ok.inj hd
          refine ⟨rfl, ?_⟩
          by_cases ho : s.disk.openName = some name <;> simp [ho]
      simpa [EStateM.after, EStateM.run_bind, hd] using ht

theorem keeps_evict {faults : Faults} {excess : Nat} {chunks : List Chunk} :
    (evict faults excess chunks).Keeps Trims := by
  induction chunks generalizing excess
  case nil => exact .pure
  case cons chunk chunks hi =>
    exact .ite .pure <| .bind keeps_removeFile fun _ =>
      .bind (.modify fun _ => ⟨rfl, .inl rfl⟩) fun _ => hi

theorem keeps_enforceCap : (enforceCap env maxTotal).Keeps Trims :=
  have ht := .bind .get fun _ => .ite keeps_evict .pure
  .ite (.bind .throw fun _ => ht) ht

end Cap

section Rotate

-- A new part has been opened.
def State.opened (s : State) (nowSecs : UInt64) : State where
  writer := { s.writer with
    currentWriter       := .new
    currentPartPath     := (chunkPaths nowSecs).1
    currentCompletePath := (chunkPaths nowSecs).2
  }
  disk   := s.disk.create (chunkPaths nowSecs).1

theorem openChunk_ok (h : env.faults.create = false) :
    (openChunk env).run s = .ok () (s.opened env.nowSecs) := by
  simp [openChunk, createFile, h, State.opened]

theorem openChunk_error (h : env.faults.create = true) :
    (openChunk env).run s = .error .failed s := by
  simp [openChunk, createFile, h, EStateM.run_bind]

theorem usable_opened {nowSecs : UInt64} : Usable (s.opened nowSecs) where
  paths  := ⟨nowSecs, rfl⟩
  opened := rfl
  there  := ExtTreeMap.mem_insert_self

-- What is left of a rotation once the chunk is complete.
def settle (env : Env) (maxTotalBytes : Option Nat) : SpoolM Unit :=
  match maxTotalBytes with
  | some maxTotal => enforceCap env maxTotal >>= fun _ => openChunk env
  | none          => openChunk env

theorem rotate_completed (h : Usable s) (hf : ¬FlushFails env.faults.flush s)
    (hr : env.faults.rename = false) :
    (rotate env).run s = (settle env s.writer.maxTotalBytes).run s.flushed.completed := by
  have hu := writes_flushed.usable h
  have hw : s.flushed.writer.maxTotalBytes = s.writer.maxTotalBytes := by
    rw [writes_flushed.writer]
  rw [rotate, EStateM.run_bind_of_ok (forceFlush_ok hf), hr,
    EStateM.run_bind_of_ok (renamePart_ok hu), ←hw]
  cases hm : s.flushed.writer.maxTotalBytes <;>
    simp [settle, hm, EStateM.run_bind, State.completed]

def State.rotated (s : State) (env : Env) : State :=
  (s.flushed.completed.capped env).opened env.nowSecs

-- Neither the cap nor the new part fails.
def Settles (env : Env) (s : State) : Prop :=
  (∀ maxTotal ∈ s.writer.maxTotalBytes, ¬CapFails env maxTotal s.flushed.completed) ∧
    env.faults.create = false

theorem rotate_ok (h : Usable s) (hf : ¬FlushFails env.faults.flush s)
    (hr : env.faults.rename = false) (hs : Settles env s) :
    (rotate env).run s = .ok () (s.rotated env) := by
  have hw : s.flushed.completed.writer.maxTotalBytes = s.writer.maxTotalBytes := by
    rw [State.completed, writes_flushed.writer]
  rw [rotate_completed h hf hr, State.rotated, State.capped, hw]
  cases hm : s.writer.maxTotalBytes
  case none          => exact openChunk_ok hs.2
  case some maxTotal =>
    rw [settle, EStateM.run_bind_of_ok (enforceCap_ok (hs.1 maxTotal hm))]
    exact openChunk_ok hs.2

-- When it fails, nothing has been opened in the place of the complete chunk.
theorem settle_error (hs : ¬Settles env s) : ∃ e t,
    (settle env s.writer.maxTotalBytes).run s.flushed.completed = .error e t ∧
      Trims s.flushed.completed t := by
  cases hm : s.writer.maxTotalBytes
  case none =>
    have hc : env.faults.create = true := by simpa [Settles, hm] using hs
    exact ⟨_, _, openChunk_error hc, refl _⟩
  case some maxTotal =>
    have ht := @keeps_enforceCap env maxTotal s.flushed.completed
    rw [settle]
    cases hx : (enforceCap env maxTotal).run s.flushed.completed
    case error e t =>
      exact ⟨e, t, EStateM.run_bind_of_error hx, EStateM.after_of_error hx ▸ ht⟩
    case ok _ t =>
      have hf : ¬CapFails env maxTotal s.flushed.completed := fun hf =>
        enforceCap_error hf (EStateM.succeeds_of_ok hx)
      have hc : env.faults.create = true := by simpa [Settles, hm, hf] using hs
      refine ⟨.failed, t, ?_, EStateM.after_of_ok hx ▸ ht⟩
      rw [EStateM.run_bind_of_ok hx, openChunk_error hc]

-- A rotation that succeeds is one in which nothing fails.
theorem rotate_of_succeeds (h : Usable s) (hs : (rotate env).succeeds s) :
    (rotate env).run s = .ok () (s.rotated env) := by
  have hf : ¬FlushFails env.faults.flush s := by
    intro hf
    obtain ⟨t, ht⟩ := forceFlush_error hf
    exact EStateM.not_succeeds_of_error (EStateM.run_bind_of_error ht) hs
  have hr : env.faults.rename = false := by
    cases hr : env.faults.rename
    case false => rfl
    case true  =>
      rw [rotate, EStateM.succeeds_bind_of_ok (forceFlush_ok hf), hr] at hs
      exact absurd hs <| EStateM.not_succeeds_of_error <| EStateM.run_bind_of_error renamePart_error
  refine rotate_ok h hf hr ?_
  by_contra hn
  obtain ⟨e, t, he, -⟩ := settle_error hn
  exact EStateM.not_succeeds_of_error ((rotate_completed h hf hr).trans he) hs

theorem not_usable_of_trims (h : Usable s) (ht : Trims s.flushed.completed t) : ¬Usable t := by
  intro hu
  have hw : s.flushed.writer = { s.writer with currentWriter := s.flushed.writer.currentWriter } :=
    writes_flushed.writer
  have hp : t.writer.currentPartPath = s.writer.currentPartPath := by
    rw [ht.part, State.completed, hw]
  have ho : t.disk.openName = some s.writer.currentPartPath := hp ▸ hu.opened
  obtain hc | hc := ht.opened
  case inr => simp [ho] at hc
  case inl =>
    rw [ho, State.completed, hw] at hc
    exact h.part_ne (Option.some.inj hc)

theorem not_usable_of_not_settles (h : Usable s) (hf : ¬FlushFails env.faults.flush s)
    (hr : env.faults.rename = false) (hs : ¬Settles env s) : ¬Usable ((rotate env).after s) := by
  obtain ⟨e, t, he, ht⟩ := settle_error hs
  rw [EStateM.after_of_error ((rotate_completed h hf hr).trans he)]
  exact not_usable_of_trims h ht

-- The writer goes on as if nothing had happened: it writes to the current part, and the next
-- rotation succeeds unless something fails again.
structure Recovers (s : State) : Prop where
  usable : Usable s
  rotate : ∀ env, env.faults = .none → (rotate env).succeeds s

theorem Usable.recovers (h : Usable s) : Recovers s where
  usable := h
  rotate := fun env he => by
    refine EStateM.succeeds_of_ok <| rotate_ok h ?_ (by rw [he]; rfl) ⟨fun maxTotal _ hc => ?_, ?_⟩
    · simp [FlushFails, he, Faults.none]
    · simp [CapFails, he, Faults.none] at hc
    · rw [he]; rfl

theorem usable_rotate_of (h : Usable s) (hr : FlushFails env.faults.flush s ∨ env.faults.rename ∨
    Settles env s) : Usable ((rotate env).after s) := by
  by_cases hf : FlushFails env.faults.flush s
  case pos =>
    obtain ⟨t, ht⟩ := forceFlush_error hf
    have hw := @keeps_forceFlush env.faults.flush s
    rw [EStateM.after_of_error ht] at hw
    rw [rotate, EStateM.after_bind_of_error ht]
    exact hw.usable h
  case neg =>
    cases hn : env.faults.rename
    case true =>
      rw [rotate, EStateM.after_bind_of_ok (forceFlush_ok hf), hn,
        EStateM.after_bind_of_error renamePart_error]
      exact writes_flushed.usable h
    case false =>
      have hs : Settles env s := by simpa [hf, hn] using hr
      rw [EStateM.after_of_ok (rotate_ok h hf hn hs)]
      exact usable_opened

theorem usable_rotate (h : Usable s) : Usable ((rotate env).after s) ↔
    FlushFails env.faults.flush s ∨ env.faults.rename ∨ Settles env s := by
  constructor
  case mp =>
    intro hu
    by_contra hn
    obtain ⟨hf, hn⟩ := not_or.mp hn
    obtain ⟨hn, hs⟩ := not_or.mp hn
    exact not_usable_of_not_settles h hf (eq_false_of_ne_true hn) hs hu
  case mpr => exact usable_rotate_of h

end Rotate

end TlsProbe.Spool
