import TlsProbe.Spool.Theorems.Runs

open Std

namespace TlsProbe.Spool

variable {s t : State} {stamps : List UInt64} {env : Env} {fault : Option Nat} {name : FileName}
variable {cap : Option Nat}

-- The names that chunks get in a session whose clock has these readings.
def ChunkOf (stamps : List UInt64) (name : FileName) : Prop :=
  ∃ ts ∈ stamps, name = (chunkPaths ts).1 ∨ name = (chunkPaths ts).2

instance : Decidable (ChunkOf stamps name) :=
  inferInstanceAs <| Decidable <| ∃ ts ∈ stamps, _

theorem chunkOf_paths {ts : UInt64} (h : ts ∈ stamps) :
    ChunkOf stamps (chunkPaths ts).1 ∧ ChunkOf stamps (chunkPaths ts).2 :=
  ⟨⟨ts, h, .inl rfl⟩, ⟨ts, h, .inr rfl⟩⟩

-- The writer only has to do with its own chunks, and keeps to this cap.
structure Owned (stamps : List UInt64) (cap : Option Nat) (s : State) : Prop where
  part     : ChunkOf stamps s.writer.currentPartPath
  complete : ChunkOf stamps s.writer.currentCompletePath
  opened   : ∀ name ∈ s.disk.openName, ChunkOf stamps name
  cap      : s.writer.maxTotalBytes = cap

-- What has become of a file that is not a chunk of the session: it is as it was, or it is a complete
-- chunk of an earlier session that had to go.
def Left (cap : Option Nat) (disk disk' : Disk) (name : FileName) : Prop :=
  disk'.files[name]? = disk.files[name]? ∨ disk'.files[name]? = none ∧
    cap.isSome ∧ (parseCompleteChunkTimestamp name).isSome

theorem Left.trans {disk₁ disk₂ disk₃ : Disk}
    (h : Left cap disk₁ disk₂ name) (h' : Left cap disk₂ disk₃ name) :
    Left cap disk₁ disk₃ name := by
  obtain h' | h' := h'
  case inr => exact .inr h'
  case inl =>
    obtain h | h := h
    case inl => exact .inl (h'.trans h)
    case inr => exact .inr ⟨h'.trans h.1, h.2⟩

structure Frames (stamps : List UInt64) (cap : Option Nat) (s t : State) : Prop where
  owned : Owned stamps cap t
  files : ∀ name, ¬ChunkOf stamps name → Left cap s.disk t.disk name

-- Steps of a writer that only has to do with its own chunks leave it so.
def FramesOf (stamps : List UInt64) (cap : Option Nat) (s t : State) : Prop :=
  Owned stamps cap s → Frames stamps cap s t

theorem Owned.frames (h : Owned stamps cap s) : Frames stamps cap s s :=
  ⟨h, fun _ _ => .inl rfl⟩

instance : Std.Refl (FramesOf stamps cap) where
  refl _ h := h.frames

instance : IsTrans State (FramesOf stamps cap) where
  trans _ _ _ h₁ h₂ h :=
    have h₁ := h₁ h
    have h₂ := h₂ h₁.owned
    ⟨h₂.owned, fun name hn => (h₁.files name hn).trans (h₂.files name hn)⟩

section Steps

theorem Writes.frames (h : Writes s t) : FramesOf stamps cap s t := by
  intro ho
  refine ⟨⟨?_, ?_, ?_, ?_⟩, fun name hn => .inl (h.others name fun he => hn (ho.opened name he))⟩
  · rw [h.writer]; exact ho.part
  · rw [h.writer]; exact ho.complete
  · rw [h.opened]; exact ho.opened
  · rw [h.writer]; exact ho.cap

theorem keeps_of_writes {α : Type} {x : SpoolM α} (h : x.Keeps Writes) :
    x.Keeps (FramesOf stamps cap) :=
  fun s => (h s).frames

theorem frames_rename {src dst : FileName} {disk : Disk} (hs : ChunkOf stamps src)
    (hd : ChunkOf stamps dst) (h : s.disk.rename src dst = .ok disk) :
    FramesOf stamps cap s { s with disk } := by
  intro ho
  simp only [Disk.rename] at h
  split at h
  case h_1 => contradiction
  case h_2 bytes hb =>
    obtain rfl := Except.ok.inj h
    refine ⟨⟨ho.part, ho.complete, fun name hn => ?_, ho.cap⟩, fun name hn => .inl ?_⟩
    case refine_1 =>
      by_cases h₁ : s.disk.openName = some src
      case pos => simp_all
      case neg =>
        by_cases h₂ : s.disk.openName = some dst <;> simp_all [ho.opened name]
    case refine_2 =>
      have h₁ : dst ≠ name := fun he => hn (he ▸ hd)
      have h₂ : src ≠ name := fun he => hn (he ▸ hs)
      simp [ExtTreeMap.getElem?_insert, ExtTreeMap.getElem?_erase, h₁, h₂]

theorem keeps_renamePart {fault : Bool} : (renamePart fault).Keeps (FramesOf stamps cap) := by
  intro s ho
  cases fault
  case true =>
    rw [EStateM.after_of_error renamePart_error]
    exact ho.frames
  case false =>
    cases hd : s.disk.rename s.writer.currentPartPath s.writer.currentCompletePath
    case error e =>
      have hr : (renamePart false).run s = .error e s := by
        simp [renamePart, renameFile, EStateM.run_bind, hd]
      rw [EStateM.after_of_error hr]
      exact ho.frames
    case ok disk =>
      have hr : (renamePart false).run s = .ok () { s with disk } := by
        simp [renamePart, renameFile, EStateM.run_bind, hd]
      rw [EStateM.after_of_ok hr]
      exact frames_rename ho.part ho.complete hd ho

-- Only complete chunks are removed, and only to keep to a cap.
theorem frames_remove {path : FileName} {disk : Disk} (hm : cap.isSome)
    (hp : (parseCompleteChunkTimestamp path).isSome) (h : s.disk.remove path = .ok disk) :
    FramesOf stamps cap s { s with disk } := by
  intro ho
  simp only [Disk.remove] at h
  split at h
  case isFalse => contradiction
  case isTrue =>
    obtain rfl := Except.ok.inj h
    refine ⟨⟨ho.part, ho.complete, fun name hn => ?_, ho.cap⟩, fun name hn => ?_⟩
    case refine_1 => exact ho.opened name (Option.ite_none_left_eq_some.mp hn).2
    case refine_2 =>
      by_cases he : path = name
      case pos => exact .inr ⟨by simp [he], hm, he ▸ hp⟩
      case neg => exact .inl (by simp [ExtTreeMap.getElem?_erase, he])

theorem keeps_remove {fault : Bool} {path : FileName} (hm : cap.isSome)
    (hp : (parseCompleteChunkTimestamp path).isSome) :
    (removeFile fault path).Keeps (FramesOf stamps cap) := by
  refine .ite (.bind .throw fun _ => ?_) ?_
  all_goals
    intro s
    cases hd : s.disk.remove path
    case error => simpa [EStateM.after, EStateM.run_bind, hd] using refl s
    case ok disk =>
      have hf := @frames_remove s stamps cap path disk hm hp hd
      simpa [EStateM.after, EStateM.run_bind, hd] using hf

theorem keeps_evictChunks {faults : Faults} {excess : Nat} {chunks : List Chunk} (hm : cap.isSome)
    (hp : ∀ chunk ∈ chunks, (parseCompleteChunkTimestamp chunk.path).isSome) :
    (evict faults excess chunks).Keeps (FramesOf stamps cap) := by
  induction chunks generalizing excess
  case nil => exact .pure
  case cons chunk chunks hi =>
    obtain ⟨hc, hp⟩ := List.forall_mem_cons.mp hp
    refine .ite .pure <| .bind (keeps_remove hm hc) fun _ => .bind (.modify fun s => ?_) fun _ => hi hp
    exact fun ho => ⟨⟨ho.part, ho.complete, ho.opened, ho.cap⟩, fun _ _ => .inl rfl⟩

theorem keeps_cap {maxTotal : Nat} (hm : cap.isSome) :
    (enforceCap env maxTotal).Keeps (FramesOf stamps cap) := by
  have he (s : State) : (evict env.faults (totalSize (sortByTs (listCompleteChunks s.disk env.order)) -
      maxTotal) (sortByTs (listCompleteChunks s.disk env.order))).Keeps (FramesOf stamps cap) := by
    refine keeps_evictChunks hm fun chunk hc => ?_
    have hc := (mem_listCompleteChunks.mp (sortByTs_perm.mem_iff.mp hc)).2
    rw [(chunk?_eq_some hc).2.2]
    rfl
  refine .ite (.bind .throw fun _ => ?_) ?_
  all_goals exact .bind .get fun s => .ite (he s) .pure

theorem keeps_openChunk (h : env.nowSecs ∈ stamps) : (openChunk env).Keeps (FramesOf stamps cap) := by
  obtain ⟨hp, hc⟩ := chunkOf_paths h
  intro s ho
  cases hf : env.faults.create
  case true =>
    rw [EStateM.after_of_error (openChunk_error hf)]
    exact ho.frames
  case false =>
    rw [EStateM.after_of_ok (openChunk_ok hf)]
    refine ⟨⟨hp, hc, ?_, ho.cap⟩, fun name hn => .inl ?_⟩
    case refine_1 =>
      rintro name hn
      obtain rfl := Option.some.inj hn
      exact hp
    case refine_2 =>
      have hne : (chunkPaths env.nowSecs).1 ≠ name := fun he => hn (he ▸ hp)
      simp [State.opened, Disk.create, ExtTreeMap.getElem?_insert, hne]

end Steps

section Calls

theorem keeps_rotate (h : env.nowSecs ∈ stamps) : (rotate env).Keeps (FramesOf stamps cap) := by
  refine .bind (keeps_of_writes keeps_forceFlush) fun _ => .bind keeps_renamePart fun _ =>
    .bind (.modify fun s ho => ?_) fun _ => ?_
  case refine_1 => exact ⟨⟨ho.part, ho.complete, ho.opened, ho.cap⟩, fun _ _ => .inl rfl⟩
  case refine_2 =>
    -- What the rotation does about the cap depends on whether the writer has one.
    intro s ho
    have hg : (get : SpoolM State).run s = .ok s s := rfl
    rw [EStateM.after_bind_of_ok hg]
    cases hm : s.writer.maxTotalBytes
    case none          => exact keeps_openChunk h s ho
    case some maxTotal =>
      have hc : cap.isSome := by rw [←ho.cap, hm]; rfl
      exact EStateM.Keeps.bind (keeps_cap hc) (fun _ => keeps_openChunk h) s ho

-- The reading of the clock that a call may need.
def Call.stamp? : Call → Option UInt64
  | .writeLine env _  => some env.nowSecs
  | .flushIfNeeded .. => none

theorem keeps_call {call : Call} (h : ∀ ts ∈ call.stamp?, ts ∈ stamps) :
    call.run.Keeps (FramesOf stamps cap) := by
  cases call
  case flushIfNeeded => exact keeps_of_writes keeps_flushIfNeeded
  case writeLine env line =>
    refine .bind (keeps_of_writes keeps_bufferedWriteLine) fun _ => .bind (.modify fun s ho => ?_)
      fun _ => .bind .get fun _ => .ite (keeps_rotate (h _ rfl)) .pure
    exact ⟨⟨ho.part, ho.complete, ho.opened, ho.cap⟩, fun _ _ => .inl rfl⟩

theorem keeps_finalize {faults : Faults} : (finalize faults).Keeps (FramesOf stamps cap) :=
  .bind (keeps_of_writes keeps_forceFlush) fun _ => .bind .get fun _ => .ite keeps_renamePart .pure

end Calls

-- The program is started in the directory, makes some calls and is then finalized, unless it is
-- killed. What fails in the last call stands for being killed in the middle of it.
structure Session where
  maxChunkBytes : Nat
  maxTotalBytes : Option Nat
  nowSecs       : UInt64
  calls         : List Call
  finalized     : Option Faults

namespace Session

def start (disk : Disk) (session : Session) : State :=
  new disk session.maxChunkBytes session.maxTotalBytes 0 session.nowSecs

def run (disk : Disk) (session : Session) : Disk :=
  let s := Spool.machine.state (session.start disk) session.calls
  match session.finalized with
  | some faults => ((finalize faults).after s).disk
  | none        => s.disk

def readings (session : Session) : List UInt64 :=
  session.nowSecs :: session.calls.filterMap (·.stamp?)

-- The runs of the program in one directory, one after the other.
def machine : Machine Disk Session Unit where
  step disk session := (session.run disk, [])

variable {disk : Disk} {session : Session} {sessions : List Session}

theorem frames_start : Owned session.readings session.maxTotalBytes (session.start disk) ∧
    ∀ name, ¬ChunkOf session.readings name →
      Left session.maxTotalBytes disk (session.start disk).disk name := by
  obtain ⟨hp, hc⟩ := @chunkOf_paths session.readings session.nowSecs (List.mem_cons_self ..)
  refine ⟨⟨hp, hc, ?_, rfl⟩, fun name hn => .inl ?_⟩
  case refine_1 =>
    rintro name hn
    obtain rfl := Option.some.inj hn
    exact hp
  case refine_2 =>
    have hne : (chunkPaths session.nowSecs).1 ≠ name := fun he => hn (he ▸ hp)
    simp [start, new, Disk.create, ExtTreeMap.getElem?_insert, hne]

theorem left_run (hn : ¬ChunkOf session.readings name) :
    Left session.maxTotalBytes disk (session.run disk) name := by
  obtain ⟨ho, hs⟩ := @frames_start disk session
  have hr : FramesOf session.readings session.maxTotalBytes (session.start disk)
      (Spool.machine.state (session.start disk) session.calls) := by
    refine Machine.inv_state (C := fun _ call => call ∈ session.calls) (fun s call hf hc => ?_)
      (refl _) (Machine.allSteps_of_inputs fun _ hc => hc)
    refine IsTrans.trans _ _ _ hf (keeps_call (fun ts ht => ?_) s)
    exact List.mem_cons_of_mem _ (List.mem_filterMap.mpr ⟨call, hc, ht⟩)
  have hf := (hr ho).owned
  have hl := (hs name hn).trans ((hr ho).files name hn)
  simp only [run]
  cases session.finalized
  case none        => exact hl
  case some faults => exact hl.trans ((keeps_finalize _ hf).files name hn)

-- Whatever fails and whenever the program is killed, it leaves the files alone that do not have the
-- name of a chunk of its own. All that may happen to them is that a complete chunk is removed to
-- keep to a cap.
theorem others_left (disk : Disk) (sessions : List Session) (name : FileName)
    (hn : ∀ session ∈ sessions, ¬ChunkOf session.readings name) :
    let disk' := machine.state disk sessions
    disk'.files[name]? = disk.files[name]? ∨ disk'.files[name]? = none ∧
      (∃ session ∈ sessions, session.maxTotalBytes.isSome) ∧
      (parseCompleteChunkTimestamp name).isSome := by
  induction sessions generalizing disk
  case nil => exact .inl rfl
  case cons session sessions hi =>
    obtain ⟨hn, hns⟩ := List.forall_mem_cons.mp hn
    obtain h' | ⟨h', ⟨session', hm, hc⟩, hp⟩ := hi (session.run disk) hns
    case inr => exact .inr ⟨h', ⟨session', List.mem_cons_of_mem _ hm, hc⟩, hp⟩
    case inl =>
      obtain h | ⟨h, hc, hp⟩ := @left_run name disk session hn
      case inl => exact .inl (h'.trans h)
      case inr => exact .inr ⟨h'.trans h, ⟨session, List.mem_cons_self .., hc⟩, hp⟩

-- A chunk that an earlier session has left, and two sessions with a cap of no bytes at all. The first
-- one is killed.
def usedDir : Disk where
  files    := (∅ : ExtTreeMap FileName Bytes).insert "capture-5.jsonl".toList [0x7b, 0x7d, 0x0a]
  openName := none
  log      := []

def plainEnv (nowSecs : UInt64) : Env where
  nowSecs := nowSecs
  order   := fun _ => 0
  faults  := .none

def plainSession (nowSecs : UInt64) (finalized : Option Faults) : Session where
  maxChunkBytes := 1
  maxTotalBytes := some 0
  nowSecs       := nowSecs
  calls         := [.writeLine (plainEnv (nowSecs + 1)) [0x0a]]
  finalized     := finalized

theorem others_left_used :
    let sessions := [plainSession 10 none, plainSession 20 (some .none)]
    let disk'    := machine.state usedDir sessions
    let name     := "capture-5.jsonl".toList
    disk'.files[name]? = usedDir.files[name]? ∨ disk'.files[name]? = none ∧
      (∃ session ∈ sessions, session.maxTotalBytes.isSome) ∧
      (parseCompleteChunkTimestamp name).isSome :=
  others_left usedDir _ _ (by decide +kernel)

end Session

end TlsProbe.Spool
