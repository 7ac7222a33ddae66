import TlsProbe.Spool.Theorems.Contents

open Std

namespace TlsProbe.Spool

variable {s t : State} {disk disk' : Disk} {env : Env} {name : FileName} {chunk : Chunk}
variable {chunks : List Chunk} {order : FileName → Nat} {maxTotal : Nat}

section CompleteBytes

-- The size of all complete chunks.
def Disk.completeBytes (disk : Disk) : Nat :=
  totalSize (listCompleteChunks disk fun _ => 0)

def Disk.without (disk : Disk) (name : FileName) : Disk :=
  { disk with files := disk.files.erase name }

theorem totalSize_perm {chunks' : List Chunk} (h : chunks.Perm chunks') :
    totalSize chunks = totalSize chunks' :=
  (h.map _).sum_eq

theorem nodup_listCompleteChunks : (listCompleteChunks disk order).Nodup :=
  nodup_paths.of_map

theorem totalSize_sorted :
    totalSize (sortByTs (listCompleteChunks disk order)) = disk.completeBytes :=
  totalSize_perm <| sortByTs_perm.trans listCompleteChunks_perm

theorem mem_listCompleteChunks_iff : chunk ∈ listCompleteChunks disk order ↔
    disk.files[chunk.path]?.map List.length = some chunk.size ∧
      parseCompleteChunkTimestamp chunk.path = some chunk.ts := by
  rw [mem_listCompleteChunks, ExtTreeMap.mem_iff_isSome_getElem?, Disk.chunk?, Disk.read]
  obtain ⟨ts, size, path⟩ := chunk
  cases disk.files[path]? <;> simp [and_comm]

-- Only files whose names are those of complete chunks count.
theorem completeBytes_congr (h : ∀ name, (parseCompleteChunkTimestamp name).isSome →
    disk'.files[name]? = disk.files[name]?) : disk'.completeBytes = disk.completeBytes := by
  refine totalSize_perm <| (List.perm_ext_iff_of_nodup nodup_listCompleteChunks
    nodup_listCompleteChunks).mpr fun chunk => ?_
  simp only [mem_listCompleteChunks_iff]
  refine and_congr_left fun hp => ?_
  rw [h chunk.path (Option.isSome_of_eq_some hp)]

theorem mem_without {chunk' : Chunk} :
    chunk' ∈ listCompleteChunks (disk.without chunk.path) order ↔
      chunk' ∈ listCompleteChunks disk order ∧ chunk'.path ≠ chunk.path := by
  simp only [mem_listCompleteChunks_iff, Disk.without, ExtTreeMap.getElem?_erase,
    Std.compare_eq_iff_eq]
  by_cases hp : chunk.path = chunk'.path <;> simp [hp, eq_comm]

theorem eq_of_path {chunk' : Chunk} (h : chunk ∈ listCompleteChunks disk order)
    (h' : chunk' ∈ listCompleteChunks disk order) (hp : chunk'.path = chunk.path) :
    chunk' = chunk := by
  rw [mem_listCompleteChunks_iff] at h h'
  rw [hp] at h'
  obtain ⟨ts, size, path⟩ := chunk
  obtain ⟨ts', size', path'⟩ := chunk'
  simp_all

theorem completeBytes_without (h : chunk ∈ listCompleteChunks disk order) :
    disk.completeBytes = chunk.size + (disk.without chunk.path).completeBytes := by
  have hn : chunk ∉ listCompleteChunks (disk.without chunk.path) fun _ => 0 :=
    fun hm => (mem_without.mp hm).2 rfl
  have h : chunk ∈ listCompleteChunks disk fun _ => 0 := listCompleteChunks_perm.mem_iff.mp h
  have hp : (listCompleteChunks disk fun _ => 0).Perm
      (chunk :: listCompleteChunks (disk.without chunk.path) fun _ => 0) := by
    refine (List.perm_ext_iff_of_nodup nodup_listCompleteChunks
      (List.nodup_cons.mpr ⟨hn, nodup_listCompleteChunks⟩)).mpr fun chunk' => ?_
    rw [List.mem_cons, mem_without]
    constructor
    case mp =>
      intro hm
      by_cases he : chunk'.path = chunk.path
      case pos => exact .inl <| eq_of_path h hm he
      case neg => exact .inr ⟨hm, he⟩
    case mpr =>
      rintro (rfl | hm)
      case inl => exact h
      case inr => exact hm.1
  simpa [totalSize, Disk.completeBytes] using totalSize_perm hp

end CompleteBytes

section Eviction

theorem completeBytes_evicted (h : chunk ∈ listCompleteChunks s.disk order) :
    s.disk.completeBytes = chunk.size + (s.evicted chunk).disk.completeBytes :=
  completeBytes_without h

theorem mem_evicted {chunk' : Chunk} : chunk' ∈ listCompleteChunks (s.evicted chunk).disk order ↔
    chunk' ∈ listCompleteChunks s.disk order ∧ chunk'.path ≠ chunk.path :=
  mem_without

-- What a list of victims frees.
theorem completeBytes_foldl (hn : (chunks.map (·.path)).Nodup)
    (hm : ∀ chunk ∈ chunks, chunk ∈ listCompleteChunks s.disk order) :
    s.disk.completeBytes =
      totalSize chunks + (chunks.foldl State.evicted s).disk.completeBytes := by
  induction chunks generalizing s
  case nil => simp [totalSize]
  case cons chunk chunks hi =>
    obtain ⟨hp, hn⟩ := List.nodup_cons.mp hn
    obtain ⟨hm, hms⟩ := List.forall_mem_cons.mp hm
    have hne : ∀ chunk' ∈ chunks, chunk' ∈ listCompleteChunks (s.evicted chunk).disk order :=
      fun chunk' hc => mem_evicted.mpr ⟨hms chunk' hc, fun he =>
        hp <| List.mem_map.mpr ⟨chunk', hc, he⟩⟩
    have ht : totalSize (chunk :: chunks) = chunk.size + totalSize chunks := by simp [totalSize]
    rw [completeBytes_evicted hm, hi hn hne, ht, List.foldl_cons, Nat.add_assoc]

-- The cap is kept after the loop, whatever the sizes of the chunks are.
theorem completeBytes_capped (hm : s.writer.maxTotalBytes = some maxTotal) :
    (s.capped env).disk.completeBytes ≤ maxTotal := by
  have hv : s.disk.completeBytes - maxTotal ≤ totalSize (s.due env maxTotal) := by
    rw [←@totalSize_sorted s.disk env.order]
    exact le_totalSize_victims (Nat.sub_le ..)
  have hb := completeBytes_foldl (@nodup_due s env maxTotal) fun _ => mem_of_due
  simp only [State.capped, hm]
  omega

end Eviction

section Runs

theorem Usable.part_ne_of_parse (h : Usable s) (hp : (parseCompleteChunkTimestamp name).isSome) :
    name ≠ s.writer.currentPartPath := by
  obtain ⟨ts, hpaths⟩ := h.paths
  have hpart : s.writer.currentPartPath = (chunkPaths ts).1 := congrArg Prod.fst hpaths
  exact hpart ▸ (part_ne_parsed hp).symm

theorem completeBytes_fills {line : Bytes} (h : Usable s) (f : Fills line s t) :
    t.disk.completeBytes = s.disk.completeBytes :=
  completeBytes_congr fun name hp => f.others name (h.part_ne_of_parse hp)

theorem completeBytes_create {ts : UInt64} :
    (disk.create (chunkPaths ts).1).completeBytes = disk.completeBytes := by
  refine completeBytes_congr fun name hp => ?_
  simp [Disk.create, ExtTreeMap.getElem?_insert, part_ne_parsed hp]

theorem foldl_evicted_maxTotalBytes :
    (chunks.foldl State.evicted s).writer.maxTotalBytes = s.writer.maxTotalBytes := by
  induction chunks generalizing s
  case nil => rfl
  case cons chunk chunks hi => exact hi

theorem completed_maxTotalBytes :
    s.flushed.completed.writer.maxTotalBytes = s.writer.maxTotalBytes := by
  rw [State.completed, writes_flushed.writer]

theorem rotated_maxTotalBytes :
    (s.rotated env).writer.maxTotalBytes = s.writer.maxTotalBytes := by
  simp only [State.rotated, State.opened, State.capped]
  split
  · rw [foldl_evicted_maxTotalBytes, completed_maxTotalBytes]
  · rw [completed_maxTotalBytes]

theorem intact_rotated : Intact (s.rotated env) :=
  ⟨usable_opened, Nat.le_refl 0⟩

theorem completeBytes_rotated (hm : s.writer.maxTotalBytes = some maxTotal) :
    (s.rotated env).disk.completeBytes ≤ maxTotal := by
  simp only [State.rotated, State.opened, completeBytes_create]
  exact completeBytes_capped (completed_maxTotalBytes.trans hm)

-- What is kept by calls that succeed.
structure Within (maxTotal : Nat) (s : State) : Prop extends Intact s where
  maxTotalBytes : s.writer.maxTotalBytes = some maxTotal
  completeBytes : s.disk.completeBytes ≤ maxTotal

theorem within_step {call : Call} (h : Within maxTotal s) (hs : call.run.succeeds s) :
    Within maxTotal (machine.step s call).1 := by
  obtain ⟨t, hf, ht⟩ := step_of_succeeds h.toIntact hs
  have hm : t.writer.maxTotalBytes = some maxTotal :=
    (congrArg (·.maxTotalBytes) hf.writer).trans h.maxTotalBytes
  rw [ht]
  cases call.rotation? s
  case none     => exact ⟨hf.intact, hm, completeBytes_fills h.toUsable hf ▸ h.completeBytes⟩
  case some env => exact ⟨intact_rotated, rotated_maxTotalBytes.trans hm, completeBytes_rotated hm⟩

end Runs

section Finalize

-- What `finalize` leaves.
def State.finalized (s : State) : State :=
  { s.flushed with disk := s.flushed.completed.disk }

theorem finalize_of_succeeds {faults : Faults} (h : Intact s) (hs : (finalize faults).succeeds s) :
    (finalize faults).after s = s.finalized := by
  have hu : Usable s.flushed := (fills_flushed h).intact.toUsable
  obtain ⟨_, hr⟩ := EStateM.run_of_succeeds hs
  obtain ⟨_, t, hf, hr⟩ := EStateM.run_bind_eq_ok.mp hr
  obtain rfl := forceFlush_of_ok hf
  obtain ⟨_, _, hg, hr⟩ := EStateM.run_bind_eq_ok.mp hr
  obtain ⟨rfl, rfl⟩ := EStateM.Result.ok.inj hg
  rw [if_pos hu.there] at hr
  cases hn : faults.rename
  case true  => simp [hn, renamePart_error] at hr
  case false =>
    rw [hn, renamePart_ok hu] at hr
    exact (EStateM.Result.ok.inj hr).2.symm

-- The current chunk joins the complete ones, in the place of the one that has its name.
theorem completeBytes_finalized (h : Intact s) : s.finalized.disk.completeBytes =
    s.current.length + (s.disk.without s.writer.currentCompletePath).completeBytes := by
  have hf := fills_flushed h
  have hu := hf.intact.toUsable
  have hc : s.flushed.writer.currentCompletePath = s.writer.currentCompletePath := by rw [hf.writer]
  have hp : s.flushed.writer.currentPartPath = s.writer.currentPartPath := by rw [hf.writer]
  obtain ⟨ts, hpaths⟩ := hu.paths
  have hts : s.writer.currentCompletePath = (chunkPaths ts).2 :=
    hc.symm.trans (congrArg Prod.snd hpaths)
  have hm : ⟨ts, s.current.length, s.writer.currentCompletePath⟩ ∈
      listCompleteChunks s.finalized.disk fun _ => 0 := by
    rw [mem_listCompleteChunks_iff]
    refine ⟨?_, by rw [hts, parse_complete]⟩
    simp [State.finalized, State.completed, hc, read_flushed h]
  rw [completeBytes_without hm]
  refine congrArg (_ + ·) <| completeBytes_congr fun name hn => ?_
  have hne : s.writer.currentPartPath ≠ name := (h.toUsable.part_ne_of_parse hn).symm
  simp only [Disk.without, State.finalized, State.completed, hc, hp, ExtTreeMap.getElem?_erase,
    ExtTreeMap.getElem?_insert, Std.compare_eq_iff_eq, hne, if_false]
  split
  case isTrue  => rfl
  case isFalse => exact hf.others name hne.symm

-- After each call, the complete chunks are within the cap.
def CapHolds (maxTotal : Nat) (start : State) (calls : List Call) (faults : Faults) : Prop :=
  machine.AllStates (·.disk.completeBytes ≤ maxTotal) start calls ∧
    ((finalize faults).after (machine.state start calls)).disk.completeBytes ≤ maxTotal

-- The cap is kept by the rotations alone: chunks that are there before or that `finalize` completes
-- are not held to it.
theorem cap_iff {disk : Disk} {maxChunkBytes maxTotal chunksEvicted : Nat} {nowSecs : UInt64}
    {calls : List Call} {faults : Faults}
    (hs : machine.AllSteps (fun s call => call.run.succeeds s)
      (new disk maxChunkBytes (some maxTotal) chunksEvicted nowSecs) calls)
    (hf : (finalize faults).succeeds
      (machine.state (new disk maxChunkBytes (some maxTotal) chunksEvicted nowSecs) calls)) :
    let start := new disk maxChunkBytes (some maxTotal) chunksEvicted nowSecs
    let s     := machine.state start calls
    CapHolds maxTotal start calls faults ↔ disk.completeBytes ≤ maxTotal ∧
      s.current.length + (s.disk.without s.writer.currentCompletePath).completeBytes ≤
        maxTotal := by
  intro start s
  have hn : start.disk.completeBytes = disk.completeBytes := completeBytes_create
  by_cases hd : disk.completeBytes ≤ maxTotal
  case pos =>
    have hi : Within maxTotal start := ⟨⟨usable_new, Nat.le_refl 0⟩, rfl, hn ▸ hd⟩
    have ha := Machine.inv_states (fun _ _ => within_step) hi hs
    have hw : Within maxTotal s := Machine.inv_state (fun _ _ => within_step) hi hs
    have he := finalize_of_succeeds hw.toIntact hf
    rw [CapHolds, he, completeBytes_finalized hw.toIntact]
    simp only [hd, true_and, and_iff_right_iff_imp]
    exact fun _ calls hc => (ha calls hc).completeBytes
  case neg =>
    refine iff_of_false (fun h => hd ?_) (fun h => hd h.1)
    exact hn ▸ h.1 [] List.nil_prefix

-- One line of three bytes, and no rotation.
def quiet : Env where
  nowSecs := 100
  order   := fun _ => 0
  faults  := .none

def shortLine : List Call :=
  [.writeLine quiet [0x7b, 0x7d, 0x0a]]

theorem shortLine_capHolds : CapHolds 3 (new emptyDir 10 (some 3) 0 100) shortLine .none :=
  (cap_iff (by decide +kernel) (by decide +kernel)).mpr (by decide +kernel)

theorem shortLine_not_capHolds :
    machine.AllSteps (fun s call => call.run.succeeds s) (new emptyDir 10 (some 2) 0 100) shortLine ∧
    (finalize .none).succeeds (machine.state (new emptyDir 10 (some 2) 0 100) shortLine) ∧
    ¬CapHolds 2 (new emptyDir 10 (some 2) 0 100) shortLine .none := by
  refine ⟨by decide +kernel, by decide +kernel, fun h => ?_⟩
  exact absurd h.2 (by decide +kernel)

end Finalize

end TlsProbe.Spool
