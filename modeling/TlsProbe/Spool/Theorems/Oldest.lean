import TlsProbe.Spool.Theorems.Cap

open Std

namespace TlsProbe.Spool

variable {s t : State} {env : Env} {maxTotal excess k : Nat} {chunk : Chunk} {chunks : List Chunk}
variable {ts : UInt64} {name : FileName}

section Victims

@[simp]
theorem totalSize_cons : totalSize (chunk :: chunks) = chunk.size + totalSize chunks := by
  simp [totalSize]

theorem totalSize_take_drop :
    totalSize (chunks.take k) + totalSize (chunks.drop k) = totalSize chunks := by
  rw [totalSize, totalSize, ←List.sum_append, ←List.map_append, List.take_append_drop, totalSize]

-- Without its last chunk, a list of victims does not free enough.
theorem totalSize_take_victims (h : k < (victims excess chunks).length) :
    totalSize (chunks.take k) < excess := by
  induction chunks generalizing excess k
  case nil => simp [victims] at h
  case cons chunk chunks hi =>
    rw [victims] at h
    split at h
    case isTrue  => simp at h
    case isFalse hz =>
      cases k
      case zero   => exact Nat.pos_of_ne_zero hz
      case succ k =>
        have := hi (Nat.lt_of_succ_lt_succ h)
        rw [List.take_succ_cons, totalSize_cons]
        omega

end Victims

section Evicted

theorem foldl_evicted_writer : (chunks.foldl State.evicted s).writer =
    { s.writer with chunksEvicted := s.writer.chunksEvicted + chunks.length } := by
  induction chunks generalizing s
  case nil => rfl
  case cons chunk chunks hi =>
    rw [List.foldl_cons, hi, List.length_cons, Nat.add_comm chunks.length, ←Nat.add_assoc]
    rfl

theorem foldl_evicted_files : (chunks.foldl State.evicted s).disk.files[name]? =
    if name ∈ chunks.map (·.path) then none else s.disk.files[name]? := by
  induction chunks generalizing s
  case nil => simp
  case cons chunk chunks hi =>
    rw [List.foldl_cons, hi]
    simp only [State.evicted, ExtTreeMap.getElem?_erase, Std.compare_eq_iff_eq, List.map_cons,
      List.mem_cons]
    grind

end Evicted

-- What the name of a complete chunk looks like. More than one name may have the same timestamp.
def IsChunkName (name : FileName) (ts : UInt64) : Prop :=
  ∃ stem, name = chunkPrefix ++ stem ++ chunkSuffix ∧ parseU64 stem = some ts

theorem parse_eq_some_iff : parseCompleteChunkTimestamp name = some ts ↔ IsChunkName name ts := by
  constructor
  case mp => exact parse_eq_some
  case mpr =>
    rintro ⟨stem, rfl, hs⟩
    exact parse_append.trans hs

-- The complete chunks of a directory by their age.
structure Complete (disk : Disk) (chunks : List Chunk) : Prop where
  mem    : ∀ chunk, chunk ∈ chunks ↔
    disk.files[chunk.path]?.map List.length = some chunk.size ∧ IsChunkName chunk.path chunk.ts
  nodup  : (chunks.map (·.path)).Nodup
  sorted : chunks.Pairwise (·.ts ≤ ·.ts)

-- From `s` to `t`, the first `n` of the chunks have gone, and nothing else.
structure Removes (chunks : List Chunk) (n : Nat) (s t : State) : Prop where
  files  : ∀ name, t.disk.files[name]? =
    if name ∈ (chunks.take n).map (·.path) then none else s.disk.files[name]?
  others : ∀ name, (∀ ts, ¬IsChunkName name ts) → t.disk.files[name]? = s.disk.files[name]?
  parts  : ∀ ts, t.disk.files[(chunkPaths ts).1]? = s.disk.files[(chunkPaths ts).1]?
  writer : t.writer = { s.writer with chunksEvicted := s.writer.chunksEvicted + n }

-- Without the first `n` chunks the cap is kept, and with any more than those it is not.
structure Shortest (chunks : List Chunk) (maxTotal n : Nat) : Prop where
  le_length : n ≤ chunks.length
  capped    : totalSize (chunks.drop n) ≤ maxTotal
  exceeded  : ∀ k < n, maxTotal < totalSize (chunks.drop k)

theorem complete_sorted {disk : Disk} {order : FileName → Nat} :
    Complete disk (sortByTs (listCompleteChunks disk order)) where
  mem    := fun chunk => by
    rw [sortByTs_perm.mem_iff, mem_listCompleteChunks_iff, parse_eq_some_iff]
  nodup  := (sortByTs_perm.map _).nodup_iff.mpr nodup_paths
  sorted := List.pairwise_insertionSort ..

theorem shortest_due : Shortest (sortByTs (listCompleteChunks s.disk env.order)) maxTotal
    (s.due env maxTotal).length where
  le_length := due_initial.length_le
  capped    := by
    set chunks := sortByTs (listCompleteChunks s.disk env.order)
    have hv : totalSize chunks - maxTotal ≤ totalSize (s.due env maxTotal) :=
      le_totalSize_victims (Nat.sub_le ..)
    have hs := @totalSize_take_drop (s.due env maxTotal).length chunks
    rw [←List.prefix_iff_eq_take.mp due_initial] at hs
    omega
  exceeded  := by
    intro k hk
    set chunks := sortByTs (listCompleteChunks s.disk env.order)
    have ht : totalSize (chunks.take k) < totalSize chunks - maxTotal := totalSize_take_victims hk
    have hs := @totalSize_take_drop k chunks
    omega

-- Files that are no complete chunks are not among the removed ones.
theorem removes_foldl {n : Nat} (hc : Complete s.disk chunks) (hn : n ≤ chunks.length) :
    Removes chunks n s ((chunks.take n).foldl State.evicted s) := by
  have ho (name : FileName) (hi : ∀ ts, ¬IsChunkName name ts) :
      ((chunks.take n).foldl State.evicted s).disk.files[name]? = s.disk.files[name]? := by
    rw [foldl_evicted_files, if_neg]
    intro hp
    obtain ⟨chunk, hm, rfl⟩ := List.mem_map.mp hp
    exact hi _ ((hc.mem chunk).mp (List.mem_of_mem_take hm)).2
  constructor
  case files  => exact fun _ => foldl_evicted_files
  case others => exact ho
  case parts  => exact fun ts => ho _ fun ts' hi => by simp [←parse_eq_some_iff, parse_part] at hi
  case writer => rw [foldl_evicted_writer, List.length_take, Nat.min_eq_left hn]

-- The shortest list of the oldest chunks goes that keeps the rest within the cap.
theorem enforceCap_oldest (hd : env.faults.readDir = false)
    (hr : ∀ name, env.faults.remove name = false) :
    ∃ t chunks n, (enforceCap env maxTotal).run s = .ok () t ∧ Complete s.disk chunks ∧
      Shortest chunks maxTotal n ∧ Removes chunks n s t := by
  have hc : ¬CapFails env maxTotal s := by simp [CapFails, hd, hr]
  have hk := enforceCap_ok hc
  rw [List.prefix_iff_eq_take.mp due_initial] at hk
  exact ⟨_, _, _, hk, complete_sorted, shortest_due, removes_foldl complete_sorted shortest_due.1⟩

-- The directory of the test `cap_enforcement_evicts_oldest_chunks`.
def seededDir : Disk where
  files    := .ofList <| [100, 200, 300].map fun ts =>
    ((chunkPaths ts).2, List.replicate 100 (0x78 : UInt8))
  openName := none
  log      := []

theorem enforceCap_oldest_seeded :
    ∃ t chunks n, (enforceCap quiet 250).run (new seededDir 1000 (some 250) 0 400) = .ok () t ∧
      Complete (new seededDir 1000 (some 250) 0 400).disk chunks ∧ Shortest chunks 250 n ∧
      Removes chunks n (new seededDir 1000 (some 250) 0 400) t :=
  enforceCap_oldest rfl fun _ => rfl

end TlsProbe.Spool
