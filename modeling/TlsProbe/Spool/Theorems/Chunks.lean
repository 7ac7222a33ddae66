import TlsProbe.Spool.Theorems.Calls

open Std

namespace TlsProbe.Spool

variable {ts : UInt64} {name stem : FileName}

section Names

theorem chunkSuffix_eq : chunkSuffix = ['.', 'j', 's', 'o', 'n', 'l'] :=
  rfl

theorem chunkPartSuffix_eq : chunkPartSuffix =
    ['.', 'j', 's', 'o', 'n', 'l', '.', 'p', 'a', 'r', 't'] :=
  rfl

theorem isDigit_of_mem_decimal {c : Char} (h : c ∈ decimal ts) : c.isDigit ∧ c ≠ '+' := by
  obtain ⟨d, hd, rfl⟩ := Digits.mem_toDigits (by decide) h
  exact (by decide : ∀ d < 10, (Nat.digitChar d).isDigit ∧ Nat.digitChar d ≠ '+') d hd

theorem parseU64_decimal : parseU64 (decimal ts) = some ts := by
  have hne : decimal ts ≠ [] := Nat.toDigits_ne_nil
  have hplus : (decimal ts).head? ≠ some '+' := by
    intro h
    exact (isDigit_of_mem_decimal (List.mem_of_mem_head? h)).2 rfl
  have hall : (decimal ts).all (·.isDigit) = true :=
    List.all_eq_true.mpr fun _ hc => (isDigit_of_mem_decimal hc).1
  have hread : Digits.read 10 (decimal ts) = ts.toNat := Digits.read_toDigits (by decide) (by decide)
  simp only [parseU64, if_neg hplus, hread]
  rw [if_pos ⟨hne, hall, ts.toNat_lt⟩]
  simp

theorem parse_append : parseCompleteChunkTimestamp (chunkPrefix ++ stem ++ chunkSuffix) =
    parseU64 stem := by
  have hs : (chunkPrefix ++ stem ++ chunkSuffix).dropSuffix? chunkSuffix =
      some (chunkPrefix ++ stem) :=
    List.dropSuffix?_eq_some_iff.mpr ⟨_, rfl, by simp⟩
  have hp : (chunkPrefix ++ stem).dropPrefix? chunkPrefix = some stem :=
    List.dropPrefix?_eq_some_iff.mpr ⟨_, rfl, by simp⟩
  simp only [parseCompleteChunkTimestamp, hs, hp, Option.bind_eq_bind, Option.bind_some]

theorem parse_eq_some (h : parseCompleteChunkTimestamp name = some ts) :
    ∃ stem, name = chunkPrefix ++ stem ++ chunkSuffix ∧ parseU64 stem = some ts := by
  simp only [parseCompleteChunkTimestamp, Option.bind_eq_bind, Option.bind_eq_some_iff] at h
  obtain ⟨s, hs, stem, hp, ht⟩ := h
  obtain ⟨_, rfl, he⟩ := List.dropSuffix?_eq_some_iff.mp hs
  obtain ⟨_, rfl, he'⟩ := List.dropPrefix?_eq_some_iff.mp hp
  exact ⟨stem, by rw [eq_of_beq he, eq_of_beq he'], ht⟩

theorem parse_complete : parseCompleteChunkTimestamp (chunkPaths ts).2 = some ts :=
  parse_append.trans parseU64_decimal

theorem parse_part : parseCompleteChunkTimestamp (chunkPaths ts).1 = none := by
  by_contra h
  obtain ⟨ts', h⟩ := Option.ne_none_iff_exists'.mp h
  obtain ⟨stem, he, -⟩ := parse_eq_some h
  have hl := congrArg List.getLast? he
  simp only [chunkPaths, chunkPartSuffix_eq, chunkSuffix_eq, List.getLast?_append] at hl
  change some 't' = some 'l' at hl
  contradiction

theorem complete_injective : Function.Injective fun ts => (chunkPaths ts).2 := by
  intro ts ts' h
  exact Option.some.inj <| parse_complete.symm.trans <| (congrArg _ h).trans parse_complete

theorem part_ne_complete {ts' : UInt64} : (chunkPaths ts).1 ≠ (chunkPaths ts').2 := by
  intro h
  have hp := @parse_part ts
  rw [h, parse_complete] at hp
  contradiction

theorem part_ne_parsed (h : (parseCompleteChunkTimestamp name).isSome) :
    (chunkPaths ts).1 ≠ name := by
  rintro rfl
  rw [parse_part] at h
  contradiction

theorem extension_of_parse (h : parseCompleteChunkTimestamp name = some ts) :
    extension name = some "jsonl".toList := by
  obtain ⟨stem, rfl, -⟩ := parse_eq_some h
  have ht (cs : List Char) : (['l', 'n', 'o', 's', 'j', '.'] ++ cs).takeWhile (· ≠ '.') =
      ['l', 'n', 'o', 's', 'j'] := rfl
  have hr : (chunkPrefix ++ stem ++ chunkSuffix).reverse =
      ['l', 'n', 'o', 's', 'j', '.'] ++ (chunkPrefix ++ stem).reverse := by
    rw [List.reverse_append, chunkSuffix_eq]
    rfl
  have hl : ¬(chunkPrefix ++ stem ++ chunkSuffix).length ≤ 6 := by
    rw [List.length_append, List.length_append]
    have hp : chunkPrefix.length = 8 := rfl
    omega
  simp only [extension, hr, ht]
  exact if_neg hl

end Names

section Listing

variable {disk : Disk} {order order' : FileName → Nat} {chunk : Chunk} {chunks : List Chunk}
variable {excess : Nat}

-- The complete chunk that a file is, if it is one.
def Disk.chunk? (disk : Disk) (path : FileName) : Option Chunk :=
  (parseCompleteChunkTimestamp path).map fun ts => ⟨ts, (disk.read path).length, path⟩

theorem listCompleteChunks_eq :
    listCompleteChunks disk order = (disk.readDir order).filterMap disk.chunk? := by
  refine congrArg (List.filterMap · _) <| funext fun path => ?_
  cases hp : parseCompleteChunkTimestamp path
  case none    => simp [Disk.chunk?, hp]
  case some ts => simp [Disk.chunk?, hp, extension_of_parse hp]

theorem chunk?_eq_some {path : FileName} (h : disk.chunk? path = some chunk) :
    chunk.path = path ∧ chunk.size = (disk.read path).length ∧
      parseCompleteChunkTimestamp path = some chunk.ts := by
  obtain ⟨ts, hp, rfl⟩ := Option.map_eq_some_iff.mp h
  exact ⟨rfl, rfl, hp⟩

theorem mem_readDir {path : FileName} : path ∈ disk.readDir order ↔ path ∈ disk.files := by
  rw [Disk.readDir, (List.perm_insertionSort ..).mem_iff, ExtTreeMap.mem_keys]

theorem nodup_readDir : (disk.readDir order).Nodup := by
  rw [Disk.readDir, (List.perm_insertionSort ..).nodup_iff]
  exact ExtTreeMap.distinct_keys.imp fun h he => h (by simp [he])

theorem mem_listCompleteChunks : chunk ∈ listCompleteChunks disk order ↔
    chunk.path ∈ disk.files ∧ disk.chunk? chunk.path = some chunk := by
  rw [listCompleteChunks_eq, List.mem_filterMap]
  constructor
  case mp =>
    rintro ⟨path, hm, hc⟩
    rw [(chunk?_eq_some hc).1]
    exact ⟨mem_readDir.mp hm, hc⟩
  case mpr =>
    rintro ⟨hm, hc⟩
    exact ⟨_, mem_readDir.mpr hm, hc⟩

theorem paths_listCompleteChunks : (listCompleteChunks disk order).map (·.path) =
    (disk.readDir order).filter fun path => (parseCompleteChunkTimestamp path).isSome := by
  rw [listCompleteChunks_eq, List.map_filterMap, ←List.filterMap_eq_filter]
  refine congrArg (List.filterMap · _) <| funext fun path => ?_
  cases hp : parseCompleteChunkTimestamp path <;> simp [Disk.chunk?, hp, Option.guard]

theorem nodup_paths : ((listCompleteChunks disk order).map (·.path)).Nodup :=
  paths_listCompleteChunks ▸ nodup_readDir.filter _

theorem listCompleteChunks_perm :
    (listCompleteChunks disk order).Perm (listCompleteChunks disk order') := by
  rw [listCompleteChunks_eq, listCompleteChunks_eq]
  exact ((List.perm_insertionSort ..).trans (List.perm_insertionSort ..).symm).filterMap _

end Listing

section Eviction

variable {s : State} {faults : Faults} {excess : Nat} {chunk : Chunk} {chunks : List Chunk}

-- The chunks that are to be removed.
def victims : Nat → List Chunk → List Chunk
  | _,      []              => []
  | excess, chunk :: chunks =>
    if excess = 0 then [] else chunk :: victims (excess - chunk.size) chunks

theorem victims_zero : victims 0 chunks = [] := by
  cases chunks <;> rfl

theorem victims_prefix : victims excess chunks <+: chunks := by
  induction chunks generalizing excess
  case nil => exact List.prefix_rfl
  case cons chunk chunks hi =>
    rw [victims]
    split
    case isTrue  => exact List.nil_prefix
    case isFalse => exact List.prefix_cons_inj _ |>.mpr hi

theorem le_totalSize_victims (h : excess ≤ totalSize chunks) :
    excess ≤ totalSize (victims excess chunks) := by
  induction chunks generalizing excess
  case nil => exact h
  case cons chunk chunks hi =>
    rw [victims]
    split
    case isTrue hz  => exact hz ▸ Nat.zero_le _
    case isFalse hz =>
      have hs (chunks : List Chunk) :
          totalSize (chunk :: chunks) = chunk.size + totalSize chunks := by simp [totalSize]
      rw [hs] at h ⊢
      have := @hi (excess - chunk.size) (by omega)
      omega

def State.evicted (s : State) (chunk : Chunk) : State where
  writer := { s.writer with chunksEvicted := s.writer.chunksEvicted + 1 }
  disk   := {
    files    := s.disk.files.erase chunk.path
    openName := if s.disk.openName = some chunk.path then none else s.disk.openName
    log      := s.disk.log ++ [.del chunk.path]
  }

theorem removeFile_ok (h : chunk.path ∈ s.disk.files) :
    (removeFile false chunk.path).run s = .ok () { s with disk := (s.evicted chunk).disk } := by
  simp [removeFile, Disk.remove, h, State.evicted]

theorem evict_ok (hm : ∀ chunk ∈ chunks, chunk.path ∈ s.disk.files)
    (hn : (chunks.map (·.path)).Nodup)
    (hf : ∀ chunk ∈ victims excess chunks, faults.remove chunk.path = false) :
    (evict faults excess chunks).run s =
      .ok () ((victims excess chunks).foldl State.evicted s) := by
  induction chunks generalizing excess s
  case nil => rfl
  case cons chunk chunks hi =>
    rw [evict, victims] at *
    split
    case isTrue  => rfl
    case isFalse hz =>
      rw [if_neg hz] at hf
      obtain ⟨hf, hfs⟩ := List.forall_mem_cons.mp hf
      obtain ⟨hm, hms⟩ := List.forall_mem_cons.mp hm
      obtain ⟨hp, hn⟩ := List.nodup_cons.mp hn
      rw [hf, EStateM.run_bind_of_ok (removeFile_ok hm)]
      refine hi (fun chunk' hc => ?_) hn hfs
      have hne : chunk.path ≠ chunk'.path := fun he =>
        hp <| List.mem_map.mpr ⟨chunk', hc, he.symm⟩
      simpa [State.evicted, hne] using hms chunk' hc

theorem evict_error (h : ∃ chunk ∈ victims excess chunks, faults.remove chunk.path = true) :
    ¬(evict faults excess chunks).succeeds s := by
  induction chunks generalizing excess s
  case nil => simp [victims] at h
  case cons chunk chunks hi =>
    rw [evict, victims] at *
    split
    case isTrue hz => simp [hz] at h
    case isFalse hz =>
      rw [if_neg hz] at h
      cases hx : (removeFile (faults.remove chunk.path) chunk.path).run s
      case error e t => exact EStateM.not_succeeds_of_error <| EStateM.run_bind_of_error hx
      case ok _ t =>
        have hr : ¬faults.remove chunk.path = true := by
          intro hr
          simp [removeFile, hr, EStateM.run_bind] at hx
        rw [EStateM.succeeds_bind_of_ok hx]
        obtain ⟨chunk', hc, hr'⟩ := h
        obtain rfl | hc := List.mem_cons.mp hc
        case inl => exact absurd hr' hr
        case inr => exact hi ⟨chunk', hc, hr'⟩

end Eviction

end TlsProbe.Spool
