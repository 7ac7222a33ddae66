import TlsProbe.Container.Resolver

open Std

namespace TlsProbe

section Sets

-- Each inode in `P` is set to one of its paths, and no other inode is set.
def Sets (P : UInt64 → CgroupPath → Prop) (map map' : InoMap) : Prop :=
  ∀ i, (∃ path, P i path ∧ map'[i]? = some path) ∨ (∀ path, ¬P i path) ∧ map'[i]? = map[i]?

variable {P Q : UInt64 → CgroupPath → Prop} {map map₁ map₂ : InoMap}

theorem Sets.refl : Sets (fun _ _ => False) map map :=
  fun _ => .inr ⟨fun _ h => h, rfl⟩

theorem Sets.trans (h₁ : Sets P map map₁) (h₂ : Sets Q map₁ map₂) :
    Sets (fun i path => P i path ∨ Q i path) map map₂ := by
  intro i
  obtain ⟨path, hq, he⟩ | ⟨hq, he⟩ := h₂ i
  case inl => exact .inl ⟨path, .inr hq, he⟩
  case inr =>
    obtain ⟨path, hp, hm⟩ | ⟨hp, hm⟩ := h₁ i
    case inl => exact .inl ⟨path, .inl hp, he.trans hm⟩
    case inr => exact .inr ⟨fun path => not_or.mpr ⟨hp path, hq path⟩, he.trans hm⟩

theorem Sets.insert {inode : UInt64} {path : CgroupPath} :
    Sets (fun i p => i = inode ∧ p = path) map (map.insert inode path) := by
  intro i
  by_cases hi : i = inode
  case pos => exact .inl ⟨path, ⟨hi, rfl⟩, by simp [hi]⟩
  case neg => exact .inr ⟨fun _ h => hi h.1, by simp [ExtTreeMap.getElem?_insert, Ne.symm hi]⟩

end Sets

namespace Listing

-- An entry with the inode is listed in the directory or below it, and has the path.
inductive Holds : List UInt8 → Listing → UInt64 → CgroupPath → Prop
  | here {dir name inode type content next} :
    Holds dir (.entry name inode type content next) inode (toStringLossy (join dir name))
  | inside {dir name inode content next i path} :
    Holds (join dir name) content i path → Holds dir (.entry name inode .dir content next) i path
  | next {dir name inode type content next i path} :
    Holds dir next i path → Holds dir (.entry name inode type content next) i path

-- No error comes up.
def Readable : Listing → Prop
  | done                        => True
  | error                       => False
  | entry _ _ type content next => (type = .dir → content.Readable) ∧ next.Readable

variable {dir name : List UInt8} {inode i : UInt64} {type : FileType} {content next : Listing}
variable {path : CgroupPath} {map : InoMap}

theorem holds_entry_iff : Holds dir (.entry name inode type content next) i path ↔
    ((i = inode ∧ path = toStringLossy (join dir name)) ∨
      type = .dir ∧ Holds (join dir name) content i path) ∨ Holds dir next i path := by
  constructor
  case mp =>
    intro h
    cases h
    case here     => exact .inl (.inl ⟨rfl, rfl⟩)
    case inside h => exact .inl (.inr ⟨rfl, h⟩)
    case next h   => exact .inr h
  case mpr =>
    rintro ((⟨rfl, rfl⟩ | ⟨rfl, h⟩) | h)
    case inl.inl => exact .here
    case inl.inr => exact .inside h
    case inr     => exact .next h

theorem recurse_sets {listing : Listing} (h : listing.Readable) :
    ∃ map', recurse dir map listing = some map' ∧ Sets (listing.Holds dir) map map' := by
  induction listing generalizing dir map
  case done => exact ⟨map, rfl, fun i => .inr ⟨nofun, rfl⟩⟩
  case error => exact h.elim
  case entry name inode type content next hc hn =>
    obtain ⟨hr, hs⟩ := h
    have hi := @Sets.insert map inode (toStringLossy (join dir name))
    -- The map behind the entry and what is below it.
    have hm : ∃ map₁, recurse dir map (.entry name inode type content next) =
          recurse dir map₁ next ∧
        Sets (fun i path => (i = inode ∧ path = toStringLossy (join dir name)) ∨
          type = .dir ∧ Holds (join dir name) content i path) map map₁ := by
      by_cases ht : type = .dir
      case pos =>
        obtain ⟨map₁, h₁, h₂⟩ := @hc (join dir name) _ (hr ht)
        refine ⟨map₁, ?_, by simpa only [ht, true_and] using hi.trans h₂⟩
        have hd : type = .dir ∧ type ≠ .symlink := ⟨ht, by simp [ht]⟩
        simp only [recurse, if_pos hd, h₁, Option.bind_eq_bind, Option.bind_some]
      case neg =>
        refine ⟨_, ?_, by simpa only [ht, false_and, or_false] using hi⟩
        simp only [recurse, if_neg fun hd : type = .dir ∧ type ≠ .symlink => ht hd.1]
        rfl
    obtain ⟨map₁, h₁, h₂⟩ := hm
    obtain ⟨map₂, h₃, h₄⟩ := @hn dir map₁ hs
    have he : Holds dir (.entry name inode type content next) =
        fun i path => ((i = inode ∧ path = toStringLossy (join dir name)) ∨
          type = .dir ∧ Holds (join dir name) content i path) ∨ Holds dir next i path :=
      funext fun _ => funext fun _ => propext holds_entry_iff
    exact ⟨map₂, h₁.trans h₃, he ▸ h₂.trans h₄⟩

end Listing

def Contains (cgroupRoot : Option Listing) (i : UInt64) (path : CgroupPath) : Prop :=
  ∃ listing ∈ cgroupRoot, listing.Holds [] i path

-- What a walk without a cache gives for an inode.
def lookup (cgroupRoot : Option Listing) (i : UInt64) : Option CgroupPath :=
  (walkCgroupTree cgroupRoot).bind fun inoMap => inoMap[i]?

-- A tree that is walked without an error, and in which each inode has one path.
structure Walkable (cgroupRoot : Option Listing) : Prop where
  readable : ∀ listing ∈ cgroupRoot, listing.Readable
  unique   : ∀ i path path', Contains cgroupRoot i path → Contains cgroupRoot i path' → path = path'

-- A call sees the tree, in whatever order its directories are gone through.
structure ResolveCall.Sees (call : ResolveCall) (cgroupRoot : Option Listing) : Prop where
  readable : ∀ listing ∈ call.cgroupRoot, listing.Readable
  same     : ∀ i path, Contains call.cgroupRoot i path ↔ Contains cgroupRoot i path

-- The cache only says what is so in the tree.
structure ResolverCache.Valid (cache : ResolverCache) (cgroupRoot : Option Listing) : Prop where
  inoMap   : ∀ i path, cache.inoMap[i]? = some path → Contains cgroupRoot i path
  negative : ∀ i ∈ cache.negative, ∀ path, ¬Contains cgroupRoot i path

variable {cgroupRoot : Option Listing} {cache : ResolverCache} {call : ResolveCall} {i : UInt64}
variable {path : CgroupPath}

theorem walkCgroupTree_sets (h : ∀ listing ∈ cgroupRoot, listing.Readable) :
    ∃ map, walkCgroupTree cgroupRoot = some map ∧ Sets (Contains cgroupRoot) ∅ map := by
  cases cgroupRoot
  case none =>
    exact ⟨∅, rfl, fun i => .inr ⟨fun _ ⟨_, hm, _⟩ => absurd hm (Option.not_mem_none _), rfl⟩⟩
  case some listing =>
    have hc : Contains (some listing) = listing.Holds [] :=
      funext fun _ => funext fun _ => by simp [Contains]
    exact hc ▸ Listing.recurse_sets (h listing rfl)

namespace Walkable

theorem walk (h : Walkable cgroupRoot) : ∃ map, walkCgroupTree cgroupRoot = some map ∧
    ∀ i path, map[i]? = some path ↔ Contains cgroupRoot i path := by
  obtain ⟨map, hw, hs⟩ := walkCgroupTree_sets h.readable
  refine ⟨map, hw, fun i path => ?_⟩
  obtain ⟨path', hp, he⟩ | ⟨hp, he⟩ := hs i
  case inl =>
    rw [he, Option.some.injEq]
    exact ⟨(· ▸ hp), h.unique i path' path hp⟩
  case inr => simp [he, hp]

theorem lookup_eq_some_iff (h : Walkable cgroupRoot) :
    lookup cgroupRoot i = some path ↔ Contains cgroupRoot i path := by
  obtain ⟨map, hw, hm⟩ := h.walk
  rw [lookup, hw, Option.bind_some, hm]

theorem lookup_eq_none_iff (h : Walkable cgroupRoot) :
    lookup cgroupRoot i = none ↔ ∀ path, ¬Contains cgroupRoot i path := by
  simp only [Option.eq_none_iff_forall_ne_some, ne_eq, h.lookup_eq_some_iff]

theorem of_sees (h : Walkable cgroupRoot) (hc : call.Sees cgroupRoot) : Walkable call.cgroupRoot where
  readable := hc.readable
  unique   := by simpa only [hc.same] using h.unique

end Walkable

namespace ResolverCache

theorem Valid.new : Valid {} cgroupRoot where
  inoMap   := by simp
  negative := by simp

theorem mem_negative_of_isNegative (h : isNegative cache call) : call.inode ∈ cache.negative := by
  unfold isNegative at h
  split at h
  case h_1 _ _ hn => exact ExtTreeMap.mem_iff_isSome_getElem?.mpr (hn ▸ rfl)
  case h_2        => contradiction

-- A call keeps to the tree, and says what a walk of its own would have said.
theorem Valid.resolveInode (h : cache.Valid cgroupRoot) (hr : Walkable cgroupRoot)
    (hi : call.inode ≠ 0) (hc : call.Sees cgroupRoot) :
    (resolveInode cache call).1.Valid cgroupRoot ∧
      (resolveInode cache call).2 = lookup cgroupRoot call.inode := by
  obtain ⟨map, hw, hm⟩ := (hr.of_sees hc).walk
  simp only [hc.same] at hm
  have he : ∀ i ∈ cache.negative.erase call.inode, ∀ path, ¬Contains cgroupRoot i path :=
    fun i hi => h.negative i (ExtTreeMap.mem_of_mem_erase hi)
  rw [TlsProbe.resolveInode, if_neg hi]
  cases hp : cache.inoMap[call.inode]?
  case some path =>
    exact ⟨h, (hr.lookup_eq_some_iff.mpr (h.inoMap _ _ hp)).symm⟩
  case none =>
    by_cases hn : isNegative cache call
    case pos =>
      have hl := hr.lookup_eq_none_iff.mpr (h.negative _ (mem_negative_of_isNegative hn))
      simp only [if_pos hn]
      exact ⟨h, hl.symm⟩
    case neg =>
      simp only [if_neg hn, hw]
      cases hq : map[call.inode]?
      case some path =>
        refine ⟨⟨fun i path => (hm i path).mp, he⟩, ?_⟩
        exact (hr.lookup_eq_some_iff.mpr ((hm _ _).mp hq)).symm
      case none =>
        have hl : ∀ path, ¬Contains cgroupRoot call.inode path := by simp [←hm, hq]
        refine ⟨⟨fun i path => (hm i path).mp, fun i hi => ?_⟩, (hr.lookup_eq_none_iff.mpr hl).symm⟩
        obtain hi | hi := ExtTreeMap.mem_insert.mp hi
        case inl => exact compare_eq_iff_eq.mp hi ▸ hl
        case inr => exact he i hi

end ResolverCache

-- Whatever calls there are, and whatever the clock says, the cache makes no difference.
theorem resolver_transparent {calls : List ResolveCall} (hr : Walkable cgroupRoot)
    (hc : ∀ call ∈ calls, call.inode ≠ 0 ∧ call.Sees cgroupRoot) :
    resolver.output {} calls = calls.map (fun call => lookup cgroupRoot call.inode) ∧
    ∀ i, lookup cgroupRoot i = none ↔ ∀ path, ¬Contains cgroupRoot i path := by
  refine ⟨?_, fun _ => hr.lookup_eq_none_iff⟩
  have hv (cache : ResolverCache) (call : ResolveCall) (h : cache.Valid cgroupRoot)
      (hc : call.inode ≠ 0 ∧ call.Sees cgroupRoot) := h.resolveInode hr hc.1 hc.2
  exact Machine.output_eq_map (fun _ _ h hc => (hv _ _ h hc).1)
    (fun _ _ h hc => congrArg List.singleton (hv _ _ h hc).2) ResolverCache.Valid.new
    (Machine.allSteps_of_inputs hc)

-- The directory `a` with the file `b`.
def sampleRoot : Option Listing :=
  some (.entry [0x61] 7 .dir (.entry [0x62] 8 .file .done .done) .done)

theorem contains_sampleRoot : Contains sampleRoot i path ↔
    i = 7 ∧ path = toStringLossy [0x61] ∨ i = 8 ∧ path = toStringLossy [0x61, 0x2f, 0x62] := by
  have hd {dir : List UInt8} : ¬Listing.Holds dir .done i path := nofun
  simp [Contains, sampleRoot, Listing.holds_entry_iff, hd, join]
  rfl

theorem walkable_sampleRoot : Walkable sampleRoot where
  readable := by simp [sampleRoot, Listing.Readable]
  unique   := by
    intro i path path' h h'
    rw [contains_sampleRoot] at h h'
    grind

def sampleCall (inode : UInt64) (at' : SystemTime) : ResolveCall :=
  ⟨inode, sampleRoot, at', at', at'⟩

-- An inode is missed, and once more after the clock has been set back.
theorem resolver_transparent_clock_back :
    resolver.output {} [sampleCall 7 100, sampleCall 9 90, sampleCall 9 10, sampleCall 8 20] =
      [lookup sampleRoot 7, lookup sampleRoot 9, lookup sampleRoot 9, lookup sampleRoot 8] := by
  refine (resolver_transparent walkable_sampleRoot fun call hc => ?_).1
  have hs (inode : UInt64) (at' : SystemTime) : (sampleCall inode at').Sees sampleRoot :=
    ⟨walkable_sampleRoot.readable, fun _ _ => Iff.rfl⟩
  simp only [List.mem_cons, List.not_mem_nil, or_false] at hc
  rcases hc with rfl | rfl | rfl | rfl <;> exact ⟨by decide, hs _ _⟩

end TlsProbe
