import TlsProbe.Container.Basic

namespace TlsProbe

section ScopeId

variable {marker id path : CgroupPath} {dirs : List CgroupPath}

theorem suffix_intercalate (leaf : CgroupPath) :
    leaf <:+ ['/'].intercalate (dirs ++ [leaf]) := by
  induction dirs
  case nil => simp
  case cons dir dirs hi =>
    rw [List.cons_append, List.intercalate_cons_of_ne_nil (by simp)]
    exact hi.trans (List.suffix_append ..)

-- The id is read from the last segment.
theorem scopeId_leaf (hs : path.splitOn '/' = dirs ++ [marker ++ id ++ ".scope".toList])
    (hl : marker ++ id ++ ".scope".toList <:+ path) : scopeId marker path = some id := by
  have hm : marker <+: marker ++ id ++ ".scope".toList :=
    List.append_assoc .. ▸ List.prefix_append ..
  have hc : ".scope".toList <:+ marker ++ id ++ ".scope".toList := List.suffix_append ..
  have hg : marker <:+: path ∧ ".scope".toList <:+ path :=
    ⟨hm.isInfix.trans hl.isInfix, hc.trans hl⟩
  have hf : (path.splitOn '/').findRev? (fun p => marker <+: p ∧ ".scope".toList <:+ p) =
      some (marker ++ id ++ ".scope".toList) := by
    rw [hs, List.findRev?_eq_find?_reverse, List.reverse_append, List.reverse_singleton,
      List.singleton_append]
    exact List.find?_cons_of_pos (decide_eq_true ⟨hm, hc⟩)
  have hp : (marker ++ id ++ ".scope".toList).dropPrefix? marker =
      some (id ++ ".scope".toList) :=
    List.dropPrefix?_eq_some_iff.mpr ⟨marker, by simp, by simp⟩
  have hd : (id ++ ".scope".toList).dropSuffix? ".scope".toList = some id :=
    List.dropSuffix?_eq_some_iff.mpr ⟨".scope".toList, rfl, by simp⟩
  rw [scopeId, show guard _ = some () from if_pos hg]
  simp only [hf, hp, hd, Option.bind_eq_bind, Option.bind_some]

theorem scopeId_none (h : ∀ segment ∈ path.splitOn '/', ¬marker <+: segment) :
    scopeId marker path = none := by
  have hf : (path.splitOn '/').findRev? (fun p => marker <+: p ∧ ".scope".toList <:+ p) = none := by
    rw [List.findRev?_eq_find?_reverse, List.find?_eq_none]
    intro segment hm
    simp [h segment (List.mem_reverse.mp hm)]
  rw [scopeId, hf]
  exact Option.bind_fun_none _

end ScopeId

section PodUid

variable {uid segment : CgroupPath} {segments : List CgroupPath}

-- What `podUid` finds in a segment.
def segmentUid (segment : CgroupPath) : Option CgroupPath := do
  guard ("pod".toList <:+: segment ∧ ".slice".toList <:+ segment)
  let podPart ← segment.dropPrefix? "kubepods-".toList
  let uidPart ← podPart.dropPrefix? "pod".toList
  let uid ← uidPart.dropSuffix? ".slice".toList
  return uid.map fun c => if c = '_' then '-' else c

theorem podUid_eq {path : CgroupPath} : podUid path = (path.splitOn '/').findSome? segmentUid :=
  rfl

theorem segmentUid_pod : segmentUid ("kubepods-pod".toList ++ uid ++ ".slice".toList) =
    some (uid.map fun c => if c = '_' then '-' else c) := by
  have hk : "kubepods-pod".toList ++ uid ++ ".slice".toList =
      "kubepods-".toList ++ ("pod".toList ++ (uid ++ ".slice".toList)) := by simp
  have hg : "pod".toList <:+: "kubepods-pod".toList ++ uid ++ ".slice".toList ∧
      ".slice".toList <:+ "kubepods-pod".toList ++ uid ++ ".slice".toList :=
    ⟨⟨"kubepods-".toList, uid ++ ".slice".toList, by simp⟩, List.suffix_append ..⟩
  have hp {l l' : CgroupPath} : (l ++ l').dropPrefix? l = some l' :=
    List.dropPrefix?_eq_some_iff.mpr ⟨l, rfl, by simp⟩
  have hd : (uid ++ ".slice".toList).dropSuffix? ".slice".toList = some uid :=
    List.dropSuffix?_eq_some_iff.mpr ⟨".slice".toList, rfl, by simp⟩
  rw [segmentUid, show guard _ = some () from if_pos hg, hk, hp]
  simp only [Option.bind_eq_bind, Option.bind_some, hp, hd]
  rfl

-- A segment of another form, with a word between `kubepods-` and `pod`.
theorem segmentUid_word {rest : CgroupPath} (h : ¬"pod".toList <+: rest) :
    segmentUid ("kubepods-".toList ++ rest) = none := by
  have hp : ("kubepods-".toList ++ rest).dropPrefix? "kubepods-".toList = some rest :=
    List.dropPrefix?_eq_some_iff.mpr ⟨"kubepods-".toList, rfl, by simp⟩
  have hn : rest.dropPrefix? "pod".toList = none := by
    by_contra hs
    obtain ⟨l, hl⟩ := Option.ne_none_iff_exists'.mp hs
    obtain ⟨_, rfl, he⟩ := List.dropPrefix?_eq_some_iff.mp hl
    exact h (eq_of_beq he ▸ List.prefix_append ..)
  by_cases hg : "pod".toList <:+: "kubepods-".toList ++ rest ∧
      ".slice".toList <:+ "kubepods-".toList ++ rest
  case pos =>
    rw [segmentUid, show guard _ = some () from if_pos hg, hp]
    change Option.bind (rest.dropPrefix? "pod".toList) _ = none
    rw [hn, Option.bind_none]
  case neg =>
    rw [segmentUid, show guard _ = none from if_neg hg]
    rfl

theorem findSome?_words {rest rest' : CgroupPath} (h : ¬"pod".toList <+: rest)
    (h' : ¬"pod".toList <+: rest') :
    ["kubepods-".toList ++ rest, "kubepods-".toList ++ rest'].findSome? segmentUid = none := by
  rw [List.findSome?_cons, segmentUid_word h, List.findSome?_singleton, segmentUid_word h']

theorem segmentUid_scope {leaf : CgroupPath} (h : ".scope".toList <:+ leaf) :
    segmentUid leaf = none := by
  have hn : ¬".slice".toList <:+ leaf := by
    intro hs
    have := List.suffix_of_suffix_length_le h hs (by decide)
    exact absurd this (by decide)
  rw [segmentUid, show guard _ = none from if_neg fun hg => hn (And.right hg)]
  rfl

end PodUid

inductive Qos
  | guaranteed
  | burstable
  | bestEffort
  deriving DecidableEq

inductive Runtime
  | crio
  | containerd
  deriving DecidableEq

-- A container of a pod. The paths below are those of the systemd layout, in which the dashes of a
-- pod's UID are underscores.
structure PodContainer where
  qos       : Qos
  runtime   : Runtime
  uid       : CgroupPath
  id        : CgroupPath
  uid_ne    : uid ≠ []
  uid_chars : ∀ c ∈ uid, c.isHexDigit ∨ c = '-'
  id_chars  : ∀ c ∈ id, c.isHexDigit

namespace PodContainer

def escapedUid (container : PodContainer) : CgroupPath :=
  container.uid.map fun c => if c = '-' then '_' else c

def podSlices (container : PodContainer) : List CgroupPath :=
  match container.qos with
  | .guaranteed => ["kubepods-pod".toList ++ container.escapedUid ++ ".slice".toList]
  | .burstable  => [
      "kubepods-burstable.slice".toList,
      "kubepods-burstable-pod".toList ++ container.escapedUid ++ ".slice".toList]
  | .bestEffort => [
      "kubepods-besteffort.slice".toList,
      "kubepods-besteffort-pod".toList ++ container.escapedUid ++ ".slice".toList]

def marker (container : PodContainer) : CgroupPath :=
  match container.runtime with
  | .crio       => "crio-".toList
  | .containerd => "cri-containerd-".toList

def leaf (container : PodContainer) : CgroupPath :=
  container.marker ++ container.id ++ ".scope".toList

def segments (container : PodContainer) : List CgroupPath :=
  "kubepods.slice".toList :: container.podSlices ++ [container.leaf]

def path (container : PodContainer) : CgroupPath :=
  ['/'].intercalate container.segments

variable {container : PodContainer}

theorem slash_not_mem_escapedUid : '/' ∉ container.escapedUid := by
  intro h
  obtain ⟨c, hc, he⟩ := List.mem_map.mp h
  split at he
  case isTrue  => contradiction
  case isFalse =>
    subst he
    have := container.uid_chars _ hc
    revert this
    decide

theorem slash_not_mem_segments : ∀ segment ∈ container.segments, '/' ∉ segment := by
  have hu := container.slash_not_mem_escapedUid
  have hi : '/' ∉ container.id := fun h => absurd (container.id_chars _ h) (by decide)
  have hs (marker : CgroupPath) (hm : '/' ∉ marker) :
      '/' ∉ marker ++ container.escapedUid ++ ".slice".toList := by simp [hm, hu]
  have hl : '/' ∉ container.leaf := by
    unfold leaf marker
    cases container.runtime <;> simp [hi]
  rw [segments, List.cons_append, List.forall_mem_cons, List.forall_mem_append,
    List.forall_mem_singleton, podSlices]
  refine ⟨by decide, ?_, hl⟩
  cases container.qos
  case guaranteed => exact List.forall_mem_singleton.mpr (hs _ (by decide))
  case burstable  =>
    exact List.forall_mem_cons.mpr ⟨by decide, List.forall_mem_singleton.mpr (hs _ (by decide))⟩
  case bestEffort =>
    exact List.forall_mem_cons.mpr ⟨by decide, List.forall_mem_singleton.mpr (hs _ (by decide))⟩

theorem splitOn_path : container.path.splitOn '/' = container.segments :=
  List.splitOn_intercalate '/' slash_not_mem_segments <| by simp [segments]

-- The dashes come back.
theorem map_escapedUid : container.escapedUid.map (fun c => if c = '_' then '-' else c) =
    container.uid := by
  rw [escapedUid, List.map_map]
  refine (List.map_congr_left fun c hc => ?_).trans (List.map_id container.uid)
  have hn : c ≠ '_' := by
    rintro rfl
    exact absurd (container.uid_chars _ hc) (by decide)
  by_cases hd : c = '-' <;> simp [hd, hn]

theorem leaf_suffix : container.leaf <:+ container.path :=
  @suffix_intercalate (_ :: container.podSlices) container.leaf

theorem scopeId_path : scopeId container.marker container.path = some container.id :=
  scopeId_leaf splitOn_path leaf_suffix

-- No segment of the path of a containerd container is one of CRI-O.
theorem parseCrio_containerd (h : container.runtime = .containerd) :
    parseCrio container.path = none := by
  have hn : scopeId "crio-".toList container.path = none := by
    refine scopeId_none ?_
    rw [splitOn_path, segments, List.cons_append, List.forall_mem_cons, List.forall_mem_append,
      List.forall_mem_singleton, podSlices, leaf, marker, h]
    refine ⟨by decide, ?_, by simp⟩
    cases container.qos <;> simp
  simp only [parseCrio, hn, Option.bind_eq_bind, Option.bind_none]

theorem podUid_path : podUid container.path =
    if container.qos = .guaranteed then some container.uid else none := by
  have hl : segmentUid container.leaf = none := segmentUid_scope (List.suffix_append ..)
  have hk : segmentUid "kubepods.slice".toList = none := by decide
  rw [podUid_eq, splitOn_path, segments, List.cons_append, List.findSome?_cons, hk,
    List.findSome?_append, List.findSome?_singleton, hl, Option.or_none, podSlices]
  cases container.qos
  case guaranteed =>
    simp only [List.findSome?_singleton]
    exact segmentUid_pod.trans (congrArg some map_escapedUid)
  case burstable  =>
    exact @findSome?_words "burstable.slice".toList
      ("burstable-pod".toList ++ _ ++ ".slice".toList) (by simp) (by simp)
  case bestEffort =>
    exact @findSome?_words "besteffort.slice".toList
      ("besteffort-pod".toList ++ _ ++ ".slice".toList) (by simp) (by simp)

-- The UID that the code reads from the path of a container.
def foundUid (container : PodContainer) : Option CgroupPath :=
  match container.runtime, container.qos with
  | .crio, .guaranteed => some container.uid
  | _,     _           => none

theorem parseContainerPath_path : parseContainerPath container.path = some {
    containerId := .ofList container.id
    podUid      := container.foundUid.map .ofList
  } := by
  have hs := container.scopeId_path
  unfold marker at hs
  cases hr : container.runtime
  case crio =>
    simp only [hr] at hs
    have hu : podUid container.path = container.foundUid := by
      rw [podUid_path, foundUid, hr]
      cases container.qos <;> rfl
    have hp : parseCrio container.path =
        some ⟨.ofList container.id, container.foundUid.map .ofList⟩ := by
      simp only [parseCrio, hs, hu, Option.bind_eq_bind, Option.bind_some]
      rfl
    rw [parseContainerPath, hp, Option.orElse_eq_orElse, Option.orElse_some]
  case containerd =>
    simp only [hr] at hs
    have hp : parseContainerd container.path = some ⟨.ofList container.id, none⟩ := by
      simp only [parseContainerd, parseScope, hs, Option.bind_eq_bind, Option.bind_some]
      rfl
    rw [parseContainerPath, parseCrio_containerd hr, hp, foundUid, hr]
    rfl

theorem foundUid_eq_some_iff : container.foundUid = some container.uid ↔
    container.runtime = .crio ∧ container.qos = .guaranteed := by
  unfold foundUid
  cases container.runtime <;> cases container.qos <;> simp

-- The identity of a container is what its path encodes for a CRI-O container whose pod has its slice
-- at the top, and for no other.
theorem resolveCgroupId_iff {resolveInode : UInt64 → Option CgroupPath} {cgroupId : UInt64}
    (h : resolveInode cgroupId = some container.path) :
    resolveCgroupId resolveInode cgroupId =
      (some (.ofList container.id), some (.ofList container.uid)) ↔
        cgroupId ≠ 0 ∧ container.runtime = .crio ∧ container.qos = .guaranteed := by
  by_cases hz : cgroupId = 0
  case pos => simp [resolveCgroupId, hz]
  case neg =>
    have hu : container.foundUid.map String.ofList = some (.ofList container.uid) ↔
        container.foundUid = some container.uid := by
      rw [← Option.map_some, Option.map_inj_right @String.ofList_injective]
    have hr : resolveCgroupId resolveInode cgroupId =
        (some (.ofList container.id), container.foundUid.map .ofList) := by
      simp only [resolveCgroupId, if_neg hz, h, parseContainerPath_path]
    simp only [hr, Prod.mk.injEq, true_and, hu, foundUid_eq_some_iff, ne_eq, hz, not_false_eq_true]

-- A burstable pod whose container has the CRI-O form, and the guaranteed one beside it.
def sample (qos : Qos) : PodContainer where
  qos       := qos
  runtime   := .crio
  uid       := "12-ab".toList
  id        := "0f".toList
  uid_ne    := by decide
  uid_chars := by simp; decide
  id_chars  := by simp; decide

theorem resolveCgroupId_iff_guaranteed :
    resolveCgroupId (fun _ => some (sample .guaranteed).path) 42 =
      (some (.ofList "0f".toList), some (.ofList "12-ab".toList)) :=
  (@resolveCgroupId_iff (sample .guaranteed) _ 42 rfl).mpr ⟨by decide, rfl, rfl⟩

theorem resolveCgroupId_burstable :
    (sample .burstable).path = ("kubepods.slice/kubepods-burstable.slice/" ++
      "kubepods-burstable-pod12_ab.slice/crio-0f.scope").toList ∧
    ¬∀ (container : PodContainer) (resolveInode : UInt64 → Option CgroupPath) (cgroupId : UInt64),
      cgroupId ≠ 0 → resolveInode cgroupId = some container.path →
        resolveCgroupId resolveInode cgroupId =
          (some (.ofList container.id), some (.ofList container.uid)) := by
  refine ⟨by decide, fun h => ?_⟩
  have hc := h (sample .burstable) (fun _ => some (sample .burstable).path) 42 (by decide) rfl
  simp only [resolveCgroupId, parseContainerPath_path] at hc
  exact absurd hc (by simp [sample, foundUid])

end PodContainer

end TlsProbe
