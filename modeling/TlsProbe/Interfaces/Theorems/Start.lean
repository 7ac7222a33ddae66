import TlsProbe.Interfaces.Theorems.Detection

namespace TlsProbe.Interfaces

open Listeners (Text)

variable {attach : Nat → EbpfProgram → Option ProbeError} {loader : Loader} {attached : List Text}
variable {p : Text × Nat} {ps : List (Text × Nat)} {iface : Text}

-- Both calls for the interface succeed.
def isWhole (attach : Nat → EbpfProgram → Option ProbeError) (p : Text × Nat) : Bool :=
  (attach p.2 .ingress).isNone && (attach p.2 .egress).isNone

-- What the calls for an interface attach to it.
def linksOf (attach : Nat → EbpfProgram → Option ProbeError) (p : Text × Nat) :
    List (EbpfProgram × Text) :=
  if (attach p.2 .ingress).isNone then
    (.ingress, p.1) :: if (attach p.2 .egress).isNone then [(.egress, p.1)] else []
  else
    []

-- The names that are given to the two ends of an interface.
def namesOf (iface : Text) : List Text :=
  ["tc:".toList ++ iface ++ ":ingress".toList, "tc:".toList ++ iface ++ ":egress".toList]

namespace Loader

theorem attachNext_eq : attachNext attach (loader, attached) p =
    ({ loader with
        attachedInterfaces := loader.attachedInterfaces ++ if isWhole attach p then [p.1] else []
        links              := loader.links ++ linksOf attach p },
      attached ++ if isWhole attach p then namesOf p.1 else []) := by
  cases hi : attach p.2 .ingress <;> cases he : attach p.2 .egress <;>
    simp [attachNext, attachInterface, isWhole, linksOf, namesOf, hi, he]

theorem attachAll_eq : ps.foldl (attachNext attach) (loader, attached) =
    ({ loader with
        attachedInterfaces := loader.attachedInterfaces ++ (ps.filter (isWhole attach)).map (·.1)
        links              := loader.links ++ ps.flatMap (linksOf attach) },
      attached ++ ((ps.filter (isWhole attach)).map (·.1)).flatMap namesOf) := by
  induction ps generalizing loader attached
  case nil => simp
  case cons p ps hi =>
    rw [List.foldl_cons, attachNext_eq, hi]
    by_cases hp : isWhole attach p
    case pos => simp [hp]
    case neg => simp [hp]

end Loader

theorem mem_linksOf {program : EbpfProgram} : (program, iface) ∈ linksOf attach p ↔
    p.1 = iface ∧ attach p.2 .ingress = none ∧ (program = .egress → attach p.2 .egress = none) := by
  cases hi : attach p.2 .ingress <;> cases he : attach p.2 .egress <;> cases program <;>
    simp [linksOf, hi, he, eq_comm]

-- Where the egress classifier is attached, the ingress one is too.
theorem mem_watched_iff : iface ∈ (ps.filter (isWhole attach)).map (·.1) ↔
    (.ingress, iface) ∈ ps.flatMap (linksOf attach) ∧
      (.egress, iface) ∈ ps.flatMap (linksOf attach) := by
  simp only [List.mem_map, List.mem_filter, isWhole, Bool.and_eq_true, Option.isNone_iff_eq_none,
    List.mem_flatMap, mem_linksOf]
  constructor
  case mp =>
    rintro ⟨p, ⟨hp, hi, he⟩, rfl⟩
    exact ⟨⟨p, hp, rfl, hi, nofun⟩, ⟨p, hp, rfl, hi, fun _ => he⟩⟩
  case mpr =>
    rintro ⟨-, ⟨p, hp, rfl, hi, he⟩⟩
    exact ⟨p, ⟨hp, hi, he trivial⟩, rfl⟩

-- What has been attached to the selected interfaces. Those that are reported are those that are
-- watched in both directions.
structure Watches (calls : Calls) (interfaces : List Text) (loader : Loader)
    (attached : List Text) : Prop where
  watched : loader.attachedInterfaces =
    (interfaces.zipIdx.filter (isWhole calls.attach)).map (·.1)
  names   : attached = loader.attachedInterfaces.flatMap namesOf
  both    : ∀ iface, iface ∈ loader.attachedInterfaces ↔
    (.ingress, iface) ∈ loader.links ∧ (.egress, iface) ∈ loader.links
  only    : ∀ link ∈ loader.links, link.2 ∈ interfaces

theorem watches_new {calls : Calls} {interfaces : List Text} {programsLoaded : Bool}
    (hr : interfaces.zipIdx.foldl (Loader.attachNext calls.attach)
      ({ Loader.new with programsLoaded }, []) = (loader, attached)) :
    Watches calls interfaces loader attached := by
  rw [Loader.attachAll_eq] at hr
  obtain ⟨rfl, rfl⟩ := Prod.mk.inj hr
  refine ⟨List.nil_append _, by simp [Loader.new], fun iface => ?_, fun link hl => ?_⟩
  case refine_1 => exact mem_watched_iff
  case refine_2 =>
    obtain ⟨p, hp, hm⟩ := List.mem_flatMap.mp hl
    exact (mem_linksOf.mp hm).1 ▸ List.fst_mem_of_mem_zipIdx hp

theorem Watches.eq_nil_iff {calls : Calls} {interfaces : List Text}
    (h : Watches calls interfaces loader attached) :
    attached = [] ↔ ∀ p ∈ interfaces.zipIdx, ¬isWhole calls.attach p := by
  rw [h.names, h.watched, List.flatMap_eq_nil_iff]
  constructor
  case mp =>
    intro hn p hp hw
    have hm : p.1 ∈ (interfaces.zipIdx.filter (isWhole calls.attach)).map (·.1) :=
      List.mem_map_of_mem (List.mem_filter.mpr ⟨hp, hw⟩)
    exact absurd (hn _ hm) (List.cons_ne_nil _ _)
  case mpr =>
    intro hn iface hi
    obtain ⟨p, hp, -⟩ := List.mem_map.mp hi
    obtain ⟨hp, hw⟩ := List.mem_filter.mp hp
    exact absurd hw (hn p hp)

theorem attach_new {calls : Calls} {interfaces : List Text} :
    Loader.new.attach calls interfaces =
      match calls.loadPrograms with
      | some e => .error e
      | none   =>
        let (loader, attached) := interfaces.zipIdx.foldl (Loader.attachNext calls.attach)
          ({ Loader.new with programsLoaded := true }, [])
        if attached.isEmpty then
          .error <| .attachError
            "No probes were attached. Use --interface to specify a valid interface."
        else
          .ok (loader, attached) := by
  cases h : calls.loadPrograms <;>
    simp only [Loader.attach, Loader.new, Loader.loadPrograms, h] <;> rfl

-- On a host whose tables are as Linux prints them: if the program starts, then it watches both
-- directions of the selected interfaces for which no call fails, and nothing of interfaces that are
-- not selected. It does not start if and only if there are none to watch.
theorem start_watches (net : Net) (calls : Calls) (selection : Selection) :
    (∀ loader attached, start net.host calls selection.print = .ok (loader, attached) →
      ∃ interfaces, net.selected selection = .ok interfaces ∧
        Watches calls interfaces loader attached) ∧
    ((∃ e, start net.host calls selection.print = .error e) ↔
      ∀ interfaces, net.selected selection = .ok interfaces → calls.loadPrograms = none →
        ∀ p ∈ interfaces.zipIdx, ¬isWhole calls.attach p) := by
  have hs : start net.host calls selection.print =
      (net.selected selection).bind (Loader.new.attach calls) := by
    rw [←Net.detectInterfaces_eq]
    rfl
  rw [hs]
  cases net.selected selection
  case error e => simp [Except.bind]
  case ok interfaces =>
    simp only [Except.bind, attach_new]
    cases hl : calls.loadPrograms
    case some e => simp
    case none =>
      generalize hr : interfaces.zipIdx.foldl (Loader.attachNext calls.attach)
        ({ Loader.new with programsLoaded := true }, []) = r
      obtain ⟨loader, attached⟩ := r
      have hw := watches_new hr
      have hn := hw.eq_nil_iff
      cases attached
      case nil            => simpa using hn
      case cons name names =>
        have hf : ¬∀ p ∈ interfaces.zipIdx, ¬isWhole calls.attach p :=
          fun h => List.cons_ne_nil _ _ (hn.mpr h)
        simp only [List.isEmpty_cons, Bool.false_eq_true, if_false]
        refine ⟨?_, ?_⟩
        case refine_1 =>
          rintro _ _ ⟨⟩
          exact ⟨interfaces, rfl, hw⟩
        case refine_2 =>
          simpa using hf

end TlsProbe.Interfaces
