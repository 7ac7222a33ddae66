import TlsProbe.Process.Theorems.Agreement

open Std

namespace TlsProbe.Process

variable {endian : Endian} {maps : Maps} {task : Task} {probe : Probe} {event : Event}
variable {key : ConnKey} {info : ConnInfo} {events : List Event}

section Steps

-- What is stashed for a task is about its own process.
def Owned (stashes : ExtTreeMap UInt64 ConnStash) : Prop :=
  ∀ (pidTgid : UInt64) (stash : ConnStash), stashes[pidTgid]? = some stash →
    stash.info.IsOf pidTgid

theorem Owned.erase {stashes : ExtTreeMap UInt64 ConnStash} (h : Owned stashes) (pidTgid : UInt64) :
    Owned (stashes.erase pidTgid) := by
  intro other stash hs
  rw [ExtTreeMap.getElem?_erase] at hs
  split at hs
  case isTrue  => contradiction
  case isFalse => exact h other stash hs

theorem Owned.insert {stashes : ExtTreeMap UInt64 ConnStash} (h : Owned stashes) (task : Task)
    (sk : UInt64) : Owned (stashes.insert task.pidTgid ⟨sk, currentConnInfo task⟩) := by
  intro other stash hs
  rw [ExtTreeMap.getElem?_insert] at hs
  split at hs
  case isTrue hc =>
    obtain rfl : task.pidTgid = other := by simpa using hc
    rw [←Option.some.inj hs]
    exact ⟨rfl, rfl⟩
  case isFalse => exact h other stash hs

-- A probe leaves the entries of `CONN_MAP`, or puts one there that is about the process of its task.
inductive Puts (maps : Maps) (task : Task) : Maps × List Insertion → Prop
  | none {stashes} (ho : Owned maps.connectStash → Owned stashes) :
    Puts maps task (⟨stashes, maps.connMap⟩, [])
  | entry {stashes} (key : ConnKey) (info : ConnInfo)
    (ho : Owned maps.connectStash → Owned stashes)
    (hi : Owned maps.connectStash → info.IsOf task.pidTgid) :
    Puts maps task (⟨stashes, maps.connMap.insert key info⟩, [⟨task.pidTgid, key, info⟩])

section Puts

variable {result : Maps × List Insertion}

theorem Puts.owned (h : Puts maps task result) (ho : Owned maps.connectStash) :
    Owned result.1.connectStash := by
  cases h
  case none hs    => exact hs ho
  case entry hs _ => exact hs ho

theorem Puts.connMap (h : Puts maps task result) (hk : result.1.connMap[key]? = some info) :
    ⟨task.pidTgid, key, info⟩ ∈ result.2 ∨
      (maps.connMap[key]? = some info ∧ ∀ info', ⟨task.pidTgid, key, info'⟩ ∉ result.2) := by
  cases h
  case none => exact .inr ⟨hk, fun _ => List.not_mem_nil⟩
  case entry other _ _ _ =>
    rw [ExtTreeMap.getElem?_insert] at hk
    split at hk
    case isTrue hc =>
      obtain rfl : other = key := by simpa using hc
      exact .inl (by simp [Option.some.inj hk])
    case isFalse hc =>
      have hn : key ≠ other := fun he => hc (by simp [he])
      exact .inr ⟨hk, by simp [hn]⟩

end Puts

end Steps

section Runs

end Runs

end TlsProbe.Process
