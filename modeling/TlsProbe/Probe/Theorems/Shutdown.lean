import Mathlib.Data.Prod.Lex
import TlsProbe.Lib.Fair
import TlsProbe.Probe.Theorems.Moves

namespace TlsProbe.Probe

variable {endian : Process.Endian} {s t : State} {a : Action} {os : List Observation}

-- Who makes a step. The loader aborts its task when its patience is over (`timer`).
inductive Task
  | drain
  | timer
  | worker
  | writer
  | main
  deriving DecidableEq

def Action.task : Action → Option Task
  | .arrives _ | .stops => none
  | .drains _           => some .drain
  | .aborts             => some .timer
  | .works _            => some .worker
  | .writes _           => some .writer
  | .releases           => some .main

def Action.isArrival : Action → Bool
  | .arrives _ => true
  | _          => false

-- What is left to do once the program has been stopped: first for the task that drains the ring
-- buffer, then for the worker with the captures, and last for the lines.
def Drain.rank (ring : Nat) : Drain → Nat
  | .done  => 0
  | .check => 1
  | .read  => ring + 2
  | .wait  => ring + 3

def State.rest (s : State) : Nat :=
  2 * s.outgoing.length + s.lines.queue.length + s.writerTx.toNat + (!s.workerDone).toNat +
    (!s.threadDone).toNat

def State.work (s : State) : Nat ×ₗ Nat ×ₗ Nat :=
  toLex (s.drain.rank s.ring.length, toLex (s.captures.queue.length, s.rest))

-- The task that can go on.
def State.helper (s : State) : Task :=
  if s.drain = .wait then
    .timer
  else if s.drain ≠ .done then
    .drain
  else if s.writerTx then
    .main
  else if !s.workerDone && (s.outgoing.isEmpty || !s.lines.isFull) then
    .worker
  else
    .writer

def Stopped (s : State) : Prop :=
  Orderly s ∧ s.running = false

section Work

theorem work_lt_of_rank (h : t.drain.rank t.ring.length < s.drain.rank s.ring.length) :
    t.work < s.work :=
  Prod.Lex.toLex_lt_toLex.mpr (.inl h)

theorem work_lt_of_captures (hd : t.drain.rank t.ring.length = s.drain.rank s.ring.length)
    (h : t.captures.queue.length < s.captures.queue.length) : t.work < s.work :=
  Prod.Lex.toLex_lt_toLex.mpr <| .inr ⟨hd, Prod.Lex.toLex_lt_toLex.mpr (.inl h)⟩

theorem work_lt_of_rest (hd : t.drain.rank t.ring.length = s.drain.rank s.ring.length)
    (hc : t.captures.queue.length = s.captures.queue.length) (h : t.rest < s.rest) :
    t.work < s.work :=
  Prod.Lex.toLex_lt_toLex.mpr <| .inr ⟨hd, Prod.Lex.toLex_lt_toLex.mpr (.inr ⟨hc, h⟩)⟩

-- A step that leaves all work as it is.
def Idle (s : State) (a : Action) : Prop :=
  Blocked s a ∨
    match a with
    | .stops    => True
    | .writes _ => s.lines.queue = [] ∧ (s.writerTx ∨ s.workerDone = false)
    | .releases => s.writerTx = false
    | _         => False

-- Any other step leaves less of it.
theorem Moves.work (h : Moves endian s a t os) (hs : Stopped s) (ha : a.isArrival = false) :
    t.work < s.work ∨ (Idle s a ∧ t.work = s.work ∧ t.helper = s.helper) := by
  cases h
  case arrives      => contradiction
  case goesOn hr    => simp [hs.2] at hr
  case blocked hb   => exact .inr ⟨.inl hb, rfl, rfl⟩
  case stops        => exact .inr ⟨.inr trivial, rfl, rfl⟩
  case polls hl hw _ => exact .inr ⟨.inr ⟨hl, hw⟩, rfl, rfl⟩
  case ends hd _ | drained hd _ | aborts hd _ =>
    exact .inl <| work_lt_of_rank <| by simp [Drain.rank, hd]
  case skips hd hn _ | refuses hd hn _ _ | accepts hd hn _ _ =>
    exact .inl <| work_lt_of_rank <| by simp [Drain.rank, hd, hn]
  case wakes readable hd =>
    exact .inl <| work_lt_of_rank <| by cases readable <;> simp [Drain.rank, hd]
  case turns hc => exact .inl <| work_lt_of_captures rfl <| by simp [hc]
  case sends ho hl =>
    refine .inl <| work_lt_of_rest rfl rfl ?_
    simp only [State.rest, ho, hl, List.length_append, List.length_cons, List.length_nil]
    omega
  case workerEnds hw _ _ _ =>
    refine .inl <| work_lt_of_rest rfl rfl ?_
    simp [State.rest, hw]
  case writes hl _ =>
    refine .inl <| work_lt_of_rest rfl rfl ?_
    simp [State.rest, hl]
  case threadEnds ht _ _ _ =>
    refine .inl <| work_lt_of_rest rfl rfl ?_
    simp [State.rest, ht]
  case releases =>
    cases hx : s.writerTx
    case true =>
      refine .inl <| work_lt_of_rest rfl rfl ?_
      simp [State.rest, hx]
    case false =>
      have he : { s with writerTx := false } = s := by rw [←hx]
      exact .inr ⟨.inr hx, congrArg State.work he, congrArg State.helper he⟩

-- Why the task can go on.
inductive Helps (s : State) : Task → Prop
  | timer (hd : s.drain = .wait) : Helps s .timer
  | drain (hd : s.drain ≠ .done) : Helps s .drain
  | main (hd : s.drain = .done) (hx : s.writerTx) : Helps s .main
  | worker (hd : s.drain = .done) (hw : s.workerDone = false)
    (ho : s.outgoing = [] ∨ s.lines.isFull = false) : Helps s .worker
  | writer (hx : s.writerTx = false) (hw : s.workerDone ∨ s.lines.isFull) : Helps s .writer

theorem helps_helper : Helps s s.helper := by
  fun_cases State.helper s
  case case1 hd         => exact .timer hd
  case case2 hd         => exact .drain hd
  case case3 hd hx      => exact .main (not_not.mp hd) hx
  case case4 hd _ ho =>
    simp only [Bool.and_eq_true, Bool.not_eq_true', Bool.or_eq_true, List.isEmpty_iff] at ho
    exact .worker (not_not.mp hd) ho.1 ho.2
  case case5 hx ho =>
    refine .writer (by simpa using hx) (or_iff_not_imp_left.mpr fun hw => ?_)
    by_contra hf
    simp [hw, hf] at ho

theorem not_idle_of_helper (hs : Stopped s) (hg : ¬s.threadDone) (ha : a.task = some s.helper) :
    ¬Idle s a := by
  have hh := @helps_helper s
  have hr := hs.2
  cases a
  case arrives | stops => contradiction
  all_goals
    rw [←Option.some.inj ha] at hh
    cases hh
  case drains.drain hd     => simp [Idle, Blocked, hd]
  case aborts.timer hd     => simp [Idle, Blocked, hd, hr]
  case releases.main hd hx => simp [Idle, Blocked, hd, hr, hx]
  case works.worker hd hw ho =>
    simp only [Idle, Blocked, hw, hd]
    obtain ho | ho := ho <;> simp [ho]
  case writes.writer hx hw =>
    simp only [Idle, Blocked, hg, hx]
    rintro (hn | ⟨hl, hn⟩)
    case inl => simp at hn
    case inr =>
      replace hn : s.workerDone = false := by simpa using hn
      simp [hn, Channel.isFull, hl, writeChannelCapacity] at hw

theorem Moves.running (h : Moves endian s a t os) (hr : s.running = false) : t.running = false := by
  cases h <;> simp_all

theorem progress : (machine endian).Progress Action.task State.work State.helper Stopped
    (fun s => s.threadDone) (fun a => a.isArrival = false) where
  inv _ _ hs _          := ⟨(moves_step hs.1).orderly hs.1, (moves_step hs.1).running hs.2⟩
  keeps _ _ hs ha _     := ((moves_step hs.1).work hs ha).imp_right (·.2)
  helps _ _ hs ha hg ht :=
    ((moves_step hs.1).work hs ha).resolve_right fun hi => not_idle_of_helper hs hg ht hi.1

end Work

section Runs

variable {acts : Nat → Action} {n : Nat}

theorem orderly_path (h : Orderly s) : Orderly ((machine endian).path s acts n) :=
  Machine.inv_path (C := fun _ => True) (fun _ _ h _ => (moves_step h).orderly h) h fun _ => trivial

theorem path_running (hs : Orderly s) (h : acts n = .stops) {k : Nat} (hk : n < k) :
    ((machine endian).path s acts k).running = false := by
  induction hk
  case refl      => rw [Machine.path, h]; rfl
  case step _ hi => exact (moves_step (orderly_path hs)).running hi

-- Once it is told to stop, the program comes to its end, if nothing arrives any more and none of the
-- tasks waits forever for its turn.
theorem finishes (fileBackend : Option Spool.WriterBackend) (emitToStdout : Bool)
    (stdout : Spool.State) (hf : Machine.Fair Action.task acts) (hs : ∃ n, acts n = .stops)
    (ha : ∃ n, ∀ k, n ≤ k → (acts k).isArrival = false) :
    ∃ n, Finished ((machine endian).path (start fileBackend emitToStdout stdout) acts n) := by
  obtain ⟨n, hn⟩ := hs
  obtain ⟨m, hm⟩ := ha
  let k := n + 1 + m
  have ho : Orderly (start fileBackend emitToStdout stdout) := orderly_start
  have hk : Stopped ((machine endian).path (start fileBackend emitToStdout stdout) acts k) :=
    ⟨orderly_path ho, path_running ho hn (by omega)⟩
  obtain ⟨j, hj⟩ := progress.reaches hk (fun i => hm (k + i) (by omega)) (hf.shift k)
  exact ⟨k + j, (orderly_path ho).finished (by rwa [Machine.path_add])⟩

def quietWriter : WriterEnv where
  fileEnv      := ⟨0, fun _ => 0, .none⟩
  stdoutFaults := .none
  fileFlush    := ⟨none, false, false⟩
  stdoutFlush  := ⟨none, false, false⟩
  fileFaults   := .none

-- An item arrives, and then the tasks take turns.
def roundRobin (item : Spool.Bytes) : Nat → Action
  | 0     => .arrives item
  | n + 1 =>
    match n % 6 with
    | 0 => .drains true
    | 1 => .works (.still default)
    | 2 => .writes quietWriter
    | 3 => .stops
    | 4 => .aborts
    | _ => .releases

theorem fair_roundRobin (item : Spool.Bytes) : Machine.Fair Action.task (roundRobin item) := by
  have hr (n r : Nat) (hr : r < 6) : (6 * n + r) % 6 = r := by omega
  intro task n
  cases task
  case drain  => exact ⟨6 * n + 1, by omega, by simp [roundRobin, Action.task]⟩
  case worker => exact ⟨6 * n + 1 + 1, by omega, by simp [roundRobin, hr, Action.task]⟩
  case writer => exact ⟨6 * n + 2 + 1, by omega, by simp [roundRobin, hr, Action.task]⟩
  case timer  => exact ⟨6 * n + 4 + 1, by omega, by simp [roundRobin, hr, Action.task]⟩
  case main   => exact ⟨6 * n + 5 + 1, by omega, by simp [roundRobin, hr, Action.task]⟩

theorem finishes_roundRobin : ∃ n, Finished
    ((machine .little).path (start none false ⟨⟨0, none, .new, [], [], 0, 0⟩, ⟨∅, none, []⟩⟩)
      (roundRobin (Ebpf.eventBytes .little (fun _ => 0) default)) n) := by
  refine finishes none false _ (fair_roundRobin _) ⟨4, rfl⟩ ⟨1, fun k hk => ?_⟩
  obtain ⟨n, rfl⟩ := Nat.exists_eq_add_of_le' hk
  simp only [roundRobin]
  split <;> rfl

end Runs

end TlsProbe.Probe
