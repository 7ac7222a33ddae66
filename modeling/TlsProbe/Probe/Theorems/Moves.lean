import TlsProbe.Probe.Basic

namespace TlsProbe.Probe

open Spool (Bytes Faults FlushEnv Received)

variable {endian : Process.Endian} {s t : State} {a : Action} {os : List Observation}

-- The tasks end one behind the other, and none ends before it has handled all that it is given.
structure Orderly (s : State) : Prop where
  stopped  : s.drain = .done → s.running = false
  worker   : s.workerDone → s.drain = .done ∧ s.captures.queue = [] ∧ s.outgoing = []
  released : s.writerTx = false → s.drain = .done
  writer   : s.threadDone → s.workerDone ∧ s.writerTx = false ∧ s.lines.queue = []

theorem orderly_start {fileBackend : Option Spool.WriterBackend} {emitToStdout : Bool}
    {stdout : Spool.State} : Orderly (start fileBackend emitToStdout stdout) := by
  constructor <;> simp [start]

-- The task has to wait, or there is nothing left to do for it.
def Blocked (s : State) : Action → Prop
  | .arrives _ | .stops => False
  | .drains _           => s.drain = .done
  | .aborts             => s.running ∨ s.drain ≠ .wait
  | .works _            => s.workerDone ∨ (s.outgoing ≠ [] ∧ s.lines.isFull) ∨
      (s.outgoing = [] ∧ s.captures.queue = [] ∧ s.drain ≠ .done)
  | .writes _           => s.threadDone
  | .releases           => s.running ∨ s.drain ≠ .done

-- What a step can do. In particular, no task finds a channel closed that it sends to.
inductive Moves (endian : Process.Endian) (s : State) :
    Action → State → List Observation → Prop
  | blocked {action} (h : Blocked s action) : Moves endian s action s []
  | arrives {item} :
    Moves endian s (.arrives item) { s with ring := s.ring ++ [item] } [.arrives item]
  | stops : Moves endian s .stops { s with running := false } []
  | goesOn {readable} (hd : s.drain = .check) (hr : s.running) :
    Moves endian s (.drains readable) { s with drain := .wait } []
  | ends {readable} (hd : s.drain = .check) (hr : s.running = false) :
    Moves endian s (.drains readable) { s with drain := .done } []
  | wakes {readable} (hd : s.drain = .wait) :
    Moves endian s (.drains readable) { s with drain := if readable then .read else .check } []
  | aborts (hd : s.drain = .wait) (hr : s.running = false) :
    Moves endian s .aborts { s with drain := .done } []
  | drained {readable} (hd : s.drain = .read) (hn : s.ring = []) :
    Moves endian s (.drains readable) { s with drain := .check } []
  | skips {readable item ring} (hd : s.drain = .read) (hn : s.ring = item :: ring)
    (he : Ebpf.decode endian item = none) :
    Moves endian s (.drains readable) { s with ring } [.reads item]
  | accepts {readable item ring capture captures} (hd : s.drain = .read)
    (hn : s.ring = item :: ring) (he : Ebpf.decode endian item = some capture)
    (hc : captures.queue = s.captures.queue ++ [capture]) :
    Moves endian s (.drains readable) { s with ring, captures } [.reads item, .accepts capture]
  | refuses {readable item ring capture} (hd : s.drain = .read) (hn : s.ring = item :: ring)
    (he : Ebpf.decode endian item = some capture) (hc : s.captures.isFull) :
    Moves endian s (.drains readable)
      { s with ring, eventsDropped := s.eventsDropped + 1 } [.reads item, .refuses capture]
  | sends {pass line outgoing lines} (hw : s.workerDone = false)
    (ho : s.outgoing = line :: outgoing) (hl : lines.queue = s.lines.queue ++ [line]) :
    Moves endian s (.works pass) { s with lines, outgoing, own := s.own - 1 } []
  | turns {pass capture captures own} (hw : s.workerDone = false) (ho : s.outgoing = [])
    (hc : s.captures.queue = capture :: captures.queue) :
    Moves endian s (.works pass)
      { s with
        captures
        worker   := (s.worker.step { pass with capture }).1
        outgoing := (s.worker.step { pass with capture }).2.map eventLine
        own
      }
      [.turns { pass with capture } (s.worker.step { pass with capture }).2]
  | workerEnds {pass} (hw : s.workerDone = false) (ho : s.outgoing = [])
    (hc : s.captures.queue = []) (hd : s.drain = .done) :
    Moves endian s (.works pass) { s with workerDone := true } []
  | writes {env line lines received} (ht : s.threadDone = false)
    (hl : s.lines.queue = line :: lines.queue)
    (hr : received = .line line env.fileEnv env.stdoutFaults env.fileFlush env.stdoutFlush) :
    Moves endian s (.writes env) { s with lines, thread := s.thread.receive received }
      [.receives received]
  | polls {env received} (ht : s.threadDone = false) (hl : s.lines.queue = [])
    (hw : s.writerTx ∨ s.workerDone = false)
    (hr : received = .empty env.fileFlush env.stdoutFlush) :
    Moves endian s (.writes env) { s with thread := s.thread.receive received }
      [.receives received]
  | threadEnds {env} (ht : s.threadDone = false) (hl : s.lines.queue = [])
    (hx : s.writerTx = false) (hw : s.workerDone) :
    Moves endian s (.writes env)
      { s with thread := s.thread.finish env.fileFaults env.stdoutFlush, threadDone := true }
      [.finishes env.fileFaults env.stdoutFlush]
  | releases (hr : s.running = false) (hd : s.drain = .done) :
    Moves endian s .releases { s with writerTx := false } []

section Orderly

theorem Orderly.not_workerDone (h : Orderly s) (hd : s.drain ≠ .done) : s.workerDone = false :=
  Bool.eq_false_iff.mpr fun hw => hd (h.worker hw).1

theorem Orderly.not_threadDone (h : Orderly s) (hw : s.workerDone = false) :
    s.threadDone = false :=
  Bool.eq_false_iff.mpr fun ht => by simp [(h.writer ht).1] at hw

theorem Orderly.writerTx (h : Orderly s) (hd : s.drain ≠ .done) : s.writerTx = true :=
  Bool.of_not_eq_false fun hx => hd (h.released hx)

-- As long as the worker is not done, neither is the writer thread.
theorem orderly_of_working (hs : s.drain = .done → s.running = false) (hw : s.workerDone = false)
    (hx : s.writerTx = false → s.drain = .done) (ht : s.threadDone = false) : Orderly s where
  stopped  := hs
  worker   := by simp [hw]
  released := hx
  writer   := by simp [ht]

end Orderly

theorem moves_drains (h : Orderly s) (readable : Bool) :
    Moves endian s (.drains readable) (s.stepDrain endian readable).1
      (s.stepDrain endian readable).2 := by
  unfold State.stepDrain
  split
  case h_1 hd =>
    dsimp only
    split
    case isTrue hr  => exact .goesOn hd hr
    case isFalse hr => exact .ends hd (by simpa using hr)
  case h_2 hd => exact .wakes hd
  case h_4 hd => exact .blocked hd
  case h_3 hd =>
    have hw : s.workerDone = false := h.not_workerDone (by simp [hd])
    split
    case h_1 hn => exact .drained hd hn
    case h_2 item ring hn =>
      unfold State.forward
      split
      case h_1 he => exact .skips hd hn he
      case h_2 capture he =>
        rw [if_neg (by simp [hw])]
        split
        case h_1 captures hc => exact .accepts hd hn he (Channel.trySend_eq_some hc).1
        case h_2 hc          => exact .refuses hd hn he (Channel.trySend_eq_none.mp hc)

theorem moves_works (h : Orderly s) (pass : Pass) :
    Moves endian s (.works pass) (s.stepWorker pass).1 (s.stepWorker pass).2 := by
  unfold State.stepWorker
  split
  case isTrue hw => exact .blocked (.inl hw)
  case isFalse hw =>
    replace hw : s.workerDone = false := by simpa using hw
    split
    case h_1 line outgoing ho =>
      rw [State.sendLine, if_neg (by simp [h.not_threadDone hw])]
      split
      case h_1 lines hl => exact .sends hw ho (Channel.trySend_eq_some hl).1
      case h_2 hl =>
        exact .blocked <| .inr <| .inl ⟨by simp [ho], Channel.trySend_eq_none.mp hl⟩
    case h_2 ho =>
      split
      case h_1 capture captures hc => exact .turns hw ho (Channel.tryRecv_eq_some hc)
      case h_2 hc =>
        replace hc := Channel.tryRecv_eq_none.mp hc
        by_cases hd : s.drain = .done
        case pos =>
          simp only [hd, decide_true]
          exact hd ▸ .workerEnds hw ho hc hd
        case neg =>
          have hs : { s with workerDone := decide (s.drain = .done) } = s := by simp [hd, ←hw]
          rw [hs]
          exact .blocked (.inr (.inr ⟨ho, hc, hd⟩))

theorem moves_writes (env : WriterEnv) :
    Moves endian s (.writes env) (s.stepWriter env).1 (s.stepWriter env).2 := by
  unfold State.stepWriter
  split
  case isTrue ht => exact .blocked ht
  case isFalse ht =>
    replace ht : s.threadDone = false := by simpa using ht
    split
    case h_1 line lines hl => exact .writes ht (Channel.tryRecv_eq_some hl) rfl
    case h_2 hl =>
      replace hl := Channel.tryRecv_eq_none.mp hl
      split
      case isTrue hw  => exact .polls ht hl (by simpa using hw) rfl
      case isFalse hw =>
        obtain ⟨hx, hw⟩ : s.writerTx = false ∧ s.workerDone := by simpa using hw
        exact .threadEnds ht hl hx hw

theorem moves_aborts : Moves endian s .aborts s.abortDrain [] := by
  unfold State.abortDrain
  split
  case isTrue hd =>
    obtain ⟨hr, hd⟩ : s.running = false ∧ s.drain = .wait := by simpa using hd
    exact .aborts hd hr
  case isFalse hn =>
    refine .blocked (or_iff_not_imp_left.mpr fun hr hd => hn ?_)
    simp [hr, hd]

theorem moves_releases : Moves endian s .releases s.release [] := by
  unfold State.release
  split
  case isTrue hd =>
    obtain ⟨hr, hd⟩ : s.running = false ∧ s.drain = .done := by simpa using hd
    exact .releases hr hd
  case isFalse hn =>
    refine .blocked (or_iff_not_imp_left.mpr fun hr hd => hn ?_)
    simp [hr, hd]

theorem moves_step (h : Orderly s) :
    Moves endian s a ((machine endian).step s a).1 ((machine endian).step s a).2 := by
  cases a
  case arrives         => exact .arrives
  case stops           => exact .stops
  case drains readable => exact moves_drains h readable
  case works pass      => exact moves_works h pass
  case writes env      => exact moves_writes env
  case aborts          => exact moves_aborts
  case releases        => exact moves_releases

theorem Moves.orderly (h : Moves endian s a t os) (hs : Orderly s) : Orderly t := by
  -- None of the other tasks ends before the one that drains the ring buffer.
  have hb {t : State} (hd : s.drain ≠ .done) (hr : t.drain = .done → t.running = false)
      (hw : t.workerDone = s.workerDone) (hx : t.writerTx = s.writerTx)
      (ht : t.threadDone = s.threadDone) : Orderly t := by
    have hn := hs.not_workerDone hd
    refine orderly_of_working hr (hw.trans hn) ?_ (ht.trans (hs.not_threadDone hn))
    simp [hx, hs.writerTx hd]
  cases h
  case blocked          => exact hs
  case arrives          => exact ⟨hs.stopped, hs.worker, hs.released, hs.writer⟩
  case stops            => exact ⟨fun _ => rfl, hs.worker, hs.released, hs.writer⟩
  case goesOn hd _      => exact hb (by simp [hd]) (by simp) rfl rfl rfl
  case ends hd hr       => exact hb (by simp [hd]) (fun _ => hr) rfl rfl rfl
  case aborts hd hr     => exact hb (by simp [hd]) (fun _ => hr) rfl rfl rfl
  case drained hd _     => exact hb (by simp [hd]) (by simp) rfl rfl rfl
  case skips hd _ _     => exact hb (by simp [hd]) (by simp [hd]) rfl rfl rfl
  case accepts hd _ _ _ => exact hb (by simp [hd]) (by simp [hd]) rfl rfl rfl
  case refuses hd _ _ _ => exact hb (by simp [hd]) (by simp [hd]) rfl rfl rfl
  case wakes readable hd =>
    refine hb (by simp [hd]) ?_ rfl rfl rfl
    cases readable <;> simp
  case sends hw _ _ => exact orderly_of_working hs.stopped hw hs.released (hs.not_threadDone hw)
  case turns hw _ _ => exact orderly_of_working hs.stopped hw hs.released (hs.not_threadDone hw)
  case workerEnds hw ho hc hd =>
    exact ⟨hs.stopped, fun _ => ⟨hd, hc, ho⟩, hs.released, by simp [hs.not_threadDone hw]⟩
  case writes ht _ _     => exact ⟨hs.stopped, hs.worker, hs.released, by simp [ht]⟩
  case polls ht _ _ _    => exact ⟨hs.stopped, hs.worker, hs.released, by simp [ht]⟩
  case threadEnds hl hx hw => exact ⟨hs.stopped, hs.worker, hs.released, fun _ => ⟨hw, hx, hl⟩⟩
  case releases _ hd     =>
    exact ⟨hs.stopped, hs.worker, fun _ => hd, fun ht => ⟨(hs.writer ht).1, rfl, (hs.writer ht).2.2⟩⟩

-- The tasks have ended, and there is nothing left of what they were given.
structure Finished (s : State) : Prop where
  drain    : s.drain = .done
  worker   : s.workerDone
  thread   : s.threadDone
  captures : s.captures.queue = []
  outgoing : s.outgoing = []
  lines    : s.lines.queue = []

theorem Orderly.finished (h : Orderly s) (ht : s.threadDone) : Finished s := by
  obtain ⟨hw, -, hl⟩ := h.writer ht
  obtain ⟨hd, hc, ho⟩ := h.worker hw
  exact ⟨hd, hw, ht, hc, ho, hl⟩

theorem orderly_state {is : List Action} (h : Orderly s) :
    Orderly ((machine endian).state s is) :=
  Machine.inv_reachable (fun _ _ h => (moves_step h).orderly h) h

end TlsProbe.Probe
