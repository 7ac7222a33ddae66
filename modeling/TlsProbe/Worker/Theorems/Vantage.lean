import TlsProbe.Reassembler.Theorems.Mirror
import TlsProbe.Worker.Theorems.Tls13Filter

open Std

namespace TlsProbe

def Pass.mirror (pass : Pass) : Pass := { pass with
  capture     := pass.capture.mirror
  insertClock := pass.insertClock.mirror
  sweepClock  := pass.sweepClock.mirror
}

namespace Record

variable {record : Record}

def mirror : Record → Record
  | own capture      => own capture.mirror
  | assembled record => assembled record.mirror

@[simp]
theorem mirror_head : record.mirror.head = record.head.mirror := by
  cases record <;> rfl

@[simp]
theorem mirror_payload : record.mirror.payload = record.payload := by
  cases record <;> rfl

@[simp]
theorem mirror_key : record.mirror.key = record.key := by
  cases record <;> rfl

@[simp]
theorem mirror_trailing : record.mirror.trailing = record.trailing := by
  cases record <;> rfl

@[simp]
theorem mirror_message : record.mirror.message = record.message := by
  have hc : record.head.mirror.isClientHello = record.head.isClientHello := rfl
  have hs : record.head.mirror.isServerHello = record.head.isServerHello := rfl
  have ht : record.head.mirror.handshakeType = record.head.handshakeType := rfl
  simp only [message, mirror_head, hc, hs, ht, RawTlsCapture.mirror_isAlert]

end Record

namespace Conn

variable {ttlNs : UInt64} {e : Option PendingEntry} {ce : Event}

-- Neither the entry nor the negotiation that it keeps tells of a client certificate.
def Anonymous (entry : PendingEntry) : Prop :=
  entry.1.mtls = false ∧ ∀ negotiation ∈ entry.1.postShNegotiation, negotiation.mtls = false

theorem step_anonymous (hc : ce ≠ .clientCertificate) (h : ∀ entry ∈ e, Anonymous entry) :
    ∀ entry ∈ (step ttlNs e ce).1, Anonymous entry := by
  intro entry he
  obtain ⟨hello, nowNs, rfl, rfl⟩ | ⟨entry', he', hb⟩ := step_cases he
  case inl => exact ⟨rfl, by simp [ParsedClientHello.summary]⟩
  case inr =>
    have ha := h entry' he'
    cases hb
    case joined =>
      refine ⟨ha.1, ?_⟩
      intro negotiation hn
      cases hn
      exact ha.1
    case requested => exact ha
    case certified => contradiction
    case swept     => exact ha

theorem step_mtls (hc : ce ≠ .clientCertificate) (h : ∀ entry ∈ e, Anonymous entry) :
    ∀ negotiation ∈ (step ttlNs e ce).2, negotiation.mtls = false := by
  intro negotiation hn
  obtain ⟨entry, he, ht⟩ := output_cases hn
  cases ht
  case serverHello       => exact (h entry he).1
  case alert             => exact (h entry he).1
  case clientCertificate => contradiction

end Conn

namespace Correlator

variable {c : Correlator} {ev : Event} {calls : List Event}

def Anonymous (c : Correlator) : Prop :=
  ∀ (k : ConnKey) entry, c.pending[k]? = some entry → Conn.Anonymous entry

theorem ownEvent_ne_clientCertificate (hc : ∀ key, ev ≠ .clientCertificate key) (k : ConnKey) :
    ∀ ce ∈ ownEvent k ev, ce ≠ .clientCertificate := by
  rintro ce ho rfl
  cases ev
  case clientCertificate key        => exact hc key rfl
  case clientHello key analysis _ _ => cases analysis <;> simp [ownEvent] at ho
  case serverHello key analysis     => cases analysis <;> simp [ownEvent] at ho
  all_goals simp [ownEvent] at ho

theorem step_anonymous (h : c.Anonymous) (hc : ∀ key, ev ≠ .clientCertificate key) :
    (machine.step c ev).1.Anonymous :=
  step_entries (Q := (· ≠ .clientCertificate)) (fun _ _ _ => Conn.step_anonymous)
    (ownEvent_ne_clientCertificate hc) h

theorem step_mtls (h : c.Anonymous) (hc : ∀ key, ev ≠ .clientCertificate key) :
    ∀ result ∈ (machine.step c ev).2, result.2.mtls = false := by
  rintro ⟨k, negotiation⟩ hr
  have hr : negotiation ∈ resultsOf k (machine.step c ev).2 :=
    List.mem_filterMap.mpr ⟨_, hr, by simp⟩
  rw [step_projected.2, projected] at hr
  cases ho : ownEvent k ev <;> simp only [ho] at hr
  case none => contradiction
  case some ce =>
    exact Conn.step_mtls (ownEvent_ne_clientCertificate hc k ce ho)
      (fun entry he => h k entry (Option.ite_none_left_eq_some.mp he).2) negotiation hr

-- Only client certificates make a correlator tell of client certificates.
theorem run_anonymous (h : c.Anonymous)
    (hc : ∀ ev ∈ calls, ∀ key, ev ≠ .clientCertificate key) :
    (machine.state c calls).Anonymous ∧
    ∀ result ∈ machine.output c calls, result.2.mtls = false := by
  have ha : machine.AllSteps (fun _ ev => ∀ key, ev ≠ .clientCertificate key) c calls :=
    Machine.allSteps_of_inputs hc
  exact ⟨Machine.inv_state (fun _ _ => step_anonymous) h ha,
    Machine.inv_output (fun _ _ => step_anonymous) (fun _ _ => step_mtls) h ha⟩

end Correlator

namespace Tracking

variable {t : Tracking} {pass : Pass} {record : Record}

-- A certificate that does not show from which side it comes: no ClientHello waits for it, and its
-- bytes parse as a hello of TLS 1.3 in both directions or in none.
def Indifferent (t : Tracking) (record : Record) : Prop :=
  record.message = .certificate →
    t.correlator.pending[record.key]? = none ∧
    isTls13 record.payload true = isTls13 record.payload false

instance : Decidable (t.Indifferent record) :=
  inferInstanceAs <| Decidable (_ → _ ∧ _)

theorem mirror_suppressed (h : t.Indifferent record) :
    record.mirror.suppressed = record.suppressed := by
  simp only [Record.suppressed, Record.mirror_message, Record.mirror_payload]
  cases hm : record.message <;> simp only
  case certificate =>
    rw [Record.mirror_head, RawTlsCapture.mirror_isIngress]
    cases record.head.isIngress <;> simp [(h hm).2]

theorem handle_mirror (h : t.Indifferent record) :
    t.handle pass.mirror record.mirror = t.handle pass record := by
  simp only [handle, Record.mirror_message]
  cases hm : record.message <;> simp only
  case clientHello => simp only [handleClientHello, Record.mirror_payload, Record.mirror_key]; rfl
  case serverHello =>
    simp only [handleServerHello, Record.mirror_payload, Record.mirror_key, Record.mirror_trailing]
  case alert => simp only [handleAlert, Record.mirror_payload, Record.mirror_key]
  case certificate =>
    obtain ⟨hp, ht⟩ := h hm
    have hc : t.correlator.onClientCertificate record.key = (t.correlator, none) := by
      simp [Correlator.onClientCertificate, hp]
    have he : pass.mirror.env = pass.env := rfl
    simp only [handleCertificate, Record.mirror_payload, Record.mirror_key, Record.mirror_head,
      RawTlsCapture.mirror_isIngress, he, hc]
    cases record.head.isIngress <;> simp [filterTls13, ht]
  case certificateRequest =>
    simp only [handleCertificateRequest, Record.mirror_payload, Record.mirror_key]

theorem calls_of_other (hm : record.message ≠ .certificate) :
    ∀ ev ∈ record.calls pass, ∀ key, ev ≠ .clientCertificate key := by
  simp only [Record.calls]
  cases hr : record.message <;> simp only [hr, ne_eq, not_true_eq_false] at hm ⊢
  case clientHello => cases parseTlsPayload record.payload true <;> simp
  case serverHello =>
    cases parseTlsPayload record.payload false <;> simp only
    case error => simp
    case ok analysis =>
      intro ev hev
      obtain hev | hev := List.mem_append.mp hev
      case inl =>
        obtain ⟨_, _, rfl⟩ := List.mem_map.mp hev
        simp
      case inr => simp_all
  case alert => cases parseAlert record.payload <;> simp
  all_goals simp

theorem handle_anonymous (h : t.correlator.Anonymous) (hi : t.Indifferent record) :
    (t.handle pass record).tracking.correlator.Anonymous ∧
    ∀ negotiation ∈ (t.handle pass record).negotiation, negotiation.mtls = false := by
  obtain ⟨hs, ho⟩ := t.handle_calls pass record
  have hr : (Correlator.machine.state t.correlator (record.calls pass)).Anonymous ∧
      ∀ result ∈ Correlator.machine.output t.correlator (record.calls pass),
        result.2.mtls = false := by
    by_cases hm : record.message = .certificate
    case neg => exact Correlator.run_anonymous h (calls_of_other hm)
    case pos =>
      have hc : t.correlator.onClientCertificate record.key = (t.correlator, none) := by
        simp [Correlator.onClientCertificate, (hi hm).1]
      simp only [Record.calls, hm]
      split <;> simp [Correlator.machine, hc, h]
  rw [hs]
  refine ⟨hr.1, fun negotiation hn => hr.2 (record.key, negotiation) ?_⟩
  rw [←ho]
  exact List.mem_map.mpr ⟨negotiation, Option.mem_toList.mpr hn, rfl⟩

end Tracking

namespace Worker

variable {w w' : Worker} {pass : Pass} {c : ConnKey}

-- The states of workers that see the same traffic from its two ends.
structure Mirrors (c : ConnKey) (w w' : Worker) : Prop where
  reassembler    : w.reassembler.MirrorsOf c w'.reassembler
  tracking       : w'.tracking = w.tracking
  timeoutCounter : w'.timeoutCounter = w.timeoutCounter

-- The step does not depend on the end from which it is seen.
def Indifferent (w : Worker) (pass : Pass) : Prop :=
  ∀ record ∈ w.received pass, w.tracking.Indifferent record

instance : Decidable (w.Indifferent pass) :=
  inferInstanceAs <| Decidable (∀ record ∈ w.received pass, _)

theorem received_eq : w.received pass =
    if pass.capture.isFragment || pass.capture.isContinuation then
      (w.reassembler.insert pass.insertClock pass.capture).2.map .assembled
    else
      some (.own pass.capture) := by
  have hn : pass.capture.flags &&& (flagFragment ||| flagContinuation) = 0 ↔ _ :=
    Reassembler.noFlags_iff
  simp only [received, receive]
  cases hf : pass.capture.isFragment <;> cases hc : pass.capture.isContinuation <;>
    simp [hn, hf, hc]

namespace Mirrors

theorem received (h : Mirrors c w w') :
    w'.received pass.mirror = (w.received pass).map (·.mirror) := by
  have hi : (w'.reassembler.insert pass.insertClock.mirror pass.capture.mirror).2.toList =
      ((w.reassembler.insert pass.insertClock pass.capture).2.map (·.mirror)).toList :=
    (h.reassembler.records h.reassembler.room h.reassembler.room').trans Option.toList_map.symm
  have hi : (w'.reassembler.insert pass.insertClock.mirror pass.capture.mirror).2 =
      (w.reassembler.insert pass.insertClock pass.capture).2.map (·.mirror) := by
    simpa using congrArg List.head? hi
  have hf : pass.mirror.capture.isFragment = pass.capture.isFragment :=
    RawTlsCapture.mirror_isFragment
  have hc : pass.mirror.capture.isContinuation = pass.capture.isContinuation :=
    RawTlsCapture.mirror_isContinuation
  rw [received_eq, received_eq, hf, hc]
  split
  case isTrue =>
    refine (congrArg (Option.map Record.assembled) hi).trans ?_
    rw [Option.map_map, Option.map_map]
    rfl
  case isFalse => rfl

theorem tracked (h : Mirrors c w w') (hi : w.Indifferent pass) :
    w'.tracked pass.mirror = w.tracked pass := by
  rw [Worker.tracked, Worker.tracked, h.received, h.tracking]
  cases hr : w.received pass
  case none        => rfl
  case some record => simp only [Option.map_some, Tracking.handle_mirror (hi record hr)]

theorem suppressed (h : Mirrors c w w') (hi : w.Indifferent pass) :
    (w'.received pass.mirror).any (·.suppressed) = (w.received pass).any (·.suppressed) := by
  rw [h.received]
  cases hr : w.received pass
  case none        => rfl
  case some record => simpa using Tracking.mirror_suppressed (hi record hr)

theorem sweeps (h : Mirrors c w w') (hi : w.Indifferent pass) :
    w'.Sweeps pass.mirror ↔ w.Sweeps pass := by
  have hs := h.suppressed hi
  cases hw : (w.received pass).any (·.suppressed) <;> rw [hw] at hs
  case true =>
    exact iff_of_false (not_sweeps_of_suppressed hs) (not_sweeps_of_suppressed hw)
  case false => rw [sweeps_iff hs, sweeps_iff hw, h.timeoutCounter]

theorem step (h : Mirrors c w w') (hi : w.Indifferent pass) (hc : pass.capture.connKey = c) :
    Mirrors c (w.step pass).1 (w'.step pass.mirror).1 where
  reassembler := by
    have he : w'.reassemblerCalls pass.mirror = (w.reassemblerCalls pass).map (·.mirror) := by
      simp only [reassemblerCalls, h.sweeps hi]
      split <;> rfl
    rw [step_reassembler, step_reassembler, he]
    refine h.reassembler.run fun ev hm cap hcap => ?_
    simp only [reassemblerCalls, List.mem_cons] at hm
    obtain rfl | hm := hm
    case inl =>
      cases hcap
      exact hc
    case inr =>
      split at hm
      case isTrue =>
        obtain rfl := List.mem_singleton.mp hm
        contradiction
      case isFalse => contradiction
  tracking := by
    simp only [step_tracking, h.sweeps hi, h.tracked hi]
    rfl
  timeoutCounter := by
    rw [step_timeoutCounter, step_timeoutCounter, h.suppressed hi, h.timeoutCounter]

theorem negotiations (h : Mirrors c w w') (hi : w.Indifferent pass) :
    w'.negotiations pass.mirror = w.negotiations pass := by
  rw [negotiations_eq, negotiations_eq, h.received, h.tracking]
  cases hr : w.received pass
  case none => rfl
  case some record =>
    simp only [Option.map_some, Tracking.handle_mirror (hi record hr),
      Tracking.mirror_suppressed (hi record hr)]

theorem new : Mirrors c new new where
  reassembler := {
    flows    := by simp [Worker.new, Reassembler.new]
    maxFlows := rfl
    timeout  := rfl
    own      := by simp [Reassembler.Of, Worker.new, Reassembler.new]
    own'     := by simp [Reassembler.Of, Worker.new, Reassembler.new]
    many     := by decide
  }
  tracking       := rfl
  timeoutCounter := rfl

end Mirrors

theorem step_anonymous (h : w.tracking.correlator.Anonymous) (hi : w.Indifferent pass) :
    (w.step pass).1.tracking.correlator.Anonymous := by
  have ht : (w.tracked pass).correlator.Anonymous := by
    rw [Worker.tracked]
    cases hr : w.received pass
    case none        => exact h
    case some record => exact (Tracking.handle_anonymous h (hi record hr)).1
  rw [step_tracking]
  split
  case isFalse => exact ht
  case isTrue  =>
    have hs : ∀ key, Correlator.Event.sweep pass.sweepNs ≠ .clientCertificate key := by simp
    exact Correlator.step_anonymous ht hs

theorem negotiations_mtls (h : w.tracking.correlator.Anonymous) (hi : w.Indifferent pass) :
    ∀ negotiation ∈ w.negotiations pass, negotiation.mtls = false := by
  intro negotiation hn
  rw [negotiations_eq] at hn
  cases hr : w.received pass <;> simp only [hr] at hn
  case none => contradiction
  case some record =>
    split at hn
    case isTrue  => contradiction
    case isFalse =>
      exact (Tracking.handle_anonymous h (hi record hr)).2 negotiation (Option.mem_toList.mp hn)

-- The negotiations that the steps of a run emit.
def negotiationsOf (w : Worker) (passes : List Pass) : List (List Negotiation) :=
  (machine.emits w passes).map fun events => events.filterMap (·.negotiation)

-- The certificate list of a Certificate record has an entry.
def listsCertificate (payload : List UInt8) : Bool :=
  match payload.drop 9 with
  | c₀ :: c₁ :: c₂ :: _ => u24FromBe c₀ c₁ c₂ ≠ 0
  | _                   => false

-- The client has sent a certificate: one that travelled in the direction of its ClientHello.
def ClientAuthenticated (records : List Record) : Prop :=
  ∃ hello ∈ records, ∃ certificate ∈ records,
    hello.message = .clientHello ∧ certificate.message = .certificate ∧
    certificate.key = hello.key ∧ certificate.head.isIngress = hello.head.isIngress ∧
    listsCertificate certificate.payload

-- What the vantage point should not make a difference for, in a run.
structure VantageFree (passes : List Pass) : Prop where
  negotiations : negotiationsOf new (passes.map (·.mirror)) = negotiationsOf new passes
  mtls : ∀ before pass after, passes = before ++ pass :: after →
    ∀ negotiation ∈ (machine.state new before).negotiations pass, negotiation.mtls →
      ClientAuthenticated (captured new (before ++ [pass]))

theorem negotiations_mirror {passes : List Pass} (hc : ∀ pass ∈ passes, pass.capture.connKey = c)
    (hi : machine.AllSteps Indifferent new passes) :
    negotiationsOf new (passes.map (·.mirror)) = negotiationsOf new passes := by
  have ht : List.Forall₂ (fun pass pass' => pass' = pass.mirror ∧ pass.capture.connKey = c)
      passes (passes.map (·.mirror)) := by
    rw [List.forall₂_map_right_iff, List.forall₂_same]
    exact fun pass hp => ⟨rfl, hc pass hp⟩
  obtain ⟨-, hn⟩ := Machine.simulation (m := machine) (n := machine) (R := Mirrors c)
    (O := fun events events' =>
      events'.filterMap (·.negotiation) = events.filterMap (·.negotiation))
    (C := Indifferent) (D := fun _ _ => True)
    (by
      rintro w w' pass _ hm ⟨rfl, hk⟩ hi -
      exact ⟨hm.step hi hk, hm.negotiations hi⟩)
    Mirrors.new ht hi (Machine.allSteps_of_forall fun _ _ => trivial)
  rw [negotiationsOf, negotiationsOf, ←List.forall₂_eq_eq_eq, List.forall₂_map_left_iff,
    List.forall₂_map_right_iff]
  exact hn.flip

theorem anonymous_new : (new.tracking.correlator).Anonymous := by
  intro k entry he
  simp [new, Tracking.new, Correlator.new] at he

theorem negotiations_anonymous {passes : List Pass} {t : Worker × Pass}
    (hi : machine.AllSteps Indifferent new passes) (ht : t ∈ machine.trace new passes) :
    ∀ negotiation ∈ t.1.negotiations t.2, negotiation.mtls = false := by
  have ha : t.1.tracking.correlator.Anonymous :=
    Machine.inv_trace (P := fun w => w.tracking.correlator.Anonymous)
      (fun _ _ => step_anonymous) anonymous_new hi ht
  exact negotiations_mtls ha (hi t ht)

-- A run on one connection is the same from both ends if no certificate finds a pending ClientHello.
theorem vantage_free (passes : List Pass) (hc : ∀ pass ∈ passes, pass.capture.connKey = c)
    (hi : machine.AllSteps Indifferent new passes) : VantageFree passes where
  negotiations := negotiations_mirror hc hi
  mtls := by
    rintro before pass after rfl negotiation hn hm
    have ht : (machine.state new before, pass) ∈ machine.trace new (before ++ pass :: after) := by
      simp [Machine.trace_append]
    have hf := negotiations_anonymous hi ht negotiation hn
    rw [hf] at hm
    contradiction

-- A run in which the server's certificate comes after the ServerHello has joined.
theorem vantage_free_serverFlight :
    VantageFree [.still clientHelloCapture, .still serverHelloCapture,
      .still clientCertificateCapture.mirror] :=
  vantage_free (c := clientHelloCapture.connKey) _ (by simp; decide +kernel) (by decide +kernel)

theorem vantage_not_free : ¬VantageFree [.still clientHelloCapture,
    .still certificateRequestCapture, .still serverHelloCapture,
    .still clientCertificateCapture] := by
  intro h
  have hn := congrArg (List.map (List.map Negotiation.mtls)) h.negotiations
  exact absurd hn (by decide +kernel)

end Worker
end TlsProbe
