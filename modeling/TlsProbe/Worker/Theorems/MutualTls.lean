import TlsProbe.Worker.Theorems.Pending

open Std

namespace TlsProbe
namespace Worker

variable {k : ConnKey} {w : Worker} {pass : Pass}
variable {R : PendingEntry → PendingEntry → Prop}

-- The step takes the entry of `k` over into an entry that `R` relates to it, unless the entry is
-- evicted or expires.
structure Carries (R : PendingEntry → PendingEntry → Prop) (k : ConnKey) (w : Worker)
    (pass : Pass) : Prop where
  on   : w.Lasts k pass → ∀ e ∈ entry k w, ∃ e' ∈ entry k (w.step pass).1, R e e'
  back : ∀ e' ∈ entry k (w.step pass).1, w.Lasts k pass ∧ ∃ e ∈ entry k w, R e e'

theorem carries_run {passes : List Pass} (hr : ∀ e, R e e)
    (ht : ∀ e₁ e₂ e₃, R e₁ e₂ → R e₂ e₃ → R e₁ e₃) (h : machine.AllSteps (Carries R k) w passes) :
    (machine.AllSteps (Lasts k) w passes →
      ∀ e ∈ entry k w, ∃ e' ∈ entry k (machine.state w passes), R e e') ∧
    ∀ e' ∈ entry k (machine.state w passes),
      machine.AllSteps (Lasts k) w passes ∧ ∃ e ∈ entry k w, R e e' := by
  induction passes generalizing w
  case nil =>
    exact ⟨fun _ e he => ⟨e, he, hr e⟩, fun e he => ⟨by simp [Machine.AllSteps], e, he, hr e⟩⟩
  case cons pass passes hi =>
    obtain ⟨ho, hf⟩ := hi h.tail
    constructor
    case left =>
      intro hl e he
      obtain ⟨e₁, he₁, h₁⟩ := h.head.on hl.head e he
      obtain ⟨e₂, he₂, h₂⟩ := ho hl.tail e₁ he₁
      exact ⟨e₂, he₂, ht _ _ _ h₁ h₂⟩
    case right =>
      intro e' he'
      obtain ⟨hl, e₁, he₁, h₂⟩ := hf e' he'
      obtain ⟨hs, e, he, h₁⟩ := h.head.back e₁ he₁
      refine ⟨fun t ht => ?_, e, he, ht _ _ _ h₁ h₂⟩
      obtain rfl | ht := List.mem_cons.mp ht
      case inl => exact hs
      case inr => exact hl t ht

theorem idle_carries (hi : w.Idle k pass) : w.Carries Eq k pass where
  on hl e he := ⟨e, (entry_of_idle hi hl).trans he, rfl⟩
  back e' he' := by
    have hl := lasts_of_idle hi (by simp [Option.mem_def.mp he'])
    exact ⟨hl, e', (entry_of_idle hi hl).symm.trans he', rfl⟩

-- The step handles a CertificateRequest on the connection `k`.
def Requests (k : ConnKey) (w : Worker) (pass : Pass) : Prop :=
  ∃ record ∈ w.received pass, record.key = k ∧ record.message = .certificateRequest

def SameStored (e e' : PendingEntry) : Prop :=
  e'.1.postShNegotiation = e.1.postShNegotiation

theorem sameStored_refl (e : PendingEntry) : SameStored e e :=
  rfl

theorem sameStored_trans (e₁ e₂ e₃ : PendingEntry) (h₁ : SameStored e₁ e₂)
    (h₂ : SameStored e₂ e₃) : SameStored e₁ e₃ :=
  h₂.trans h₁

theorem not_evicts_of_certificateRequest (h : w.Requests k pass) : ¬w.Evicts k pass := by
  obtain ⟨record, hr, -, hm⟩ := h
  rintro ⟨record', hr', ev, hev, he⟩
  obtain rfl : record = record' := Option.some.inj (hr.symm.trans hr')
  simp only [Record.calls, hm, List.mem_singleton] at hev
  subst hev
  simp [Correlator.evictedBy] at he

theorem requests_carries (h : w.Requests k pass) : w.Carries SameStored k pass := by
  have hv := not_evicts_of_certificateRequest h
  obtain ⟨record, hr, rfl, hm⟩ := h
  have ht : (w.tracked pass).correlator.pending[record.key]? = _ :=
    tracked_of_received hr ▸ Tracking.handle_certificateRequest hm
  constructor
  case on =>
    intro hl e he
    have hp : w.tracking.correlator.pending[record.key]? = some e := he
    rw [entry_of_not_expires hl.expires, ht, hp]
    exact ⟨_, rfl, rfl⟩
  case back =>
    intro e' he'
    have hx : ¬w.Expires record.key pass := fun hx => by simp [entry_of_expires hx] at he'
    rw [entry_of_not_expires hx, ht] at he'
    obtain ⟨e, he, rfl⟩ := Option.map_eq_some_iff.mp he'
    exact ⟨⟨hv, hx⟩, e, he, rfl⟩

-- The negotiations that a step emits with a record of the connection `k`.
def reports (k : ConnKey) (w : Worker) (pass : Pass) : List Negotiation :=
  if (w.received pass).any (·.key = k) then w.negotiations pass else []

theorem reports_of_record {record : Record} (hr : record ∈ w.received pass) :
    reports record.key w pass =
      if record.suppressed then [] else (w.tracking.handle pass record).negotiation.toList := by
  simp [reports, negotiations_eq, Option.mem_def.mp hr]

theorem reports_of_idle (hi : w.Idle k pass) : reports k w pass = [] := by
  rw [reports, negotiations_eq]
  cases hr : w.received pass
  case none => simp
  case some record =>
    by_cases hk : record.key = k
    case neg => simp [hk]
    case pos =>
      have hn := (w.tracking.handle_calls pass record).2
      rw [hi record hr hk, Machine.output_nil, List.map_eq_nil_iff] at hn
      simp [hn]

theorem reports_of_requests (h : w.Requests k pass) : reports k w pass = [] := by
  obtain ⟨record, hr, rfl, hm⟩ := h
  simp [reports_of_record hr, Tracking.handle, hm, Tracking.handleCertificateRequest]

-- The turns of a worker in which it sees a handshake. Other connections may take turns in between.
structure Script where
  hello       : Pass
  before      : List Pass
  serverHello : Pass
  after       : List Pass
  certificate : Pass

namespace Script

def passes (s : Script) : List Pass :=
  s.hello :: (s.before ++ s.serverHello :: (s.after ++ [s.certificate]))

-- The states in which the worker comes to the parts of the handshake.
def begun (s : Script) (w : Worker) : Worker :=
  (machine.step w s.hello).1

def waiting (s : Script) (w : Worker) : Worker :=
  machine.state (s.begun w) s.before

def joined (s : Script) (w : Worker) : Worker :=
  (machine.step (s.waiting w) s.serverHello).1

def finishing (s : Script) (w : Worker) : Worker :=
  machine.state (s.joined w) s.after

theorem trace_passes {s : Script} : machine.trace w s.passes =
    (w, s.hello) :: (machine.trace (s.begun w) s.before ++
      (s.waiting w, s.serverHello) :: (machine.trace (s.joined w) s.after ++
        [(s.finishing w, s.certificate)])) := by
  simp [passes, Machine.trace_append, begun, waiting, joined, finishing]

theorem mem_serverHello (s : Script) :
    (s.waiting w, s.serverHello) ∈ machine.trace w s.passes := by
  rw [trace_passes]
  exact List.mem_cons_of_mem _ <| List.mem_append_right _ <| List.mem_cons_self

theorem mem_certificate (s : Script) :
    (s.finishing w, s.certificate) ∈ machine.trace w s.passes := by
  rw [trace_passes]
  exact List.mem_cons_of_mem _ <| List.mem_append_right _ <| List.mem_cons_of_mem _ <|
    List.mem_append_right _ <| List.mem_cons_self

end Script

theorem mtls_serverHello {ttlNs : UInt64} {walked : List ExtractedRecord} {e : PendingEntry}
    {hello : ParsedServerHello} (n : Negotiation)
    (hn : n ∈ (Conn.step ttlNs (askedBy walked (some e)) (.serverHello hello)).2) :
    n.mtls = e.1.mtls := by
  simp only [askedBy, Option.map_some] at hn
  split at hn
  all_goals
    rw [Conn.serverHello_output, List.mem_singleton] at hn
    rw [hn]
    rfl

-- A handshake of TLS 1.2 with client authentication, on the host of the server. The worker gets the
-- CertificateRequest behind the ServerHello in the same capture, or later.
structure Handshake (k : ConnKey) (w : Worker) extends Script where
  helloRecord        : Record
  helloVersion       : UInt16
  clientHello        : ParsedClientHello
  serverHelloRecord  : Record
  serverHelloVersion : UInt16
  parsedServerHello  : ParsedServerHello
  certificateRecord  : Record
  hello_received     : helloRecord ∈ w.received hello
  hello_key          : helloRecord.key = k
  hello_message      : helloRecord.message = .clientHello
  hello_parsed       : parseTlsPayload helloRecord.payload true =
    .ok (.clientHello helloVersion clientHello)
  before_idle        : machine.AllSteps (Idle k) (toScript.begun w) before
  server_received    : serverHelloRecord ∈ (toScript.waiting w).received serverHello
  server_key         : serverHelloRecord.key = k
  server_message     : serverHelloRecord.message = .serverHello
  server_parsed      : parseTlsPayload serverHelloRecord.payload false =
    .ok (.serverHello serverHelloVersion parsedServerHello)
  server_tls12       : (TlsAnalysis.serverHello serverHelloVersion
    parsedServerHello).effectiveVersion = 0x0303
  after_requests     : machine.AllSteps (fun w pass => w.Idle k pass ∨ w.Requests k pass)
    (toScript.joined w) after
  client_received    : certificateRecord ∈ (toScript.finishing w).received certificate
  client_key         : certificateRecord.key = k
  client_message     : certificateRecord.message = .certificate
  client_ingress     : certificateRecord.head.isIngress
  requested          : serverHelloRecord.walked.any (·.handshakeType = 0x0d) ∨
    ∃ t ∈ machine.trace (toScript.joined w) after, Requests k t.1 t.2

namespace Handshake

-- Some event says that the server has asked for a certificate, and some that the client has sent
-- one.
def Reported (h : Handshake k w) : Prop :=
  (∃ t ∈ machine.trace w h.passes, ∃ n ∈ reports k t.1 t.2, n.mtlsRequested) ∧
  ∃ t ∈ machine.trace w h.passes, ∃ n ∈ reports k t.1 t.2, n.mtls

-- The CertificateRequest comes in the capture of the ServerHello.
def Walked (h : Handshake k w) : Prop :=
  h.serverHelloRecord.walked.any (·.handshakeType = 0x0d)

-- The entry of the connection is neither evicted nor too old before the client's certificate comes.
structure Lasting (h : Handshake k w) : Prop where
  hello       : ¬w.Expires k h.hello
  before      : machine.AllSteps (Lasts k) (h.begun w) h.before
  serverHello : (h.waiting w).Lasts k h.serverHello
  after       : machine.AllSteps (Lasts k) (h.joined w) h.after

variable (h : Handshake k w)

def entry₀ : PendingEntry :=
  (h.clientHello.summary h.hello.nowNs, h.hello.nowNs)

theorem tracked_hello : (w.tracked h.hello).correlator.pending[k]? = some h.entry₀ := by
  have ht := Tracking.handle_clientHello (t := w.tracking) h.hello h.hello_message h.hello_parsed
  rwa [h.hello_key, ←tracked_of_received h.hello_received] at ht

theorem entry_waiting (e : PendingEntry) (he : e ∈ entry k (h.waiting w)) :
    e = h.entry₀ ∧ ¬w.Expires k h.hello ∧
      machine.AllSteps (Lasts k) (h.begun w) h.before := by
  have hc : machine.AllSteps (Carries Eq k) (h.begun w) h.before :=
    fun t ht => idle_carries (h.before_idle t ht)
  obtain ⟨hl, e', he', rfl⟩ := (carries_run (fun _ => rfl) (fun _ _ _ => Eq.trans) hc).2 e he
  have hx : ¬w.Expires k h.hello := fun hx => by
    have : entry k (h.begun w) = none := entry_of_expires hx
    simp [this] at he'
  have hb : entry k (h.begun w) = some h.entry₀ := (entry_of_not_expires hx).trans h.tracked_hello
  refine ⟨?_, hx, hl⟩
  rw [hb] at he'
  exact (Option.some.inj he').symm

theorem waiting_entry (hx : ¬w.Expires k h.hello)
    (hl : machine.AllSteps (Lasts k) (h.begun w) h.before) :
    entry k (h.waiting w) = some h.entry₀ := by
  have hb : entry k (h.begun w) = some h.entry₀ := (entry_of_not_expires hx).trans h.tracked_hello
  have hc : machine.AllSteps (Carries Eq k) (h.begun w) h.before :=
    fun t ht => idle_carries (h.before_idle t ht)
  obtain ⟨e, he, rfl⟩ := (carries_run (fun _ => rfl) (fun _ _ _ => Eq.trans) hc).1 hl _ hb
  exact he

theorem after_carries : machine.AllSteps (Carries SameStored k) (h.joined w) h.after := by
  intro t ht
  obtain hi | hr := h.after_requests t ht
  case inl =>
    have hc := idle_carries hi
    exact ⟨fun hl e he => ⟨e, (hc.on hl e he).elim fun _ h => h.2 ▸ h.1, rfl⟩,
      fun e' he' => ⟨(hc.back e' he').1, e', (hc.back e' he').2.elim fun _ h => h.2 ▸ h.1, rfl⟩⟩
  case inr => exact requests_carries hr

theorem server_step :
    ((h.waiting w).tracked h.serverHello).correlator.pending[k]? =
      (Conn.step (h.waiting w).tracking.correlator.ttlNs
        (askedBy h.serverHelloRecord.walked (entry k (h.waiting w)))
        (.serverHello h.parsedServerHello)).1 ∧
    reports k (h.waiting w) h.serverHello =
      (Conn.step (h.waiting w).tracking.correlator.ttlNs
        (askedBy h.serverHelloRecord.walked (entry k (h.waiting w)))
        (.serverHello h.parsedServerHello)).2 := by
  have hs : h.serverHelloRecord.suppressed = false := by simp [Record.suppressed, h.server_message]
  have ht := Tracking.handle_serverHello (t := (h.waiting w).tracking) h.serverHello
    h.server_message h.server_parsed
  have hr := reports_of_record h.server_received
  rw [hs, if_neg Bool.false_ne_true, ht.2] at hr
  rw [tracked_of_received h.server_received]
  rw [h.server_key] at ht hr
  exact ⟨ht.1, hr⟩

theorem client_reports : reports k (h.finishing w) h.certificate =
    if h.certificateRecord.suppressed then [] else
      (Conn.step (h.finishing w).tracking.correlator.ttlNs (entry k (h.finishing w))
        .clientCertificate).2 := by
  have hr := reports_of_record h.client_received
  rw [Tracking.handle_clientCertificate h.client_message h.client_ingress] at hr
  rwa [h.client_key] at hr

theorem server_evicts : ¬(h.waiting w).Evicts k h.serverHello := by
  rintro ⟨record, hr, ev, hev, he⟩
  obtain rfl := Option.some.inj (hr.symm.trans h.server_received)
  obtain ⟨analysis, hc⟩ | hc := h.serverHelloRecord.calls_cases h.serverHello
  case inl =>
    have hl := congrArg List.getLast? hc
    simp [Record.calls, h.server_message, h.server_parsed] at hl
  case inr => simp [(hc ev hev).1] at he

-- A ServerHello that comes with a CertificateRequest reports it and leaves an entry.
theorem joined_of_walked (hw : h.Walked) (he : entry k (h.waiting w) = some h.entry₀)
    (hl : (h.waiting w).Lasts k h.serverHello) :
    (∃ n ∈ reports k (h.waiting w) h.serverHello, n.mtlsRequested) ∧
    ∃ e ∈ entry k (h.joined w), e.1.postShNegotiation.isSome := by
  have hw : h.serverHelloRecord.walked.any (·.handshakeType = 0x0d) := hw
  have ha : askedBy h.serverHelloRecord.walked (entry k (h.waiting w)) =
      some (Tracking.requested h.entry₀) := by
    rw [he, askedBy, if_pos hw]
    rfl
  obtain ⟨ht, hr⟩ := h.server_step
  rw [ha] at ht hr
  constructor
  case left =>
    rw [hr]
    exact ⟨_, List.mem_singleton_self _, rfl⟩
  case right => exact ⟨_, (entry_of_not_expires hl.expires).trans ht, rfl⟩

-- A ServerHello on its own takes the entry with it.
theorem walked_of_joined {e : PendingEntry} (he : e ∈ entry k (h.joined w)) :
    h.Walked ∧ (h.waiting w).Lasts k h.serverHello ∧ entry k (h.waiting w) ≠ none := by
  have hx : ¬(h.waiting w).Expires k h.serverHello := fun hx => by
    have : entry k (h.joined w) = none := entry_of_expires hx
    simp [this] at he
  have ht : ((h.waiting w).tracked h.serverHello).correlator.pending[k]? = some e :=
    (entry_of_not_expires hx).symm.trans he
  rw [h.server_step.1] at ht
  cases hw : entry k (h.waiting w)
  case none => simp [hw, askedBy, Conn.step] at ht
  case some e₀ =>
    refine ⟨?_, ⟨h.server_evicts, hx⟩, by simp⟩
    by_contra hn
    obtain ⟨rfl, -⟩ := h.entry_waiting e₀ hw
    rw [Walked] at hn
    simp [hw, askedBy, hn, Conn.step, entry₀, ParsedClientHello.summary] at ht

-- A client certificate is reported with the negotiation that the entry keeps for it.
theorem mtls_of_stored {e : PendingEntry} (he : e ∈ entry k (h.finishing w))
    (hp : e.1.postShNegotiation.isSome) (hs : h.certificateRecord.suppressed = false) :
    ∃ n ∈ reports k (h.finishing w) h.certificate, n.mtls := by
  obtain ⟨stored, hp⟩ := Option.isSome_iff_exists.mp hp
  rw [h.client_reports, hs, Option.mem_def.mp he]
  simp [Conn.step, hp]

theorem stored_of_mtls {n : Negotiation} (hn : n ∈ reports k (h.finishing w) h.certificate) :
    h.certificateRecord.suppressed = false ∧ entry k (h.finishing w) ≠ none := by
  rw [h.client_reports] at hn
  cases hs : h.certificateRecord.suppressed
  case true => simp [hs] at hn
  case false =>
    refine ⟨rfl, fun he => ?_⟩
    simp [hs, he, Conn.step] at hn

-- Only the client's certificate tells that there is one.
theorem mtls_only (t : Worker × Pass) (ht : t ∈ machine.trace w h.passes)
    (hn : ∃ n ∈ reports k t.1 t.2, n.mtls) : t = (h.finishing w, h.certificate) := by
  obtain ⟨n, hn, hm⟩ := hn
  rw [Script.trace_passes] at ht
  simp only [List.mem_cons, List.mem_append, List.not_mem_nil, or_false] at ht
  obtain rfl | ht | rfl | ht | rfl := ht
  case inl =>
    have hr := reports_of_record h.hello_received
    simp [h.hello_key, Tracking.handle, h.hello_message, Tracking.handleClientHello] at hr
    simp [hr] at hn
  case inr.inl => simp [reports_of_idle (h.before_idle t ht)] at hn
  case inr.inr.inl =>
    rw [h.server_step.2] at hn
    cases hw : entry k (h.waiting w)
    case none => simp [hw, askedBy, Conn.step] at hn
    case some e =>
      obtain ⟨rfl, -⟩ := h.entry_waiting e hw
      rw [hw] at hn
      simp [mtls_serverHello n hn, entry₀, ParsedClientHello.summary] at hm
  case inr.inr.inr.inl =>
    obtain hi | hr := h.after_requests t ht
    case inl => simp [reports_of_idle hi] at hn
    case inr => simp [reports_of_requests hr] at hn
  case inr.inr.inr.inr => rfl

theorem of_reported (hr : h.Reported) :
    h.Walked ∧ h.Lasting ∧ h.certificateRecord.suppressed = false := by
  obtain ⟨-, t, ht, hn⟩ := hr
  obtain rfl := h.mtls_only t ht hn
  obtain ⟨n, hn, -⟩ := hn
  obtain ⟨hs, hf⟩ := h.stored_of_mtls hn
  obtain ⟨e', he'⟩ := Option.ne_none_iff_exists'.mp hf
  obtain ⟨ha, e, he, -⟩ := (carries_run sameStored_refl sameStored_trans h.after_carries).2 e' he'
  obtain ⟨hw, hl, hn⟩ := h.walked_of_joined he
  obtain ⟨e₀, he₀⟩ := Option.ne_none_iff_exists'.mp hn
  obtain ⟨-, hx, hb⟩ := h.entry_waiting e₀ he₀
  exact ⟨hw, ⟨hx, hb, hl, ha⟩, hs⟩

theorem reported_of (hw : h.Walked) (hl : h.Lasting)
    (hs : h.certificateRecord.suppressed = false) : h.Reported := by
  obtain ⟨hr, e, he, hp⟩ := h.joined_of_walked hw (h.waiting_entry hl.hello hl.before)
    hl.serverHello
  obtain ⟨e', he', hp'⟩ := (carries_run sameStored_refl sameStored_trans
    h.after_carries).1 hl.after e he
  have hm := h.mtls_of_stored he' (hp'.symm ▸ hp) hs
  exact ⟨⟨_, h.mem_serverHello, hr⟩, ⟨_, h.mem_certificate, hm⟩⟩

end Handshake

-- Client authentication is reported just when the CertificateRequest comes with the ServerHello, the
-- entry lasts, and the client's certificate cannot be taken for a hello of TLS 1.3.
theorem mtls_reported_iff (h : Handshake k w) :
    h.Reported ↔ h.Walked ∧ h.Lasting ∧ h.certificateRecord.suppressed = false :=
  ⟨h.of_reported, fun ⟨hw, hl, hs⟩ => h.reported_of hw hl hs⟩

-- The CertificateRequest comes in a capture of its own.
def separateFlight : Script where
  hello       := .still clientHelloCapture
  before      := []
  serverHello := .still serverHelloCapture
  after       := [.still certificateRequestCapture]
  certificate := .still clientCertificateCapture

theorem separateFlight_handshake :
    ∃ h : Handshake (makeCapture 0 [] 0).connKey new, h.toScript = separateFlight := by
  have hc : (parseTlsPayload clientHelloCapture.payloadSlice true).isOk := by decide +kernel
  have hs : (parseTlsPayload serverHelloCapture.payloadSlice false).toOption.any
      (·.effectiveVersion = 0x0303) := by decide +kernel
  cases hcp : parseTlsPayload clientHelloCapture.payloadSlice true
  case error => simp [hcp, Except.isOk, Except.toBool] at hc
  case ok client =>
    cases hsp : parseTlsPayload serverHelloCapture.payloadSlice false
    case error => simp [hsp, Except.toOption] at hs
    case ok server =>
      obtain ⟨cv, ch, rfl⟩ := parsed_client hcp
      obtain ⟨sv, sh, rfl⟩ := parsed_server hsp
      exact ⟨{ separateFlight with
        helloRecord        := .own clientHelloCapture
        helloVersion       := cv
        clientHello        := ch
        serverHelloRecord  := .own serverHelloCapture
        serverHelloVersion := sv
        parsedServerHello  := sh
        certificateRecord  := .own clientCertificateCapture
        hello_received     := rfl
        hello_key          := rfl
        hello_message      := by decide +kernel
        hello_parsed       := hcp
        before_idle        := by simp [separateFlight, Machine.AllSteps]
        server_received    := rfl
        server_key         := rfl
        server_message     := by decide +kernel
        server_parsed      := hsp
        server_tls12       := by simpa [hsp, Except.toOption] using hs
        after_requests     := by
          rintro t ht
          obtain rfl := List.mem_singleton.mp ht
          exact .inr ⟨.own certificateRequestCapture, rfl, rfl, by decide +kernel⟩
        client_received    := rfl
        client_key         := rfl
        client_message     := by decide +kernel
        client_ingress     := by decide +kernel
        requested          := .inr ⟨_, List.mem_singleton_self _,
          .own certificateRequestCapture, rfl, rfl, by decide +kernel⟩
      }, rfl⟩

theorem separateFlight_not_reported (h : Handshake (makeCapture 0 [] 0).connKey new)
    (hs : h.toScript = separateFlight) : ¬h.Reported := by
  intro hr
  have hw := (h.of_reported hr).1
  have hv := h.server_received
  rw [hs] at hv
  have hv : Record.own serverHelloCapture = h.serverHelloRecord := Option.some.inj hv
  rw [Handshake.Walked, ←hv] at hw
  exact absurd hw (by decide +kernel)

theorem separate_not_reported :
    (∃ h : Handshake (makeCapture 0 [] 0).connKey new, h.toScript = separateFlight) ∧
    ∀ h : Handshake (makeCapture 0 [] 0).connKey new, h.toScript = separateFlight → ¬h.Reported :=
  ⟨separateFlight_handshake, separateFlight_not_reported⟩

end Worker
end TlsProbe
