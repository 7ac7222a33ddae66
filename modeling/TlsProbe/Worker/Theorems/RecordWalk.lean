import TlsProbe.Parser.Theorems.Indexed
import TlsProbe.Worker.Theorems.Leaf

namespace TlsProbe

structure TlsRecord where
  contentType : UInt8
  version     : UInt16
  body        : List UInt8
  fits        : body.length ≤ 65535

namespace TlsRecord

def encode (record : TlsRecord) : List UInt8 :=
  tlsRecord record.contentType record.version record.body

def isHandshake (record : TlsRecord) : Bool :=
  record.contentType = 0x16

-- The records that lie wholly within the first `cut` bytes.
def within (cut : Nat) : List TlsRecord → List TlsRecord
  | []                => []
  | record :: records =>
    if record.encode.length ≤ cut then
      record :: within (cut - record.encode.length) records
    else
      []

-- What is to be found of a record of which the first bytes of the encoding are there.
def partly (record : TlsRecord) (available : Nat) : List ExtractedRecord :=
  if record.isHandshake then extracted record.version (record.body.take (available - 5)) true else []

-- What is to be found in the first `cut` bytes of some records: of the first `count` records, those
-- that are there up to the first one that is not a handshake record, and then the one that is cut
-- off.
def walked (count cut : Nat) (records : List TlsRecord) : List ExtractedRecord :=
  let whole     := within cut records
  let handshake := (whole.take count).takeWhile isHandshake
  let available := cut - (whole.flatMap encode).length
  handshake.flatMap (fun record => extracted record.version record.body false) ++
    if whole.length < count ∧ whole.all isHandshake then
      records[whole.length]?.elim [] (·.partly available)
    else
      []

variable {record : TlsRecord} {records : List TlsRecord} {count cut : Nat} {tail : List UInt8}

theorem encode_length : record.encode.length = 5 + record.body.length := by
  rw [encode, tlsRecord_length, Nat.add_comm]

theorem walked_zero : walked 0 cut records = [] := by
  simp [walked]

theorem walked_nil : walked count cut [] = [] := by
  simp [walked, within]

theorem walked_cons : walked (count + 1) cut (record :: records) =
    if record.encode.length ≤ cut then
      if record.isHandshake then
        extracted record.version record.body false ++
          walked count (cut - record.encode.length) records
      else
        []
    else
      record.partly cut := by
  rw [walked, within]
  split
  case isFalse => simp
  case isTrue  =>
    cases hh : record.isHandshake
    case false => simp [hh]
    case true  =>
      simp only [List.take_succ_cons, List.takeWhile_cons_of_pos hh, List.flatMap_cons,
        List.length_cons, List.length_append, List.all_cons, hh, Bool.true_and, if_true,
        List.getElem?_cons_succ, Nat.add_lt_add_iff_right, ←Nat.sub_sub, List.append_assoc, walked]

end TlsRecord

section Walk

variable {record : TlsRecord} {records : List TlsRecord} {count cut : Nat} {l tail : List UInt8}

theorem walkFrom_short (h : l.length < 5) : walkFrom count l = [] := by
  unfold walkFrom
  split
  case h_1 => simp at h; omega
  case h_2 => rfl

theorem walkFrom_stop (h : l.head? ≠ some 0x16) : walkFrom count l = [] := by
  unfold walkFrom
  split
  case h_1 contentType _ _ _ _ _ =>
    have ht : contentType ≠ 0x16 := fun he => h (congrArg some he)
    simp only [ht, ne_eq, not_false_iff, if_true]
  case h_2 => rfl

theorem walkFrom_whole : walkFrom (count + 1) (record.encode ++ tail) =
    if record.isHandshake then
      extracted record.version record.body false ++ walkFrom count tail
    else
      [] := by
  obtain ⟨contentType, version, body, fits⟩ := record
  by_cases h : contentType = 0x16
  case pos =>
    subst h
    exact walkFrom_record fits
  case neg =>
    have hh : TlsRecord.isHandshake ⟨contentType, version, body, fits⟩ = false := decide_eq_false h
    have ht : (TlsRecord.encode ⟨contentType, version, body, fits⟩ ++ tail).head? ≠ some 0x16 :=
      fun he => h (Option.some.inj he)
    rw [hh, walkFrom_stop ht]
    rfl

theorem walkFrom_partly (h : cut < record.encode.length) :
    walkFrom (count + 1) (record.encode.take cut) = record.partly cut := by
  obtain ⟨contentType, version, body, fits⟩ := record
  by_cases hc : 5 ≤ cut
  case neg =>
    have hz : cut - 5 = 0 := by omega
    rw [walkFrom_short (by rw [List.length_take]; omega), TlsRecord.partly, hz, List.take_zero]
    simp [extracted]
  case pos =>
    by_cases ht : contentType = 0x16
    case pos =>
      subst ht
      rw [TlsRecord.encode_length] at h
      exact walkFrom_cut fits hc (by omega)
    case neg =>
      have hh : TlsRecord.isHandshake ⟨contentType, version, body, fits⟩ = false :=
        decide_eq_false ht
      rw [TlsRecord.partly, hh, walkFrom_stop]
      · rfl
      · rw [List.head?_take, if_neg (by omega)]
        exact fun he => ht (Option.some.inj he)

theorem walkFrom_walked : walkFrom count ((records.flatMap TlsRecord.encode).take cut) =
    TlsRecord.walked count cut records := by
  induction records generalizing count cut
  case nil =>
    rw [TlsRecord.walked_nil, walkFrom_short (by simp)]
  case cons record records hi =>
    cases count
    case zero => rw [TlsRecord.walked_zero, walkFrom.eq_def]
    case succ count =>
      rw [List.flatMap_cons, TlsRecord.walked_cons]
      split
      case isTrue h =>
        rw [List.take_append, List.take_of_length_le h, walkFrom_whole, hi]
      case isFalse h =>
        rw [List.take_append_of_le_length (by omega), walkFrom_partly (Nat.lt_of_not_le h)]

-- The first record is skipped by its length, whatever it is.
theorem walkRecords_cons {t v₁ v₂ l₁ l₂ : UInt8} :
    walkRecords (t :: v₁ :: v₂ :: l₁ :: l₂ :: tail) =
      walkFrom maxRecordsToWalk (tail.drop (u16FromBeBytes l₁ l₂).toNat) := by
  cases tail
  case nil      => rw [List.drop_nil, walkFrom_short (show [].length < 5 by simp), walkRecords]; simp
  case cons b l => rw [walkRecords]

theorem walkRecords_short (h : l.length < 6) : walkRecords l = [] := by
  unfold walkRecords
  split
  case h_1 => simp at h; omega
  case h_2 => rfl

-- Behind the first record, the walker finds what is to be found up to the cut.
theorem walkRecords_walked {first : TlsRecord} :
    walkRecords (((first :: records).flatMap TlsRecord.encode).take cut) =
      if first.encode.length ≤ cut then
        TlsRecord.walked maxRecordsToWalk (cut - first.encode.length) records
      else
        [] := by
  obtain ⟨v₁, v₀, hv, -⟩ := u16ToBeBytes_eq first.version
  obtain ⟨l₁, l₀, hl, hl'⟩ := vector16_eq first.fits
  have he : first.encode = first.contentType :: v₁ :: v₀ :: l₁ :: l₀ :: first.body := by
    rw [TlsRecord.encode, tlsRecord, hv, hl]
    rfl
  rw [List.flatMap_cons]
  split
  case isTrue h =>
    rw [List.take_append, List.take_of_length_le h, ←walkFrom_walked, he]
    simp only [List.cons_append, walkRecords_cons, hl', List.drop_left]
  case isFalse h =>
    have hb : cut < first.body.length + 5 := by
      rw [he] at h
      exact Nat.lt_of_not_le h
    rw [List.take_append_of_le_length (by omega), he]
    by_cases hc : 5 ≤ cut
    case neg => rw [walkRecords_short (by rw [List.length_take]; omega)]
    case pos =>
      obtain ⟨m, rfl⟩ := Nat.exists_eq_add_of_le' hc
      simp only [List.take_succ_cons, walkRecords_cons, hl']
      rw [List.drop_eq_nil_of_le (by rw [List.length_take]; omega), walkFrom_short (by simp)]

end Walk

namespace Indexed

open Checked

variable {fuel offset count : Nat} {payload : List UInt8} {records : List ExtractedRecord}

theorem drop_five (h : offset + 5 ≤ payload.length) : ∃ t v₁ v₂ l₁ l₂,
    payload.drop offset = t :: v₁ :: v₂ :: l₁ :: l₂ :: payload.drop (offset + 5) := by
  obtain ⟨t, v₁, v₂, l₁, hd⟩ := drop_four (show offset + 4 ≤ payload.length by omega)
  obtain ⟨l₂, hl⟩ := drop_of_lt (show offset + 4 < payload.length by omega)
  exact ⟨t, v₁, v₂, l₁, l₂, by rw [hd, hl]⟩

-- What the loop returns from a state on.
def walkValue (payload : List UInt8) (s : Nat × Nat × List ExtractedRecord) :
    List ExtractedRecord :=
  s.2.2 ++ walkFrom (maxRecordsToWalk - s.2.1) (payload.drop s.1)

-- The available bytes of a body.
theorem slice_body {start len : Nat} (h : start ≤ payload.length) :
    slice payload start (bif decide (payload.length < start + len) then payload.length
      else start + len) = .ok ((payload.drop start).take len) := by
  by_cases ht : payload.length < start + len
  case pos =>
    have hd : (payload.drop start).length = payload.length - start := List.length_drop
    rw [decide_eq_true ht, cond_true, slice_ok h le_rfl, List.take_of_length_le (by omega),
      List.take_of_length_le (by omega)]
  case neg =>
    rw [decide_eq_false ht, cond_false, slice_add (Nat.le_of_not_lt ht)]

theorem kept_handshake {version : UInt16} {body : List UInt8} {truncated : Bool} :
    kept 0x16 ⟨version, body, truncated⟩ = .ok (extracted version body truncated) := by
  cases body
  case nil       => simp [kept, extracted]; rfl
  case cons b l  =>
    simp only [kept, extracted]
    rw [if_pos ⟨trivial, by simp⟩, u8At, index_zero, ok_bind]
    simp only [List.head?_cons, Option.some.injEq]
    split <;> rfl

theorem kept_other {contentType : UInt8} {record : ExtractedRecord} (h : contentType ≠ 0x16) :
    kept contentType record = .ok [] := by
  rw [kept, if_neg fun hk => h hk.1]
  rfl

-- One turn of the loop, on a whole header.
theorem walkRecords_turn {t v₁ v₂ l₁ l₂ : UInt8} {rest : List UInt8}
    (hd : payload.drop offset = t :: v₁ :: v₂ :: l₁ :: l₂ :: rest) (hc : count < maxRecordsToWalk) :
    walkRecords.body payload (offset, count, records) =
      let recordLen := (u16FromBeBytes l₁ l₂).toNat
      let truncated := decide (rest.length < recordLen)
      let records'  :=
        records ++ extracted (u16FromBeBytes v₁ v₂) (rest.take recordLen) truncated
      if t ≠ 0x16 then
        .ok (.done records)
      else if truncated then
        .ok (.done records')
      else
        .ok (.next (offset + recordHeaderLen + recordLen, count + 1, records')) := by
  have hh : recordHeaderLen = 5 := rfl
  have hl := congrArg List.length hd
  simp only [List.length_drop, List.length_cons] at hl
  have hr : payload.drop (offset + recordHeaderLen) = rest := by
    rw [←List.drop_drop, hd]
    rfl
  have hb : u8At payload offset = .ok t := index_of_drop hd
  have hv := u16At_of_drop (drop_of_drop hd)
  have hn := u16At_of_drop (drop_of_drop <| drop_of_drop <| drop_of_drop hd)
  have ht (n : Nat) : decide (payload.length < offset + recordHeaderLen + n) =
      decide (rest.length < n) :=
    decide_eq_decide.mpr (by omega)
  simp only [walkRecords.body]
  rw [if_pos ⟨by omega, hc⟩, hb, ok_bind, hv, ok_bind, hn, ok_bind, slice_body (by omega), ok_bind,
    hr, ht]
  by_cases h : t = 0x16
  case neg =>
    rw [kept_other h, ok_bind, if_pos h, if_pos h, List.append_nil]
    rfl
  case pos =>
    rw [h, kept_handshake, ok_bind]
    simp only [ne_eq, not_true, if_false]
    split <;> rfl

theorem walkRecords_body (s : Nat × Nat × List ExtractedRecord) :
    walkRecords.body payload s = .ok (.done (walkValue payload s)) ∨
      ∃ t, walkRecords.body payload s = .ok (.next t) ∧
        payload.length - t.1 < payload.length - s.1 ∧ walkValue payload t = walkValue payload s := by
  obtain ⟨offset, count, records⟩ := s
  have hh : recordHeaderLen = 5 := rfl
  by_cases hc : offset + recordHeaderLen ≤ payload.length ∧ count < maxRecordsToWalk
  case neg =>
    left
    have hw : walkFrom (maxRecordsToWalk - count) (payload.drop offset) = [] := by
      by_cases hm : count < maxRecordsToWalk
      case pos => exact walkFrom_short (by rw [List.length_drop]; omega)
      case neg => rw [Nat.sub_eq_zero_of_le (Nat.le_of_not_lt hm), walkFrom.eq_def]
    simp only [walkRecords.body, if_neg hc, walkValue, hw, List.append_nil]
    rfl
  case pos =>
    obtain ⟨t, v₁, v₂, l₁, l₂, hd⟩ := drop_five hc.1
    have hk : maxRecordsToWalk - count = maxRecordsToWalk - (count + 1) + 1 := by omega
    rw [walkRecords_turn hd hc.2]
    simp only [walkValue, hd, hk, walkFrom, List.length_drop]
    set recordLen := (u16FromBeBytes l₁ l₂).toNat
    by_cases h : t = 0x16
    case neg =>
      left
      rw [if_pos h, if_pos h, List.append_nil]
    case pos =>
      subst h
      simp only [ne_eq, not_true, if_false, decide_eq_true_eq]
      by_cases ht : payload.length - (offset + 5) < recordLen
      case pos =>
        left
        rw [if_pos ht, if_pos ht, List.append_nil]
        rfl
      case neg =>
        right
        rw [if_neg ht, if_neg ht]
        refine ⟨_, rfl, by simp only; omega, ?_⟩
        rw [List.drop_drop, List.append_assoc]
        rfl

theorem walkRecords_ok (hf : payload.length < fuel) :
    walkRecords fuel payload = .ok (TlsProbe.walkRecords payload) := by
  rw [walkRecords]
  dsimp only
  split
  case isTrue h => rw [walkRecords_short h]; rfl
  case isFalse h =>
    have hl : 6 ≤ payload.length := Nat.le_of_not_lt h
    obtain ⟨t, v₁, v₂, l₁, l₂, hd⟩ := drop_five (show 0 + 5 ≤ payload.length by omega)
    have hn : u16At payload 3 = .ok (u16FromBeBytes l₁ l₂) :=
      u16At_of_drop (drop_of_drop <| drop_of_drop <| drop_of_drop hd)
    have hv : TlsProbe.walkRecords payload =
        walkValue payload (recordHeaderLen + (u16FromBeBytes l₁ l₂).toNat, 0, []) := by
      rw [List.drop_zero] at hd
      rw [hd, walkRecords_cons, ←hd, List.drop_drop]
      rfl
    rw [hn, ok_bind, hv]
    exact loop_value (fun s => payload.length - s.1) walkRecords_body (by simp only; omega)

end Indexed

-- The records that are found, and that no access to any bytes is out of bounds.
theorem walkRecords_cut_and_bounds :
    (∀ (first : TlsRecord) records cut,
      walkRecords (((first :: records).flatMap TlsRecord.encode).take cut) =
        if first.encode.length ≤ cut then
          TlsRecord.walked maxRecordsToWalk (cut - first.encode.length) records
        else
          []) ∧
    ∀ payload more, Indexed.walkRecords (payload.length + 1 + more) payload =
      .ok (walkRecords payload) :=
  ⟨fun _ _ _ => walkRecords_walked, fun _ _ => Indexed.walkRecords_ok (by omega)⟩

end TlsProbe
