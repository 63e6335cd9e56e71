import KVLite.Core.Keys

/-!
# The value envelope

A stored value is its deadline, its codec name and its payload behind a four-byte
magic. The header keeps the deadline in eight bytes and the length of the codec name
in two.
-/

namespace KVLite

open BigEndian

/-- The bytes of `data` from index `start` up to index `stop`. -/
def slice (data : Bytes) (start stop : ℕ) : Bytes := (data.drop start).take (stop - start)

theorem slice_append_middle {a b c : Bytes} {start stop : ℕ} (ha : a.length = start)
    (hb : start + b.length = stop) : slice (a ++ (b ++ c)) start stop = b := by
  unfold slice
  rw [List.drop_left' ha, List.take_left' (by omega)]

theorem slice_append_slice (data : Bytes) {i j k : ℕ} (hij : i ≤ j) (hjk : j ≤ k) :
    slice data i j ++ slice data j k = slice data i k := by
  unfold slice
  have hdrop : data.drop j = (data.drop i).drop (j - i) := by
    rw [List.drop_drop]
    congr 1
    omega
  rw [hdrop, ← List.take_add]
  congr 1
  omega

theorem length_slice {data : Bytes} {start stop : ℕ} (h : stop ≤ data.length) :
    (slice data start stop).length = stop - start := by
  simp only [slice, List.length_take, List.length_drop]
  omega

theorem slice_append_drop (data : Bytes) {i j : ℕ} (hij : i ≤ j) :
    slice data i j ++ data.drop j = data.drop i := by
  unfold slice
  have hdrop : data.drop j = (data.drop i).drop (j - i) := by
    rw [List.drop_drop]
    congr 1
    omega
  rw [hdrop, List.take_append_drop]

def envelopeMagic : Bytes := text "KVL1"

def envelopeHeaderSize : ℕ := 14

/-- A decoded value record. -/
structure Envelope where
  expiresAt : ℤ
  codec : Bytes
  payload : Bytes
  deriving DecidableEq, Repr

def marshalEnvelope (codec payload : Bytes) (expiresAt : ℤ) : Except GoError Bytes :=
  if codec.length > 65535 then
    .error (.detail .invalidArgument (text "codec name is too long"))
  else
    .ok (envelopeMagic ++ bigEndian 8 (toUInt64 expiresAt) ++ bigEndian 2 codec.length ++
      codec ++ payload)

def unmarshalEnvelope (data : Bytes) : Except GoError Envelope :=
  if data.length < envelopeHeaderSize ∨ slice data 0 4 ≠ envelopeMagic then
    .error (.new (text "kvlite: invalid value envelope"))
  else
    let codecLength := ofBigEndian (slice data 12 14)
    if data.length < envelopeHeaderSize + codecLength then
      .error (.new (text "kvlite: truncated value envelope"))
    else
      .ok { expiresAt := toInt64 (ofBigEndian (slice data 4 12))
            codec := slice data 14 (14 + codecLength)
            payload := data.drop (14 + codecLength) }

/-- `value.expiresAt > 0 && now.UnixNano() >= value.expiresAt`, the expiry test every
reader makes. -/
def Envelope.expired (value : Envelope) (now : ℤ) : Bool :=
  value.expiresAt > 0 && wrapInt64 now ≥ value.expiresAt

def envelopeExpired (data : Bytes) (now : ℤ) : Bool :=
  match unmarshalEnvelope data with
  | .error _ => false
  | .ok value => value.expired now

theorem exists_of_envelopeExpired {data : Bytes} {time : ℤ} (h : envelopeExpired data time = true) :
    ∃ value, unmarshalEnvelope data = .ok value ∧ value.expired time = true := by
  unfold envelopeExpired at h
  split at h
  · cases h
  · next value hvalue => exact ⟨value, hvalue, h⟩

/-! ### Round trips -/

theorem marshalEnvelope_eq_ok {codec payload data : Bytes} {expiresAt : ℤ} :
    marshalEnvelope codec payload expiresAt = .ok data ↔ codec.length ≤ 65535 ∧
      data = envelopeMagic ++ bigEndian 8 (toUInt64 expiresAt) ++ bigEndian 2 codec.length ++
        codec ++ payload := by
  unfold marshalEnvelope
  split
  · simp; omega
  · simp only [Except.ok.injEq, eq_comm (b := data)]
    constructor
    · exact fun h => ⟨by omega, h⟩
    · exact And.right

theorem unmarshalEnvelope_marshalEnvelope {codec payload data : Bytes} {expiresAt : ℤ}
    (hdeadline : IsInt64 expiresAt) (h : marshalEnvelope codec payload expiresAt = .ok data) :
    unmarshalEnvelope data = .ok ⟨expiresAt, codec, payload⟩ := by
  obtain ⟨hcodec, rfl⟩ := marshalEnvelope_eq_ok.mp h
  have hmagic : envelopeMagic.length = 4 := rfl
  set deadline := bigEndian 8 (toUInt64 expiresAt) with hdeadlineBytes
  set size := bigEndian 2 codec.length with hsizeBytes
  have hlenDeadline : deadline.length = 8 := length_bigEndian _ _
  have hlenSize : size.length = 2 := length_bigEndian _ _
  -- The four header fields are read from the offsets they were written at.
  have h0 : slice (envelopeMagic ++ deadline ++ size ++ codec ++ payload) 0 4 = envelopeMagic := by
    simpa [List.append_assoc] using slice_append_middle (a := []) rfl (by simp [hmagic])
  have h4 : slice (envelopeMagic ++ deadline ++ size ++ codec ++ payload) 4 12 = deadline := by
    simpa [List.append_assoc] using slice_append_middle hmagic (by omega)
  have h12 : slice (envelopeMagic ++ deadline ++ size ++ codec ++ payload) 12 14 = size := by
    rw [List.append_assoc (_ ++ size), List.append_assoc (_ ++ deadline)]
    exact slice_append_middle (by simp [hmagic, hlenDeadline]) (by omega)
  have h14 : slice (envelopeMagic ++ deadline ++ size ++ codec ++ payload) 14
      (14 + codec.length) = codec := by
    rw [List.append_assoc (_ ++ size)]
    exact slice_append_middle (by simp [hmagic, hlenDeadline, hlenSize]) rfl
  have hdrop : (envelopeMagic ++ deadline ++ size ++ codec ++ payload).drop
      (14 + codec.length) = payload :=
    List.drop_left' (by simp [hmagic, hlenDeadline, hlenSize]; omega)
  have hsize : ofBigEndian size = codec.length := ofBigEndian_bigEndian_of_lt (by omega)
  have hvalue : toInt64 (ofBigEndian deadline) = expiresAt := by
    rw [hdeadlineBytes, ofBigEndian_bigEndian_of_lt (toUInt64_lt _), toInt64_toUInt64 hdeadline]
  have hlen : (envelopeMagic ++ deadline ++ size ++ codec ++ payload).length =
      14 + codec.length + payload.length := by
    simp only [List.length_append, hmagic, hlenDeadline, hlenSize]
  unfold unmarshalEnvelope envelopeHeaderSize
  rw [hlen, h0, if_neg (by simp; omega)]
  simp only [h12, hsize, h4, hvalue, h14, hdrop]
  rw [if_neg (by omega)]

/-- Whatever is marshalled can be read. -/
theorem unmarshalEnvelope_of_marshalEnvelope {codec payload data : Bytes} {expiresAt : ℤ}
    (h : marshalEnvelope codec payload expiresAt = .ok data) :
    unmarshalEnvelope data = .ok ⟨wrapInt64 expiresAt, codec, payload⟩ := by
  refine unmarshalEnvelope_marshalEnvelope (isInt64_wrapInt64 expiresAt) ?_
  rw [marshalEnvelope, wrapInt64, toUInt64_toInt64 (toUInt64_lt _)]
  exact h

theorem marshalEnvelope_unmarshalEnvelope {data : Bytes} {value : Envelope}
    (h : unmarshalEnvelope data = .ok value) :
    marshalEnvelope value.codec value.payload value.expiresAt = .ok data := by
  unfold unmarshalEnvelope envelopeHeaderSize at h
  split at h
  · simp at h
  · rename_i hheader
    obtain ⟨hlen, hmagic⟩ := not_or.mp hheader
    rw [not_not] at hmagic
    dsimp only at h
    split at h
    · simp at h
    · rename_i hcodec
      set n := ofBigEndian (slice data 12 14) with hn
      rw [Except.ok.injEq] at h
      subst h
      have hlenSize : (slice data 12 14).length = 2 := length_slice (by omega)
      have hlenDeadline : (slice data 4 12).length = 8 := length_slice (by omega)
      have hlenCodec : (slice data 14 (14 + n)).length = n := by
        rw [length_slice (by omega)]
        omega
      have hbound : n < 256 ^ 2 := by simpa [hlenSize] using ofBigEndian_lt (slice data 12 14)
      have hword : ofBigEndian (slice data 4 12) < 2 ^ 64 := by
        simpa [hlenDeadline] using ofBigEndian_lt (slice data 4 12)
      rw [marshalEnvelope_eq_ok]
      refine ⟨by dsimp only; omega, ?_⟩
      dsimp only
      rw [hlenCodec, toUInt64_toInt64 hword, bigEndian_of_length hlenDeadline, hn,
        bigEndian_of_length hlenSize, ← hn, ← hmagic, slice_append_slice _ (by omega) (by omega),
        slice_append_slice _ (by omega) (by omega), slice_append_slice _ (by omega) (by omega),
        slice_append_drop _ (by omega), List.drop_zero]

/-- A decoded deadline fits a signed 64-bit word. -/
theorem isInt64_of_unmarshalEnvelope {data : Bytes} {value : Envelope}
    (h : unmarshalEnvelope data = .ok value) : IsInt64 value.expiresAt := by
  unfold unmarshalEnvelope envelopeHeaderSize at h
  split at h
  · simp at h
  · rename_i hheader
    obtain ⟨hlen, -⟩ := not_or.mp hheader
    dsimp only at h
    split at h
    · simp at h
    · rw [Except.ok.injEq] at h
      subst h
      have hlenDeadline : (slice data 4 12).length = 8 := length_slice (by omega)
      have hword : ofBigEndian (slice data 4 12) < 2 ^ 64 := by
        simpa [hlenDeadline] using ofBigEndian_lt (slice data 4 12)
      exact isInt64_toInt64 hword

/-- The codec name is the only thing that can be refused. -/
theorem exists_marshalEnvelope_eq_error {codec payload : Bytes} {expiresAt : ℤ} :
    (∃ err, marshalEnvelope codec payload expiresAt = .error err) ↔ 65535 < codec.length := by
  rw [marshalEnvelope]
  split_ifs with h
  · exact iff_of_true ⟨_, rfl⟩ h
  · refine iff_of_false ?_ h
    rintro ⟨err, herr⟩
    cases herr

/-- Marshalling and unmarshalling are each other's inverse: on every value whose codec name
fits, and on every byte string that is accepted. -/
theorem envelope_bijection :
    (∀ (codec payload : Bytes) (expiresAt : ℤ), IsInt64 expiresAt →
      ((∃ err, marshalEnvelope codec payload expiresAt = .error err) ↔ 65535 < codec.length) ∧
      (codec.length ≤ 65535 → ∃ data, marshalEnvelope codec payload expiresAt = .ok data ∧
        unmarshalEnvelope data = .ok ⟨expiresAt, codec, payload⟩)) ∧
    ∀ (data : Bytes) (value : Envelope), unmarshalEnvelope data = .ok value →
      IsInt64 value.expiresAt ∧
        marshalEnvelope value.codec value.payload value.expiresAt = .ok data := by
  constructor
  · intro codec payload expiresAt hdeadline
    refine ⟨exists_marshalEnvelope_eq_error, fun hcodec => ?_⟩
    obtain ⟨data, hdata⟩ : ∃ data, marshalEnvelope codec payload expiresAt = .ok data :=
      ⟨_, marshalEnvelope_eq_ok.mpr ⟨hcodec, rfl⟩⟩
    exact ⟨data, hdata, unmarshalEnvelope_marshalEnvelope hdeadline hdata⟩
  · intro data value h
    exact ⟨isInt64_of_unmarshalEnvelope h, marshalEnvelope_unmarshalEnvelope h⟩

theorem negative_deadline_reads_back :
    ∃ data, marshalEnvelope (text "json") (text "1") (-1) = .ok data ∧
      unmarshalEnvelope data = .ok ⟨-1, text "json", text "1"⟩ :=
  (envelope_bijection.1 (text "json") (text "1") (-1) (by decide)).2 (by decide)

/-- A value without a deadline never expires. -/
theorem Envelope.expired_of_nonpos {value : Envelope} (h : value.expiresAt ≤ 0) (now : ℤ) :
    value.expired now = false := by
  simp only [Envelope.expired, gt_iff_lt, Bool.and_eq_false_imp, decide_eq_true_eq]
  omega

end KVLite
