import KVLite.Core.IntWidth

/-!
# The copies of the list codec

The HTTP extension has its own `encodeList` and `decodeList`. The decoder is the one of the
core, line by line. The encoder writes a length field into the slice from the offset to the
end of the record where the core writes it into the slice of the four bytes.
-/

namespace KVLite.Http

open BigEndian Bounded

/-! ### The functions of the extension -/

/-- The loop of the extension's `decodeList`. -/
def decodeListItemsAt (width : IntWidth) (data : Bytes) :
    ℕ → ℤ → Option (Except GoError (List Bytes × ℤ))
  | 0, offset => some (.ok ([], offset))
  | count + 1, offset =>
    if width.int (offset + 4) > data.length then
      some (.error (.new (text "kvlite: truncated list encoding")))
    else do
      let field ← sub data offset (width.int (offset + 4))
      let length := width.int (ofBigEndian field)
      let offset := width.int (offset + 4)
      if length < 0 ∨ width.int (offset + length) > data.length then
        some (.error (.new (text "kvlite: truncated list item")))
      else do
        let item ← sub data offset (width.int (offset + length))
        match ← decodeListItemsAt width data count (width.int (offset + length)) with
        | .error err => some (.error err)
        | .ok (items, final) => some (.ok (item :: items, final))

def decodeListAt (memory : ℕ) (width : IntWidth) (data : Bytes) :
    Option (Except GoError (List Bytes)) :=
  if data.length < 4 then
    some (.error (.new (text "kvlite: invalid list encoding")))
  else do
    let field ← sub data 0 4
    let count := width.int (ofBigEndian field)
    if count > ((data.length - 4) / 4 : ℕ) then
      some (.error (.new (text "kvlite: invalid list item count")))
    else do
      let _ ← make memory width.sliceHeader () count
      match ← decodeListItemsAt width data count.toNat 4 with
      | .error err => some (.error err)
      | .ok (items, offset) =>
        if offset ≠ data.length then
          some (.error (.new (text "kvlite: trailing list data")))
        else
          some (.ok items)

/-- The loop of the extension's `encodeList`. The field is written into `result[offset:]`. -/
def encodeListItemsAt (width : IntWidth) : Bytes → ℤ → List Bytes → Option Bytes
  | result, _, [] => some result
  | result, offset, item :: items => do
    let result ← putAt result offset result.length (bigEndian 4 item.length)
    let offset := width.int (offset + 4)
    let result ← copyAt result offset item
    encodeListItemsAt width result (width.int (offset + item.length)) items

def encodeListAt (memory : ℕ) (width : IntWidth) (items : List Bytes) : Option Bytes := do
  let result ← make memory 1 0 (encodedSizeAt width items)
  let result ← putAt result 0 4 (bigEndian 4 items.length)
  encodeListItemsAt width result 4 items

/-! ### The copies agree -/

section Copies

variable {memory : ℕ} {width : IntWidth}

theorem decodeListItemsAt_eq (data : Bytes) (count : ℕ) (offset : ℤ) :
    decodeListItemsAt width data count offset = KVLite.decodeListItemsAt width data count offset := by
  induction count generalizing offset with
  | zero => rfl
  | succ count ih =>
    have hrest : decodeListItemsAt width data count =
        KVLite.decodeListItemsAt width data count := funext ih
    rw [decodeListItemsAt, KVLite.decodeListItemsAt]
    generalize decodeListItemsAt width data count = rest at hrest
    subst hrest
    rfl

theorem decodeListAt_eq (data : Bytes) :
    decodeListAt memory width data = KVLite.decodeListAt memory width data := by
  have hitems : decodeListItemsAt width data = KVLite.decodeListItemsAt width data :=
    funext fun count => funext fun offset => decodeListItemsAt_eq data count offset
  rw [decodeListAt, KVLite.decodeListAt]
  generalize decodeListItemsAt width data = items at hitems
  subst hitems
  rfl

/-- A field that does not fit in front of the end does not fit in either slice. -/
theorem encodeListItemsAt_eq {result : Bytes} (hresult : result.length < width.limit)
    (offset : ℤ) (items : List Bytes) :
    encodeListItemsAt width result offset items =
      KVLite.encodeListItemsAt width result offset items := by
  induction items generalizing result offset with
  | nil => rfl
  | cons item items ih =>
    have hput : putAt result offset (width.int (offset + 4)) (bigEndian 4 item.length) =
        putAt result offset result.length (bigEndian 4 item.length) := by
      have h : putAt result offset (wrap width.bits (offset + (bigEndian 4 item.length).length))
          (bigEndian 4 item.length) = _ := putAt_toEnd width.bits_pos hresult
      rw [length_bigEndian] at h
      exact h
    rw [encodeListItemsAt, KVLite.encodeListItemsAt, hput]
    cases hwritten : putAt result offset result.length (bigEndian 4 item.length) with
    | none => rfl
    | some written =>
      dsimp only [Option.bind_eq_bind, Option.bind_some]
      cases hcopied : copyAt written (width.int (offset + 4)) item with
      | none => rfl
      | some copied =>
        dsimp only [Option.bind_some]
        apply ih
        rw [length_of_copyAt hcopied, length_of_putAt hwritten]
        exact hresult

theorem encodeListAt_eq (items : List Bytes) :
    encodeListAt memory width items = KVLite.encodeListAt memory width items := by
  rw [encodeListAt, KVLite.encodeListAt]
  have hsize : encodedSizeAt width items < width.limit := by
    rw [encodedSizeAt_eq]
    exact width.int_lt _
  cases hmade : make memory 1 (0 : UInt8) (encodedSizeAt width items) with
  | none => rfl
  | some made =>
    dsimp only [Option.bind_eq_bind, Option.bind_some]
    cases hwritten : putAt made 0 4 (bigEndian 4 items.length) with
    | none => rfl
    | some written =>
      dsimp only [Option.bind_some]
      apply encodeListItemsAt_eq
      rw [length_of_putAt hwritten]
      rw [make] at hmade
      split at hmade
      · cases hmade
        rw [List.length_replicate]
        omega
      · cases hmade

end Copies

/-! ### Round trips -/

/-- The number of bytes of a list record. -/
def encodedSize (items : List Bytes) : ℕ := 4 + (items.map fun item => 4 + item.length).sum

theorem length_encodeList_eq (items : List Bytes) :
    (KVLite.encodeList items).length = encodedSize items := by
  rw [length_encodeList, encodedSize, List.length_flatMap]
  congr 2
  exact List.map_congr_left fun item _ => length_encodeListItem item

/-- With 64-bit integers and a runtime that allocates up to `memory` bytes: what is encoded into
a record of at most that many bytes is decoded again, the decoder returns on every input of at
most that many bytes, what it accepts is the encoding of its result, and the copies are the
functions of the core. The bounds on the memory make room for the headers of as many items as
a record can count, and keep the offsets in range. -/
theorem list_codec_round_trips {memory : ℕ} (hlow : 24 * 2 ^ 32 ≤ memory)
    (hhigh : memory ≤ 2 ^ 63 - 2 ^ 32) :
    (∀ items : List Bytes, items.length < 2 ^ 32 → (∀ item ∈ items, item.length < 2 ^ 32) →
      encodedSize items ≤ memory →
        ∃ data, KVLite.encodeListAt memory .sixtyFour items = some data ∧
          KVLite.decodeListAt memory .sixtyFour data = some (.ok items)) ∧
      (∀ data : Bytes, data.length ≤ memory →
        ∃ result, KVLite.decodeListAt memory .sixtyFour data = some result ∧
          ∀ items, result = .ok items → KVLite.encodeListAt memory .sixtyFour items = some data) ∧
      (∀ items, encodeListAt memory .sixtyFour items = KVLite.encodeListAt memory .sixtyFour items) ∧
      ∀ data, decodeListAt memory .sixtyFour data = KVLite.decodeListAt memory .sixtyFour data := by
  have hlimit : IntWidth.sixtyFour.limit = 2 ^ 63 := rfl
  have hfits : ∀ data : Bytes, data.length ≤ memory → ListFits memory .sixtyFour data :=
    fun data hdata => listFits_sixtyFour (hdata.trans hhigh) fun hlen _ => by
      have hcount : lengthField data 0 < 2 ^ 32 := lengthField_lt (by omega)
      omega
  refine ⟨fun items hcount hitems hsize => ?_, fun data hdata => ?_, encodeListAt_eq,
    decodeListAt_eq⟩
  · rw [← length_encodeList_eq] at hsize
    refine ⟨_, encodeListAt_eq_some (by omega) hsize, ?_⟩
    rw [decodeListAt_eq_some (by omega) (hfits _ hsize), decodeList_encodeList hcount hitems]
  · refine ⟨_, decodeListAt_eq_some (by omega) (hfits data hdata), fun items hitems => ?_⟩
    obtain ⟨hencoded, -, -⟩ := encodeList_decodeList hitems
    rw [encodeListAt_eq_some (by rw [hencoded]; omega) (by rwa [hencoded]), hencoded]

/-- Two items, one of them empty, on a machine that allocates up to `2 ^ 48` bytes. -/
theorem list_codec_round_trips_two :
    ∃ data, KVLite.encodeListAt (2 ^ 48) .sixtyFour [text "a", []] = some data ∧
      KVLite.decodeListAt (2 ^ 48) .sixtyFour data = some (.ok [text "a", []]) :=
  (list_codec_round_trips (by decide) (by decide)).1 _ (by decide) (by decide) (by decide)

/-- A record of `2 ^ 63` bytes or more has a negative size, and cannot be allocated. -/
theorem encodeListAt_eq_none {items : List Bytes} (hlow : 2 ^ 63 ≤ encodedSize items)
    (hhigh : encodedSize items < 2 ^ 64) (memory : ℕ) :
    KVLite.encodeListAt memory .sixtyFour items = none := by
  have hlimit : IntWidth.sixtyFour.limit = 2 ^ 63 := rfl
  have hnegative : encodedSizeAt .sixtyFour items < 0 := by
    rw [encodedSizeAt_eq, length_encodeList_eq, IntWidth.int_of_le (by omega) (by omega)]
    omega
  rw [KVLite.encodeListAt, make, if_neg (by omega)]
  rfl

theorem encodedSize_replicate (count : ℕ) (item : Bytes) :
    encodedSize (List.replicate count item) = 4 + count * (4 + item.length) := by
  rw [encodedSize, List.map_replicate, List.sum_replicate_nat]

/-- The items of a list may share their bytes. The sizes of `2 ^ 31` items of `2 ^ 32 - 1`
bytes add up to more than a 64-bit integer. -/
theorem encodeListAt_of_shared_items :
    ∃ items : List Bytes, items.length < 2 ^ 32 ∧ (∀ item ∈ items, item.length < 2 ^ 32) ∧
      ∀ memory, KVLite.encodeListAt memory .sixtyFour items = none := by
  obtain ⟨item, hitem⟩ : ∃ item : Bytes, item.length = 2 ^ 32 - 1 :=
    ⟨List.replicate (2 ^ 32 - 1) 0, List.length_replicate⟩
  obtain ⟨count, hcount⟩ : ∃ count : ℕ, count = 2 ^ 31 := ⟨_, rfl⟩
  have hsize := encodedSize_replicate count item
  rw [hitem, hcount] at hsize
  refine ⟨List.replicate count item, ?_, ?_, encodeListAt_eq_none ?_ ?_⟩
  · rw [List.length_replicate, hcount]
    decide
  · intro other hother
    rw [List.eq_of_mem_replicate hother, hitem]
    decide
  · rw [hcount, hsize]
    decide
  · rw [hcount, hsize]
    decide

/-! ### Decoders that return -/

/-- For data that an `int` of 32 bits can count: the decoders of list records return exactly
when the count and the offsets of the items fit, and their headers fit the memory; the key is
read exactly when the end of its name fits, and the envelope is always decoded. With 64 bits,
and memory for the headers, everything fits. -/
theorem record_decoders_safe_iff {data : Bytes} (hdata : data.length < 2 ^ 31) (memory : ℕ)
    (width : IntWidth) :
    ((∃ result, KVLite.decodeListAt memory width data = some result) ↔
        ListFits memory width data) ∧
      ((∃ result, decodeListAt memory width data = some result) ↔ ListFits memory width data) ∧
      ((∃ result, logicalKeyFromStorageAt width data = some result) ↔ KeyFits width data) ∧
      (∃ result, unmarshalEnvelopeAt width data = some result) ∧
      (width = .sixtyFour →
        KeyFits width data ∧ (6 * data.length ≤ memory → ListFits memory width data)) := by
  have hlength : data.length < width.limit := by
    have hlimit := width.le_limit
    omega
  refine ⟨exists_decodeListAt_iff hlength, ?_, exists_logicalKeyFromStorageAt_iff hlength,
    ⟨_, unmarshalEnvelopeAt_eq_some⟩, ?_⟩
  · rw [decodeListAt_eq]
    exact exists_decodeListAt_iff hlength
  · rintro rfl
    exact ⟨keyFits_sixtyFour data, fun hmemory => listFits_sixtyFour (by omega) fun _ _ => by omega⟩

/-- A count of all ones is the capacity `-1` on a machine of 32 bits, and a name of that length
ends before it starts. -/
theorem record_decoders_fail :
    KVLite.decodeListAt (2 ^ 32) .thirtyTwo [255, 255, 255, 255] = none ∧
      decodeListAt (2 ^ 32) .thirtyTwo [255, 255, 255, 255] = none ∧
      logicalKeyFromStorageAt .thirtyTwo [2, 255, 255, 255, 255] = none := by
  decide

/-- A list of one item. -/
theorem decodeListAt_one_item :
    ∃ result, KVLite.decodeListAt (2 ^ 32) .thirtyTwo [0, 0, 0, 1, 0, 0, 0, 1, 97] = some result := by
  refine (record_decoders_safe_iff (by decide) (2 ^ 32) .thirtyTwo).1.mpr fun _ =>
    ⟨by decide, fun _ => ⟨by decide, fun read offset hreaches hread => ?_⟩⟩
  obtain rfl : read = 0 := Nat.lt_one_iff.mp hread
  cases hreaches
  exact ⟨by decide, fun _ _ => by decide⟩

end KVLite.Http
