import KVLite.Core.ListCodec
import KVLite.Math.Bounded

/-!
# Records on machines of either word size

Go's `int` has 32 or 64 bits, and the decoders of the stored records convert the length
fields of a record to it before they add and compare. Here the codecs run with that
arithmetic and with the slice operations that check their bounds: a decoder that indexes out
of range, or allocates a negative capacity or more bytes than the runtime can, has no result.
-/

namespace KVLite

open BigEndian Bounded

/-- The sizes of Go's `int`. -/
inductive IntWidth
  | thirtyTwo
  | sixtyFour
  deriving DecidableEq, Repr

namespace IntWidth

def bits : IntWidth → ℕ
  | thirtyTwo => 32
  | sixtyFour => 64

/-- The conversion to `int`. -/
def int (width : IntWidth) (x : ℤ) : ℤ := wrap width.bits x

/-- The bytes of a slice header: a pointer, a length and a capacity. -/
def sliceHeader (width : IntWidth) : ℕ := 3 * (width.bits / 8)

/-- The number of values of either sign. -/
def limit (width : IntWidth) : ℕ := half width.bits

theorem bits_pos (width : IntWidth) : 0 < width.bits := by cases width <;> decide

theorem le_limit (width : IntWidth) : 2 ^ 31 ≤ width.limit := by cases width <;> decide

theorem int_of_lt {width : IntWidth} {x : ℤ} (hlow : 0 ≤ x) (hhigh : x < width.limit) :
    width.int x = x :=
  wrap_of_lt width.bits_pos hlow hhigh

theorem int_of_le {width : IntWidth} {x : ℤ} (hlow : width.limit ≤ x)
    (hhigh : x < 3 * width.limit) : width.int x = x - 2 * width.limit :=
  wrap_of_le width.bits_pos hlow hhigh

theorem int_lt (width : IntWidth) (x : ℤ) : width.int x < width.limit := wrap_lt width.bits_pos

end IntWidth

/-! ### The functions of the source -/

/-- The loop of `decodeList`: the remaining count and the current offset. -/
def decodeListItemsAt (width : IntWidth) (data : Bytes) :
    ℕ → ℤ → Option (Except GoError (List Bytes × ℤ))
  | 0, offset => some (.ok ([], offset))
  | count + 1, offset =>
    if width.int (offset + 4) > data.length then
      some (.error (.new (text "kvlite: truncated list encoding")))
    else do
      let field ← sub data offset (width.int (offset + 4))
      let length := width.int (ofBigEndian field)
      let offset := width.int (offset + 4)
      if length < 0 ∨ width.int (offset + length) > data.length then
        some (.error (.new (text "kvlite: truncated list item")))
      else do
        let item ← sub data offset (width.int (offset + length))
        match ← decodeListItemsAt width data count (width.int (offset + length)) with
        | .error err => some (.error err)
        | .ok (items, final) => some (.ok (item :: items, final))

def decodeListAt (memory : ℕ) (width : IntWidth) (data : Bytes) :
    Option (Except GoError (List Bytes)) :=
  if data.length < 4 then
    some (.error (.new (text "kvlite: invalid list encoding")))
  else do
    let field ← sub data 0 4
    let count := width.int (ofBigEndian field)
    if count > ((data.length - 4) / 4 : ℕ) then
      some (.error (.new (text "kvlite: invalid list item count")))
    else do
      let _ ← make memory width.sliceHeader () count
      match ← decodeListItemsAt width data count.toNat 4 with
      | .error err => some (.error err)
      | .ok (items, offset) =>
        if offset ≠ data.length then
          some (.error (.new (text "kvlite: trailing list data")))
        else
          some (.ok items)

def logicalKeyFromStorageAt (width : IntWidth) (storageKey : Bytes) : Option (Option Bytes) :=
  match storageKey with
  | [] => some none
  | kind :: _ =>
    if kind = kindValue ∨ kind = kindList ∨ kind = kindCollectionTTL then do
      let key ← sub storageKey 1 storageKey.length
      some (some key)
    else if kind = kindHash ∨ kind = kindSet then
      if storageKey.length < 5 then
        some none
      else do
        let field ← sub storageKey 1 5
        let length := width.int (ofBigEndian field)
        if storageKey.length < width.int (5 + length) then
          some none
        else do
          let key ← sub storageKey 5 (width.int (5 + length))
          some (some key)
    else
      some none

def unmarshalEnvelopeAt (width : IntWidth) (data : Bytes) : Option (Except GoError Envelope) :=
  if data.length < envelopeHeaderSize then
    some (.error (.new (text "kvlite: invalid value envelope")))
  else do
    let magic ← sub data 0 4
    if magic ≠ envelopeMagic then
      some (.error (.new (text "kvlite: invalid value envelope")))
    else do
      let field ← sub data 12 14
      let codecLength := width.int (ofBigEndian field)
      if data.length < width.int (envelopeHeaderSize + codecLength) then
        some (.error (.new (text "kvlite: truncated value envelope")))
      else do
        let expiresAt ← sub data 4 12
        let codec ← sub data 14 (width.int (14 + codecLength))
        let payload ← sub data (width.int (14 + codecLength)) data.length
        some (.ok { expiresAt := toInt64 (ofBigEndian expiresAt), codec := codec, payload := payload })

/-- The size that `encodeList` computes. -/
def encodedSizeAt (width : IntWidth) (items : List Bytes) : ℤ :=
  items.foldl (fun size item => width.int (size + (4 + item.length))) 4

/-- The loop of `encodeList`: the record so far and the current offset. -/
def encodeListItemsAt (width : IntWidth) : Bytes → ℤ → List Bytes → Option Bytes
  | result, _, [] => some result
  | result, offset, item :: items => do
    let result ← putAt result offset (width.int (offset + 4)) (bigEndian 4 item.length)
    let offset := width.int (offset + 4)
    let result ← copyAt result offset item
    encodeListItemsAt width result (width.int (offset + item.length)) items

def encodeListAt (memory : ℕ) (width : IntWidth) (items : List Bytes) : Option Bytes := do
  let result ← make memory 1 0 (encodedSizeAt width items)
  let result ← putAt result 0 4 (bigEndian 4 items.length)
  encodeListItemsAt width result 4 items

/-! ### Offsets that fit -/

/-- The four bytes at an offset, as a length field. -/
def lengthField (data : Bytes) (offset : ℕ) : ℕ := ofBigEndian (slice data offset (offset + 4))

/-- The offsets of the items: after `read` items that lie inside the data, starting at `start`,
the next item begins at `offset`. -/
inductive Reaches (data : Bytes) : ℕ → ℕ → ℕ → Prop
  | here {start : ℕ} : Reaches data start 0 start
  | next {start read offset : ℕ} (hinside : start + 4 + lengthField data start ≤ data.length)
      (hrest : Reaches data (start + 4 + lengthField data start) read offset) :
      Reaches data start (read + 1) offset

theorem Reaches.le_length {data : Bytes} {start read offset : ℕ}
    (h : Reaches data start read offset) (hstart : start ≤ data.length) : offset ≤ data.length := by
  induction h with
  | here => exact hstart
  | next hinside _ ih => exact ih hinside

/-- The end of a length field is an `int`, and so is the end of its item, unless the field
itself is out of range. -/
def HeaderFits (width : IntWidth) (data : Bytes) (offset : ℕ) : Prop :=
  offset + 4 < width.limit ∧
    (offset + 4 ≤ data.length → lengthField data offset < width.limit →
      offset + 4 + lengthField data offset < width.limit)

/-- The count of a list record is an `int`, and if the record can have that many items, their
slice headers can be allocated and their offsets are `int`s. -/
def ListFits (memory : ℕ) (width : IntWidth) (data : Bytes) : Prop :=
  4 ≤ data.length → lengthField data 0 < width.limit ∧
    (lengthField data 0 ≤ (data.length - 4) / 4 →
      width.sliceHeader * lengthField data 0 ≤ memory ∧
        ∀ read offset, Reaches data 4 read offset → read < lengthField data 0 →
          HeaderFits width data offset)

/-- The end of the name in a hash or set key is an `int`. -/
def KeyFits (width : IntWidth) (storageKey : Bytes) : Prop :=
  storageKey.head? = some kindHash ∨ storageKey.head? = some kindSet →
    5 ≤ storageKey.length → 5 + lengthField storageKey 1 < width.limit

section Decoders

variable {memory : ℕ} {width : IntWidth} {data : Bytes}

theorem sub_slice {lo hi : ℕ} (hle : lo ≤ hi) (hlen : hi ≤ data.length) :
    sub data lo hi = some (slice data lo hi) :=
  sub_natCast hle hlen

theorem lengthField_lt {offset : ℕ} (h : offset + 4 ≤ data.length) :
    lengthField data offset < 2 ^ 32 := by
  have hlength : (slice data offset (offset + 4)).length = 4 := by
    rw [length_slice h]
    omega
  simpa [lengthField, hlength] using ofBigEndian_lt (slice data offset (offset + 4))

theorem lengthField_lt_two_limit {offset : ℕ} (h : offset + 4 ≤ data.length) :
    lengthField data offset < 2 * width.limit := by
  have hfield := lengthField_lt h
  have hlimit := width.le_limit
  omega

/-- A conversion that is out of range is negative. -/
theorem int_neg_iff {n : ℕ} (h : n < 2 * width.limit) : width.int n < 0 ↔ width.limit ≤ n := by
  by_cases hn : n < width.limit
  · rw [IntWidth.int_of_lt (by omega) (by omega)]
    omega
  · rw [IntWidth.int_of_le (by omega) (by omega)]
    omega

/-- An item that lies inside the data is read whatever the width. -/
theorem decodeListItemsAt_succ_of_inside (hdata : data.length < width.limit) {count start : ℕ}
    (hinside : start + 4 + lengthField data start ≤ data.length) :
    decodeListItemsAt width data (count + 1) start =
      (decodeListItemsAt width data count (start + 4 + lengthField data start : ℕ)).map
        fun result => result.map fun rest =>
          (slice data (start + 4) (start + 4 + lengthField data start) :: rest.1, rest.2) := by
  have hheader : width.int ((start : ℤ) + 4) = (start + 4 : ℕ) :=
    IntWidth.int_of_lt (by omega) (by omega)
  have hlength : width.int (lengthField data start) = lengthField data start :=
    IntWidth.int_of_lt (by omega) (by omega)
  have hend : width.int ((start + 4 : ℕ) + (lengthField data start : ℤ)) =
      (start + 4 + lengthField data start : ℕ) :=
    IntWidth.int_of_lt (by omega) (by omega)
  have hfield : sub data start (start + 4 : ℕ) = some (slice data start (start + 4)) :=
    sub_slice (by omega) (by omega)
  have hitem : sub data (start + 4 : ℕ) (start + 4 + lengthField data start : ℕ) =
      some (slice data (start + 4) (start + 4 + lengthField data start)) :=
    sub_slice (by omega) (by omega)
  rw [decodeListItemsAt, hheader, if_neg (by omega), hfield]
  dsimp only [Option.bind_eq_bind, Option.bind_some]
  rw [← lengthField, hlength, hend, if_neg (by omega), hitem]
  dsimp only [Option.bind_some]
  cases decodeListItemsAt width data count (start + 4 + lengthField data start : ℕ) with
  | none => rfl
  | some result => cases result <;> rfl

/-- The loop is that of unbounded integers as long as the offsets fit. -/
theorem decodeListItemsAt_eq_some (hdata : data.length < width.limit) {count start : ℕ}
    (hstart : start ≤ data.length)
    (hfits : ∀ read offset, Reaches data start read offset → read < count →
      HeaderFits width data offset) :
    decodeListItemsAt width data count start =
      some ((decodeListItems data count start).map fun result => (result.1, (result.2 : ℤ))) := by
  induction count generalizing start with
  | zero => rfl
  | succ count ih =>
    by_cases hinside : start + 4 + lengthField data start ≤ data.length
    · have hrest := ih hinside fun read offset hreaches hread =>
        hfits (read + 1) offset (.next hinside hreaches) (by omega)
      rw [decodeListItemsAt_succ_of_inside hdata hinside, hrest, decodeListItems,
        if_neg (by omega)]
      dsimp only
      rw [← lengthField, if_neg (by omega)]
      cases decodeListItems data count (start + 4 + lengthField data start) <;> rfl
    · -- The field or its item ends behind the data, and the comparison says so.
      obtain ⟨hheader, hitem⟩ := hfits 0 start .here (by omega)
      have hend : width.int ((start : ℤ) + 4) = (start + 4 : ℕ) :=
        IntWidth.int_of_lt (by omega) (by omega)
      rw [decodeListItemsAt, decodeListItems, hend]
      by_cases htruncated : start + 4 > data.length
      · rw [if_pos (by omega), if_pos htruncated]
        rfl
      have hfield : sub data start (start + 4 : ℕ) = some (slice data start (start + 4)) :=
        sub_slice (by omega) (by omega)
      rw [if_neg (by omega), if_neg htruncated, hfield]
      dsimp only [Option.bind_eq_bind, Option.bind_some]
      rw [← lengthField, if_pos, if_pos (by omega)]
      · rfl
      · by_cases hlength : lengthField data start < width.limit
        · right
          have hitem := hitem (by omega) hlength
          rw [IntWidth.int_of_lt (by omega) (by omega : (lengthField data start : ℤ) < width.limit),
            IntWidth.int_of_lt (by omega) (by omega)]
          omega
        · left
          exact (int_neg_iff (lengthField_lt_two_limit (by omega))).mpr (by omega)

/-- Where an offset does not fit the loop indexes out of range. -/
theorem decodeListItemsAt_eq_none (hdata : data.length < width.limit) {count start read offset : ℕ}
    (hstart : start ≤ data.length) (hreaches : Reaches data start read offset)
    (hread : read < count) (hunfit : ¬ HeaderFits width data offset) :
    decodeListItemsAt width data count start = none := by
  have hlimit := width.le_limit
  induction hreaches generalizing count with
  | @here start =>
    obtain ⟨count, rfl⟩ : ∃ n, count = n + 1 := ⟨count - 1, by omega⟩
    rw [decodeListItemsAt]
    by_cases hheader : start + 4 < width.limit
    · obtain ⟨hinside, hlength, hend⟩ : start + 4 ≤ data.length ∧
          lengthField data start < width.limit ∧
            ¬ start + 4 + lengthField data start < width.limit := by
        rw [HeaderFits] at hunfit
        tauto
      have hfield : sub data start (start + 4 : ℕ) = some (slice data start (start + 4)) :=
        sub_slice (by omega) (by omega)
      have hint : width.int ((start : ℤ) + 4) = (start + 4 : ℕ) :=
        IntWidth.int_of_lt (by omega) (by omega)
      have hintLength : width.int (lengthField data start) = lengthField data start :=
        IntWidth.int_of_lt (by omega) (by omega)
      have hwraps : width.int ((start + 4 : ℕ) + (lengthField data start : ℤ)) < 0 := by
        rw [IntWidth.int_of_le (by omega) (by omega)]
        omega
      rw [hint, if_neg (by omega), hfield]
      dsimp only [Option.bind_eq_bind, Option.bind_some]
      rw [← lengthField, hintLength, if_neg (by omega), sub_eq_none (by omega)]
      rfl
    · have hwraps : width.int ((start : ℤ) + 4) < 0 := by
        rw [IntWidth.int_of_le (by omega) (by omega)]
        omega
      rw [if_neg (by omega), sub_eq_none (by omega)]
      rfl
  | next hinside hrest ih =>
    obtain ⟨count, rfl⟩ : ∃ n, count = n + 1 := ⟨count - 1, by omega⟩
    rw [decodeListItemsAt_succ_of_inside hdata hinside, ih hinside (by omega) hunfit]
    rfl

theorem decodeListAt_eq_some (hdata : data.length < width.limit)
    (hfits : ListFits memory width data) :
    decodeListAt memory width data = some (decodeList data) := by
  rw [decodeListAt, decodeList]
  by_cases hshort : data.length < 4
  · rw [if_pos hshort, if_pos hshort]
  obtain ⟨hcount, hitems⟩ := hfits (by omega)
  have hfield : sub data 0 4 = some (slice data 0 4) := @sub_slice data 0 4 (by omega) (by omega)
  have hvalue : ofBigEndian (slice data 0 4) = lengthField data 0 := rfl
  rw [if_neg hshort, if_neg hshort, hfield]
  dsimp only [Option.bind_eq_bind, Option.bind_some]
  rw [hvalue, IntWidth.int_of_lt (by omega) (by omega)]
  by_cases hinflated : lengthField data 0 > (data.length - 4) / 4
  · rw [if_pos (by omega), if_pos hinflated]
  obtain ⟨hmemory, hitems⟩ := hitems (by omega)
  have hloop : decodeListItemsAt width data (lengthField data 0) 4 = some _ :=
    @decodeListItemsAt_eq_some width data hdata _ 4 (by omega) hitems
  rw [if_neg (by omega), if_neg hinflated, make, if_pos ⟨by omega, by exact_mod_cast hmemory⟩]
  dsimp only [Option.bind_some]
  rw [Int.toNat_natCast, hloop]
  cases decodeListItems data (lengthField data 0) 4 with
  | error err => rfl
  | ok result =>
    have hcompare : (result.2 : ℤ) ≠ data.length ↔ result.2 ≠ data.length := by omega
    simp only [Except.map, Option.bind_some]
    by_cases hend : result.2 = data.length
    · rw [if_neg (by omega), if_neg (not_not_intro hend)]
    · rw [if_pos (by omega), if_pos hend]

/-- A count that is out of range is a negative capacity, and an offset out of range a slice
bound outside the data. -/
theorem decodeListAt_eq_none (hdata : data.length < width.limit)
    (hfits : ¬ ListFits memory width data) : decodeListAt memory width data = none := by
  obtain ⟨hlen, hunfit⟩ := Classical.not_imp.mp hfits
  have hfield : sub data 0 4 = some (slice data 0 4) := @sub_slice data 0 4 (by omega) (by omega)
  have hvalue : ofBigEndian (slice data 0 4) = lengthField data 0 := rfl
  have hbound : lengthField data 0 < 2 * width.limit := lengthField_lt_two_limit (by omega)
  rw [decodeListAt, if_neg (by omega), hfield]
  dsimp only [Option.bind_eq_bind, Option.bind_some]
  rw [hvalue]
  by_cases hcount : lengthField data 0 < width.limit
  · obtain ⟨hclaimed, hitems⟩ := Classical.not_imp.mp (not_and.mp hunfit hcount)
    rw [IntWidth.int_of_lt (by omega) (by omega), if_neg (by omega), make]
    by_cases hmemory : width.sliceHeader * lengthField data 0 ≤ memory
    swap
    · rw [if_neg fun h => hmemory (by exact_mod_cast h.2)]
      rfl
    have hitems := not_and.mp hitems hmemory
    simp only [Classical.not_imp, not_forall] at hitems
    obtain ⟨read, offset, hreaches, hread, hheader⟩ := hitems
    have hloop : decodeListItemsAt width data (lengthField data 0) 4 = none :=
      @decodeListItemsAt_eq_none width data hdata _ 4 _ _ (by omega) hreaches hread hheader
    rw [if_pos ⟨by omega, by exact_mod_cast hmemory⟩]
    dsimp only [Option.bind_some]
    rw [Int.toNat_natCast, hloop]
    rfl
  · have hnegative : width.int (lengthField data 0) < 0 := (int_neg_iff hbound).mpr (by omega)
    rw [if_neg (by omega), make, if_neg (by omega)]
    rfl

theorem exists_decodeListAt_iff (hdata : data.length < width.limit) :
    (∃ result, decodeListAt memory width data = some result) ↔ ListFits memory width data := by
  by_cases hfits : ListFits memory width data
  · exact iff_of_true ⟨_, decodeListAt_eq_some hdata hfits⟩ hfits
  · refine iff_of_false ?_ hfits
    rintro ⟨result, h⟩
    rw [decodeListAt_eq_none hdata hfits] at h
    cases h

/-- With 64 bits the fields are too small to leave the range. -/
theorem listFits_sixtyFour (hdata : data.length ≤ 2 ^ 63 - 2 ^ 32)
    (hmemory : 4 ≤ data.length → lengthField data 0 ≤ (data.length - 4) / 4 →
      24 * lengthField data 0 ≤ memory) : ListFits memory .sixtyFour data := by
  have hlimit : IntWidth.sixtyFour.limit = 2 ^ 63 := rfl
  intro hlen
  have hcount : lengthField data 0 < 2 ^ 32 := lengthField_lt (by omega)
  refine ⟨by omega, fun hclaimed => ⟨hmemory hlen hclaimed, fun read offset hreaches _ => ?_⟩⟩
  have hoffset := hreaches.le_length hlen
  refine ⟨by omega, fun hinside _ => ?_⟩
  have hfield := lengthField_lt hinside
  omega

/-! ### Keys and envelopes -/

theorem logicalKeyFromStorageAt_eq_some (hdata : data.length < width.limit)
    (hfits : KeyFits width data) :
    logicalKeyFromStorageAt width data = some (logicalKeyFromStorage data) := by
  have hlimit := width.le_limit
  cases data with
  | nil => rfl
  | cons kind rest =>
    rw [logicalKeyFromStorageAt, logicalKeyFromStorage]
    split
    · have hkey : sub (kind :: rest) 1 (kind :: rest).length = some rest := by
        have h := @sub_natCast _ (kind :: rest) 1 (kind :: rest).length (by simp) le_rfl
        simpa using h
      rw [hkey]
      rfl
    split
    · rename_i hkind
      split
      · rfl
      rename_i hlen
      have hfield : sub (kind :: rest) 1 5 = some (rest.take 4) :=
        @sub_natCast _ (kind :: rest) 1 5 (by omega) (by omega)
      have hvalue : ofBigEndian (rest.take 4) = lengthField (kind :: rest) 1 := rfl
      have hend := hfits (by simpa using hkind) (by omega)
      rw [hfield]
      dsimp only [Option.bind_eq_bind, Option.bind_some]
      rw [hvalue, IntWidth.int_of_lt (by omega) (by omega : (lengthField (kind :: rest) 1 : ℤ) < _),
        IntWidth.int_of_lt (by omega) (by omega)]
      by_cases htruncated : (kind :: rest).length < 5 + lengthField (kind :: rest) 1
      · rw [if_pos (by omega), if_pos htruncated]
      · have hname := @sub_natCast _ (kind :: rest) 5 (5 + lengthField (kind :: rest) 1)
          (by omega) (by omega)
        rw [if_neg (by omega), if_neg htruncated]
        push_cast at hname
        rw [hname, Nat.add_sub_cancel_left]
        rfl
    · rfl

/-- A name that ends out of range ends before it starts. -/
theorem logicalKeyFromStorageAt_eq_none (hdata : data.length < width.limit)
    (hfits : ¬ KeyFits width data) : logicalKeyFromStorageAt width data = none := by
  have hlimit := width.le_limit
  obtain ⟨hkind, hunfit⟩ := Classical.not_imp.mp hfits
  obtain ⟨hlen, hend⟩ := Classical.not_imp.mp hunfit
  cases data with
  | nil => simp at hkind
  | cons kind rest =>
    have hkind : kind = kindHash ∨ kind = kindSet := by simpa using hkind
    have hother : ¬ (kind = kindValue ∨ kind = kindList ∨ kind = kindCollectionTTL) := by
      rcases hkind with rfl | rfl <;> decide
    have hfield : sub (kind :: rest) 1 5 = some (rest.take 4) :=
      @sub_natCast _ (kind :: rest) 1 5 (by omega) (by omega)
    have hvalue : ofBigEndian (rest.take 4) = lengthField (kind :: rest) 1 := rfl
    have hbound : lengthField (kind :: rest) 1 < 2 ^ 32 := lengthField_lt (by omega)
    have hwraps : width.int (5 + width.int (lengthField (kind :: rest) 1)) < 5 := by
      rw [IntWidth.int, IntWidth.int, wrap_add_wrap, ← IntWidth.int,
        IntWidth.int_of_le (by omega) (by omega)]
      omega
    rw [logicalKeyFromStorageAt, if_neg hother, if_pos hkind, if_neg (by omega), hfield]
    dsimp only [Option.bind_eq_bind, Option.bind_some]
    rw [hvalue, if_neg (by omega), sub_eq_none hwraps]
    rfl

theorem exists_logicalKeyFromStorageAt_iff (hdata : data.length < width.limit) :
    (∃ result, logicalKeyFromStorageAt width data = some result) ↔ KeyFits width data := by
  by_cases hfits : KeyFits width data
  · exact iff_of_true ⟨_, logicalKeyFromStorageAt_eq_some hdata hfits⟩ hfits
  · refine iff_of_false ?_ hfits
    rintro ⟨result, h⟩
    rw [logicalKeyFromStorageAt_eq_none hdata hfits] at h
    cases h

theorem keyFits_sixtyFour (storageKey : Bytes) : KeyFits .sixtyFour storageKey := by
  intro _ hlen
  have hfield : lengthField storageKey 1 < 2 ^ 32 := lengthField_lt (by omega)
  have hlimit : IntWidth.sixtyFour.limit = 2 ^ 63 := rfl
  omega

/-- The length of a codec name has sixteen bits. -/
theorem unmarshalEnvelopeAt_eq_some :
    unmarshalEnvelopeAt width data = some (unmarshalEnvelope data) := by
  have hlimit := width.le_limit
  rw [unmarshalEnvelopeAt, unmarshalEnvelope]
  by_cases hshort : data.length < envelopeHeaderSize
  · rw [if_pos hshort, if_pos (.inl hshort)]
  have hheader : 14 ≤ data.length := not_lt.mp hshort
  have hmagic : sub data 0 4 = some (slice data 0 4) := @sub_slice data 0 4 (by omega) (by omega)
  have hfield : sub data 12 14 = some (slice data 12 14) :=
    @sub_slice data 12 14 (by omega) (by omega)
  have hexpires : sub data 4 12 = some (slice data 4 12) :=
    @sub_slice data 4 12 (by omega) (by omega)
  have hlength : (slice data 12 14).length = 2 := length_slice hheader
  have hbound : ofBigEndian (slice data 12 14) < 65536 := by
    simpa [hlength] using ofBigEndian_lt (slice data 12 14)
  rw [if_neg hshort, hmagic]
  dsimp only [Option.bind_eq_bind, Option.bind_some]
  by_cases hother : slice data 0 4 ≠ envelopeMagic
  · rw [if_pos hother, if_pos (.inr hother)]
  rw [if_neg hother, if_neg (not_or.mpr ⟨hshort, hother⟩), hfield]
  dsimp only [Option.bind_eq_bind, Option.bind_some]
  generalize ofBigEndian (slice data 12 14) = codecLength at hbound
  have hint : width.int codecLength = codecLength := IntWidth.int_of_lt (by omega) (by omega)
  have hend : width.int (14 + codecLength) = (14 + codecLength : ℕ) :=
    IntWidth.int_of_lt (by omega) (by omega)
  have hend' : width.int (envelopeHeaderSize + codecLength) = (14 + codecLength : ℕ) := hend
  rw [hint, hend, hend']
  by_cases htruncated : data.length < envelopeHeaderSize + codecLength
  · rw [if_pos (by exact_mod_cast htruncated), if_pos htruncated]
  have hinside : 14 + codecLength ≤ data.length := not_lt.mp htruncated
  have hcodec : sub data 14 (14 + codecLength : ℕ) = some (slice data 14 (14 + codecLength)) :=
    @sub_slice data 14 (14 + codecLength) (by omega) hinside
  have hpayload : sub data (14 + codecLength : ℕ) data.length =
      some (data.drop (14 + codecLength)) := by
    rw [sub_natCast hinside le_rfl, List.take_of_length_le (by simp)]
  rw [if_neg (by exact_mod_cast htruncated), if_neg htruncated, hexpires, hcodec, hpayload]
  rfl

/-! ### The encoder -/

theorem foldl_encodedSizeAt (items : List Bytes) (size : ℤ) :
    items.foldl (fun size item => width.int (size + (4 + item.length))) (width.int size) =
      width.int (size + (items.flatMap encodeListItem).length) := by
  induction items generalizing size with
  | nil => simp
  | cons item items ih =>
    have hsum : size + (4 + item.length) + (items.flatMap encodeListItem).length =
        size + ((item :: items).flatMap encodeListItem).length := by
      rw [List.flatMap_cons, List.length_append, length_encodeListItem]
      push_cast
      ring
    rw [List.foldl_cons, ← hsum, ← ih]
    congr 1
    exact wrap_wrap_add _ _

/-- The size is that of the record, wrapped. -/
theorem encodedSizeAt_eq (items : List Bytes) :
    encodedSizeAt width items = width.int (encodeList items).length := by
  have hlimit := width.le_limit
  have hfour : width.int 4 = 4 := IntWidth.int_of_lt (by omega) (by omega)
  have hfold := @foldl_encodedSizeAt width items 4
  rw [hfour] at hfold
  rw [encodedSizeAt, hfold, length_encodeList]
  push_cast
  rfl

/-- The loop fills the rest of the record. -/
theorem encodeListItemsAt_eq_some (before : Bytes) {items : List Bytes}
    (hsize : before.length + (items.flatMap encodeListItem).length < width.limit) :
    encodeListItemsAt width
        (before ++ List.replicate (items.flatMap encodeListItem).length 0) before.length items =
      some (before ++ items.flatMap encodeListItem) := by
  induction items generalizing before with
  | nil => simp [encodeListItemsAt]
  | cons item items ih =>
    set field := bigEndian 4 item.length with hfield
    set rest := (items.flatMap encodeListItem).length with hrest
    have hlength : field.length = 4 := length_bigEndian 4 _
    have htotal : ((item :: items).flatMap encodeListItem).length = 4 + (item.length + rest) := by
      rw [List.flatMap_cons, List.length_append, length_encodeListItem, hrest]
      omega
    rw [htotal] at hsize ⊢
    have hstart : width.int ((before.length : ℤ) + 4) = (before ++ field).length := by
      rw [IntWidth.int_of_lt (by omega) (by omega), List.length_append, hlength]
      push_cast
      rfl
    have hnext : width.int (((before ++ field).length : ℤ) + item.length) =
        (before ++ (field ++ item)).length := by
      simp only [List.length_append, hlength]
      rw [IntWidth.int_of_lt (by omega) (by omega)]
      push_cast
      ring
    have hput : putAt (before ++ (List.replicate 4 0 ++ List.replicate (item.length + rest) 0))
        before.length (before ++ field).length field =
          some (before ++ (field ++ List.replicate (item.length + rest) 0)) :=
      putAt_middle before (List.replicate 4 0) _ (by simp [hlength]) (by simp [hlength])
        (by simp only [List.length_append, List.length_replicate, hlength]; omega)
    have hcopy : copyAt (before ++ field ++ (List.replicate item.length 0 ++ List.replicate rest 0))
        (before ++ field).length item = some (before ++ field ++ (item ++ List.replicate rest 0)) :=
      copyAt_middle (before ++ field) (List.replicate item.length 0) _ (by simp)
    have hloop := ih (before ++ (field ++ item)) (by
      simp only [List.length_append, hlength]
      omega)
    rw [encodeListItemsAt, List.replicate_add, ← hfield, hstart, hput]
    dsimp only [Option.bind_eq_bind, Option.bind_some]
    rw [List.replicate_add, ← List.append_assoc before, hcopy]
    dsimp only [Option.bind_some]
    rw [hnext]
    simp only [List.append_assoc] at hloop ⊢
    rw [hloop, List.flatMap_cons, encodeListItem, ← hfield, List.append_assoc]

/-- A record whose size is an `int`, and for which there is memory, is written. -/
theorem encodeListAt_eq_some {items : List Bytes}
    (hsize : (encodeList items).length < width.limit) (hmemory : (encodeList items).length ≤ memory) :
    encodeListAt memory width items = some (encodeList items) := by
  have hlength : (bigEndian 4 items.length).length = 4 := length_bigEndian 4 _
  rw [length_encodeList] at hsize hmemory
  have hput : putAt (List.replicate 4 0 ++ List.replicate (items.flatMap encodeListItem).length 0)
      0 4 (bigEndian 4 items.length) =
        some (bigEndian 4 items.length ++
          List.replicate (items.flatMap encodeListItem).length 0) :=
    putAt_middle [] (List.replicate 4 0) _ (by simp) (by simp)
      (by simp only [List.nil_append, List.length_append, List.length_replicate]; omega)
  have hloop : encodeListItemsAt width (bigEndian 4 items.length ++
      List.replicate (items.flatMap encodeListItem).length 0) (bigEndian 4 items.length).length
      items = some (encodeList items) :=
    encodeListItemsAt_eq_some (bigEndian 4 items.length) (by omega)
  rw [encodeListAt, encodedSizeAt_eq, length_encodeList, IntWidth.int_of_lt (by omega) (by omega),
    make, if_pos (by omega), Int.toNat_natCast, List.replicate_add]
  dsimp only [Option.bind_eq_bind, Option.bind_some]
  rw [hput]
  dsimp only [Option.bind_some]
  rw [hlength] at hloop
  exact hloop

end Decoders

end KVLite
