import KVLite.Core.Envelope

/-!
# The list record

A list is one record: the number of items in four bytes, then each item behind its
length in four bytes. Both fields are written from a machine integer, so a list of
`2 ^ 32` items or an item of `2 ^ 32` bytes is written with a truncated field.
-/

namespace KVLite

open BigEndian

def encodeListItem (item : Bytes) : Bytes := bigEndian 4 item.length ++ item

def encodeList (items : List Bytes) : Bytes :=
  bigEndian 4 items.length ++ items.flatMap encodeListItem

/-- The loop of `decodeList`: the remaining count and the current offset. -/
def decodeListItems (data : Bytes) : ℕ → ℕ → Except GoError (List Bytes × ℕ)
  | 0, offset => .ok ([], offset)
  | count + 1, offset =>
    if offset + 4 > data.length then
      .error (.new (text "kvlite: truncated list encoding"))
    else
      let length := ofBigEndian (slice data offset (offset + 4))
      if offset + 4 + length > data.length then
        .error (.new (text "kvlite: truncated list item"))
      else
        match decodeListItems data count (offset + 4 + length) with
        | .error err => .error err
        | .ok (items, final) =>
          .ok (slice data (offset + 4) (offset + 4 + length) :: items, final)

def decodeList (data : Bytes) : Except GoError (List Bytes) :=
  if data.length < 4 then
    .error (.new (text "kvlite: invalid list encoding"))
  else
    let count := ofBigEndian (slice data 0 4)
    if count > (data.length - 4) / 4 then
      .error (.new (text "kvlite: invalid list item count"))
    else
      match decodeListItems data count 4 with
      | .error err => .error err
      | .ok (items, offset) =>
        if offset ≠ data.length then
          .error (.new (text "kvlite: trailing list data"))
        else
          .ok items

/-- Items whose length fits the four length bytes of an item. -/
def ShortItems (items : List Bytes) : Prop := ∀ item ∈ items, item.length < 2 ^ 32

instance (items : List Bytes) : Decidable (ShortItems items) :=
  inferInstanceAs (Decidable (∀ item ∈ items, item.length < 2 ^ 32))

@[simp] theorem shortItems_nil : ShortItems [] := by simp [ShortItems]

@[simp] theorem shortItems_cons {item : Bytes} {items : List Bytes} :
    ShortItems (item :: items) ↔ item.length < 2 ^ 32 ∧ ShortItems items := by
  simp [ShortItems]

@[simp] theorem shortItems_append {items items' : List Bytes} :
    ShortItems (items ++ items') ↔ ShortItems items ∧ ShortItems items' := by
  simp only [ShortItems, List.mem_append]
  exact ⟨fun h => ⟨fun x hx => h x (.inl hx), fun x hx => h x (.inr hx)⟩,
    fun h x hx => hx.elim (h.1 x) (h.2 x)⟩

/-! ### Reading an encoding -/

theorem length_encodeListItem (item : Bytes) :
    (encodeListItem item).length = 4 + item.length := by
  simp [encodeListItem]

theorem four_mul_le_length_flatMap (items : List Bytes) :
    4 * items.length ≤ (items.flatMap encodeListItem).length := by
  induction items with
  | nil => simp
  | cons item items ih =>
    rw [List.flatMap_cons, List.length_append, length_encodeListItem, List.length_cons]
    omega

/-- The loop reads back the items that stand at its offset. -/
theorem decodeListItems_flatMap {data : Bytes} (before after : Bytes) {items : List Bytes}
    {offset : ℕ} (hitems : ShortItems items) (hbefore : before.length = offset)
    (hdata : data = before ++ (items.flatMap encodeListItem ++ after)) :
    decodeListItems data items.length offset =
      .ok (items, offset + (items.flatMap encodeListItem).length) := by
  induction items generalizing before offset with
  | nil => rfl
  | cons item items ih =>
    obtain ⟨hitem, hitems⟩ := shortItems_cons.mp hitems
    set rest := items.flatMap encodeListItem with hrest
    have hsplit : data = before ++ (bigEndian 4 item.length ++ (item ++ (rest ++ after))) := by
      rw [hdata, List.flatMap_cons, encodeListItem]
      simp only [List.append_assoc, hrest]
    have hheader : slice data offset (offset + 4) = bigEndian 4 item.length := by
      rw [hsplit]
      exact slice_append_middle hbefore (by simp)
    have hbody : slice data (offset + 4) (offset + 4 + item.length) = item := by
      rw [hsplit, ← List.append_assoc]
      exact slice_append_middle (by simp [hbefore]) rfl
    have hlen : data.length = offset + 4 + item.length + (rest.length + after.length) := by
      rw [hsplit]
      simp only [List.length_append, length_bigEndian, hbefore]
      omega
    have hlength : ofBigEndian (bigEndian 4 item.length) = item.length :=
      ofBigEndian_bigEndian_of_lt hitem
    -- The next item starts where this one ends.
    have hnext := ih (before ++ (bigEndian 4 item.length ++ item)) hitems rfl
      (by rw [hsplit]; simp only [List.append_assoc])
    have hstart : (before ++ (bigEndian 4 item.length ++ item)).length =
        offset + 4 + item.length := by
      simp only [List.length_append, length_bigEndian, hbefore]
      omega
    rw [hstart] at hnext
    rw [List.length_cons, decodeListItems, if_neg (by omega)]
    simp only [hheader, hlength]
    rw [if_neg (by omega), hnext, hbody]
    simp only [List.flatMap_cons, List.length_append, length_encodeListItem, ← hrest]
    congr 2
    omega

theorem slice_encodeList_count (items : List Bytes) :
    slice (encodeList items) 0 4 = bigEndian 4 items.length := by
  have hlen : 0 + (bigEndian 4 items.length).length = 4 := by simp
  exact slice_append_middle (a := []) rfl hlen

theorem length_encodeList (items : List Bytes) :
    (encodeList items).length = 4 + (items.flatMap encodeListItem).length := by
  simp [encodeList]

/-- A list of fewer than `2 ^ 32` short items is read back. -/
theorem decodeList_encodeList {items : List Bytes} (hcount : items.length < 2 ^ 32)
    (hitems : ShortItems items) : decodeList (encodeList items) = .ok items := by
  have hsize := four_mul_le_length_flatMap items
  have hread : decodeListItems (encodeList items) items.length 4 = _ :=
    decodeListItems_flatMap (bigEndian 4 items.length) [] hitems (length_bigEndian 4 _)
      (by simp [encodeList])
  have hlength : ofBigEndian (bigEndian 4 items.length) = items.length :=
    ofBigEndian_bigEndian_of_lt (by omega)
  unfold decodeList
  rw [if_neg (by rw [length_encodeList]; omega)]
  simp only [slice_encodeList_count, hlength]
  rw [if_neg (by rw [length_encodeList]; omega), hread]
  simp only [length_encodeList]
  rw [if_neg (by simp)]

/-- A list of exactly `2 ^ 32` items is written with a zero count, so reading it
back finds trailing data. -/
theorem decodeList_encodeList_overflow {items : List Bytes} (hcount : items.length = 2 ^ 32) :
    decodeList (encodeList items) = .error (.new (text "kvlite: trailing list data")) := by
  have hsize := four_mul_le_length_flatMap items
  have hzero : ofBigEndian (bigEndian 4 items.length) = 0 := by
    rw [ofBigEndian_bigEndian, hcount]
    norm_num
  unfold decodeList
  rw [if_neg (by rw [length_encodeList]; omega)]
  simp only [slice_encodeList_count, hzero, decodeListItems]
  rw [if_neg (by omega), if_pos (by rw [length_encodeList]; omega)]

/-! ### What decodes is an encoding -/

theorem decodeListItems_eq_ok {data : Bytes} {count offset final : ℕ} {items : List Bytes}
    (hoffset : offset ≤ data.length)
    (h : decodeListItems data count offset = .ok (items, final)) :
    items.length = count ∧ ShortItems items ∧ offset ≤ final ∧ final ≤ data.length ∧
      slice data offset final = items.flatMap encodeListItem := by
  induction count generalizing offset items with
  | zero =>
    simp only [decodeListItems, Except.ok.injEq, Prod.mk.injEq] at h
    obtain ⟨rfl, rfl⟩ := h
    simp [hoffset, slice]
  | succ count ih =>
    rw [decodeListItems] at h
    split at h
    · simp at h
    rename_i hheader
    dsimp only at h
    split at h
    · simp at h
    rename_i hbody
    set length := ofBigEndian (slice data offset (offset + 4)) with hlength
    split at h
    · simp at h
    rename_i rest final' hrest
    simp only [Except.ok.injEq, Prod.mk.injEq] at h
    obtain ⟨rfl, rfl⟩ := h
    obtain ⟨hcount, hshort, hle, hfinal, hslice⟩ := ih (by omega) hrest
    have hlenHeader : (slice data offset (offset + 4)).length = 4 := by
      rw [length_slice (by omega)]
      omega
    have hlenItem : (slice data (offset + 4) (offset + 4 + length)).length = length := by
      rw [length_slice (by omega)]
      omega
    have hbound : length < 2 ^ 32 := by
      simpa [hlenHeader] using ofBigEndian_lt (slice data offset (offset + 4))
    refine ⟨by simp [hcount], shortItems_cons.mpr ⟨by omega, hshort⟩, by omega, hfinal, ?_⟩
    rw [List.flatMap_cons, encodeListItem, hlenItem, hlength, bigEndian_of_length hlenHeader,
      ← hslice, ← hlength, slice_append_slice _ (by omega) (by omega),
      slice_append_slice _ (by omega) hle]

/-- Whatever decodes as a list is the encoding of fewer than `2 ^ 32` short items. -/
theorem encodeList_decodeList {data : Bytes} {items : List Bytes}
    (h : decodeList data = .ok items) :
    encodeList items = data ∧ items.length < 2 ^ 32 ∧ ShortItems items := by
  unfold decodeList at h
  split at h
  · simp at h
  rename_i hlen
  dsimp only at h
  split at h
  · simp at h
  split at h
  · simp at h
  rename_i items' offset hread
  split at h
  · simp at h
  rename_i hoffset
  rw [not_not] at hoffset
  rw [Except.ok.injEq] at h
  subst h
  obtain ⟨hcount, hshort, hle, -, hslice⟩ := decodeListItems_eq_ok (by omega) hread
  have hlenCount : (slice data 0 4).length = 4 := length_slice (by omega)
  have hbound : items'.length < 2 ^ 32 := by
    rw [hcount]
    simpa [hlenCount] using ofBigEndian_lt (slice data 0 4)
  refine ⟨?_, hbound, hshort⟩
  rw [encodeList, hcount, bigEndian_of_length hlenCount, ← hslice, hoffset,
    slice_append_slice _ (by omega) (by omega)]
  simp [slice]

/-- The length fields tell where each short item ends. -/
theorem flatMap_encodeListItem_inj {items items' : List Bytes} (h : ShortItems items)
    (h' : ShortItems items')
    (heq : items.flatMap encodeListItem = items'.flatMap encodeListItem) : items = items' := by
  induction items generalizing items' with
  | nil =>
    cases items' with
    | nil => rfl
    | cons item' items' =>
      have hlength := congrArg List.length heq
      rw [List.flatMap_cons, List.length_append, length_encodeListItem, List.flatMap_nil,
        List.length_nil] at hlength
      omega
  | cons item items ih =>
    cases items' with
    | nil =>
      have hlength := congrArg List.length heq
      rw [List.flatMap_cons, List.length_append, length_encodeListItem, List.flatMap_nil,
        List.length_nil] at hlength
      omega
    | cons item' items' =>
      obtain ⟨hitem, hitems⟩ := shortItems_cons.mp h
      obtain ⟨hitem', hitems'⟩ := shortItems_cons.mp h'
      rw [List.flatMap_cons, List.flatMap_cons, encodeListItem, encodeListItem,
        List.append_assoc, List.append_assoc] at heq
      obtain ⟨hfield, hrest⟩ := List.append_inj heq (by simp)
      have hlength : item.length = item'.length := by
        have hread : ofBigEndian (bigEndian 4 item.length) = item.length :=
          ofBigEndian_bigEndian_of_lt hitem
        rw [← hread, hfield]
        exact ofBigEndian_bigEndian_of_lt hitem'
      obtain ⟨rfl, hitemsEq⟩ := List.append_inj hrest hlength
      rw [ih hitems hitems' hitemsEq]

/-- A list of short items that is read back at all is read back as it was written. -/
theorem eq_of_decodeList_encodeList {items items' : List Bytes} (hitems : ShortItems items)
    (h : decodeList (encodeList items) = .ok items') : items' = items := by
  obtain ⟨heq, -, hitems'⟩ := encodeList_decodeList h
  rw [encodeList, encodeList] at heq
  exact flatMap_encodeListItem_inj hitems' hitems (List.append_inj heq (by simp)).2

end KVLite
