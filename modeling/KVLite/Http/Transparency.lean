import KVLite.Core.Readers
import KVLite.Http.Remote
import KVLite.Keyspace.Kinds
import KVLite.Semantics.Simulation

/-!
# A remote handle beside the owner's handle

The same operations on a handle from `Connect` and on the owner's own handle, one after
the other. An engine call of the remote handle that reads or writes one record, or scans,
is answered as the owner's engine answers it. The owner-side operations do more work at
the owner, and what they were given has to survive the trip: the items of sets and hashes
travel as JSON strings, and the items of a push as an encoded list.
-/

namespace KVLite.Http

open Semantics Fallible

variable {V T : Type}

/-- The engine of a remote handle: every call is carried out by the owner. -/
def overHttp (limit : ℕ) (owner : DB V T) (clock : ℕ → ℤ) : Handler Calls (ℕ × Store) :=
  fun request st => (remote limit owner request).run (ticking clock) st

theorem run_remotely {α : Type} (limit : ℕ) (owner : DB V T) (clock : ℕ → ℤ) (p : Program Calls α)
    (st : ℕ × Store) : (remotely limit owner p).run (ticking clock) st = p.run (overHttp limit owner clock) st :=
  Program.run_translate _ _ p st

/-! ### Calls that travel as they are -/

/-- A call for one record or a scan, or one that does not leave the handle. -/
def Call.Simple : Call → Prop
  | .put .. => True
  | call => call.OfReader

/-- A record that is written is not above the request size limit. -/
def Call.Fits (limit : ℕ) : Call → Prop
  | .put _ value => value.length ≤ limit
  | _ => True

instance (limit : ℕ) : DecidablePred (Call.Fits limit)
  | .put .. => inferInstanceAs (Decidable (_ ≤ _))
  | .get _ | .delete _ | .scanPrefix _ | .pushList .. | .addSet .. | .removeSet ..
  | .deleteHashFields .. | .replaceLogicalValue .. | .ensureOpen | .now | .lock _ | .unlock _ =>
    .isTrue trivial

theorem Call.Simple.of_ofReader (call : Call) (h : call.OfReader) : Call.Simple call := by
  cases call with
  | put => trivial
  | _ => exact h

section Calls

variable (limit : ℕ) (owner : DB V T) (clock : ℕ → ℤ) (st : ℕ × Store)

theorem run_lookup (key : Bytes) (tick : ℕ) (s : Store) : run (ticking clock)
    (orFail internalServerError (withLock owner.protocolMu (Transport.get key))) (tick, s) =
      (.ok s[key]?, (tick, s)) := rfl

theorem run_getRecord_of_none {key : Bytes} {tick : ℕ} {s : Store} (h : s[key]? = none) :
    run (ticking clock) (getRecord owner key) (tick, s) =
      (.error ⟨notFound, text "not found"⟩, (tick, s)) := by
  rw [getRecord, run_bind_ok (run_lookup owner clock key tick s), h]
  rfl

theorem run_getRecord_of_some {key value : Bytes} {tick : ℕ} {s : Store}
    (h : s[key]? = some value) :
    run (ticking clock) (getRecord owner key) (tick, s) = (.ok value, (tick, s)) := by
  rw [getRecord, run_bind_ok (run_lookup owner clock key tick s), h]
  rfl

theorem run_readBody {handler : Handler Calls (ℕ × Store)} {st : ℕ × Store} {body : Bytes}
    (h : body.length ≤ limit) (refusal : String) :
    run handler (readBody limit refusal body) st = (.ok (), st) := by
  rw [readBody, if_neg (not_lt.mpr h)]
  rfl

theorem run_putRecord {key value : Bytes} (h : value.length ≤ limit) :
    run (ticking clock) (putRecord limit key value) st =
      (.ok (), (st.1, st.2.insert key value)) := by
  rw [putRecord, run_bind_ok (run_readBody limit h _)]
  rfl

theorem overHttp_of_simple (call : Call) (h : Call.Simple call) (hfits : Call.Fits limit call)
    (st : ℕ × Store) : overHttp limit owner clock call st = ticking clock call st := by
  obtain ⟨tick, s⟩ := st
  cases call with
  | get key =>
    -- A missing record travels as status 404.
    show Program.run _ (ExceptT.run (getRecord owner key) >>= _) _ = (Except.ok s[key]?, (tick, s))
    rw [Program.run_bind, program_run]
    cases hget : s[key]? with
    | none =>
      rw [run_getRecord_of_none owner clock hget]
      rfl
    | some value =>
      rw [run_getRecord_of_some owner clock hget]
      rfl
  | put key value =>
    show Program.run _ (ExceptT.run (putRecord limit key value) >>= _) _ = _
    rw [Program.run_bind, program_run, run_putRecord limit clock _ hfits]
    rfl
  | ensureOpen | delete | scanPrefix | now | lock | unlock => rfl
  | _ => exact absurd h id

/-- Code that makes simple calls only, and writes no record above the limit. -/
theorem run_overHttp_of_simple {α : Type} {p : Program Calls α} (hp : p.Uses Call.Simple)
    (hfits : p.Asks (ticking clock) (Call.Fits limit) st) :
    p.run (overHttp limit owner clock) st = p.run (ticking clock) st :=
  Program.run_congr_of_asks (overHttp_of_simple limit owner clock) hp hfits

theorem run_overHttp_of_onlyReads {α : Type} {x : Action α} (hx : OnlyReads x) :
    run (overHttp limit owner clock) x st = run (ticking clock) x st := by
  refine Program.run_congr_of_uses (fun call hcall => ?_) hx st
  refine overHttp_of_simple limit owner clock call (.of_ofReader call hcall) ?_
  cases call <;> trivial

end Calls

section Sequencing

variable {α β : Type} {handler handler' : Handler Calls (ℕ × Store)} {st : ℕ × Store}

/-- Code that runs alike under two handlers, followed by code that runs alike after it. -/
theorem run_bind_congr {x : Action α} {f : α → Action β}
    (hx : run handler x st = run handler' x st)
    (hf : ∀ value st', run handler' x st = (.ok value, st') →
      run handler (f value) st' = run handler' (f value) st') :
    run handler (x >>= f) st = run handler' (x >>= f) st := by
  cases hrun : run handler' x st with
  | mk result st' =>
    cases result with
    | error err => rw [run_bind_error (hx.trans hrun), run_bind_error hrun]
    | ok value =>
      rw [run_bind_ok (hx.trans hrun), run_bind_ok hrun]
      exact hf value st' hrun

variable (limit : ℕ) (owner : DB V T) (clock : ℕ → ℤ)

theorem run_overHttp_withLock (mutex : Mutex) (x : Action α) :
    run (overHttp limit owner clock) (withLock mutex x) st =
      run (overHttp limit owner clock) x st := by
  rw [withLock, run_mk, locked, Program.perform_bind, Program.run_call, Program.run_bind]
  rfl

theorem run_ticking_locked (mutex : Mutex) (p : Program Calls α) :
    (locked mutex p).run (ticking clock) st = p.run (ticking clock) st := by
  rw [locked, Program.perform_bind, Program.run_call, Program.run_bind]
  rfl

theorem run_ticking_withLock (mutex : Mutex) (x : Action α) :
    run (ticking clock) (withLock mutex x) st = run (ticking clock) x st :=
  run_ticking_locked clock mutex _

end Sequencing

section Responses

variable {α : Type} {handler : Handler Calls (ℕ × Store)} {st : ℕ × Store}

theorem run_responseOr (toError : HttpError → GoError) (x : Handling α) :
    (responseOr toError x).run handler st =
      ((run handler x st).1.mapError toError, (run handler x st).2) := by
  rw [responseOr, Program.run_bind, program_run]
  rfl

theorem run_orFail (status : ℕ) (x : Action α) :
    run handler (orFail status x) st =
      ((run handler x st).1.mapError fun err => ⟨status, err.message⟩,
        (run handler x st).2) := by
  rw [orFail, run_mk, Program.run_bind, program_run]
  rfl

theorem run_countedOrFail {p : Program Calls Counted} {count : ℕ} {st' : ℕ × Store}
    (h : p.run handler st = ((count, none), st')) :
    run handler (countedOrFail p) st = (.ok count, st') := by
  rw [countedOrFail, run_mk, Program.run_bind, h]
  rfl

end Responses

/-! ### Sets and hashes -/

section Counted

variable (clock : ℕ → ℤ) (st : ℕ × Store)

theorem run_lookup_ticking (key : Bytes) :
    Program.run (ticking clock) (ExceptT.run (Engine.get key)) st = (.ok st.2[key]?, st) := rfl

/-- An engine that never fails lets the loops end. -/
theorem run_addEach_ticking (added : ℕ) (keys : List Bytes) :
    ((addEach added keys).run (ticking clock) st).1.2 = none := by
  induction keys generalizing added st with
  | nil => rfl
  | cons key keys ih =>
    rw [addEach, Program.run_bind, run_lookup_ticking]
    cases st.2[key]? with
    | none => exact ih _ (added + 1)
    | some data => exact ih _ added

@[inherit_doc run_addEach_ticking]
theorem run_removeEach_ticking (removed : ℕ) (keys : List Bytes) :
    ((removeEach removed keys).run (ticking clock) st).1.2 = none := by
  induction keys generalizing removed st with
  | nil => rfl
  | cons key keys ih =>
    rw [removeEach, Program.run_bind, run_lookup_ticking]
    cases st.2[key]? with
    | none => exact ih _ removed
    | some data => exact ih _ (removed + 1)

/-- The owner has no owner-side operation to ask for and runs its loop. -/
theorem run_ownerSideOr_ticking {call : Program Calls (Except GoError ℕ)} {unsupported : Sentinel}
    (hcall : call.run (ticking clock) st = (.error (.of unsupported), st)) (mutex : Mutex)
    (loop : Program Calls Counted) :
    (ownerSideOr call unsupported mutex loop).run (ticking clock) st =
      loop.run (ticking clock) st := by
  show Program.run (ticking clock) (call >>= _) st = _
  rw [Program.run_bind, hcall]
  show Program.run (ticking clock) (if GoError.is (.of unsupported) unsupported then _ else _) st = _
  rw [if_pos (by simp)]
  exact run_ticking_locked clock mutex loop

/-- A remote handle takes the count from the response of the owner, whose operation runs the
loop. -/
theorem run_ownerSideOr_overHttp {limit : ℕ} {owner : DB V T} {call : Program Calls (Except GoError ℕ)}
    {unsupported : Sentinel} {mutex : Mutex} {loop : Program Calls Counted}
    (toError : HttpError → GoError) (operation : Program Calls Counted)
    (hcall : call.run (overHttp limit owner clock) st =
      (responseOr toError (countedOrFail operation)).run (ticking clock) st)
    (hcall' : call.run (ticking clock) st = (.error (.of unsupported), st))
    (hoperation : operation.run (ticking clock) st = loop.run (ticking clock) st)
    (hloop : (loop.run (ticking clock) st).1.2 = none) :
    (ownerSideOr call unsupported mutex loop).run (overHttp limit owner clock) st =
      (ownerSideOr call unsupported mutex loop).run (ticking clock) st := by
  have hrun : loop.run (ticking clock) st =
      (((loop.run (ticking clock) st).1.1, none), (loop.run (ticking clock) st).2) := by
    rw [← hloop]
  rw [run_responseOr, run_countedOrFail (hoperation.trans hrun)] at hcall
  rw [run_ownerSideOr_ticking clock st hcall' mutex loop, hrun]
  show Program.run (overHttp limit owner clock) (call >>= _) st = _
  rw [Program.run_bind, hcall]
  rfl

theorem throughJson_of_valid {items : List Bytes} (h : ∀ item ∈ items, validUtf8 item) :
    throughJson (some items) = some items := by
  have hmap : items.map toValidUtf8 = items :=
    (List.map_congr_left fun item hitem => toValidUtf8_of_valid (h item hitem)).trans
      (List.map_id items)
  rw [throughJson, Option.map_some, hmap]

end Counted

/-! ### Scalars -/

/-- The number of bytes of a record. -/
def recordLength (codec payload : Bytes) : ℕ := envelopeHeaderSize + codec.length + payload.length

theorem length_of_marshalEnvelope {codec payload data : Bytes} {expiresAt : ℤ}
    (h : marshalEnvelope codec payload expiresAt = .ok data) :
    data.length = recordLength codec payload := by
  unfold marshalEnvelope at h
  split at h
  · cases h
  · cases h
    simp only [List.length_append, BigEndian.length_bigEndian, recordLength, envelopeHeaderSize]
    rfl

/-- The record of a value fits into a request. -/
def ValueFits (limit : ℕ) (db : DB V T) (value : V) : Prop :=
  ∀ payload, db.codec.marshal value = .ok payload → recordLength db.codec.name payload ≤ limit

section Scalars

variable (limit : ℕ) (owner : DB V T) (clock : ℕ → ℤ) (st : ℕ × Store)

/-- The store after a scalar has taken the place of everything under its key. -/
def replaced (key encoded : Bytes) (st : ℕ × Store) : ℕ × Store :=
  (st.1, (st.2.without key).insert (valueKey key) encoded)

theorem run_replaceLogicalValue_ticking (key encoded : Bytes) :
    run (ticking clock) (replaceLogicalValue key encoded) st =
      (.ok (), replaced key encoded st) := by
  have hcaught : run (ticking clock) (caught (Engine.replaceLogicalValue key encoded)) st =
      (.ok (.error (.of .atomicReplaceUnsupported)), st) := rfl
  have hdelete : run (ticking clock) (wrapping "kvlite: put" (deleteLogicalKey key)) st =
      (.ok ((recordKeys key st.2).length > 0), (st.1, st.2.without key)) := by
    rw [run_wrapping, run_deleteLogicalKey_ticking]
    rfl
  rw [replaceLogicalValue, run_bind_ok hcaught]
  simp only
  rw [if_pos (by simp), run_bind_ok hdelete]
  rfl

theorem run_putLogical {key encoded : Bytes} {value : Envelope} (hkey : key ≠ [])
    (hlimit : encoded.length ≤ limit) (hvalue : unmarshalEnvelope encoded = .ok value) :
    run (ticking clock) (putLogical limit owner key encoded) st =
      (.ok (), replaced key encoded st) := by
  have hdelete : run (ticking clock) (Transport.deleteLogicalKey key) st =
      (.ok ((recordKeys key st.2).length > 0), (st.1, st.2.without key)) :=
    run_deleteLogicalKey_ticking clock key st.1 st.2
  rw [putLogical, if_neg hkey, run_bind_ok (run_readBody limit hlimit _), hvalue]
  simp only
  rw [run_orFail, run_ticking_withLock, run_bind_ok hdelete]
  rfl

/-- The owner replaces a scalar for a remote handle as the handle would on its own engine. -/
theorem run_replaceLogicalValue_overHttp {key encoded : Bytes} {value : Envelope} (hkey : key ≠ [])
    (hlimit : encoded.length ≤ limit) (hvalue : unmarshalEnvelope encoded = .ok value) :
    run (overHttp limit owner clock) (replaceLogicalValue key encoded) st =
      run (ticking clock) (replaceLogicalValue key encoded) st := by
  have hcaught : run (overHttp limit owner clock)
      (caught (Engine.replaceLogicalValue key encoded)) st =
        (.ok (.ok ()), replaced key encoded st) := by
    have hcall : run (overHttp limit owner clock) (Engine.replaceLogicalValue key encoded) st =
        (.ok (), replaced key encoded st) := by
      show (responseOr _ (putLogical limit owner key encoded)).run (ticking clock) st = _
      rw [run_responseOr, run_putLogical limit owner clock st hkey hlimit hvalue]
      rfl
    rw [run_caught, hcall]
  rw [run_replaceLogicalValue_ticking, replaceLogicalValue, run_bind_ok hcaught]
  rfl

/-- What a handle encodes can be decoded, and is as long as its parts. -/
theorem encoded_of_run {σ : Type} {handler : Handler Calls σ} {state state' : σ}
    {x : Action ℤ} {codec payload encoded : Bytes}
    (h : run handler (x >>= fun expiresAt => liftExcept
      (marshalEnvelope codec payload expiresAt)) state = (.ok encoded, state')) :
    (∃ value, unmarshalEnvelope encoded = .ok value) ∧
      encoded.length = recordLength codec payload := by
  obtain ⟨expiresAt, mid, -, hencoded⟩ := exists_of_run_bind_eq_ok h
  have hdata := (Prod.mk.inj hencoded).1
  exact ⟨⟨_, unmarshalEnvelope_of_marshalEnvelope hdata⟩, length_of_marshalEnvelope hdata⟩

/-- The record of a value that is given to a handle can be decoded and fits into a request. -/
theorem encodeValue_of_run {db : DB V T} {value : V} {options : PutOptions} {encoded : Bytes}
    {st st' : ℕ × Store} (hlimit : ValueFits limit db value)
    (h : run (ticking clock) (db.encodeValue value options) st = (.ok encoded, st')) :
    (∃ value, unmarshalEnvelope encoded = .ok value) ∧ encoded.length ≤ limit := by
  obtain ⟨ttl, st₁, -, h⟩ := exists_of_run_bind_eq_ok h
  obtain ⟨payload, st₂, hpayload, h⟩ := exists_of_run_bind_eq_ok h
  obtain ⟨henvelope, hlength⟩ := encoded_of_run h
  exact ⟨henvelope, hlength.trans_le (hlimit payload (Prod.mk.inj hpayload).1)⟩

variable {limit} in
theorem run_put_overHttp (db : DB V T) {key : Bytes} {value : V} {options : PutOptions}
    (hlimit : ValueFits limit db value) :
    run (overHttp limit owner clock) (db.put key value options) st =
      run (ticking clock) (db.put key value options) st := by
  unfold DB.put
  split
  · rfl
  next hkey =>
  refine run_bind_congr (run_overHttp_of_onlyReads limit owner clock st Passive.ensureOpen) ?_
  intro _ st _
  rw [run_overHttp_withLock, run_ticking_withLock]
  refine run_bind_congr (run_overHttp_of_onlyReads limit owner clock st
    ((db.onlyReadsClock_encodeValue value options).mono ?_)) fun encoded st' hencoded => ?_
  · rintro call rfl
    trivial
  obtain ⟨⟨envelope, henvelope⟩, hlength⟩ := encodeValue_of_run limit clock hlimit hencoded
  exact run_replaceLogicalValue_overHttp limit owner clock st' hkey hlength henvelope

variable {limit} in
theorem run_putStoredValue_overHttp (db : DB V T) {key codec value : Bytes} {options : PutOptions}
    (hlimit : recordLength codec value ≤ limit) :
    run (overHttp limit owner clock) (db.putStoredValue key codec value options) st =
      run (ticking clock) (db.putStoredValue key codec value options) st := by
  unfold DB.putStoredValue
  split
  · rfl
  next hkey =>
  split
  · rfl
  refine run_bind_congr (run_overHttp_of_onlyReads limit owner clock st Passive.ensureOpen) ?_
  intro _ st _
  rw [run_overHttp_withLock, run_ticking_withLock]
  refine run_bind_congr (run_overHttp_of_onlyReads limit owner clock st (Passive.liftExcept _))
    fun ttl st _ => ?_
  refine run_bind_congr (run_overHttp_of_onlyReads limit owner clock st
    ((DB.onlyReadsClock_encodePayload codec value ttl).mono ?_)) fun encoded st' hencoded => ?_
  · rintro call rfl
    trivial
  obtain ⟨⟨envelope, henvelope⟩, hlength⟩ := encoded_of_run hencoded
  exact run_replaceLogicalValue_overHttp limit owner clock st' hkey (hlength.trans_le hlimit) henvelope

end Scalars

section Lists

variable (limit : ℕ) (owner : DB V T) (clock : ℕ → ℤ) {tick : ℕ} {s : Store} {key : Bytes}

/-- The list under a storage key can be read. -/
def ReadableList (s : Store) (key : Bytes) : Prop :=
  ∀ data, s[key]? = some data → ∃ items, decodeList data = .ok items

theorem ReadableList.run_readList (h : ReadableList s key) (tick : ℕ) :
    ∃ items, run (ticking clock) (readList key) (tick, s) = (.ok items, (tick, s)) := by
  have hlookup : run (ticking clock) (Engine.get key) (tick, s) =
      (.ok s[key]?, (tick, s)) := rfl
  rw [readList, run_bind_ok hlookup]
  cases hget : s[key]? with
  | none => exact ⟨[], rfl⟩
  | some data =>
    obtain ⟨items, hitems⟩ := h data hget
    refine ⟨items, ?_⟩
    simp only [hitems]
    rfl

/-- Every handle pushes to a readable list alike. -/
theorem ReadableList.run_pushEncodedList (h : ReadableList s key) (encoded : List Bytes)
    (left : Bool) :
    ∃ length st', ∀ db : DB V T, run (ticking clock)
      (db.pushEncodedList key encoded left) (tick, s) = (.ok length, st') := by
  obtain ⟨items, hitems⟩ := h.run_readList clock tick
  let pushed := if left then encoded ++ items else items ++ encoded
  refine ⟨pushed.length, (tick, s.insert key (encodeList pushed)), fun db => ?_⟩
  have hcaught : run (ticking clock) (caught (Engine.pushList key encoded left)) (tick, s) =
      (.ok (.error (.of .atomicListPushUnsupported)), (tick, s)) := rfl
  rw [DB.pushEncodedList, run_bind_ok hcaught]
  simp only
  rw [if_pos (by simp), run_ticking_withLock, run_bind_ok hitems]
  rfl

theorem run_push_overHttp (db : DB V T) {name : Bytes} {left : Bool} {values : List V}
    (hitems : ∀ items, db.encodeItems values = .ok items →
      items.length < 2 ^ 32 ∧ ShortItems items ∧ (encodeList items).length ≤ limit)
    (hlist : ReadableList s (listKey name)) :
    run (overHttp limit owner clock) (db.push name left values) (tick, s) =
      run (ticking clock) (db.push name left values) (tick, s) := by
  have hopen : run (overHttp limit owner clock) ensureOpen (tick, s) = (.ok (), (tick, s)) := rfl
  have hopen' : run (ticking clock) ensureOpen (tick, s) = (.ok (), (tick, s)) := rfl
  rw [DB.push, run_bind_ok hopen, run_bind_ok hopen']
  cases hencoded : db.encodeItems values with
  | error err => rfl
  | ok encoded =>
    rw [run_bind_ok (run_liftExcept _), run_bind_ok (run_liftExcept _)]
    obtain ⟨hcount, hshort, hlimit⟩ := hitems encoded hencoded
    obtain ⟨length, st', hpush⟩ := hlist.run_pushEncodedList clock (V := V) (T := T) encoded left
    -- The owner decodes what was sent and pushes it through its own handle.
    have hcall : run (overHttp limit owner clock) (Engine.pushList (listKey name) encoded left)
        (tick, s) = (.ok length, st') := by
      show (responseOr _ (pushList limit owner (listKey name) (encodeList encoded) left)).run
        (ticking clock) (tick, s) = _
      rw [run_responseOr, pushList, run_bind_ok (run_readBody limit hlimit _),
        decodeList_encodeList hcount hshort]
      simp only
      rw [run_orFail, Transport.pushList, run_bind_ok hopen', hpush owner]
      rfl
    have hcaught : run (overHttp limit owner clock)
        (caught (Engine.pushList (listKey name) encoded left)) (tick, s) =
          (.ok (.ok length), st') := by
      rw [run_caught, hcall]
    rw [hpush db, DB.pushEncodedList, run_bind_ok hcaught]
    rfl

end Lists

/-! ### Operations -/

/-- The arguments of a request survive the trip: what is sent is not above the request size
limit, items that travel as JSON are given and are valid UTF-8, pushed items fit the length
fields, and the list they are pushed to can be read. -/
def Travels (limit : ℕ) (db : DB V T) (s : Store) : Request V T → Prop
  | .put _ value _ | .hSet _ _ value _ => ValueFits limit db value
  | .putBytes _ value _ => recordLength bytesCodecName value ≤ limit
  | .putStoredValue _ codec value _ => recordLength codec value ≤ limit
  | .hDelete _ items | .sAdd _ items | .sRemove _ items =>
    ∃ given, items = some given ∧ ∀ item ∈ given, validUtf8 item
  | .rPush name values | .lPush name values =>
    (∀ items, db.encodeItems values = .ok items →
      items.length < 2 ^ 32 ∧ ShortItems items ∧ (encodeList items).length ≤ limit) ∧
      ReadableList s (listKey name)
  | _ => True

section Operations

variable (limit : ℕ) (owner db : DB V T) (clock : ℕ → ℤ)

variable {limit} in
theorem run_hSet_overHttp (st : ℕ × Store) {name field : Bytes} {value : V} {options : PutOptions}
    (hlimit : ValueFits limit db value) :
    run (overHttp limit owner clock) (db.hSet name field value options) st =
      run (ticking clock) (db.hSet name field value options) st := by
  unfold DB.hSet
  split
  · rfl
  unfold DB.putRecord
  refine run_bind_congr (run_overHttp_of_onlyReads limit owner clock st Passive.ensureOpen) ?_
  intro _ st _
  split
  · rfl
  refine run_bind_congr (run_overHttp_of_onlyReads limit owner clock st
    ((db.onlyReadsClock_encodeValue value options).mono ?_)) fun encoded st' hencoded => ?_
  · rintro call rfl
    trivial
  have hlength := (encodeValue_of_run limit clock hlimit hencoded).2
  have hput : Fallible.Uses Call.Simple (Engine.put (hashKey name field) encoded) :=
    ⟨trivial, fun _ => trivial⟩
  exact run_overHttp_of_simple limit owner clock st' (Fallible.Uses.wrapping hput)
    ⟨hlength, trivial⟩

theorem run_delete_overHttp (st : ℕ × Store) (key : Bytes) :
    run (overHttp limit owner clock) (db.delete key) st =
      run (ticking clock) (db.delete key) st := by
  refine run_overHttp_of_onlyReads limit owner clock st (.ite trivial ?_)
  refine Passive.ensureOpen.bind fun _ => .withLock (Fallible.Uses.bind ?_ fun _ => trivial)
  refine .wrapping ((uses_deleteLogicalKey key).mono fun call hcall => ?_)
  cases call with
  | get | delete | scanPrefix => trivial
  | _ => exact hcall.elim

end Operations

/-! ### Handles of one application -/

section Handles

variable (clock : ℕ → ℤ) {α β : Type}

/-- Two pieces of code do the same on the owner's engine. -/
def Alike (x y : Action α) : Prop :=
  ∀ st, run (ticking clock) x st = run (ticking clock) y st

variable {clock}

theorem Alike.refl (x : Action α) : Alike clock x x := fun _ => rfl

theorem Alike.bind {x y : Action α} {f g : α → Action β} (hx : Alike clock x y)
    (hf : ∀ value, Alike clock (f value) (g value)) : Alike clock (x >>= f) (y >>= g) := by
  intro st
  rw [run_bind, run_bind, hx st]
  cases run (ticking clock) y st with
  | mk result st' =>
    cases result with
    | error err => rfl
    | ok value => exact hf value st'

theorem Alike.withLock {x y : Action α} (mutex mutex' : Mutex) (h : Alike clock x y) :
    Alike clock (withLock mutex x) (withLock mutex' y) := by
  intro st
  rw [run_ticking_withLock, run_ticking_withLock, h st]

theorem Alike.ite {p : Prop} [Decidable p] {x y x' y' : Action α} (hx : Alike clock x x')
    (hy : Alike clock y y') : Alike clock (if p then x else y) (if p then x' else y') := by
  split
  · exact hx
  · exact hy

variable {db db' : DB V T} (hcodec : db.codec = db'.codec) (hcodecs : db.codecs = db'.codecs)

include hcodecs in
theorem decode_congr : db.decode = db'.decode := by
  funext data target
  rw [DB.decode, DB.decode, hcodecs]

include hcodec in
theorem encodeItems_congr : db.encodeItems = db'.encodeItems := by
  funext values
  induction values with
  | nil => rfl
  | cons value values ih => rw [DB.encodeItems, DB.encodeItems, hcodec, ih]

include hcodecs in
theorem decodeFields_congr : db.decodeFields = db'.decodeFields := by
  funext pre target records
  induction records with
  | nil => rfl
  | cons record records ih =>
    obtain ⟨key, data⟩ := record
    rw [DB.decodeFields, DB.decodeFields, decode_congr hcodecs, ih]

include hcodecs in
theorem decodeItems_congr : db.decodeItems = db'.decodeItems := by
  funext target items
  induction items with
  | nil => rfl
  | cons item items ih => rw [DB.decodeItems, DB.decodeItems, decode_congr hcodecs, ih]

include hcodec in
theorem encodeValue_congr : db.encodeValue = db'.encodeValue := by
  funext value options
  rw [DB.encodeValue, DB.encodeValue, hcodec]

include hcodecs in
theorem alike_getRecord (key : Bytes) (target : T) :
    Alike clock (db.getRecord key target) (db'.getRecord key target) := by
  rw [DB.getRecord, DB.getRecord, decode_congr hcodecs]
  exact .bind (.refl _) fun _ => .withLock _ _ (.refl _)

theorem alike_getStoredValue (db db' : DB V T) (key : Bytes) :
    Alike clock (db.getStoredValue key) (db'.getStoredValue key) :=
  .ite (.refl _) (.bind (.refl _) fun _ => .withLock _ _ (.refl _))

theorem alike_putStoredValue (db db' : DB V T) (key codec value : Bytes) (options : PutOptions) :
    Alike clock (db.putStoredValue key codec value options)
      (db'.putStoredValue key codec value options) :=
  .ite (.refl _) (.ite (.refl _) (.bind (.refl _) fun _ => .withLock _ _ (.refl _)))

theorem alike_pushEncodedList (db db' : DB V T) (key : Bytes) (encoded : List Bytes) (left : Bool) :
    Alike clock (db.pushEncodedList key encoded left) (db'.pushEncodedList key encoded left) := by
  refine .bind (.refl _) fun result => ?_
  cases result with
  | ok length => exact .refl _
  | error err => exact .ite (.withLock _ _ (.refl _)) (.refl _)

include hcodec hcodecs

/-- Handles with the same codecs do the same on the owner's engine: they differ in their
mutexes only. -/
theorem run_serve_congr (request : Request V T) (st : ℕ × Store) :
    (db.serve request).run (ticking clock) st = (db'.serve request).run (ticking clock) st := by
  cases request with
  | put key value options =>
    have h : Alike clock (db.put key value options) (db'.put key value options) := by
      rw [DB.put, DB.put, encodeValue_congr hcodec]
      exact .ite (.refl _) (.bind (.refl _) fun _ => .withLock _ _ (.refl _))
    exact h st
  | putBytes key value options => exact alike_putStoredValue db db' key _ value options st
  | putStoredValue key codec value options =>
    exact alike_putStoredValue db db' key codec value options st
  | get key target =>
    have h : Alike clock (db.get key target) (db'.get key target) :=
      .ite (.refl _) (alike_getRecord hcodecs _ target)
    exact h st
  | getBytes key =>
    have h : Alike clock (db.getBytes key) (db'.getBytes key) :=
      .bind (alike_getStoredValue db db' key) fun _ => .refl _
    exact h st
  | getStoredValue key => exact alike_getStoredValue db db' key st
  | has key =>
    have h : Alike clock (db.has key) (db'.has key) :=
      .ite (.refl _) (.bind (.refl _) fun _ => .withLock _ _ (.refl _))
    exact h st
  | delete key =>
    have h : Alike clock (db.delete key) (db'.delete key) :=
      .ite (.refl _) (.bind (.refl _) fun _ => .withLock _ _ (.refl _))
    exact h st
  | hSet name field value options =>
    rw [DB.serve, DB.serve, DB.hSet, DB.hSet, DB.putRecord, DB.putRecord, encodeValue_congr hcodec]
  | hGet name field target => exact alike_getRecord hcodecs _ target st
  | hDelete name fields | sAdd name fields | sRemove name fields =>
    exact (run_ownerSideOr_ticking clock st rfl _ _).trans
      (run_ownerSideOr_ticking clock st rfl _ _).symm
  | hGetAll name target =>
    unfold DB.serve DB.hGetAll
    rw [decodeFields_congr hcodecs]
  | sContains name member | sMembers name => rfl
  | rPush name values | lPush name values =>
    have h : ∀ left, Alike clock (db.push name left values) (db'.push name left values) := by
      intro left
      rw [DB.push, DB.push, encodeItems_congr hcodec]
      exact .bind (.refl _) fun _ => .bind (.refl _) fun _ => alike_pushEncodedList db db' _ _ _
    exact h _ st
  | lRange name start stop target =>
    unfold DB.serve DB.lRange
    rw [decodeItems_congr hcodecs]

end Handles

section Runs

variable (limit : ℕ) (owner client : DB V T) (clock : ℕ → ℤ)

/-- One operation on a remote handle answers and leaves the store as on its own engine. -/
theorem run_overHttp_serve {request : Request V T} {st : ℕ × Store}
    (h : Travels limit client st.2 request) :
    (client.serve request).run (overHttp limit owner clock) st =
      (client.serve request).run (ticking clock) st := by
  have hread : ∀ {α : Type} {x : Action α}, OnlyReads x →
      (ExceptT.run x).run (overHttp limit owner clock) st = (ExceptT.run x).run (ticking clock) st :=
    fun hx => run_overHttp_of_onlyReads limit owner clock st hx
  cases request with
  | put key value options => exact run_put_overHttp owner clock st client h
  | putBytes key value options => exact run_putStoredValue_overHttp owner clock st client h
  | putStoredValue key codec value options =>
    exact run_putStoredValue_overHttp owner clock st client h
  | get key target => exact hread (client.onlyReads_get key target)
  | getBytes key => exact hread (client.onlyReads_getBytes key)
  | getStoredValue key => exact hread (client.onlyReads_getStoredValue key)
  | has key => exact hread (client.onlyReads_has key)
  | delete key => exact run_delete_overHttp limit owner client clock st key
  | hSet name field value options => exact run_hSet_overHttp owner client clock st h
  | hGet name field target => exact hread (client.onlyReads_getRecord _ target)
  | hGetAll name target => exact hread (client.onlyReads_hGetAll name target)
  | sContains name member => exact hread (DB.onlyReads_sContains name member)
  | sMembers name => exact hread (DB.onlyReads_sMembers name)
  | lRange name start stop target => exact hread (client.onlyReads_lRange name start stop target)
  | rPush name values | lPush name values => exact run_push_overHttp limit owner clock client h.1 h.2
  | hDelete name items =>
    obtain ⟨given, rfl, hvalid⟩ := h
    refine run_ownerSideOr_overHttp clock st (remoteMutationError "hash delete")
      (owner.hDelete name (some given)) ?_ rfl
      (run_ownerSideOr_ticking clock st rfl _ _) (run_removeEach_ticking clock st 0 _)
    show (responseOr _ (deleteHashFields owner name (throughJson (some given)))).run _ st = _
    rw [throughJson_of_valid hvalid]
    rfl
  | sAdd name items =>
    obtain ⟨given, rfl, hvalid⟩ := h
    refine run_ownerSideOr_overHttp clock st (remoteMutationError "set add")
      (owner.sAdd name (some given)) ?_ rfl
      (run_ownerSideOr_ticking clock st rfl _ _) (run_addEach_ticking clock st 0 _)
    show (responseOr _ (addSet owner name (throughJson (some given)))).run _ st = _
    rw [throughJson_of_valid hvalid]
    rfl
  | sRemove name items =>
    obtain ⟨given, rfl, hvalid⟩ := h
    refine run_ownerSideOr_overHttp clock st (remoteMutationError "set remove")
      (owner.sRemove name (some given)) ?_ rfl
      (run_ownerSideOr_ticking clock st rfl _ _) (run_removeEach_ticking clock st 0 _)
    show (responseOr _ (removeSet owner name (throughJson (some given)))).run _ st = _
    rw [throughJson_of_valid hvalid]
    rfl

/-- The answer of an operation on the owner's own handle, and the state after it. -/
def ownerStep (request : Request V T) (st : ℕ × Store) :
    (Σ request : Request V T, request.Answer) × (ℕ × Store) :=
  (⟨request, ((owner.serve request).run (ticking clock) st).1⟩,
    ((owner.serve request).run (ticking clock) st).2)

/-- The answer of an operation on a remote handle, and the state of the owner after it. -/
def remoteStep (request : Request V T) (st : ℕ × Store) :
    (Σ request : Request V T, request.Answer) × (ℕ × Store) :=
  (⟨request, ((remotely limit owner (client.serve request)).run (ticking clock) st).1⟩,
    ((remotely limit owner (client.serve request)).run (ticking clock) st).2)

/-- A remote handle with the owner's codecs gives the answers of the owner's own handle and
leaves the owner's store alike, in every run of operations whose arguments survive the
trip. -/
theorem remote_handle_behaves_like_owner (hcodec : client.codec = owner.codec)
    (hcodecs : client.codecs = owner.codecs) (requests : List (Request V T)) (st : ℕ × Store)
    (h : Machine.Along (ownerStep owner clock) (fun request st => Travels limit client st.2 request)
      requests st) :
    Machine.outputs (remoteStep limit owner client clock) requests st =
        Machine.outputs (ownerStep owner clock) requests st ∧
      Machine.after (remoteStep limit owner client clock) requests st =
        Machine.after (ownerStep owner clock) requests st := by
  refine Machine.outputs_eq_of_simulation (R := Eq) (fun request st _ heq htravels => ?_) rfl h
  subst heq
  have hstep : remoteStep limit owner client clock request st = ownerStep owner clock request st := by
    rw [remoteStep, ownerStep, run_remotely, run_overHttp_serve limit owner client clock htravels,
      run_serve_congr hcodec hcodecs]
  rw [hstep]
  exact ⟨rfl, rfl⟩

end Runs

theorem remote_set_behaves_like_owner :
    Machine.outputs (remoteStep 67108864 (bytesHandle 0) (bytesHandle 1) fun _ => 0)
        [.sAdd (text "s") (some [text "a"]), .sRemove (text "s") (some [text "a"])] (0, ∅) =
      Machine.outputs (ownerStep (bytesHandle 0) fun _ => 0)
        [.sAdd (text "s") (some [text "a"]), .sRemove (text "s") (some [text "a"])] (0, ∅) := by
  have hvalid : ∀ item ∈ [text "a"], validUtf8 item := by decide
  refine (remote_handle_behaves_like_owner 67108864 (bytesHandle 0) (bytesHandle 1) (fun _ => 0) rfl rfl _ _
    ?_).1
  exact ⟨⟨_, rfl, hvalid⟩, ⟨_, rfl, hvalid⟩, trivial⟩

/-- A member that is not valid UTF-8 is stored under another name, and a removal without
fields is refused. -/
theorem remote_handle_differs :
    Machine.after (remoteStep 67108864 (bytesHandle 0) (bytesHandle 1) fun _ => 0)
        [.sAdd (text "s") (some [[0xFF]])] (0, ∅) ≠
      Machine.after (ownerStep (bytesHandle 0) fun _ => 0)
        [.sAdd (text "s") (some [[0xFF]])] (0, ∅) ∧
    Machine.outputs (remoteStep 67108864 (bytesHandle 0) (bytesHandle 1) fun _ => 0)
        [.hDelete (text "h") none] (0, ∅) ≠
      Machine.outputs (ownerStep (bytesHandle 0) fun _ => 0) [.hDelete (text "h") none] (0, ∅) := by
  constructor
  · intro h
    have hmember := congrArg (fun st => st.2[setKey (text "s") [0xFF]]?) h
    exact absurd hmember (by decide +kernel)
  · intro h
    have hanswer := eq_of_heq (Sigma.mk.inj (List.cons.inj h).1).2
    exact absurd (congrArg (fun counted : Counted => counted.2.isSome) hanswer) (by decide +kernel)

end KVLite.Http
