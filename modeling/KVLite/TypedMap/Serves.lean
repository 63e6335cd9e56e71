import KVLite.TypedMap.Probe

/-!
# Commands that serve an operation

A command serves an operation of the typed map when, on the records of every entry, it
replies what the operation replies on the live entry and leaves the records of what the
operation leaves. A command that starts with the probe and refuses the other types is
served once its effect on values of its own type is known, an absent key being an empty
collection.
-/

namespace KVLite.TypedMap

open Semantics BigEndian Redis

/-- The command `p` on `key` does what `operation` does on the live entry. -/
def Serves (now : ℤ) (s₀ : Store) (key : Bytes) (p : Program Calls Resp)
    (operation : Option Entry → Resp × Option Entry) (entry : Option Entry) : Prop :=
  Program.Computes (embedded now) (At s₀ key) p (recordsOf entry) (operation (live now entry)).1
    (recordsOf (operation (live now entry)).2)

section Replying

variable {now : ℤ} {s₀ : Store} {key : Bytes} {records records' : Records} {x : Action Resp}

theorem Does.replying {reply : Resp} (h : Does now s₀ key x records (.ok reply) records') :
    Program.Computes (embedded now) (At s₀ key) (replying x) records reply records' := by
  intro s hs
  obtain ⟨s', hrun, hs'⟩ := h s hs
  exact ⟨s', run_replying hrun, hs'⟩

theorem Does.replying_error {err : GoError} (h : Does now s₀ key x records (.error err) records') :
    Program.Computes (embedded now) (At s₀ key) (Redis.replying x) records (redisErrorReply err)
      records' := by
  intro s hs
  obtain ⟨s', hrun, hs'⟩ := h s hs
  exact ⟨s', run_replying_error hrun, hs'⟩

theorem redisErrorReply_wrongType (typ : RedisType) :
    redisErrorReply (wrongType typ) = wrongTypeReply := by
  simp [redisErrorReply, wrongType, wrongTypeReply]

end Replying

/-- Code that starts with the probe and refuses a key of another type than `typ`. -/
def Probing {α : Type} (now : ℤ) (s₀ : Store) (key : Bytes) (typ : RedisType) (x : Action α) :
    Prop :=
  ∃ f : RedisType → Action α, x = redisType key >>= f ∧
    ∀ typ', typ' ≠ .none → typ' ≠ typ → ∀ records,
      Does now s₀ key (f typ') records (.error (wrongType typ')) records

section Probing

variable {α β : Type} {now : ℤ} {s₀ : Store} {key : Bytes} {typ : RedisType}

theorem Probing.bind {x : Action α} (h : Probing now s₀ key typ x) (f : α → Action β) :
    Probing now s₀ key typ (x >>= f) := by
  obtain ⟨g, rfl, hg⟩ := h
  exact ⟨fun typ' => g typ' >>= f, bind_assoc .., fun typ' hnone hne records =>
    (hg typ' hnone hne records).bind_error⟩

theorem Probing.of_throw {f : RedisType → Action α}
    (h : ∀ typ', typ' ≠ .none → typ' ≠ typ → f typ' = throw (wrongType typ')) :
    Probing now s₀ key typ (redisType key >>= f) :=
  ⟨f, rfl, fun typ' hnone hne _ => by rw [h typ' hnone hne]; exact .throw _⟩

theorem probing_redisString : Probing now s₀ key .string (redisString key) :=
  .of_throw fun typ _ _ => by cases typ <;> first | rfl | contradiction

theorem probing_redisHashField (field : Bytes) :
    Probing now s₀ key .hash (redisHashField key field) :=
  .of_throw fun typ _ _ => by cases typ <;> first | rfl | contradiction

theorem probing_redisHashEntries : Probing now s₀ key .hash (redisHashEntries key) :=
  .of_throw fun typ _ _ => by cases typ <;> first | rfl | contradiction

theorem probing_redisSetMembers : Probing now s₀ key .set (redisSetMembers key) :=
  .of_throw fun typ _ _ => by cases typ <;> first | rfl | contradiction

theorem probing_redisListValues : Probing now s₀ key .list (redisListValues key) :=
  .bind (.of_throw fun typ _ _ => by cases typ <;> first | rfl | contradiction) _

/-- The refusal of a command on a live entry of another type. -/
theorem Probing.refuses {x : Action Resp} {entry : Option Entry} {e : Entry}
    (h : Probing now s₀ key typ x) (hclock : Clock now) (hstore : StorableEntry entry)
    (hlive : live now entry = some e) (hne : e.value.typ ≠ typ) :
    Program.Computes (embedded now) (At s₀ key) (replying x) (recordsOf entry) wrongTypeReply
      (recordsOf (some e)) := by
  obtain ⟨f, rfl, hf⟩ := h
  have hprobe : Does now s₀ key (redisType key) _ _ _ := does_redisType hclock hstore
  rw [hlive] at hprobe
  rw [← redisErrorReply_wrongType e.value.typ]
  exact Does.replying_error (hprobe.bind (hf e.value.typ e.value.typ_ne_none hne _))

/-- Code that starts with the probe finds the live entry. -/
theorem Probing.of_live {x : Action α} {entry : Option Entry} {result : Except GoError α}
    {records : Records} (h : Probing now s₀ key typ x) (hclock : Clock now)
    (hstore : StorableEntry entry)
    (hx : Does now s₀ key x (recordsOf (live now entry)) result records) :
    Does now s₀ key x (recordsOf entry) result records := by
  obtain ⟨f, rfl, -⟩ := h
  exact hx.of_live hclock hstore

end Probing

/-! ### Commands on one type -/

section OfType

variable {now : ℤ} {s₀ : Store} {key : Bytes} {entry : Option Entry} {x : Action Resp}

theorem fresh_of_live {e : Entry} (hstore : StorableEntry entry) (hlive : live now entry = some e) :
    Fresh now e.value e.deadline := by
  obtain ⟨rfl, hahead⟩ := live_eq_some_iff.mp hlive
  exact ⟨hstore e rfl, hahead, fun hempty => by rw [e.nonempty] at hempty; cases hempty⟩

variable (hclock : Clock now) (hstore : StorableEntry entry)

include hclock hstore

/-- An operation that refuses the other types is served by its effect on an absent key
and on values of its type. -/
theorem serves_of_probing {typ : RedisType} {operation : Option Entry → Resp × Option Entry}
    (hprobing : Probing now s₀ key typ x)
    (hnone : Does now s₀ key x noRecords (.ok (operation none).1) (recordsOf (operation none).2))
    (hsome : ∀ e : Entry, e.value.typ = typ → Fresh now e.value e.deadline →
      Does now s₀ key x (e.value.records e.deadline) (.ok (operation (some e)).1)
        (recordsOf (operation (some e)).2))
    (hwrong : ∀ e : Entry, e.value.typ ≠ typ → operation (some e) = (wrongTypeReply, some e)) :
    Serves now s₀ key (replying x) operation entry := by
  unfold Serves
  cases hlive : live now entry with
  | none => exact (hprobing.of_live hclock hstore (by rwa [hlive])).replying
  | some e =>
    by_cases htyp : e.value.typ = typ
    · have hdoes := hsome e htyp (fresh_of_live hstore hlive)
      exact (hprobing.of_live hclock hstore (by rw [hlive]; exact hdoes)).replying
    · rw [hwrong e htyp]
      exact hprobing.refuses hclock hstore hlive htyp

theorem serves_onString {g : Option (Bytes × Option ℤ) → Resp × Option (Bytes × Option ℤ)}
    (hprobing : Probing now s₀ key .string x)
    (hnone : Does now s₀ key x noRecords (.ok (g none).1) (recordsOf (Entry.ofString (g none).2)))
    (hstring : ∀ data deadline, Fresh now (.string data) deadline →
      Does now s₀ key x ((Value.string data).records deadline) (.ok (g (some (data, deadline))).1)
        (recordsOf (Entry.ofString (g (some (data, deadline))).2))) :
    Serves now s₀ key (replying x) (onString · g) entry := by
  refine serves_of_probing hclock hstore hprobing hnone ?_ ?_
  · rintro ⟨value, deadline, hnonempty⟩ htyp hfresh
    cases value with
    | string data => exact hstring data deadline hfresh
    | _ => cases htyp
  · rintro ⟨value, deadline, hnonempty⟩ htyp
    cases value with
    | string data => exact absurd rfl htyp
    | _ => rfl

theorem serves_onHash {g : Hash → Resp × Hash} (hprobing : Probing now s₀ key .hash x)
    (hhash : ∀ fields deadline, Fresh now (.hash fields) deadline →
      Does now s₀ key x ((Value.hash fields).records deadline) (.ok (g fields).1)
        (recordsOf (Entry.of (.hash (g fields).2) deadline))) :
    Serves now s₀ key (replying x) (onHash · g) entry := by
  refine serves_of_probing hclock hstore hprobing ?_ ?_ ?_
  · rw [← records_hash_empty]
    exact hhash ∅ none ⟨⟨by simp, nofun, nofun⟩, by simp [Ahead], fun _ => rfl⟩
  · rintro ⟨value, deadline, hnonempty⟩ htyp hfresh
    cases value with
    | hash fields => exact hhash fields deadline hfresh
    | _ => cases htyp
  · rintro ⟨value, deadline, hnonempty⟩ htyp
    cases value with
    | hash fields => exact absurd rfl htyp
    | _ => rfl

theorem serves_onSet {g : Members → Resp × Members} (hprobing : Probing now s₀ key .set x)
    (hset : ∀ members deadline, Fresh now (.set members) deadline →
      Does now s₀ key x ((Value.set members).records deadline) (.ok (g members).1)
        (recordsOf (Entry.of (.set (g members).2) deadline))) :
    Serves now s₀ key (replying x) (onSet · g) entry := by
  refine serves_of_probing hclock hstore hprobing ?_ ?_ ?_
  · rw [← records_set_empty]
    exact hset ∅ none ⟨⟨by simp, nofun, nofun⟩, by simp [Ahead], fun _ => rfl⟩
  · rintro ⟨value, deadline, hnonempty⟩ htyp hfresh
    cases value with
    | set members => exact hset members deadline hfresh
    | _ => cases htyp
  · rintro ⟨value, deadline, hnonempty⟩ htyp
    cases value with
    | set members => exact absurd rfl htyp
    | _ => rfl

theorem serves_onList {g : List Bytes → Resp × List Bytes} (hprobing : Probing now s₀ key .list x)
    (hlist : ∀ items deadline, Fresh now (.list items) deadline →
      Does now s₀ key x ((Value.list items).records deadline) (.ok (g items).1)
        (recordsOf (Entry.of (.list (g items).2) deadline))) :
    Serves now s₀ key (replying x) (onList · g) entry := by
  refine serves_of_probing hclock hstore hprobing ?_ ?_ ?_
  · rw [← records_list_empty]
    exact hlist [] none ⟨storable_empty, by simp [Ahead], fun _ => rfl⟩
  · rintro ⟨value, deadline, hnonempty⟩ htyp hfresh
    cases value with
    | list items => exact hlist items deadline hfresh
    | _ => cases htyp
  · rintro ⟨value, deadline, hnonempty⟩ htyp
    cases value with
    | list items => exact absurd rfl htyp
    | _ => rfl

end OfType

/-! ### Commands that grow or shrink a collection -/

section Sizes

variable {α : Type} {times : ℤ → Prop} {s₀ : Store} {key : Bytes} {value : Value}
  {deadline : Option ℤ} {post : Except GoError Resp → Records → Prop}

/-- A command that adds to a collection clears the deadline of an absent key first. -/
theorem leads_growing {loop : Action ℕ} {typ : RedisType} (htyp : value.typ = typ)
    (hne : typ ≠ .string) (hempty : value.isEmpty = true → deadline = none)
    (hloop : Leads times s₀ key (do return Resp.integer (← loop)) (value.records deadline) post) :
    Leads times s₀ key (do
      if (if value.isEmpty then .none else value.typ) ≠ .none ∧
          (if value.isEmpty then .none else value.typ) ≠ typ then
        throw (wrongType (if value.isEmpty then .none else value.typ))
      else do
        if (if value.isEmpty then .none else value.typ) = .none then
          ignoringError (Transport.delete (collectionTTLKey key))
        return Resp.integer (← loop)) (value.records deadline) post := by
  subst htyp
  cases habsent : value.isEmpty with
  | true =>
    obtain rfl := hempty habsent
    refine .ite (fun hother => absurd rfl hother.1) fun _ => .ite (fun _ => ?_) (absurd rfl)
    refine .seq (leads_ignoringError (leads_delete .ttl (Fallible.Leads.continues_ok.mpr ?_)))
    rwa [show (none : Option Bytes) = Option.map encodeRedisExpiry none from rfl,
      Value.update_records_ttl hne]
  | false =>
    exact .ite (fun hother => absurd rfl hother.2) fun _ =>
      .ite (fun hnone => absurd hnone value.typ_ne_none) fun _ => hloop

/-- A command that removes from a collection removes the key with the last element. -/
theorem leads_shrunk {read : Action (List α)} {left : List α}
    (hread : Reads times s₀ key read value deadline (.ok left) (.ok []))
    (hlength : left.length = 0 ↔ value.isEmpty = true) {count : ℕ}
    (hleft : post (.ok (.integer count)) (recordsOf (Entry.of value deadline)))
    (hpassed : MayPass times value deadline → post (.ok (.integer count)) noRecords) :
    Leads times s₀ key (do
      let left ← read
      if left.length = 0 then
        ignoringError (redisDeleteRaw key)
      return Resp.integer count) (value.records deadline) post := by
  rw [recordsOf_of] at hleft
  refine .seq (hread.leads (fun _ => ?_) fun hmay => ?_)
  · refine Fallible.Leads.continues_ok.mpr (.ite (fun hzero => ?_) fun hne => .pure ?_)
    · rw [if_pos (hlength.mp hzero)] at hleft
      exact .seq (leads_ignoringError (leads_redisDeleteRaw fun _ => .pure hleft))
    · rwa [if_neg (hne ∘ hlength.mpr)] at hleft
  · exact .seq (leads_ignoringError (leads_redisDeleteRaw fun _ => .pure (hpassed hmay)))

end Sizes

end KVLite.TypedMap
