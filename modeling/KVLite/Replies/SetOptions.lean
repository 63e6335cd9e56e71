import KVLite.Redis.Strings
import Mathlib.Data.List.Perm.Basic

/-!
# The order of the options of `SET`

The options of `SET` are read from left to right. Most pairs of them commute: a flag that is
set twice stays set, `NX` and `XX` exclude each other whichever comes first, and a second
deadline is refused. Only `KEEPTTL` looks back without being looked back at: it is refused
after a deadline, and a deadline is accepted after it.
-/

namespace KVLite.Redis

open Semantics Fallible

/-- An option as it is written, with its argument if it has one. -/
inductive OptionGroup
  | nx (word : Bytes)
  | xx (word : Bytes)
  | get (word : Bytes)
  | keepTTL (word : Bytes)
  | deadline (word amount : Bytes)

namespace OptionGroup

def args : OptionGroup → List Bytes
  | nx word | xx word | get word | keepTTL word => [word]
  | deadline word amount => [word, amount]

/-- The word is the name of the option, in any case. -/
def Spelled (go : GoRuntime) : OptionGroup → Prop
  | nx word => go.toUpper word = text "NX"
  | xx word => go.toUpper word = text "XX"
  | get word => go.toUpper word = text "GET"
  | keepTTL word => go.toUpper word = text "KEEPTTL"
  | deadline word _ => go.toUpper word ∈ [text "EX", text "PX", text "EXAT", text "PXAT"]

def isNX : OptionGroup → Bool
  | nx _ => true
  | _ => false

def isXX : OptionGroup → Bool
  | xx _ => true
  | _ => false

def isGet : OptionGroup → Bool
  | get _ => true
  | _ => false

def isKeepTTL : OptionGroup → Bool
  | keepTTL _ => true
  | _ => false

def isDeadline : OptionGroup → Bool
  | deadline _ _ => true
  | _ => false

/-- The deadline that an option asks for at one clock reading. -/
def expiresAt (go : GoRuntime) (time : ℤ) : OptionGroup → Except GoError ℤ
  | deadline word amount =>
    (run (embedded time) (redisSetDeadline (go.toUpper word) amount) ∅).1
  | _ => .ok 0

/-- A deadline asks for a positive amount and does not leave the 64-bit integers. -/
def Valid (go : GoRuntime) (time : ℤ) : OptionGroup → Prop
  | deadline word amount =>
    let option := go.toUpper word
    let unit := if option = text "PX" ∨ option = text "PXAT" then millisecond else second
    ∃ count, redisParseInt amount = .ok count ∧ 0 < count ∧ count * unit ≤ redisMaxInt64 ∧
      (option = text "EXAT" ∨ option = text "PXAT" ∨
        BigEndian.wrapInt64 time + count * unit ≤ redisMaxInt64)
  | _ => True

/-- One round of the loop over the options. -/
def step (go : GoRuntime) (time : ℤ) (options : SetOptions) :
    OptionGroup → Except GoError SetOptions
  | nx _ => if options.xx then .error syntaxError else .ok { options with nx := true }
  | xx _ => if options.nx then .error syntaxError else .ok { options with xx := true }
  | get _ => .ok { options with get := true }
  | keepTTL _ =>
    if options.hasExpiry then .error syntaxError else .ok { options with keepTTL := true }
  | deadline word amount =>
    if options.hasExpiry then .error syntaxError
    else (expiresAt go time (deadline word amount)).map fun expiresAt =>
      { options with expiresAt := expiresAt, hasExpiry := true }

/-- The loop over the options. -/
def steps (go : GoRuntime) (time : ℤ) (options : SetOptions) :
    List OptionGroup → Except GoError SetOptions
  | [] => .ok options
  | group :: groups => do
    let options ← step go time options group
    steps go time options groups

end OptionGroup

section Parser

variable {go : GoRuntime} {time : ℤ}

open OptionGroup

theorem run_redisSetDeadline (option amount : Bytes) (s : Store) :
    run (embedded time) (redisSetDeadline option amount) s =
      ((run (embedded time) (redisSetDeadline option amount) ∅).1, s) := by
  unfold redisSetDeadline
  cases redisParseInt amount with
  | error err => rfl
  | ok amount =>
    rw [run_bind_ok (run_liftExcept _), run_bind_ok (run_liftExcept _)]
    dsimp only
    generalize (if option = text "PX" ∨ option = text "PXAT" then millisecond else second) = unit
    split
    · rfl
    · split
      · rfl
      · rw [run_bind_ok run_unixNano, run_bind_ok run_unixNano]
        split <;> rfl

theorem expiresAt_isOk_iff (group : OptionGroup) :
    (∃ expiresAt, group.expiresAt go time = .ok expiresAt) ↔ group.Valid go time := by
  cases group with
  | deadline word amount =>
    rw [expiresAt, Valid, redisSetDeadline]
    cases redisParseInt amount with
    | error err =>
      rw [run_bind_error (run_liftExcept _)]
      simp
    | ok count =>
      rw [run_bind_ok (run_liftExcept _)]
      dsimp only
      have hunit : 0 < (if go.toUpper word = text "PX" ∨ go.toUpper word = text "PXAT"
          then millisecond else second) := by split <;> decide
      generalize (if go.toUpper word = text "PX" ∨ go.toUpper word = text "PXAT"
          then millisecond else second) = unit at hunit ⊢
      have hrange : count > redisMaxInt64 / unit ↔ ¬ count * unit ≤ redisMaxInt64 := by
        rw [gt_iff_lt, ← not_le, Int.le_ediv_iff_mul_le hunit]
      split
      · rename_i hrefused
        rw [hrange] at hrefused
        constructor
        · rintro ⟨expiresAt, h⟩
          cases h
        · rintro ⟨_, ⟨⟩, hpos, hle, -⟩
          rcases hrefused with hrefused | hrefused
          · omega
          · exact absurd hle hrefused
      · rename_i haccepted
        rw [hrange] at haccepted
        obtain ⟨hpos, hle⟩ := not_or.mp haccepted
        have hpos : 0 < count := not_le.mp hpos
        have hle := not_not.mp hle
        split
        · rename_i habsolute
          exact iff_of_true ⟨_, rfl⟩
            ⟨count, rfl, hpos, hle, habsolute.imp_right .inl⟩
        · rename_i hrelative
          obtain ⟨hexat, hpxat⟩ := not_or.mp hrelative
          rw [run_bind_ok run_unixNano]
          split
          · rename_i hlate
            constructor
            · rintro ⟨expiresAt, h⟩
              cases h
            · rintro ⟨_, ⟨⟩, -, -, h | h | h⟩
              · exact absurd h hexat
              · exact absurd h hpxat
              · omega
          · rename_i hlate
            exact iff_of_true ⟨_, rfl⟩ ⟨count, rfl, hpos, hle, .inr (.inr (by omega))⟩
  | _ word => simp [expiresAt, Valid]

/-- The parser works through the groups one after the other. -/
theorem run_redisSetOptions_groups {groups : List OptionGroup}
    (hspelled : ∀ group ∈ groups, group.Spelled go) (options : SetOptions) (s : Store) :
    run (embedded time) (redisSetOptions go options (groups.flatMap args)) s =
      (steps go time options groups, s) := by
  induction groups generalizing options with
  | nil => rfl
  | cons group groups ih =>
    obtain ⟨hgroup, hrest⟩ := List.forall_mem_cons.mp hspelled
    rw [List.flatMap_cons, steps]
    cases group with
    | nx word =>
      have hword : go.toUpper word = text "NX" := hgroup
      rw [args, List.singleton_append, redisSetOptions.eq_def, step]
      dsimp only
      rw [if_pos hword]
      split
      · rfl
      · exact ih hrest _
    | xx word =>
      have hword : go.toUpper word = text "XX" := hgroup
      rw [args, List.singleton_append, redisSetOptions.eq_def, step]
      dsimp only
      rw [hword, if_neg (by decide), if_pos rfl]
      split
      · rfl
      · exact ih hrest _
    | get word =>
      have hword : go.toUpper word = text "GET" := hgroup
      rw [args, List.singleton_append, redisSetOptions.eq_def, step]
      dsimp only
      rw [hword, if_neg (by decide), if_neg (by decide), if_pos rfl]
      exact ih hrest _
    | keepTTL word =>
      have hword : go.toUpper word = text "KEEPTTL" := hgroup
      rw [args, List.singleton_append, redisSetOptions.eq_def, step]
      dsimp only
      rw [hword, if_neg (by decide), if_neg (by decide), if_neg (by decide), if_pos rfl]
      split
      · rfl
      · exact ih hrest _
    | deadline word amount =>
      have hword : go.toUpper word ∈ [text "EX", text "PX", text "EXAT", text "PXAT"] := hgroup
      have hother : ∀ name ∈ [text "NX", text "XX", text "GET", text "KEEPTTL"],
          name ∉ [text "EX", text "PX", text "EXAT", text "PXAT"] := by decide
      have hne : ∀ name ∈ [text "NX", text "XX", text "GET", text "KEEPTTL"],
          go.toUpper word ≠ name := fun name hname heq => hother name hname (heq ▸ hword)
      rw [args, List.cons_append, List.singleton_append, redisSetOptions.eq_def, step]
      dsimp only
      rw [if_neg (hne _ (by simp)), if_neg (hne _ (by simp)), if_neg (hne _ (by simp)),
        if_neg (hne _ (by simp)), if_pos hword]
      split
      · rfl
      · rw [expiresAt, run_bind, run_redisSetDeadline]
        cases (run (embedded time) (redisSetDeadline (go.toUpper word) amount) ∅).1 with
        | error err => rfl
        | ok expiresAt => exact ih hrest _

/-! ### Accepted lists -/

/-- The options that have been read rule this one out. -/
def Refuses (options : SetOptions) (group : OptionGroup) : Prop :=
  options.nx ∧ group.isXX ∨ options.xx ∧ group.isNX ∨
    options.hasExpiry ∧ (group.isDeadline ∨ group.isKeepTTL)

/-- Two options that do not go together in either order. -/
def Conflict (group later : OptionGroup) : Prop :=
  group.isNX ∧ later.isXX ∨ group.isXX ∧ later.isNX ∨ group.isDeadline ∧ later.isDeadline

theorem Conflict.symm {group later : OptionGroup} (h : Conflict group later) :
    Conflict later group := by
  rcases h with h | h | h
  · exact .inr (.inl h.symm)
  · exact .inl h.symm
  · exact .inr (.inr h.symm)

/-- A deadline is followed by `KEEPTTL`. -/
def Forgets (group later : OptionGroup) : Prop :=
  group.isDeadline ∧ later.isKeepTTL

/-- The options go together, but for the order of `KEEPTTL` and a deadline, and the deadlines
can be computed. -/
structure Compatible (go : GoRuntime) (time : ℤ) (groups : List OptionGroup) : Prop where
  pairs : groups.Pairwise fun group later => ¬ Conflict group later
  valid : ∀ group ∈ groups, group.Valid go time

/-- The order of the options does not count for compatibility. -/
theorem Compatible.perm {groups groups' : List OptionGroup} (h : Compatible go time groups)
    (hperm : groups'.Perm groups) : Compatible go time groups' where
  pairs := h.pairs.perm hperm.symm fun hpair hconflict => hpair hconflict.symm
  valid group hgroup := h.valid group (hperm.mem_iff.mp hgroup)

/-- What one option adds. -/
theorem step_eq_ok {options options' : SetOptions} {group : OptionGroup}
    (h : step go time options group = .ok options') :
    options'.nx = (options.nx || group.isNX) ∧ options'.xx = (options.xx || group.isXX) ∧
      options'.get = (options.get || group.isGet) ∧
      options'.keepTTL = (options.keepTTL || group.isKeepTTL) ∧
      options'.hasExpiry = (options.hasExpiry || group.isDeadline) ∧
      (group.isDeadline = true → group.expiresAt go time = .ok options'.expiresAt) ∧
      (group.isDeadline = false → options'.expiresAt = options.expiresAt) := by
  cases group with
  | deadline word amount =>
    rw [step] at h
    split at h
    · cases h
    · cases hexpires : expiresAt go time (deadline word amount) with
      | error err =>
        rw [hexpires] at h
        cases h
      | ok time =>
        rw [hexpires] at h
        cases h
        simp [isNX, isXX, isGet, isKeepTTL, isDeadline]
  | get word =>
    cases h
    simp [isNX, isXX, isGet, isKeepTTL, isDeadline]
  | _ word =>
    rw [step] at h
    split at h
    · cases h
    · cases h
      simp [isNX, isXX, isGet, isKeepTTL, isDeadline]

theorem exists_guarded_ok_iff {condition : Prop} [Decidable condition] (err : GoError)
    (options : SetOptions) :
    (∃ options', (if condition then .error err else .ok options) = Except.ok options') ↔
      ¬ condition := by
  split <;> simp_all

/-- When one option is accepted. -/
theorem step_isOk_iff (options : SetOptions) (group : OptionGroup) :
    (∃ options', step go time options group = .ok options') ↔
      ¬ Refuses options group ∧ group.Valid go time := by
  rw [← expiresAt_isOk_iff]
  cases group with
  | deadline word amount =>
    rw [step]
    cases expiresAt go time (deadline word amount) with
    | error err =>
      have hnone : ¬ ∃ options',
          (if options.hasExpiry then .error syntaxError else .error err) =
            (.ok options' : Except GoError SetOptions) := by split <;> simp
      simpa [Except.map] using hnone
    | ok time =>
      simp [Except.map, exists_guarded_ok_iff, Refuses, isXX, isNX, isDeadline]
  | _ word =>
    simp [step, exists_guarded_ok_iff, Refuses, expiresAt, isXX, isNX, isKeepTTL, isDeadline]

/-- What an accepted option rules out. -/
theorem refuses_of_step {options options' : SetOptions} {group : OptionGroup}
    (h : step go time options group = .ok options') (later : OptionGroup) :
    Refuses options' later ↔ Refuses options later ∨ Conflict group later ∨ Forgets group later := by
  obtain ⟨hnx, hxx, -, -, hexpiry, -, -⟩ := step_eq_ok h
  simp only [Refuses, Conflict, Forgets, hnx, hxx, hexpiry, Bool.or_eq_true]
  tauto

theorem steps_cons_isOk_iff (options : SetOptions) (group : OptionGroup)
    (groups : List OptionGroup) :
    (∃ options', steps go time options (group :: groups) = .ok options') ↔
      ∃ options₁, step go time options group = .ok options₁ ∧
        ∃ options', steps go time options₁ groups = .ok options' := by
  rw [steps]
  cases step go time options group with
  | error err => simp [Bind.bind, Except.bind]
  | ok options₁ => simp [Bind.bind, Except.bind]

/-- A list is accepted if its options go together with each other and with those that have
been read already. -/
theorem steps_isOk_iff (options : SetOptions) (groups : List OptionGroup) :
    (∃ options', steps go time options groups = .ok options') ↔
      (∀ group ∈ groups, ¬ Refuses options group) ∧ Compatible go time groups ∧
        groups.Pairwise fun group later => ¬ Forgets group later := by
  induction groups generalizing options with
  | nil =>
    have hcompatible : Compatible go time [] := ⟨List.Pairwise.nil, by simp⟩
    simp [steps, hcompatible]
  | cons group groups ih =>
    rw [steps_cons_isOk_iff]
    constructor
    · rintro ⟨options₁, hstep, hrest⟩
      obtain ⟨hrefuses, hcompatible, hforgets⟩ := (ih options₁).mp hrest
      obtain ⟨hgroup, hvalid⟩ := (step_isOk_iff options group).mp ⟨_, hstep⟩
      have hlater := fun later hmem => mt (refuses_of_step hstep later).mpr (hrefuses later hmem)
      simp only [not_or] at hlater
      refine ⟨List.forall_mem_cons.mpr ⟨hgroup, fun later hmem => (hlater later hmem).1⟩,
        ⟨?_, List.forall_mem_cons.mpr ⟨hvalid, hcompatible.valid⟩⟩, ?_⟩
      · exact List.pairwise_cons.mpr ⟨fun later hmem => (hlater later hmem).2.1, hcompatible.pairs⟩
      · exact List.pairwise_cons.mpr ⟨fun later hmem => (hlater later hmem).2.2, hforgets⟩
    · rintro ⟨hrefuses, ⟨hpairs, hvalid⟩, hforgets⟩
      obtain ⟨hgroup, hrefuses⟩ := List.forall_mem_cons.mp hrefuses
      obtain ⟨hconflict, hpairs⟩ := List.pairwise_cons.mp hpairs
      obtain ⟨hexpires, hvalid⟩ := List.forall_mem_cons.mp hvalid
      obtain ⟨hforget, hforgets⟩ := List.pairwise_cons.mp hforgets
      obtain ⟨options₁, hstep⟩ := (step_isOk_iff options group).mpr ⟨hgroup, hexpires⟩
      refine ⟨options₁, hstep, (ih options₁).mpr ⟨?_, ⟨hpairs, hvalid⟩, hforgets⟩⟩
      intro later hmem
      rw [refuses_of_step hstep, not_or, not_or]
      exact ⟨hrefuses later hmem, hconflict later hmem, hforget later hmem⟩

/-- What an accepted list adds. -/
theorem steps_eq_ok {options options' : SetOptions} {groups : List OptionGroup}
    (h : steps go time options groups = .ok options') :
    options'.nx = (options.nx || groups.any isNX) ∧ options'.xx = (options.xx || groups.any isXX) ∧
      options'.get = (options.get || groups.any isGet) ∧
      options'.keepTTL = (options.keepTTL || groups.any isKeepTTL) ∧
      options'.hasExpiry = (options.hasExpiry || groups.any isDeadline) ∧
      (∀ group ∈ groups, group.isDeadline → group.expiresAt go time = .ok options'.expiresAt) ∧
      (groups.any isDeadline = false → options'.expiresAt = options.expiresAt) := by
  induction groups generalizing options with
  | nil =>
    cases h
    simp
  | cons group groups ih =>
    obtain ⟨-, hcompatible, -⟩ := (steps_isOk_iff options (group :: groups)).mp ⟨_, h⟩
    rw [steps] at h
    obtain ⟨options₁, hstep, hrest⟩ : ∃ options₁, step go time options group = .ok options₁ ∧
        steps go time options₁ groups = .ok options' := by
      cases hstep : step go time options group with
      | error err =>
        rw [hstep] at h
        cases h
      | ok options₁ =>
        rw [hstep] at h
        exact ⟨options₁, rfl, h⟩
    obtain ⟨hnx, hxx, hget, hkeep, hexpiry, hdeadline, hnone⟩ := step_eq_ok hstep
    obtain ⟨hnx', hxx', hget', hkeep', hexpiry', hdeadline', hnone'⟩ := ih hrest
    simp only [List.any_cons, ← Bool.or_assoc]
    rw [← hnx, ← hxx, ← hget, ← hkeep, ← hexpiry]
    refine ⟨hnx', hxx', hget', hkeep', hexpiry', List.forall_mem_cons.mpr ⟨?_, hdeadline'⟩, ?_⟩
    · intro hgroup
      have hlater : groups.any isDeadline = false := by
        rw [List.any_eq_false]
        intro later hmem hlater
        exact (List.pairwise_cons.mp hcompatible.pairs).1 later hmem (.inr (.inr ⟨hgroup, hlater⟩))
      rw [hnone' hlater]
      exact hdeadline hgroup
    · intro h
      obtain ⟨hgroup, hgroups⟩ := Bool.or_eq_false_iff.mp h
      rw [hnone' hgroups, hnone hgroup]

/-! ### Orders -/

/-- The options that a list of groups is read as, if it is accepted. -/
def Parses (go : GoRuntime) (time : ℤ) (s : Store) (groups : List OptionGroup)
    (options : SetOptions) : Prop :=
  (run (embedded time) (redisSetOptions go {} (groups.flatMap args)) s).1 = .ok options

/-- The order of the options does not count: the list is accepted if and only if every
permutation of it is, and all accepted ones are read as the same options. -/
structure OrderFree (go : GoRuntime) (time : ℤ) (s : Store) (groups : List OptionGroup) : Prop where
  accepted : (∃ options, Parses go time s groups options) ↔
    ∀ groups' : List OptionGroup, groups'.Perm groups → ∃ options, Parses go time s groups' options
  same : ∀ groups₁ groups₂ : List OptionGroup, groups₁.Perm groups → groups₂.Perm groups →
    ∀ options₁ options₂, Parses go time s groups₁ options₁ → Parses go time s groups₂ options₂ →
      options₁ = options₂

/-- An accepted list that would not be accepted in every order: it has a `KEEPTTL` and, after
every `KEEPTTL`, a deadline. -/
structure KeepsThenExpires (go : GoRuntime) (time : ℤ) (groups : List OptionGroup) : Prop where
  compatible : Compatible go time groups
  keeps : ∃ group ∈ groups, group.isKeepTTL
  expires : ∃ group ∈ groups, group.isDeadline
  ordered : groups.Pairwise fun group later => ¬ Forgets group later

variable {s : Store} {groups : List OptionGroup}

theorem parses_iff (hspelled : ∀ group ∈ groups, group.Spelled go) (options : SetOptions) :
    Parses go time s groups options ↔ steps go time {} groups = .ok options := by
  rw [Parses, run_redisSetOptions_groups hspelled]

theorem exists_parses_iff (hspelled : ∀ group ∈ groups, group.Spelled go) :
    (∃ options, Parses go time s groups options) ↔
      Compatible go time groups ∧ groups.Pairwise fun group later => ¬ Forgets group later := by
  simp only [parses_iff hspelled]
  rw [steps_isOk_iff]
  have hrefuses : ∀ group ∈ groups, ¬ Refuses {} group := fun group _ => by simp [Refuses]
  exact and_iff_right hrefuses

/-- The options do not say in which order they came. -/
theorem steps_perm {groups₁ groups₂ : List OptionGroup} {options₁ options₂ : SetOptions}
    (hperm : groups₁.Perm groups₂) (h₁ : steps go time {} groups₁ = .ok options₁)
    (h₂ : steps go time {} groups₂ = .ok options₂) : options₁ = options₂ := by
  obtain ⟨hnx₁, hxx₁, hget₁, hkeep₁, hexpiry₁, hdeadline₁, hnone₁⟩ := steps_eq_ok h₁
  obtain ⟨hnx₂, hxx₂, hget₂, hkeep₂, hexpiry₂, hdeadline₂, hnone₂⟩ := steps_eq_ok h₂
  have hexpires : options₁.expiresAt = options₂.expiresAt := by
    cases hany : groups₁.any isDeadline with
    | false => rw [hnone₁ hany, hnone₂ (hperm.any_eq ▸ hany)]
    | true =>
      obtain ⟨group, hgroup, hdeadline⟩ := List.any_eq_true.mp hany
      have h := hdeadline₁ group hgroup hdeadline
      rw [hdeadline₂ group (hperm.mem_iff.mp hgroup) hdeadline] at h
      exact (Except.ok.inj h).symm
  rw [← hperm.any_eq] at hnx₂ hxx₂ hget₂ hkeep₂ hexpiry₂
  cases options₁
  cases options₂
  simp_all

/-- With a deadline moved to the front the list is refused. -/
theorem exists_perm_refused (h : KeepsThenExpires go time groups) :
    ∃ groups' : List OptionGroup, groups'.Perm groups ∧
      ¬ groups'.Pairwise fun group later => ¬ Forgets group later := by
  obtain ⟨keep, hkeep, hisKeep⟩ := h.keeps
  obtain ⟨deadline, hdeadline, hisDeadline⟩ := h.expires
  obtain ⟨before, after, rfl⟩ := List.append_of_mem hdeadline
  refine ⟨deadline :: (before ++ after), List.perm_middle.symm, fun hpairs => ?_⟩
  have hne : keep ≠ deadline := by
    rintro rfl
    cases keep <;> simp [isKeepTTL, isDeadline] at hisKeep hisDeadline
  have hmem : keep ∈ before ++ after := by
    rw [List.mem_append, List.mem_cons] at hkeep
    rw [List.mem_append]
    tauto
  exact (List.pairwise_cons.mp hpairs).1 keep hmem ⟨hisDeadline, hisKeep⟩

theorem set_options_order_free_iff (hspelled : ∀ group ∈ groups, group.Spelled go) :
    OrderFree go time s groups ↔ ¬ KeepsThenExpires go time groups := by
  constructor
  · intro hfree hkeeps
    obtain ⟨groups', hperm, hrefused⟩ := exists_perm_refused hkeeps
    have hspelled' : ∀ group ∈ groups', group.Spelled go :=
      fun group hgroup => hspelled group (hperm.mem_iff.mp hgroup)
    have haccepted : ∃ options, Parses go time s groups options :=
      (exists_parses_iff hspelled).mpr ⟨hkeeps.compatible, hkeeps.ordered⟩
    exact hrefused ((exists_parses_iff hspelled').mp (hfree.accepted.mp haccepted groups' hperm)).2
  · intro hkeeps
    have hspelled' : ∀ groups' : List OptionGroup, groups'.Perm groups →
        ∀ group ∈ groups', group.Spelled go :=
      fun groups' hperm group hgroup => hspelled group (hperm.mem_iff.mp hgroup)
    refine ⟨⟨?_, fun h => h groups (.refl groups)⟩, ?_⟩
    · intro haccepted groups' hperm
      obtain ⟨hcompatible, hordered⟩ := (exists_parses_iff hspelled).mp haccepted
      refine (exists_parses_iff (hspelled' groups' hperm)).mpr ⟨hcompatible.perm hperm, ?_⟩
      -- `KEEPTTL` and a deadline are not both there, so no order brings them together.
      refine List.pairwise_of_forall_mem_list fun group hgroup later hlater hforgets => ?_
      exact hkeeps ⟨hcompatible, ⟨later, hperm.mem_iff.mp hlater, hforgets.2⟩,
        ⟨group, hperm.mem_iff.mp hgroup, hforgets.1⟩, hordered⟩
    · intro groups₁ groups₂ hperm₁ hperm₂ options₁ options₂ hparses₁ hparses₂
      exact steps_perm (hperm₁.trans hperm₂.symm)
        ((parses_iff (hspelled' groups₁ hperm₁) _).mp hparses₁)
        ((parses_iff (hspelled' groups₂ hperm₂) _).mp hparses₂)

/-- `KEEPTTL` before a deadline is accepted, and after it it is refused. -/
theorem keepTTL_after_deadline_refused :
    (∃ options, Parses .upperCase 0 ∅ [.keepTTL (text "KEEPTTL"), .deadline (text "EX") (text "10")]
        options) ∧
      ¬ ∃ options, Parses .upperCase 0 ∅
        [.deadline (text "EX") (text "10"), .keepTTL (text "KEEPTTL")] options := by
  refine ⟨⟨_, rfl⟩, ?_⟩
  rintro ⟨options, h⟩
  cases h

/-- Without `KEEPTTL` the deadline may stand anywhere. -/
theorem deadline_order_free :
    OrderFree .upperCase 0 ∅ [.nx (text "NX"), .deadline (text "EX") (text "10")] := by
  refine (set_options_order_free_iff ?_).mpr fun h => ?_
  · intro group hgroup
    simp only [List.mem_cons, List.not_mem_nil, or_false] at hgroup
    rcases hgroup with rfl | rfl
    · exact (by decide : GoRuntime.upperCase.toUpper (text "NX") = text "NX")
    · exact (by decide : GoRuntime.upperCase.toUpper (text "EX") ∈
        [text "EX", text "PX", text "EXAT", text "PXAT"])
  · obtain ⟨group, hgroup, hkeeps⟩ := h.keeps
    simp only [List.mem_cons, List.not_mem_nil, or_false] at hgroup
    rcases hgroup with rfl | rfl <;> cases hkeeps

end Parser

end KVLite.Redis
