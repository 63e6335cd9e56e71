import Mathlib.Data.List.Basic

/-!
# Streams of items and their readers

A reader takes items from the front of a stream. Three facts about readers compose along
`bind`: what a reader makes of a given front (`Consumes`), how much it takes at least
(`Takes`), and that two readers agree on short streams (`AgreeBelow`). For the other
direction, `Severs x y P` says that the fronts `x` and `y` of a stream are told apart: two
streams that start with them are equal only when `P` holds and the rest is the same.
-/

namespace Semantics

variable {ε β α γ : Type}

/-- A step that takes items from the front of a stream, or fails. -/
abbrev Reader (ε β α : Type) := StateT (List β) (Except ε) α

/-! ### What a reader makes of a front -/

/-- Whatever follows, the reader takes exactly `front` and gives `value`. -/
def Consumes (reader : Reader ε β α) (front : List β) (value : α) : Prop :=
  ∀ rest, reader (front ++ rest) = .ok (value, rest)

theorem Reader.bind_apply_of_ok {reader : Reader ε β α} {next : α → Reader ε β γ} {input rest : List β}
    {value : α} (h : reader input = .ok (value, rest)) :
    (reader >>= next) input = next value rest := by
  show (reader input >>= fun result => next result.1 result.2) = _
  rw [h]
  rfl

theorem Reader.bind_apply_of_error {reader : Reader ε β α} {next : α → Reader ε β γ} {input : List β}
    {error : ε} (h : reader input = .error error) : (reader >>= next) input = .error error := by
  show (reader input >>= fun result => next result.1 result.2) = _
  rw [h]
  rfl

theorem Consumes.pure (value : α) : Consumes (Pure.pure value : Reader ε β α) [] value := fun _ => rfl

theorem Consumes.bind {reader : Reader ε β α} {next : α → Reader ε β γ} {front front' : List β} {value : α}
    {result : γ} (h : Consumes reader front value) (hnext : Consumes (next value) front' result) :
    Consumes (reader >>= next) (front ++ front') result := by
  intro rest
  rw [List.append_assoc, Reader.bind_apply_of_ok (h _)]
  exact hnext rest

/-- The rest of a reader may take nothing. -/
theorem Consumes.bind_nil {reader : Reader ε β α} {next : α → Reader ε β γ} {front : List β} {value : α}
    {result : γ} (h : Consumes reader front value) (hnext : Consumes (next value) [] result) :
    Consumes (reader >>= next) front result := by
  simpa using h.bind hnext

theorem Consumes.map {reader : Reader ε β α} {front : List β} {value : α} (f : α → γ)
    (h : Consumes reader front value) : Consumes (f <$> reader) front (f value) := by
  rw [← bind_pure_comp]
  exact h.bind_nil (Consumes.pure _)

/-! ### How much a reader takes -/

/-- A reader that succeeds has taken at least `n` items. -/
def Takes (n : ℕ) (reader : Reader ε β α) : Prop :=
  ∀ input value rest, reader input = .ok (value, rest) → rest.length + n ≤ input.length

theorem Takes.mono {n m : ℕ} {reader : Reader ε β α} (h : Takes n reader) (hm : m ≤ n) :
    Takes m reader := by
  intro input value rest hrun
  have htaken := h input value rest hrun
  omega

theorem Takes.pure (value : α) : Takes 0 (Pure.pure value : Reader ε β α) := by
  rintro input _ _ ⟨⟩
  exact Nat.le_refl _

theorem Takes.throw (n : ℕ) (error : ε) : Takes n (throw error : Reader ε β α) := by
  rintro input _ _ ⟨⟩

theorem Takes.bind {n m : ℕ} {reader : Reader ε β α} {next : α → Reader ε β γ} (h : Takes n reader)
    (hnext : ∀ value, Takes m (next value)) : Takes (n + m) (reader >>= next) := by
  intro input result rest hrun
  cases hread : reader input with
  | error error =>
    rw [Reader.bind_apply_of_error hread] at hrun
    cases hrun
  | ok read =>
    obtain ⟨value, middle⟩ := read
    rw [Reader.bind_apply_of_ok hread] at hrun
    have hfirst := h input value middle hread
    have hsecond := hnext value middle result rest hrun
    omega

/-- What follows may take nothing. -/
theorem Takes.bind_zero {n : ℕ} {reader : Reader ε β α} {next : α → Reader ε β γ} (h : Takes n reader)
    (hnext : ∀ value, Takes 0 (next value)) : Takes n (reader >>= next) :=
  h.bind hnext

theorem Takes.map {n : ℕ} {reader : Reader ε β α} (f : α → γ) (h : Takes n reader) :
    Takes n (f <$> reader) := by
  rw [← bind_pure_comp]
  exact h.bind_zero fun _ => Takes.pure _

/-! ### Readers that agree on short streams -/

/-- The readers do the same on every stream of fewer than `n` items. -/
def AgreeBelow (n : ℕ) (reader reader' : Reader ε β α) : Prop :=
  ∀ input, input.length < n → reader input = reader' input

theorem AgreeBelow.refl (n : ℕ) (reader : Reader ε β α) : AgreeBelow n reader reader := fun _ _ => rfl

/-- What follows a reader sees what the reader has left. -/
theorem AgreeBelow.bind {n m k : ℕ} {reader reader' : Reader ε β α} {next next' : α → Reader ε β γ}
    (h : AgreeBelow n reader reader') (htakes : Takes k reader) (hk : n ≤ m + k)
    (hnext : ∀ value, AgreeBelow m (next value) (next' value)) :
    AgreeBelow n (reader >>= next) (reader' >>= next') := by
  intro input hinput
  have hsame := h input hinput
  cases hread : reader input with
  | error error => rw [Reader.bind_apply_of_error hread, Reader.bind_apply_of_error (hsame ▸ hread)]
  | ok read =>
    obtain ⟨value, rest⟩ := read
    have htaken := htakes input value rest hread
    rw [Reader.bind_apply_of_ok hread, Reader.bind_apply_of_ok (hsame ▸ hread)]
    exact hnext value rest (by omega)

theorem AgreeBelow.map {n : ℕ} {reader reader' : Reader ε β α} (f : α → γ)
    (h : AgreeBelow n reader reader') : AgreeBelow n (f <$> reader) (f <$> reader') := by
  intro input hinput
  show (reader input >>= _) = (reader' input >>= _)
  rw [h input hinput]

/-! ### Fronts that cannot be confused -/

/-- Two streams that start with `x` and `y` are equal only when `P` holds and they go on in
the same way. -/
def Severs (x y : List β) (P : Prop) : Prop :=
  ∀ rest rest', x ++ rest = y ++ rest' → P ∧ rest = rest'

theorem Severs.imp {x y : List β} {P Q : Prop} (h : Severs x y P) (hPQ : P → Q) : Severs x y Q := by
  intro rest rest' heq
  obtain ⟨hP, hrest⟩ := h rest rest' heq
  exact ⟨hPQ hP, hrest⟩

theorem Severs.nil : Severs ([] : List β) [] True := fun _ _ heq => ⟨trivial, heq⟩

/-- The second fronts are compared knowing that the first ones match. -/
theorem Severs.append {x y x' y' : List β} {P Q : Prop} (h : Severs x y P)
    (hnext : P → Severs x' y' Q) : Severs (x ++ x') (y ++ y') (P ∧ Q) := by
  intro rest rest' heq
  rw [List.append_assoc, List.append_assoc] at heq
  obtain ⟨hP, htail⟩ := h _ _ heq
  obtain ⟨hQ, hrest⟩ := hnext hP _ _ htail
  exact ⟨⟨hP, hQ⟩, hrest⟩

theorem Severs.cons {x y : List β} {P : Prop} (item : β) (h : Severs x y P) :
    Severs (item :: x) (item :: y) P := by
  intro rest rest' heq
  exact h rest rest' (List.cons.inj heq).2

/-- Different first items. -/
theorem Severs.of_ne {x y : List β} {item item' : β} (P : Prop) (h : item ≠ item') :
    Severs (item :: x) (item' :: y) P := by
  intro rest rest' heq
  exact absurd (List.cons.inj heq).1 h

/-- Fronts of one length. -/
theorem Severs.of_length {x y : List β} (h : x.length = y.length) : Severs x y (x = y) :=
  fun _ _ heq => List.append_inj heq h

/-- Fronts up to the first occurrence of an item. -/
theorem Severs.of_notMem {x y : List β} {stop : β} (hx : stop ∉ x) (hy : stop ∉ y) (tail : List β) :
    Severs (x ++ stop :: tail) (y ++ stop :: tail) (x = y) := by
  intro rest rest' heq
  rw [List.append_assoc, List.append_assoc, List.cons_append, List.cons_append] at heq
  rcases List.append_eq_append_iff.mp heq with ⟨more, hmore, htail⟩ | ⟨more, hmore, htail⟩
  · cases more with
    | nil =>
      rw [List.append_nil] at hmore
      exact ⟨hmore.symm, List.append_cancel_left (List.cons.inj htail).2⟩
    | cons item more =>
      -- A proper continuation of `x` would start with the item.
      rw [hmore, ← (List.cons.inj htail).1] at hy
      simp at hy
  · cases more with
    | nil =>
      rw [List.append_nil] at hmore
      exact ⟨hmore, List.append_cancel_left (List.cons.inj htail).2.symm⟩
    | cons item more =>
      rw [hmore, ← (List.cons.inj htail).1] at hx
      simp at hx

end Semantics
