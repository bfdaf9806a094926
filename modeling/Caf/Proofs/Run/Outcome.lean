import Caf.Run

/-!
# What a run leaves behind

An operation leaves a state behind whether it succeeds or fails, and what is done next starts from
that state. This module has the laws for operations that may fail at any of their steps.

* `Run.after x s` is the state that `x` leaves, and `Run.outcome x s` what it comes to otherwise;
* `Run.Fails x s` says that `x` fails;
* `Run.Closed Q` says that `Q` holds of values and failures, and of a sequence when it holds of its
  parts;
* `Run.Keeps view x` says that `x` does not change what `view` sees of the state, in success or in
  failure;
* `Run.Preserves P x` says that what `P` says of the state is still true after `x`;
* `Run.Ends good bad` describes a result by one property for success and one for failure.
-/

namespace Caf.Run

variable {ε σ τ α β : Type}

/-- The state that `x` leaves behind. -/
def after (x : EStateM ε σ α) (s : σ) : σ :=
  match x s with
  | .ok _ t => t
  | .error _ t => t

/-- What `x` comes to, apart from the state. -/
def outcome (x : EStateM ε σ α) (s : σ) : Except ε α :=
  match x s with
  | .ok a _ => .ok a
  | .error e _ => .error e

/-- The operation `x` fails. -/
def Fails (x : EStateM ε σ α) (s : σ) : Prop :=
  ∃ e t, x s = .error e t

section Sequences

variable {x : EStateM ε σ α} {f : α → EStateM ε σ β} {s t : σ} {a : α} {e : ε}

theorem after_of_ok (h : x s = .ok a t) : after x s = t := by
  rw [after, h]

theorem after_of_error (h : x s = .error e t) : after x s = t := by
  rw [after, h]

theorem fails_or_ok (x : EStateM ε σ α) (s : σ) : Fails x s ∨ ∃ a t, x s = .ok a t := by
  cases h : x s with
  | ok a t => exact .inr ⟨a, t, rfl⟩
  | error e t => exact .inl ⟨e, t, h⟩

theorem not_fails_of_ok (h : x s = .ok a t) : ¬ Fails x s := by
  rintro ⟨e, t', herror⟩
  rw [h] at herror
  cases herror

/-- A value `b` at the end does not fail. -/
theorem fails_bind_pure_iff (x : EStateM ε σ α) (b : β) (s : σ) :
    Fails (x >>= fun _ => pure b) s ↔ Fails x s := by
  constructor
  · rintro ⟨e, t, h⟩
    rcases bind_eq_error_iff.1 h with h | ⟨a, t', -, h⟩
    · exact ⟨e, t, h⟩
    · cases h
  · rintro ⟨e, t, h⟩
    exact ⟨e, t, bind_of_error h⟩

/-- A value `b` at the end changes nothing. -/
theorem after_bind_pure (x : EStateM ε σ α) (b : β) (s : σ) :
    after (x >>= fun _ => pure b) s = after x s := by
  cases h : x s with
  | ok a t =>
    rw [after_of_ok h]
    exact after_of_ok (bind_of_ok h)
  | error e t =>
    rw [after_of_error h]
    exact after_of_error (bind_of_error h)

end Sequences

/-- Whether a run succeeds with some property is found out by running it. -/
instance decidableSucceeds {result : EStateM.Result ε σ α} {P : α → σ → Prop}
    [∀ a t, Decidable (P a t)] : Decidable (∃ a t, result = .ok a t ∧ P a t) :=
  match result with
  | .ok a t => decidable_of_iff (P a t)
      ⟨fun h => ⟨a, t, rfl, h⟩, fun ⟨_, _, hok, h⟩ => by cases hok; exact h⟩
  | .error _ _ => isFalse fun ⟨_, _, hok, _⟩ => by cases hok

/-! ## What sequences have from their parts -/

/-- A property `Q` of operations and the states they start from holds of values and of failures, and
it holds of a sequence when it holds of the first part, and of the second one from where the first
has succeeded. -/
structure Closed (Q : ∀ ⦃α : Type⦄, EStateM ε σ α → σ → Prop) : Prop where
  /-- Values have it. -/
  pure : ∀ {α : Type} (a : α) (s : σ), Q (Pure.pure a : EStateM ε σ α) s
  /-- Failures have it. -/
  throw : ∀ {α : Type} (e : ε) (s : σ), Q (MonadExcept.throw e : EStateM ε σ α) s
  /-- Sequences have it from their parts. -/
  bind : ∀ {α β : Type} {x : EStateM ε σ α} {f : α → EStateM ε σ β} {s : σ}, Q x s →
    (∀ a t, x s = .ok a t → Q (f a) t) → Q (x >>= f) s

namespace Closed

variable {Q : ∀ ⦃α : Type⦄, EStateM ε σ α → σ → Prop}

/-- Nothing of `f` is done after a failure. -/
theorem throw_bind (hQ : Closed Q) (e : ε) (f : α → EStateM ε σ β) (s : σ) :
    Q (MonadExcept.throw e >>= f) s :=
  hQ.bind (hQ.throw e s) fun _ _ hok => absurd hok throw_ne_ok

/-- Each branch is taken in its own case only. -/
theorem ite (_ : Closed Q) {p : Prop} [Decidable p] {x y : EStateM ε σ α} {s : σ}
    (hx : p → Q x s) (hy : ¬ p → Q y s) : Q (if p then x else y) s := by
  split
  case isTrue h => exact hx h
  case isFalse h => exact hy h

end Closed

/-! ## What an operation does not change -/

/-- The operation `x` does not change what `view` sees of the state. -/
def Keeps (view : σ → τ) (x : EStateM ε σ α) : Prop :=
  ∀ s, view (after x s) = view s

namespace Keeps

variable {view : σ → τ} {x : EStateM ε σ α} {f : α → EStateM ε σ β}

/-- Sequences keep what their parts keep. -/
theorem closed (view : σ → τ) :
    Closed fun ⦃α : Type⦄ (x : EStateM ε σ α) s => view (after x s) = view s where
  pure _ _ := rfl
  throw _ _ := rfl
  bind := by
    intro _ _ x f s hx hf
    cases h : x s with
    | ok a t =>
      rw [after_of_ok h] at hx
      rw [← hx, ← hf a t h, after, bind_of_ok h]
      rfl
    | error e t =>
      rw [after_of_error h] at hx
      rw [after_of_error (bind_of_error h), hx]

theorem pure (view : σ → τ) (a : α) : Keeps view (Pure.pure a : EStateM ε σ α) :=
  (closed view).pure a

theorem throw (view : σ → τ) (e : ε) : Keeps view (MonadExcept.throw e : EStateM ε σ α) :=
  (closed view).throw e

theorem throw_bind (view : σ → τ) (e : ε) (f : α → EStateM ε σ β) :
    Keeps view (MonadExcept.throw e >>= f) :=
  (closed view).throw_bind e f

theorem ite {p : Prop} [Decidable p] {x y : EStateM ε σ α} (hx : Keeps view x)
    (hy : Keeps view y) : Keeps view (if p then x else y) :=
  fun s => (closed view).ite (fun _ => hx s) fun _ => hy s

theorem bind (hx : Keeps view x) (hf : ∀ a, Keeps view (f a)) : Keeps view (x >>= f) :=
  fun s => (closed view).bind (hx s) fun a t _ => hf a t

theorem of_ok (h : Keeps view x) {s t : σ} {a : α} (hok : x s = .ok a t) : view t = view s := by
  rw [← h s, after_of_ok hok]

theorem of_error (h : Keeps view x) {s t : σ} {e : ε} (herror : x s = .error e t) :
    view t = view s := by
  rw [← h s, after_of_error herror]

end Keeps

/-! ## What outlasts an operation -/

/-- What `P` says of the state outlasts `x`, in success and in failure. -/
def Preserves (P : σ → Prop) (x : EStateM ε σ α) : Prop :=
  ∀ s, P s → P (after x s)

namespace Preserves

variable {P : σ → Prop} {x : EStateM ε σ α} {f : α → EStateM ε σ β}

/-- What depends only on a part of the state that `view` sees is preserved with that part. -/
theorem of_keeps {view : σ → τ} {P : τ → Prop} (h : Keeps view x) :
    Preserves (fun s => P (view s)) x := by
  intro s hs
  rw [h s]
  exact hs

/-- What outlasts the parts of a sequence outlasts the sequence, for every `P`. -/
theorem closed (P : σ → Prop) :
    Closed fun ⦃α : Type⦄ (x : EStateM ε σ α) s => P s → P (after x s) where
  pure _ _ h := h
  throw _ _ h := h
  bind := by
    intro _ _ x f s hx hf hs
    replace hx := hx hs
    cases h : x s with
    | ok a t =>
      rw [after_of_ok h] at hx
      rw [after, bind_of_ok h]
      exact hf a t h hx
    | error e t =>
      rw [after_of_error h] at hx
      rw [after_of_error (bind_of_error h)]
      exact hx

theorem pure (P : σ → Prop) (a : α) : Preserves P (Pure.pure a : EStateM ε σ α) :=
  (closed P).pure a

theorem ite {p : Prop} [Decidable p] {x y : EStateM ε σ α} (hx : Preserves P x)
    (hy : Preserves P y) : Preserves P (if p then x else y) :=
  fun s => (closed P).ite (fun _ => hx s) fun _ => hy s

theorem bind (hx : Preserves P x) (hf : ∀ a, Preserves P (f a)) : Preserves P (x >>= f) :=
  fun s => (closed P).bind (hx s) fun a t _ => hf a t

theorem of_ok (h : Preserves P x) {s t : σ} {a : α} (hs : P s) (hok : x s = .ok a t) : P t := by
  rw [← after_of_ok hok]
  exact h s hs

theorem of_error (h : Preserves P x) {s t : σ} {e : ε} (hs : P s) (herror : x s = .error e t) :
    P t := by
  rw [← after_of_error herror]
  exact h s hs

end Preserves

/-! ## How an operation ends -/

/-- How an operation ends: in success with the property `good`, in failure with `bad`. -/
def Ends (good : α → σ → Prop) (bad : ε → σ → Prop) : EStateM.Result ε σ α → Prop
  | .ok a t => good a t
  | .error e t => bad e t

namespace Ends

variable {good good' : α → σ → Prop} {bad bad' : ε → σ → Prop} {good₂ : β → σ → Prop}
  {x : EStateM ε σ α} {f : α → EStateM ε σ β} {s : σ}

theorem mono {result : EStateM.Result ε σ α} (h : Ends good bad result)
    (hgood : ∀ a t, good a t → good' a t) (hbad : ∀ e t, bad e t → bad' e t) :
    Ends good' bad' result := by
  cases result with
  | ok a t => exact hgood a t h
  | error e t => exact hbad e t h

/-- The second part `f` of a sequence starts from what `x` leaves in success. -/
theorem bind (hx : Ends good bad (x s)) (hf : ∀ a t, good a t → Ends good₂ bad (f a t)) :
    Ends good₂ bad ((x >>= f) s) := by
  cases h : x s with
  | ok a t =>
    rw [h] at hx
    rw [bind_of_ok h]
    exact hf a t hx
  | error e t =>
    rw [h] at hx
    rw [bind_of_error h]
    exact hx

end Ends

/-- What `P` says of the state in success and in failure is true of what is left behind. -/
theorem ends_iff_after {P : σ → Prop} {x : EStateM ε σ α} {s : σ} :
    Ends (fun _ t => P t) (fun _ t => P t) (x s) ↔ P (after x s) := by
  rw [after]
  cases x s <;> exact Iff.rfl

/-- An operation keeps what `view` sees when it keeps that in success and in failure. -/
theorem Keeps.of_ends {view : σ → τ} {x : EStateM ε σ α}
    (h : ∀ s, Ends (fun _ t => view t = view s) (fun _ t => view t = view s) (x s)) :
    Keeps view x :=
  fun s => ends_iff_after.1 (h s)

end Caf.Run
