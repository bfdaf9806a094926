import Caf.Proofs.Run.Outcome

/-!
# A damaged run beside a sound one

An operation is run twice: on a sound state, and on a damaged state that stands in its place. Until
it comes to the damage it does the same in both runs. When it comes there it fails, with a cause
that names the damage, and does not go on. So a damaged run has the result of the sound one or it
has disclosed the damage, and whatever it would have got to in the sound run lies behind it.

## Main definitions

* `Run.Damage`: which damaged states stand for a sound one, and how operations fail on damage;
* `Run.Beside`: the result of a damaged run beside that of the sound one;
* `Run.relay`: what is made of the result of an operation;
* `Run.Discloses`: an operation that comes to one or the other, and does not go back.

## Main results

* `Run.Beside.bind`, `Run.Discloses.closed`: sequences disclose what their parts disclose;
* `Run.Beside.relay`: so does what is made of their results;
* `Run.Beside.outcome_eq_or`: the damaged run comes to the same, or to the cause.
-/

namespace Caf.Run

variable {ε ε' σ τ α β : Type}

/-- Damage to states. -/
structure Damage (ε σ : Type) where
  /-- A damaged state stands for a sound one. -/
  Twin : σ → σ → Prop
  /-- What an operation fails with that comes to the damage. -/
  cause : ε

/-- The result of a damaged run, which comes second, beside that of the sound run. Where the sound
run has got `past` the damage, the damaged one may have failed. -/
inductive Beside (damage : Damage ε σ) (past : σ → Prop) :
    EStateM.Result ε σ α → EStateM.Result ε σ α → Prop where
  /-- Both succeed with the same. -/
  | ok {a : α} {t t' : σ} (htwin : damage.Twin t t') : Beside damage past (.ok a t) (.ok a t')
  /-- Both fail with the same. -/
  | error {e : ε} {t t' : σ} (htwin : damage.Twin t t') :
    Beside damage past (.error e t) (.error e t')
  /-- The damaged run fails for the damage. Where the sound one succeeds, it has got past that. -/
  | disclosed {result : EStateM.Result ε σ α} {left : σ}
    (hpast : ∀ a t, result = .ok a t → past t) :
    Beside damage past result (.error damage.cause left)

/-- What is made of the result of an operation: a `value` of its value or the `meaning` of its
error, and what `put` makes of its state. -/
def relay (meaning : ε → ε') (value : α → σ → β) (put : σ → τ) :
    EStateM.Result ε σ α → EStateM.Result ε' τ β
  | .ok a t => .ok (value a t) (put t)
  | .error e t => .error (meaning e) (put t)

namespace Beside

variable {damage : Damage ε σ} {past past₁ : σ → Prop} {s s' : σ}

/-- In a sequence, what `f` does after `x` lies past the damage when `x` has got past it. -/
theorem bind {x : EStateM ε σ α} {f : α → EStateM ε σ β} (hx : Beside damage past₁ (x s) (x s'))
    (hf : ∀ a t t', x s = .ok a t → damage.Twin t t' → Beside damage past (f a t) (f a t'))
    (honward : ∀ a t b u, x s = .ok a t → past₁ t → f a t = .ok b u → past u) :
    Beside damage past ((x >>= f) s) ((x >>= f) s') := by
  generalize hsound : x s = result at hx
  generalize hdamaged : x s' = result' at hx
  cases hx with
  | @ok a t t' htwin =>
    rw [bind_of_ok hsound, bind_of_ok hdamaged]
    exact hf a t t' hsound htwin
  | error htwin =>
    rw [bind_of_error hsound, bind_of_error hdamaged]
    exact .error htwin
  | disclosed hpast =>
    rw [bind_of_error hdamaged]
    refine .disclosed fun b u hok => ?_
    -- The sound run has gone on, from where it was past the damage already.
    obtain ⟨a, t, hfirst, hsecond⟩ := bind_eq_ok_iff.1 hok
    exact honward a t b u hfirst (hpast a t (hsound.symm.trans hfirst)) hsecond

/-- What `x` never gets past matters to `f` only. -/
theorem bind_of_never {x : EStateM ε σ α} {f : α → EStateM ε σ β}
    (hx : Beside damage (fun _ => False) (x s) (x s'))
    (hf : ∀ a t t', x s = .ok a t → damage.Twin t t' → Beside damage past (f a t) (f a t')) :
    Beside damage past ((x >>= f) s) ((x >>= f) s') :=
  hx.bind hf fun _ _ _ _ _ hnever => hnever.elim

/-- What `relay` makes of two results that are beside each other is too, where twins are taken to
twins, to the same values, and past the damage when they are past it. -/
theorem relay {damage' : Damage ε' τ} {past' : τ → Prop} {meaning : ε → ε'} {value : α → σ → β}
    {put : σ → τ} {result result' : EStateM.Result ε σ α} (h : Beside damage past result result')
    (htwin : ∀ t t', damage.Twin t t' → damage'.Twin (put t) (put t'))
    (hvalue : ∀ a t t', damage.Twin t t' → value a t' = value a t)
    (hcause : meaning damage.cause = damage'.cause) (hpast : ∀ t, past t → past' (put t)) :
    Beside damage' past' (Run.relay meaning value put result)
      (Run.relay meaning value put result') := by
  cases h with
  | @ok a t t' hstates =>
    rw [Run.relay, Run.relay, hvalue a t t' hstates]
    exact .ok (htwin t t' hstates)
  | error hstates => exact .error (htwin _ _ hstates)
  | disclosed hgot =>
    rw [Run.relay, hcause]
    refine .disclosed fun b u hok => ?_
    -- Only success is made into success.
    cases result with
    | ok a t =>
      cases hok
      exact hpast t (hgot a t rfl)
    | error e t => cases hok

/-- A damaged run comes to what the sound one comes to, or to `damage.cause`. -/
theorem outcome_eq_or {x : EStateM ε σ α} (h : Beside damage past (x s) (x s')) :
    outcome x s' = outcome x s ∨ outcome x s' = .error damage.cause := by
  unfold outcome
  generalize x s = result at h
  generalize x s' = result' at h
  cases h with
  | ok => exact .inl rfl
  | error => exact .inl rfl
  | disclosed => exact .inr rfl

/-- Where the sound run succeeds without getting `past` the damage, the damaged one does the same.
-/
theorem ok_of_not_past {a : α} {t : σ} {result' : EStateM.Result ε σ α}
    (h : Beside damage past (.ok a t) result') (hpast : ¬ past t) :
    ∃ t', damage.Twin t t' ∧ result' = .ok a t' := by
  cases h with
  | ok htwin => exact ⟨_, htwin, rfl⟩
  | disclosed hgot => exact absurd (hgot a t rfl) hpast

end Beside

/-- From a sound state `s`, the operation `x` does on every damaged twin what it does there, or
discloses the damage; and it does not go back in front of it. -/
structure Discloses (damage : Damage ε σ) (past : σ → Prop) (x : EStateM ε σ α) (s : σ) :
    Prop where
  /-- The damaged runs. -/
  beside : ∀ s', damage.Twin s s' → Beside damage past (x s) (x s')
  /-- What is past the damage stays past it. -/
  onward : ∀ a t, x s = .ok a t → past s → past t

namespace Discloses

variable {damage : Damage ε σ} {past : σ → Prop} {s : σ}

/-- A sequence discloses what its parts disclose, the second from where the first has got to. -/
theorem closed (damage : Damage ε σ) (past : σ → Prop) :
    Closed fun ⦃α : Type⦄ (x : EStateM ε σ α) s => Discloses damage past x s where
  pure a s := by
    refine ⟨fun s' htwin => .ok htwin, ?_⟩
    rintro _ _ ⟨rfl, rfl⟩ hpast
    exact hpast
  throw e s := ⟨fun _ htwin => .error htwin, fun _ _ hok => absurd hok throw_ne_ok⟩
  bind := by
    intro _ _ x f s hx hf
    constructor
    · intro s' htwin
      refine (hx.beside s' htwin).bind (fun a t t' hok => (hf a t hok).beside t') ?_
      intro a t b u hok hpast hrest
      exact (hf a t hok).onward b u hrest hpast
    · intro b u hok hpast
      obtain ⟨a, t, hfirst, hsecond⟩ := bind_eq_ok_iff.1 hok
      exact (hf a t hfirst).onward b u hsecond (hx.onward a t hfirst hpast)

end Discloses

end Caf.Run
