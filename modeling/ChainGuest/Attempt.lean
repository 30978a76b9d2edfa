/-! # Attempts

    An attempt runs over a state and may fail. The state it reached is kept
    whether it succeeds or fails: a reader that stops half way leaves its cursor
    where it stopped, and a call that fails leaves its counters and its log.
-/

namespace ChainGuest

/-- A computation over a state `σ` that may fail with an `ε`, keeping the state
    it reached either way. -/
def Attempt (σ ε α : Type) : Type := σ → Except ε α × σ

namespace Attempt

variable {σ τ ε δ α β : Type}

/-- The answer and the state reached from `s`. -/
@[inline] def run (x : Attempt σ ε α) (s : σ) : Except ε α × σ := x s

instance : Monad (Attempt σ ε) where
  pure a := fun s => (.ok a, s)
  bind x f := fun s =>
    match x s with
    | (.ok a, s') => f a s'
    | (.error e, s') => (.error e, s')

/-- Fail, leaving the state as it is. -/
@[inline] def fail (e : ε) : Attempt σ ε α := fun s => (.error e, s)

/-- The answer of an `Except`, leaving the state as it is. -/
@[inline] def ofExcept (r : Except ε α) : Attempt σ ε α := fun s => (r, s)

/-- What an `Option` has, or the failure `e` for the lack of it, leaving the state as it is. -/
@[inline] def ofOption (e : ε) (a? : Option α) : Attempt σ ε α := fun s =>
  (a?.elim (.error e) .ok, s)

/-- The current state. -/
@[inline] def get : Attempt σ ε σ := fun s => (.ok s, s)

/-- Change the state. -/
@[inline] def modify (f : σ → σ) : Attempt σ ε Unit := fun s => (.ok (), f s)

/-- Run a state transition that cannot fail. -/
@[inline] def update (f : σ → α × σ) : Attempt σ ε α := fun s =>
  let (a, s') := f s
  (.ok a, s')

/-- Say a failure in other words. -/
@[inline] def mapError (f : ε → δ) (x : Attempt σ ε α) : Attempt σ δ α := fun s =>
  let (r, s') := x s
  (r.mapError f, s')

/-! ## Laws -/

@[simp] theorem pure_apply (a : α) (s : σ) : (pure a : Attempt σ ε α) s = (.ok a, s) := rfl

theorem bind_apply (x : Attempt σ ε α) (f : α → Attempt σ ε β) (s : σ) :
    (x >>= f) s = match x s with
      | (.ok a, s') => f a s'
      | (.error e, s') => (.error e, s') := rfl

theorem bind_of_ok {x : Attempt σ ε α} {s s' : σ} {a : α} (f : α → Attempt σ ε β)
    (h : x s = (.ok a, s')) : (x >>= f) s = f a s' := by
  simp [bind_apply, h]

theorem bind_of_error {x : Attempt σ ε α} {s s' : σ} {e : ε} (f : α → Attempt σ ε β)
    (h : x s = (.error e, s')) : (x >>= f) s = (.error e, s') := by
  simp [bind_apply, h]

/-- An answer that is passed through `f`. -/
theorem map_apply (f : α → β) (x : Attempt σ ε α) (s : σ) :
    (x >>= fun a => pure (f a)) s = ((x s).1.map f, (x s).2) := by
  rw [bind_apply]
  rcases x s with ⟨e | a, s'⟩ <;> rfl

instance : LawfulMonad (Attempt σ ε) := LawfulMonad.mk' _
  (fun x => by
    funext s
    change (match x s with
      | (.ok a, s') => ((.ok a, s') : Except ε _ × σ)
      | (.error e, s') => (.error e, s')) = x s
    split <;> simp_all)
  (fun _ _ => rfl)
  (fun x f g => by
    funext s
    simp only [bind_apply]
    rcases x s with ⟨r, s'⟩
    cases r <;> rfl)

end Attempt

/-! ## Parts of a state -/

/-- A part of a larger state, and how to put it back. -/
structure Part (σ τ : Type) where
  get : σ → τ
  set : τ → σ → σ

namespace Part

variable {σ τ ρ ε α : Type}

/-- Run an attempt on a part of the state. -/
@[inline] def run (p : Part σ τ) (x : Attempt τ ε α) : Attempt σ ε α := fun s =>
  let (r, t) := x (p.get s)
  (r, p.set t s)

/-- A part of a part. -/
def comp (p : Part σ τ) (q : Part τ ρ) : Part σ ρ where
  get s := q.get (p.get s)
  set r s := p.set (q.set r (p.get s)) s

end Part

end ChainGuest
