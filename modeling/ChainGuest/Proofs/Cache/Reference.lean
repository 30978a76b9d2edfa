import Mathlib
import ChainGuest.Cache.Join
import ChainGuest.Proofs.Cache.Links

/-! # Remembered collections

    What a host serves at one time is determined by its memory and the handles of its
    collections (`Serving`). A reference without caches remembers the records of the first
    load of a collection that succeeded (`remember`), and answers everything else from what
    it remembers (`answerFrom`).

    A context simulates its reference along a relation between their states: each step gives
    the same answer and leads to related states again (`Agree`). Steps that agree can be put
    one after another (`Agree.bind`), so what is to be shown of a context is shown of each of
    its steps.
-/

namespace ChainGuest

/-! ## Section 1: What a host serves -/

/-- What a host answers from when a collection is fetched. -/
structure Serving where
  memory : List UInt8
  collections : CollectionKind → Handle

namespace Serving

/-- The bytes that a handle names. -/
def read (serving : Serving) (handle : Handle) : Except HostError (List UInt8) :=
  (memoryRange handle.offset handle.length serving.memory.length).map fun (start, stop) =>
    (serving.memory.drop start).take (stop - start)

/-- The records of a collection: none if the buffer is empty, else what it decodes to. -/
def records {α : Type} [Entity α] (serving : Serving) (config : Config)
    (kind : CollectionKind) : Except Failure (List α) :=
  match serving.read (serving.collections kind) with
  | .error e => .error ((Failure.of (.host e)).within s!"Failed to read {kind.title} buffer")
  | .ok [] => .ok []
  | .ok bytes => (decodeCollection config bytes).1.mapError fun e =>
      (Failure.of (.decode e)).within s!"Failed to decode {kind.title}"

/-- A collection is lost by a read, or by what its bytes decode to. -/
theorem records_ne_strayView {α : Type} [Entity α] {serving : Serving} {config : Config}
    {kind : CollectionKind} {failure : Failure}
    (h : (serving.records config kind : Except Failure (List α)) = .error failure) :
    failure.cause ≠ .strayView := by
  unfold records at h
  cases hread : serving.read (serving.collections kind) with
  | error e =>
    rw [hread] at h
    obtain rfl := Except.error.inj h
    simp [Failure.within, Failure.of]
  | ok bytes =>
    rw [hread] at h
    cases bytes with
    | nil => exact absurd h (by simp)
    | cons byte bytes =>
      cases hdecoded : (decodeCollection config (byte :: bytes) :
        Except Wire.DecodeError (List α) × List Wire.Leftover).1 with
      | error e =>
        simp only [hdecoded, Except.mapError] at h
        obtain rfl := Except.error.inj h
        simp [Failure.within, Failure.of]
      | ok items =>
        simp only [hdecoded, Except.mapError] at h
        exact absurd h (by simp)

end Serving

/-- What the host serves now. -/
def Host.serving (h : Host) : Serving := ⟨h.memory, h.collections⟩

/-- The host, serving something else from now on. -/
def Host.serve (serving : Serving) (h : Host) : Host :=
  { h with memory := serving.memory, collections := serving.collections }

namespace Bridge

/-- A read answers the bytes of the handle, and changes the counters only. -/
theorem readFor_apply (handle : Handle) (purpose : String) (b : Bridge) :
    readFor handle purpose b = match b.host.serving.read handle with
      | .error e => (.error ((Failure.of (.host e)).within purpose), b)
      | .ok bytes => (.ok bytes, { b with metrics := b.metrics.countBytes bytes.length }) := by
  have hread : b.host.readMemory handle.offset handle.length = b.host.serving.read handle := rfl
  unfold readFor readBuffer
  simp only [Attempt.mapError, Attempt.bind_apply, Attempt.get, Attempt.ofExcept, hread]
  cases b.host.serving.read handle with
  | error e => rfl
  | ok bytes => rfl

/-- Decoding answers what was decoded, and notes what was left over. -/
theorem decodeFor_apply {α : Type} (decoded : Except Wire.DecodeError α × List Wire.Leftover)
    (purpose : String) (b : Bridge) :
    decodeFor decoded purpose b =
      (decoded.1.mapError fun e => (Failure.of (.decode e)).within purpose,
        { b with log := b.log ++ decoded.2.map (·.entry) }) := rfl

/-- A fetch answers what the host serves, and changes neither that nor the configuration.

    The span, the counter and the request are made before anything can fail. The bridge after them
    is given a name in the proof, since every outcome starts from there. -/
theorem fetchCollection_spec {α : Type} [Entity α] (kind : CollectionKind) (b : Bridge) :
    ∃ b', (fetchCollection kind b : Except Failure (List α) × Bridge) =
        (b.host.serving.records b.config kind, b') ∧
      b'.config = b.config ∧ b'.host.serving = b.host.serving := by
  -- The bridge when the handle has come: it has asked, counted and noted.
  let asked : Bridge :=
    { b with
      host := (b.host.fetchCollection kind).2
      metrics := b.metrics.countFetch kind
      log := b.log ++ [.span "fetch_collection" [("kind", kind.name)]] }
  have hserving : asked.host.serving = b.host.serving := rfl
  have hasked : ∀ f : Handle → Call (List α),
      (do
        enter "fetch_collection" [("kind", kind.name)]
        count (·.countFetch kind)
        let handle ← ask (·.fetchCollection kind)
        f handle) b = f (b.host.serving.collections kind) asked := fun _ => rfl
  unfold fetchCollection Serving.records
  rw [hasked, Attempt.bind_apply, readFor_apply, hserving]
  -- The read may fail, the buffer may be empty, and its bytes may not decode.
  rcases b.host.serving.read (b.host.serving.collections kind) with e | bytes
  · exact ⟨asked, rfl, rfl, rfl⟩
  · cases bytes with
    | nil => exact ⟨_, rfl, rfl, rfl⟩
    | cons byte bytes =>
      have hconfig : asked.config = b.config := rfl
      simp only [List.isEmpty_cons, Bool.false_eq_true, if_false, Attempt.get,
        Attempt.bind_apply, decodeFor_apply, hconfig]
      rcases (decodeCollection b.config (byte :: bytes) :
        Except Wire.DecodeError (List α) × List Wire.Leftover) with ⟨e | records, notices⟩
      · exact ⟨_, rfl, rfl, rfl⟩
      · exact ⟨_, rfl, rfl, rfl⟩

end Bridge

/-! ## Section 2: Remembering -/

variable {σ ρ ε α β : Type}

/-- The records of the first load that succeeded, or those that are served now. A load that
    fails leaves nothing to remember. -/
def remember (slot : Part ρ (Option (List α))) (served : Except ε (List α)) :
    Attempt ρ ε (List α) := fun r =>
  match slot.get r with
  | some items => (.ok items, r)
  | none =>
    match served with
    | .ok items => (.ok items, slot.set (some items) r)
    | .error e => (.error e, r)

/-- Nothing else changes than that the records are remembered. -/
theorem remember_eq_ok {slot : Part ρ (Option (List α))} {served : Except ε (List α)} {r r' : ρ}
    {items : List α} (h : remember slot served r = (.ok items, r')) :
    (slot.get r = some items ∧ r' = r) ∨
      (slot.get r = none ∧ served = .ok items ∧ r' = slot.set (some items) r) := by
  unfold remember at h
  cases hslot : slot.get r with
  | some before =>
    rw [hslot] at h
    obtain ⟨rfl, rfl⟩ : before = items ∧ r = r' := by simpa using h
    exact .inl ⟨rfl, rfl⟩
  | none =>
    rw [hslot] at h
    cases served with
    | error e => exact absurd h (by simp)
    | ok records =>
      obtain ⟨rfl, rfl⟩ : records = items ∧ slot.set (some records) r = r' := by simpa using h
      exact .inr ⟨rfl, rfl, rfl⟩

/-- A load fails as what is served does, and leaves the state as it is. -/
theorem remember_eq_error {slot : Part ρ (Option (List α))} {served : Except ε (List α)}
    {r r' : ρ} {e : ε} (h : remember slot served r = (.error e, r')) :
    served = .error e ∧ r' = r := by
  unfold remember at h
  cases hslot : slot.get r with
  | some before =>
    rw [hslot] at h
    exact absurd h (by simp)
  | none =>
    rw [hslot] at h
    cases served with
    | ok records => exact absurd h (by simp)
    | error e' =>
      obtain ⟨rfl, rfl⟩ : e' = e ∧ r = r' := by simpa using h
      exact ⟨rfl, rfl⟩

/-- What is made of the records of a collection, which are remembered. -/
def answerFrom (slot : Part ρ (Option (List α))) (served : Except ε (List α))
    (answer : List α → Except ε β) : Attempt ρ ε β := do
  let items ← remember slot served
  Attempt.ofExcept (answer items)

/-- The slot is left as it is, or filled if it was empty; an answer is made of what the slot holds
    in the end.

    So what was in the slot is never replaced, and any answer is one about records that are
    remembered from then on. -/
theorem answerFrom_spec {slot : Part ρ (Option (List α))}
    (hset : ∀ items r, slot.get (slot.set items r) = items) (served : Except ε (List α))
    (answer : List α → Except ε β) (r : ρ) :
    ((answerFrom slot served answer r).2 = r ∨ (slot.get r = none ∧
        ∃ items, (answerFrom slot served answer r).2 = slot.set (some items) r)) ∧
      ∀ a, (answerFrom slot served answer r).1 = .ok a → ∃ items,
        slot.get (answerFrom slot served answer r).2 = some items ∧ answer items = .ok a := by
  unfold answerFrom
  rcases hrun : remember slot served r with ⟨e | items, r'⟩
  · rw [Attempt.bind_of_error _ hrun]
    -- A load that failed has no answer, and leaves nothing behind.
    refine ⟨.inl ?_, fun a ha => absurd ha (by simp)⟩
    exact (remember_eq_error hrun).2
  · rw [Attempt.bind_of_ok _ hrun]
    rcases remember_eq_ok hrun with ⟨hslot, rfl⟩ | ⟨hslot, -, rfl⟩
    · exact ⟨.inl rfl, fun a ha => ⟨items, hslot, ha⟩⟩
    · exact ⟨.inr ⟨hslot, items, rfl⟩, fun a ha => ⟨items, hset _ r, ha⟩⟩

/-- It fails as the load does, or as what is made of the records. -/
theorem answerFrom_eq_error {slot : Part ρ (Option (List α))} {served : Except ε (List α)}
    {answer : List α → Except ε β} {r : ρ} {e : ε}
    (h : (answerFrom slot served answer r).1 = .error e) :
    served = .error e ∨ ∃ items, answer items = .error e := by
  unfold answerFrom at h
  rcases hrun : remember slot served r with ⟨e' | items, r'⟩
  · rw [Attempt.bind_of_error _ hrun] at h
    obtain rfl : e' = e := Except.error.inj h
    exact .inl (remember_eq_error hrun).1
  · rw [Attempt.bind_of_ok _ hrun] at h
    exact .inr ⟨items, h⟩

/-- The first of the records, or the failure that the host has none of what it should. -/
def firstOf (title : String) : List α → Except Failure (View α)
  | record :: _ => .ok ⟨0, record⟩
  | [] => .error (.of (.plain ("host returned no " ++ title)))

/-- The view stands in what is remembered of its collection. -/
def View.StandsIn (v : View α) (loaded : Option (List α)) : Prop :=
  ∃ items, loaded = some items ∧ items[v.index]? = some v.record

/-! ## Section 3: Agreement -/

/-- The same answer, and states that are related again.

    This is the step of a simulation. It says nothing of how the steps are written, so a step of a
    context may agree with one of a reference that has no counterpart of its tables. -/
def Agree (R : σ → ρ → Prop) (p : Except ε α × σ) (q : Except ε α × ρ) : Prop :=
  p.1 = q.1 ∧ R p.2 q.2

namespace Agree

variable {R : σ → ρ → Prop}

protected theorem pure {s : σ} {r : ρ} (h : R s r) (a : α) :
    Agree R ((pure a : Attempt σ ε α) s) ((pure a : Attempt ρ ε α) r) :=
  ⟨rfl, h⟩

/-- Attempts that agree can be followed by attempts that agree on every answer. -/
protected theorem bind {x : Attempt σ ε α} {y : Attempt ρ ε α} {f : α → Attempt σ ε β}
    {g : α → Attempt ρ ε β} {s : σ} {r : ρ} (h : Agree R (x s) (y r))
    (hf : ∀ a s' r', y r = (.ok a, r') → R s' r' → Agree R (f a s') (g a r')) :
    Agree R ((x >>= f) s) ((y >>= g) r) := by
  obtain ⟨hanswer, hstate⟩ := h
  rcases hx : x s with ⟨answer, s'⟩
  rcases hy : y r with ⟨answer', r'⟩
  rw [hx, hy] at hanswer hstate
  obtain rfl : answer = answer' := hanswer
  cases answer with
  | error e =>
    rw [Attempt.bind_of_error f hx, Attempt.bind_of_error g hy]
    exact ⟨rfl, hstate⟩
  | ok a =>
    rw [Attempt.bind_of_ok f hx, Attempt.bind_of_ok g hy]
    exact hf a s' r' hy hstate

end Agree

end ChainGuest
