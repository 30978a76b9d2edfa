import Mathlib
import ChainGuest.Proofs.Cache.Reference

/-! # What calls leave behind

    A host remembers which collections and which values of arguments it was asked for, and
    the log says which joins were computed. A ledger holds these three together.

    Most of what a call does is quiet: it leaves the ledger as it is, and neither the
    configuration nor what the host serves changes (`Bridge.IsQuiet`). Only a fetch asks, once
    for each call, whether it succeeds or fails (`Bridge.fetchCollection_leaves`,
    `Bridge.fetchArgumentValue_leaves`); all other calls are quiet. Between two accesses to a
    context there may be an interlude of quiet calls, and the host may begin to serve something
    else (`Interlude`).
-/

namespace ChainGuest

/-! ## Section 1: Values that a host serves -/

/-- What a host answers from, with the values of arguments. -/
structure Offer extends Serving where
  argumentValues : UInt64 → Handle

/-- The value of an argument: what the buffer that is served for it decodes to. -/
def Offer.value (offer : Offer) (config : Config) (id : UInt64) : Except Failure Value :=
  match offer.read (offer.argumentValues id) with
  | .error e =>
    .error ((Failure.of (.host e)).within
      s!"Failed to read value buffer for argument {id.toNat}")
  | .ok bytes => (Value.ofBytes config bytes).1.mapError fun e =>
      (Failure.of (.decode e)).within s!"Failed to decode value of argument {id.toNat}"

/-- A value, too, is lost by a read, or by what its bytes decode to. -/
theorem Offer.value_ne_strayView {offer : Offer} {config : Config} {id : UInt64}
    {failure : Failure} (h : offer.value config id = .error failure) :
    failure.cause ≠ .strayView := by
  unfold value at h
  cases hread : offer.read (offer.argumentValues id) with
  | error e =>
    rw [hread] at h
    obtain rfl := Except.error.inj h
    simp [Failure.within, Failure.of]
  | ok bytes =>
    cases hdecoded : (Value.ofBytes config bytes).1 with
    | error e =>
      simp only [hread, hdecoded, Except.mapError] at h
      obtain rfl := Except.error.inj h
      simp [Failure.within, Failure.of]
    | ok x =>
      simp only [hread, hdecoded, Except.mapError] at h
      exact absurd h (by simp)

/-- What the host serves now. -/
def Host.offer (h : Host) : Offer := ⟨h.serving, h.argumentValues⟩

/-- The host, serving something else from now on. -/
def Host.present (offer : Offer) (h : Host) : Host :=
  { h.serve offer.toServing with argumentValues := offer.argumentValues }

/-! ## Section 2: Ledgers -/

/-- The entries of the lowest level. Only joins make them. -/
def LogEntry.isTrace : LogEntry → Bool
  | .event .trace _ _ => true
  | _ => false

/-- What was asked of a host, and which joins were computed, each in order. -/
structure Ledger where
  collections : List CollectionKind
  arguments : List UInt64
  joins : List LogEntry

/-- The ledger with one more fetch of a collection. -/
def Ledger.fetch (kind : CollectionKind) (l : Ledger) : Ledger :=
  { l with collections := l.collections ++ [kind] }

/-- The ledger with one more fetch of an argument's value. -/
def Ledger.request (id : UInt64) (l : Ledger) : Ledger :=
  { l with arguments := l.arguments ++ [id] }

/-- The ledger with one more join. -/
def Ledger.join (entry : LogEntry) (l : Ledger) : Ledger :=
  { l with joins := l.joins ++ [entry] }

namespace Bridge

/-- The ledger of a bridge: what its host remembers, and what its log says of joins. -/
def ledger (b : Bridge) : Ledger :=
  ⟨b.host.collectionRequests, b.host.argumentRequests, b.log.filter LogEntry.isTrace⟩

/-! ## Section 3: Quiet calls -/

/-- Nothing happened between two states of a bridge that a ledger would hold. -/
structure Quiet (b b' : Bridge) : Prop where
  config : b'.config = b.config
  offer : b'.host.offer = b.host.offer
  ledger : b'.ledger = b.ledger

/-- The call is quiet, whether it succeeds or fails. -/
def IsQuiet {α : Type} (x : Call α) : Prop := ∀ b, Quiet b (x b).2

namespace IsQuiet

variable {α β : Type}

protected theorem pure (a : α) : IsQuiet (pure a : Call α) := fun _ => ⟨rfl, rfl, rfl⟩

protected theorem fail (e : Failure) : IsQuiet (Attempt.fail e : Call α) :=
  fun _ => ⟨rfl, rfl, rfl⟩

protected theorem ofExcept (x : Except Failure α) : IsQuiet (Attempt.ofExcept x) :=
  fun _ => ⟨rfl, rfl, rfl⟩

protected theorem get : IsQuiet (Attempt.get : Call Bridge) := fun _ => ⟨rfl, rfl, rfl⟩

theorem count (f : Metrics → Metrics) : IsQuiet (Bridge.count f) := fun _ => ⟨rfl, rfl, rfl⟩

/-- What the host is asked other than to fetch. -/
theorem ask {f : Host → α × Host} (hoffer : ∀ h, (f h).2.offer = h.offer)
    (hcollections : ∀ h, (f h).2.collectionRequests = h.collectionRequests)
    (harguments : ∀ h, (f h).2.argumentRequests = h.argumentRequests) :
    IsQuiet (Bridge.ask f) := by
  intro b
  refine ⟨rfl, hoffer b.host, ?_⟩
  show Ledger.mk (f b.host).2.collectionRequests (f b.host).2.argumentRequests _ = _
  rw [hcollections, harguments]
  rfl

protected theorem bind {x : Call α} {f : α → Call β} (hx : IsQuiet x)
    (hf : ∀ a, IsQuiet (f a)) : IsQuiet (x >>= f) := by
  intro b
  -- If the first call fails, that is all that has happened; if not, two quiet steps are one.
  rcases hrun : x b with ⟨e | a, b'⟩
  · rw [Attempt.bind_of_error f hrun]
    have hquiet := hx b
    rwa [hrun] at hquiet
  · rw [Attempt.bind_of_ok f hrun]
    obtain ⟨hconfig, hoffer, hledger⟩ := hx b
    rw [hrun] at hconfig hoffer hledger
    have hquiet := hf a b'
    exact ⟨hquiet.config.trans hconfig, hquiet.offer.trans hoffer,
      hquiet.ledger.trans hledger⟩

/-- Entries that are not about joins are quiet. -/
theorem note {entries : List LogEntry} (h : ∀ entry ∈ entries, entry.isTrace = false) :
    IsQuiet (Bridge.note entries) := by
  intro b
  refine ⟨rfl, rfl, ?_⟩
  have hnone : entries.filter LogEntry.isTrace = [] :=
    List.filter_eq_nil_iff.2 fun entry hentry => by simp [h entry hentry]
  show Ledger.mk _ _ ((b.log ++ entries).filter LogEntry.isTrace) = _
  rw [List.filter_append, hnone, List.append_nil]
  rfl

theorem enter (name : String) (fields : List (String × String)) :
    IsQuiet (Bridge.enter name fields) :=
  note (by simp [LogEntry.isTrace])

theorem debug (message : String) (fields : List (String × String)) :
    IsQuiet (Bridge.debug message fields) :=
  note (by simp [LogEntry.isTrace])

theorem readFor (handle : Handle) (purpose : String) : IsQuiet (readFor handle purpose) := by
  intro b
  rw [readFor_apply]
  cases b.host.serving.read handle with
  | error e => exact ⟨rfl, rfl, rfl⟩
  | ok bytes => exact ⟨rfl, rfl, rfl⟩

/-- What was left over is warned of, which is not about joins. -/
theorem decodeFor (decoded : Except Wire.DecodeError α × List Wire.Leftover) (purpose : String) :
    IsQuiet (decodeFor decoded purpose) := by
  have hentries : ∀ entry ∈ decoded.2.map (·.entry), LogEntry.isTrace entry = false := by
    intro entry hentry
    obtain ⟨leftover, -, rfl⟩ := List.mem_map.1 hentry
    rfl
  exact IsQuiet.bind (note hentries) fun _ => .ofExcept _

/-! ### Calls that do not fetch -/

theorem parseInput (abi : String) (data : List UInt8) : IsQuiet (Bridge.parseInput abi data) := by
  refine (enter _ _).bind fun _ => (ask (fun _ => rfl) (fun _ => rfl) fun _ => rfl).bind
    fun handle => ?_
  split
  · exact (debug _ _).bind fun _ => .pure none
  · exact (readFor _ _).bind fun bytes => .pure (some bytes)

theorem report (incident : Incident) : IsQuiet (Bridge.report incident) :=
  (enter _ _).bind fun _ => (ask (fun _ => rfl) (fun _ => rfl) fun _ => rfl).bind
    fun _ => count _

theorem parameter (key : String) : IsQuiet (Bridge.parameter key) := by
  refine (enter _ _).bind fun _ => (count _).bind fun _ => IsQuiet.get.bind fun b => ?_
  cases b.host.parameter key with
  | some value => exact .pure _
  | none => exact .fail _

theorem http (request : Http.Request) : IsQuiet (Bridge.http request) :=
  (enter _ _).bind fun _ => (count _).bind fun _ =>
    (ask (fun _ => rfl) (fun _ => rfl) fun _ => rfl).bind fun _ => .ofExcept _

theorem query (query : String) : IsQuiet (Bridge.query query) := by
  refine (enter _ _).bind fun _ => (count _).bind fun _ =>
    (ask (fun _ => rfl) (fun _ => rfl) fun _ => rfl).bind fun rows => ?_
  cases Json.rowsOf? rows with
  | some rows => exact .pure rows
  | none => exact .fail _

end IsQuiet

/-! ## Section 4: Fetches -/

/-- The bridge when a call has begun and its handle has come: it has noted, counted and
    asked. -/
def opened (name : String) (fields : List (String × String)) (counted : Metrics → Metrics)
    (host : Host) (b : Bridge) : Bridge :=
  { b with
    host := host
    metrics := counted b.metrics
    log := b.log ++ [.span name fields] }

/-- A call that notes, counts and asks goes on with what the host answers. -/
theorem run_opened {α γ : Type} (name : String) (fields : List (String × String))
    (counted : Metrics → Metrics) (request : Host → γ × Host) (f : γ → Call α) (b : Bridge) :
    (do
      enter name fields
      count counted
      f (← ask request)) b =
    f (request b.host).1 (b.opened name fields counted (request b.host).2) := rfl

/-- That a call has begun is no entry about joins: it is a span, and joins make events. -/
theorem opened_ledger (name : String) (fields : List (String × String))
    (counted : Metrics → Metrics) (host : Host) (b : Bridge) :
    (b.opened name fields counted host).ledger =
      ⟨host.collectionRequests, host.argumentRequests, b.ledger.joins⟩ := by
  show Ledger.mk host.collectionRequests host.argumentRequests
    ((b.log ++ [_]).filter LogEntry.isTrace) = _
  rw [List.filter_append]
  simp [LogEntry.isTrace, ledger]

/-- A fetch of a collection answers what the host serves, and is one fetch in the ledger.

    The request is entered before the buffer is read, so it is there whether the buffer can be
    read and decoded or not. -/
theorem fetchCollection_leaves {α : Type} [Entity α] (kind : CollectionKind) (b : Bridge) :
    ∃ b', (fetchCollection kind b : Except Failure (List α) × Bridge) =
        (b.host.serving.records b.config kind, b') ∧
      b'.config = b.config ∧ b'.host.offer = b.host.offer ∧
        b'.ledger = b.ledger.fetch kind := by
  let asked : Bridge := b.opened "fetch_collection" [("kind", kind.name)]
    (fun metrics => metrics.countFetch kind) (b.host.fetchCollection kind).2
  have hledger : asked.ledger = b.ledger.fetch kind := opened_ledger ..
  -- The rest of the call is quiet.
  have hquiet : Quiet asked (fetchCollection kind b : Except Failure (List α) × Bridge).2 := by
    unfold fetchCollection
    rw [run_opened]
    refine IsQuiet.bind (.readFor _ _) (fun bytes => ?_) asked
    cases bytes with
    | nil => exact IsQuiet.bind (.debug _ _) fun _ => .pure []
    | cons byte bytes =>
      refine IsQuiet.bind .get fun b' => IsQuiet.bind (.decodeFor _ _) fun records => ?_
      exact IsQuiet.bind (.debug _ _) fun _ => .pure records
  obtain ⟨b', hfetch, -, -⟩ := fetchCollection_spec (α := α) kind b
  rw [hfetch] at hquiet
  exact ⟨b', hfetch, hquiet.config, hquiet.offer, hquiet.ledger.trans hledger⟩

/-- A fetch of an argument's value answers what the host serves, and is one fetch in the
    ledger. -/
theorem fetchArgumentValue_leaves (id : UInt64) (b : Bridge) :
    ∃ b', fetchArgumentValue id b = (b.host.offer.value b.config id, b') ∧
      b'.config = b.config ∧ b'.host.offer = b.host.offer ∧
        b'.ledger = b.ledger.request id := by
  let asked : Bridge := b.opened "fetch_argument_value" [("id", toString id.toNat)]
    (fun metrics => metrics.countArgument) (b.host.fetchArgumentValue id).2
  have hledger : asked.ledger = b.ledger.request id := opened_ledger ..
  have hquiet : Quiet asked (fetchArgumentValue id b).2 := by
    unfold fetchArgumentValue
    rw [run_opened]
    exact IsQuiet.bind (.readFor _ _) (fun bytes =>
      IsQuiet.bind .get fun b' => .decodeFor _ _) asked
  -- The answer is read off: the value has one read and one decoding, and nothing else.
  have hanswer : (fetchArgumentValue id b).1 = b.host.offer.value b.config id := by
    have hread : asked.host.serving.read (b.host.fetchArgumentValue id).1 =
        b.host.offer.read (b.host.offer.argumentValues id) := rfl
    unfold fetchArgumentValue Offer.value
    rw [run_opened, Attempt.bind_apply, readFor_apply, hread]
    cases b.host.offer.read (b.host.offer.argumentValues id) with
    | error e => rfl
    | ok bytes => rfl
  exact ⟨_, Prod.ext hanswer rfl, hquiet.config, hquiet.offer, hquiet.ledger.trans hledger⟩

end Bridge

/-! ## Section 5: Interludes -/

/-- What may happen to a bridge between two accesses to a context: the host begins to serve
    something else, or a call is made that does not fetch. -/
inductive Interlude where
  | present (offer : Offer)
  | parseInput (abi : String) (data : List UInt8)
  | report (incident : Incident)
  | parameter (key : String)
  | http (request : Http.Request)
  | query (q : String)

namespace Interlude

/-- The bridge after an interlude. Whether its call succeeds is no matter. -/
def run : Interlude → Bridge → Bridge
  | .present offer, b => { b with host := b.host.present offer }
  | .parseInput abi data, b => (Bridge.parseInput abi data b).2
  | .report incident, b => (Bridge.report incident b).2
  | .parameter key, b => (Bridge.parameter key b).2
  | .http request, b => (Bridge.http request b).2
  | .query q, b => (Bridge.query q b).2

/-- Calls that do not fetch are quiet. -/
theorem quiet_run (interlude : Interlude) (b : Bridge) :
    (∃ offer, interlude = .present offer) ∨ Bridge.Quiet b (interlude.run b) := by
  cases interlude with
  | present offer => exact .inl ⟨offer, rfl⟩
  | parseInput abi data => exact .inr (Bridge.IsQuiet.parseInput abi data b)
  | report incident => exact .inr (Bridge.IsQuiet.report incident b)
  | parameter key => exact .inr (Bridge.IsQuiet.parameter key b)
  | http request => exact .inr (Bridge.IsQuiet.http request b)
  | query q => exact .inr (Bridge.IsQuiet.query q b)

/-- An interlude leaves the configuration and the ledger as they are. -/
theorem run_leaves (interlude : Interlude) (b : Bridge) :
    (interlude.run b).config = b.config ∧ (interlude.run b).ledger = b.ledger := by
  rcases interlude.quiet_run b with ⟨offer, rfl⟩ | hquiet
  · exact ⟨rfl, rfl⟩
  · exact ⟨hquiet.config, hquiet.ledger⟩

/-- The state of a context after interludes. -/
def after {σ : Type} [HasBridge σ] (meanwhile : List Interlude) (s : σ) : σ :=
  HasBridge.bridge.set
    (meanwhile.foldl (fun b interlude => interlude.run b) (HasBridge.bridge.get s)) s

/-- Interludes leave the configuration and the ledger as they are, however many there are. -/
theorem foldl_run_leaves (meanwhile : List Interlude) (b : Bridge) :
    (meanwhile.foldl (fun b interlude => interlude.run b) b).config = b.config ∧
      (meanwhile.foldl (fun b interlude => interlude.run b) b).ledger = b.ledger := by
  -- On the interludes, from any bridge.
  induction meanwhile generalizing b with
  | nil => exact ⟨rfl, rfl⟩
  | cons interlude meanwhile ih =>
    obtain ⟨hconfig, hledger⟩ := interlude.run_leaves b
    obtain ⟨hconfig', hledger'⟩ := ih (interlude.run b)
    exact ⟨hconfig'.trans hconfig, hledger'.trans hledger⟩

end Interlude

end ChainGuest
