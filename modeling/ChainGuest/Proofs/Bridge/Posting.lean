import Mathlib
import ChainGuest.Evm.Input
import ChainGuest.Proofs.Cache.Ledger
import ChainGuest.Proofs.Host.Memory

/-! # What a call asks and counts

    A bridge and its host keep books of their own: the bridge has its counters, and the host
    remembers what it was asked. Every call of a guest asks the host for one thing, and its
    posting says what that does to both books at once (`Posting.post`). It does so whether the
    call succeeds or fails: what comes after the host has answered is silent
    (`Bridge.IsSilent`), for decoding only writes to the log.
-/

namespace ChainGuest

/-! ## Section 1: Postings -/

/-- The books of a bridge and of its host. -/
structure Account where
  host : Host
  metrics : Metrics

def Bridge.account (b : Bridge) : Account := ⟨b.host, b.metrics⟩

/-- Something that a bridge asks of its host. -/
inductive Posting where
  | collection (kind : CollectionKind)
  | argumentValue (id : UInt64)
  | input (abi : String) (data : List UInt8)
  | buffer (handle : Handle)
  | incident (i : Incident)
  | parameter (key : String)
  | http (request : Http.Request)
  | query (q : String)

/-- The number of bytes that a read of the memory yields; none if it fails. -/
def bytesIn : Except HostError (List UInt8) → Nat
  | .ok bytes => bytes.length
  | .error _ => 0

namespace Posting

/-- The host, asked. -/
def ask : Posting → Host → Host
  | .collection kind, h => (h.fetchCollection kind).2
  | .argumentValue id, h => (h.fetchArgumentValue id).2
  | .input abi data, h => (h.parseInput abi (Base64.encode data)).2
  | .incident i, h => h.emitIncident i.toJson
  | .http request, h => (h.http request.toJson).2
  | .query q, h => (h.query q).2
  -- Reads and parameters are not remembered.
  | .buffer _, h | .parameter _, h => h

/-- The counters of the bridge when it has asked. -/
def count : Posting → Metrics → Metrics
  | .collection kind, m => m.countFetch kind
  | .argumentValue _, m => m.countArgument
  | .incident _, m => m.countIncident
  | .parameter _, m | .http _, m | .query _, m => m.countOutbound
  | .input _ _, m | .buffer _, m => m

/-- The handle that the host answers with, if its buffer is read. -/
def handle? : Posting → Host → Option Handle
  | .collection kind, h => some (h.collections kind)
  | .argumentValue id, h => some (h.argumentValues id)
  | .input abi _, h => if (h.parsedInputs abi).isNull then none else some (h.parsedInputs abi)
  | .buffer handle, _ => some handle
  | .incident _, _ | .parameter _, _ | .http _, _ | .query _, _ => none

/-- What the memory was read for, if it was. -/
def read? (p : Posting) (h : Host) : Option (Except HostError (List UInt8)) :=
  (p.handle? h).map h.read

/-- How many bytes are read. -/
def bytes (p : Posting) (h : Host) : Nat := (p.read? h).elim 0 bytesIn

/-- The books when the host has been asked, and what it answered with has been read. -/
def post (p : Posting) (a : Account) : Account :=
  ⟨p.ask a.host, (p.count a.metrics).countBytes (p.bytes a.host)⟩

/-- What is read does not depend on what the host was asked before. -/
theorem read?_ask (p q : Posting) (h : Host) : p.read? (q.ask h) = p.read? h := by
  cases p <;> cases q <;> rfl

end Posting

@[simp] theorem Metrics.countBytes_zero (m : Metrics) : m.countBytes 0 = m := by
  simp [countBytes]

namespace Posting

theorem post_of_handle {p : Posting} {a : Account} {handle : Handle}
    (h : p.handle? a.host = some handle) :
    p.post a =
      ⟨p.ask a.host, (p.count a.metrics).countBytes (bytesIn (a.host.read handle))⟩ := by
  rw [post, bytes, read?, h]
  rfl

/-- If nothing is read, no bytes are counted. -/
theorem post_of_no_handle {p : Posting} {a : Account} (h : p.handle? a.host = none) :
    p.post a = ⟨p.ask a.host, p.count a.metrics⟩ := by
  rw [post, bytes, read?, h]
  exact congrArg (Account.mk _) (Metrics.countBytes_zero _)

end Posting

/-- The books after postings in a row. -/
def Account.posts (ps : List Posting) (a : Account) : Account :=
  ps.foldl (fun a p => p.post a) a

theorem Account.posts_append (ps qs : List Posting) (a : Account) :
    a.posts (ps ++ qs) = (a.posts ps).posts qs :=
  List.foldl_append

/-! ## Section 2: Silent calls -/

namespace Bridge

variable {α β : Type}

/-- The call leaves the books as they are, whether it succeeds or fails. -/
def IsSilent (x : Call α) : Prop := ∀ b, (x b).2.account = b.account

namespace IsSilent

protected theorem pure (a : α) : IsSilent (pure a : Call α) := fun _ => rfl

protected theorem get : IsSilent (Attempt.get : Call Bridge) := fun _ => rfl

theorem debug (message : String) (fields : List (String × String)) :
    IsSilent (Bridge.debug message fields) := fun _ => rfl

theorem decodeFor (decoded : Except Wire.DecodeError α × List Wire.Leftover) (purpose : String) :
    IsSilent (decodeFor decoded purpose) := fun _ => rfl

end IsSilent

/-- What is silent does not show when it follows a call. So the books of a call are settled by its
    last step that is not silent. -/
theorem account_bind {x : Call α} {f : α → Call β} (hf : ∀ a, IsSilent (f a)) (b : Bridge) :
    ((x >>= f) b).2.account = (x b).2.account := by
  rcases hx : x b with ⟨e | a, b'⟩
  · rw [Attempt.bind_of_error f hx]
  · rw [Attempt.bind_of_ok f hx]
    exact hf a b'

protected theorem IsSilent.bind {x : Call α} {f : α → Call β} (hx : IsSilent x)
    (hf : ∀ a, IsSilent (f a)) : IsSilent (x >>= f) := fun b =>
  (account_bind hf b).trans (hx b)

/-- A read counts the bytes that it yields. -/
theorem account_readFor (handle : Handle) (purpose : String) (b : Bridge) :
    (readFor handle purpose b).2.account =
      ⟨b.host, b.metrics.countBytes (bytesIn (b.host.read handle))⟩ := by
  have hread : b.host.serving.read handle = b.host.read handle := rfl
  rw [readFor_apply, hread]
  -- A read that fails yields no bytes, and counting none of them changes nothing.
  cases b.host.read handle with
  | error e =>
    show Account.mk b.host b.metrics = ⟨b.host, b.metrics.countBytes 0⟩
    rw [Metrics.countBytes_zero]
  | ok bytes => rfl

/-! ## Section 3: Calls -/

/-- A fetch is one fetch in both books, though it may fail to be read or to be decoded. -/
theorem account_fetchCollection [Entity α] (kind : CollectionKind) (b : Bridge) :
    (fetchCollection kind b : Except Failure (List α) × Bridge).2.account =
      (Posting.collection kind).post b.account := by
  unfold fetchCollection
  rw [run_opened]
  -- The books are settled when the buffer has been read, or has not.
  refine (account_bind (fun bytes => ?_) _).trans (account_readFor _ _ _)
  cases bytes with
  | nil => exact (IsSilent.debug _ _).bind fun _ => .pure []
  | cons byte bytes =>
    refine IsSilent.get.bind fun b' => (IsSilent.decodeFor _ _).bind fun records => ?_
    exact (IsSilent.debug _ _).bind fun _ => .pure records

/-- A fetch of a value is one fetch in both books, whatever its bytes decode to. -/
theorem account_fetchArgumentValue (id : UInt64) (b : Bridge) :
    (fetchArgumentValue id b).2.account = (Posting.argumentValue id).post b.account := by
  unfold fetchArgumentValue
  rw [run_opened]
  refine (account_bind (fun bytes => ?_) _).trans (account_readFor _ _ _)
  exact IsSilent.get.bind fun b' => .decodeFor _ _

/-- An input that does not match is asked for, and nothing is read. -/
theorem account_parseInput (abi : String) (data : List UInt8) (b : Bridge) :
    (parseInput abi data b).2.account = (Posting.input abi data).post b.account := by
  -- A call that parses is not counted when it begins.
  let asked : Bridge := b.opened "parse_input" [("abi", abi), ("len", toString data.length)] id
    (b.host.parseInput abi (Base64.encode data)).2
  have hasked : ∀ f : Handle → Call (Option (List UInt8)),
      (do
        enter "parse_input" [("abi", abi), ("len", toString data.length)]
        let handle ← ask (·.parseInput abi (Base64.encode data))
        f handle) b = f (b.host.parsedInputs abi) asked := fun _ => rfl
  unfold parseInput
  rw [hasked]
  -- The null handle stands for an input that does not match; it is not read.
  cases hnull : (b.host.parsedInputs abi).isNull with
  | true =>
    have hhandle : (Posting.input abi data).handle? b.account.host = none := if_pos hnull
    rw [Posting.post_of_no_handle hhandle]
    exact (IsSilent.debug _ _).bind (fun _ => .pure none) asked
  | false =>
    have hhandle : (Posting.input abi data).handle? b.account.host =
        some (b.host.parsedInputs abi) := if_neg (Bool.not_eq_true _ ▸ hnull)
    rw [Posting.post_of_handle hhandle]
    exact (account_bind (fun bytes => .pure (some bytes)) asked).trans (account_readFor _ _ asked)

/-- A report is counted, and the host holds its text. -/
theorem account_report (i : Incident) (b : Bridge) :
    (report i b).2.account = (Posting.incident i).post b.account := by
  rw [Posting.post_of_no_handle rfl]
  rfl

/-- A parameter is counted, whether it is found or not. -/
theorem account_parameter (key : String) (b : Bridge) :
    (parameter key b).2.account = (Posting.parameter key).post b.account := by
  let asked : Bridge :=
    b.opened "parameter" [("key", key)] (fun metrics => metrics.countOutbound) b.host
  have hasked : ∀ f : Bridge → Call Parameter,
      (do
        enter "parameter" [("key", key)]
        count (·.countOutbound)
        f (← Attempt.get)) b = f asked asked := fun _ => rfl
  unfold parameter
  rw [hasked, Posting.post_of_no_handle rfl]
  cases asked.host.parameter key with
  | some value => rfl
  | none => rfl

/-- A request is counted, whether its response can be parsed or not. -/
theorem account_http (request : Http.Request) (b : Bridge) :
    (http request b).2.account = (Posting.http request).post b.account := by
  rw [Posting.post_of_no_handle rfl]
  rfl

/-- A query is counted, whether its rows can be parsed or not. -/
theorem account_query (q : String) (b : Bridge) :
    (query q b).2.account = (Posting.query q).post b.account := by
  unfold query
  rw [run_opened, Posting.post_of_no_handle rfl]
  cases Json.rowsOf? (b.host.query q).1 with
  | some rows => rfl
  | none => rfl

/-- A read of a buffer counts its bytes and asks for nothing that the host would remember. -/
theorem account_readBuffer (handle : Handle) (b : Bridge) :
    (readBuffer handle b).2.account = (Posting.buffer handle).post b.account := by
  rw [Posting.post_of_handle rfl]
  exact account_readFor handle "" b

end Bridge

/-- The values of an input are asked for as its bytes are; decoding them asks for nothing. -/
theorem Evm.Input.account_parse (i : Input) (abi : String) (b : Bridge) :
    (i.parse abi b).2.account = (Posting.input abi i.data).post b.account := by
  refine (Bridge.account_bind (fun bytes? => ?_) b).trans (Bridge.account_parseInput abi i.data b)
  cases bytes? with
  | none => exact .pure none
  | some bytes =>
    exact Bridge.IsSilent.get.bind fun b' => (Bridge.IsSilent.decodeFor _ _).bind
      fun values => .pure (some values)

/-! ## Section 4: Errands -/

/-- A call that a guest makes. -/
inductive Errand : Type 1 where
  | fetchCollection (α : Type) [Entity α] (kind : CollectionKind)
  | fetchArgumentValue (id : UInt64)
  | parseInput (abi : String) (data : List UInt8)
  /-- The values of an input by a signature. -/
  | parseValues (input : Evm.Input) (abi : String)
  | readBuffer (handle : Handle)
  | report (i : Incident)
  | parameter (key : String)
  | http (request : Http.Request)
  | query (q : String)

namespace Errand

/-- The bridge after a call, whether it succeeds or fails. -/
def run : Errand → Bridge → Bridge
  | @fetchCollection α _ kind, b =>
    (Bridge.fetchCollection kind b : Except Failure (List α) × Bridge).2
  | .fetchArgumentValue id, b => (Bridge.fetchArgumentValue id b).2
  | .parseInput abi data, b => (Bridge.parseInput abi data b).2
  | .parseValues input abi, b => (input.parse abi b).2
  | .readBuffer handle, b => (Bridge.readBuffer handle b).2
  | .report i, b => (Bridge.report i b).2
  | .parameter key, b => (Bridge.parameter key b).2
  | .http request, b => (Bridge.http request b).2
  | .query q, b => (Bridge.query q b).2

/-- What a call asks the host for. -/
def posting : Errand → Posting
  | @fetchCollection _ _ kind => .collection kind
  | .fetchArgumentValue id => .argumentValue id
  | .parseInput abi data => .input abi data
  | .parseValues input abi => .input abi input.data
  | .readBuffer handle => .buffer handle
  | .report i => .incident i
  | .parameter key => .parameter key
  | .http request => .http request
  | .query q => .query q

/-- A call does to the books what its posting says, for every call that a guest can make, and
    whether it succeeds or fails. -/
theorem account_run (errand : Errand) (b : Bridge) :
    (errand.run b).account = errand.posting.post b.account := by
  cases errand with
  | fetchCollection α kind => exact Bridge.account_fetchCollection (α := α) kind b
  | fetchArgumentValue id => exact Bridge.account_fetchArgumentValue id b
  | parseInput abi data => exact Bridge.account_parseInput abi data b
  | parseValues input abi => exact input.account_parse abi b
  | readBuffer handle => exact Bridge.account_readBuffer handle b
  | report i => exact Bridge.account_report i b
  | parameter key => exact Bridge.account_parameter key b
  | http request => exact Bridge.account_http request b
  | query q => exact Bridge.account_query q b

end Errand

end ChainGuest
