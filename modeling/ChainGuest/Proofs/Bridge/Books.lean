import Mathlib
import ChainGuest.Proofs.Bridge.Posting

/-! # Books of postings

    Whatever a bridge asks of its host can be written down as it is asked, posting by posting.
    Counters that are made up from such books are those of the bridge, and lists that are made
    up from them are those that the host remembers (`Books.Explains`). Each posting that is
    made and written down keeps this so (`Books.Explains.post`).

    The counters of a bridge are words that start again at zero when they run over. As long as
    there are fewer postings and fewer bytes than a word can count, the counters are the
    numbers of what was asked (`Books.Explains.balanced`).
-/

namespace ChainGuest

/-! ## Section 1: Books -/

namespace Posting

@[simp] def collection? : Posting → Option CollectionKind
  | .collection kind => some kind
  | _ => none

@[simp] def argument? : Posting → Option UInt64
  | .argumentValue id => some id
  | _ => none

@[simp] def incident? : Posting → Option Incident
  | .incident i => some i
  | _ => none

@[simp] def parameter? : Posting → Option String
  | .parameter key => some key
  | _ => none

@[simp] def http? : Posting → Option Http.Request
  | .http request => some request
  | _ => none

@[simp] def query? : Posting → Option String
  | .query q => some q
  | _ => none

/-- Only a fetch of a collection is added to the list of these. -/
theorem collectionRequests_ask (p : Posting) (h : Host) :
    (p.ask h).collectionRequests = h.collectionRequests ++ p.collection?.toList := by
  cases p <;> first | rfl | exact (List.append_nil _).symm

/-- Only a fetch of a value is added to the list of these. -/
theorem argumentRequests_ask (p : Posting) (h : Host) :
    (p.ask h).argumentRequests = h.argumentRequests ++ p.argument?.toList := by
  cases p <;> first | rfl | exact (List.append_nil _).symm

end Posting

/-- The host remembers the fetches among postings. -/
theorem Account.requests_posts (a : Account) (ps : List Posting) :
    (a.posts ps).host.collectionRequests =
        a.host.collectionRequests ++ ps.filterMap Posting.collection? ∧
      (a.posts ps).host.argumentRequests =
        a.host.argumentRequests ++ ps.filterMap Posting.argument? := by
  -- On the postings, from any account.
  induction ps generalizing a with
  | nil => exact ⟨(List.append_nil _).symm, (List.append_nil _).symm⟩
  | cons p ps ih =>
    obtain ⟨hcollections, harguments⟩ := ih (p.post a)
    refine ⟨hcollections.trans ?_, harguments.trans ?_⟩
    · show (p.ask a.host).collectionRequests ++ _ = _
      rw [p.collectionRequests_ask, List.append_assoc, List.filterMap_cons]
      cases p.collection? <;> rfl
    · show (p.ask a.host).argumentRequests ++ _ = _
      rw [p.argumentRequests_ask, List.append_assoc, List.filterMap_cons]
      cases p.argument? <;> rfl

/-- A posting, and the host as it was before. -/
structure Booking where
  host : Host
  posting : Posting

/-- Postings in the order they were made. -/
abbrev Books : Type := List Booking

namespace Books

variable (books : Books)

/-- What was asked for, of one kind of things. -/
def asked {α : Type} (what : Posting → Option α) : List α :=
  books.filterMap fun booking => what booking.posting

/-- The reads of the host's memory. -/
def reads : List (Except HostError (List UInt8)) :=
  books.filterMap fun booking => booking.posting.read? booking.host

/-- How many bytes the reads have yielded. -/
def bytes : Nat := (books.reads.map bytesIn).sum

/-- The counters that these postings make. -/
def metrics : Metrics where
  fetches kind := UInt64.ofNat ((books.asked Posting.collection?).count kind)
  argumentFetches := UInt64.ofNat (books.asked Posting.argument?).length
  bytesRead := UInt64.ofNat books.bytes
  incidents := UInt64.ofNat (books.asked Posting.incident?).length
  outboundCalls := UInt64.ofNat
    ((books.asked Posting.parameter?).length + (books.asked Posting.http?).length +
      (books.asked Posting.query?).length)

/-- The host remembers what these postings asked. -/
structure Recorded (books : Books) (h : Host) : Prop where
  collections : h.collectionRequests = books.asked Posting.collection?
  arguments : h.argumentRequests = books.asked Posting.argument?
  incidents : h.incidents = (books.asked Posting.incident?).map Incident.toJson
  httpRequests : h.httpRequests = (books.asked Posting.http?).map Http.Request.toJson
  queries : h.queries = books.asked Posting.query?

/-- The books explain an account: the counters and the host's lists are made up from them. -/
structure Explains (books : Books) (a : Account) : Prop where
  metrics : a.metrics = books.metrics
  recorded : books.Recorded a.host

/-! ## Section 2: One more posting -/

variable {books} {h : Host} {p : Posting}

/-- One more posting is asked for if it is of this kind. -/
theorem asked_append {α : Type} (what : Posting → Option α) :
    asked (books ++ [⟨h, p⟩]) what = books.asked what ++ (what p).toList := by
  unfold asked
  rw [List.filterMap_append]
  cases hwhat : what p <;> simp [hwhat]

/-- One more posting adds the bytes that are read for it. -/
theorem bytes_append : bytes (books ++ [⟨h, p⟩]) = books.bytes + p.bytes h := by
  unfold bytes reads
  rw [List.filterMap_append, List.map_append, List.sum_append, Posting.bytes]
  cases hread : p.read? h <;> simp [hread]

/-- One more posting counts what the bridge counts.

    Words are added modulo their size on both sides, so this needs no bound: bounds only come in
    when the counters are read as numbers. -/
theorem metrics_append :
    metrics (books ++ [⟨h, p⟩]) = (p.count books.metrics).countBytes (p.bytes h) := by
  unfold metrics
  simp only [asked_append, bytes_append]
  -- Each posting touches one counter; the outbound calls share one.
  cases p with
  | collection kind =>
    have hcount : ∀ k, UInt64.ofNat ((books.asked Posting.collection? ++ [kind]).count k) =
        if k = kind then UInt64.ofNat ((books.asked Posting.collection?).count k) + 1
        else UInt64.ofNat ((books.asked Posting.collection?).count k) := by
      intro k
      rw [List.count_append, List.count_singleton]
      by_cases hk : k = kind
      · simp [hk, UInt64.ofNat_add]
      · simp [hk, Ne.symm hk]
    simp only [Posting.collection?, Option.toList_some, hcount, UInt64.ofNat_add]
    simp [Posting.count, Metrics.countFetch, Metrics.countBytes]
  | argumentValue id => simp [Posting.count, Metrics.countArgument, Metrics.countBytes]
  | incident i => simp [Posting.count, Metrics.countIncident, Metrics.countBytes]
  | input abi data | buffer handle => simp [Posting.count, Metrics.countBytes]
  | parameter key | http request | query q =>
    simp [Posting.count, Metrics.countOutbound, Metrics.countBytes, UInt64.ofNat_add]
    ac_rfl

/-- The host remembers one more posting. -/
theorem Recorded.ask (hrecorded : books.Recorded h) (p : Posting) (h' : Host) :
    Recorded (books ++ [⟨h', p⟩]) (p.ask h) where
  collections := by
    rw [asked_append, ← hrecorded.collections]
    exact p.collectionRequests_ask h
  arguments := by
    rw [asked_append, ← hrecorded.arguments]
    exact p.argumentRequests_ask h
  incidents := by
    rw [asked_append, List.map_append, ← hrecorded.incidents]
    cases p <;> first | rfl | exact (List.append_nil _).symm
  httpRequests := by
    rw [asked_append, List.map_append, ← hrecorded.httpRequests]
    cases p <;> first | rfl | exact (List.append_nil _).symm
  queries := by
    rw [asked_append, ← hrecorded.queries]
    cases p <;> first | rfl | exact (List.append_nil _).symm

/-- A posting that is made and written down: the books explain the account as before.

    The posting is written down with the host as it was. It need not be the very host of the
    account, as long as the read for it gives the same. -/
theorem Explains.post {a : Account} (hexplains : books.Explains a) {p : Posting} {h : Host}
    (hread : p.read? h = p.read? a.host) : Explains (books ++ [⟨h, p⟩]) (p.post a) where
  metrics := by
    have hbytes : p.bytes h = p.bytes a.host := congrArg (Option.elim · 0 bytesIn) hread
    rw [metrics_append, hbytes, ← hexplains.metrics]
    rfl
  recorded := hexplains.recorded.ask p h

/-- Several postings in a row. What is read for them is what the host served before. -/
theorem Explains.posts {a : Account} (hexplains : books.Explains a) (ps : List Posting)
    {h : Host} (hread : ∀ p : Posting, p.read? h = p.read? a.host) :
    Explains (books ++ ps.map (Booking.mk h)) (a.posts ps) := by
  -- On the postings, the first of which is made and written down.
  induction ps generalizing books a with
  | nil =>
    rw [List.map_nil, List.append_nil]
    exact hexplains
  | cons p ps ih =>
    -- A posting changes what the host remembers, and not what it serves.
    have hafter : ∀ q : Posting, q.read? h = q.read? (p.post a).host := fun q =>
      (hread q).trans (q.read?_ask p a.host).symm
    rw [List.map_cons, List.append_cons]
    exact ih (hexplains.post (hread p)) hafter

/-- Books of nothing explain a bridge that has asked nothing, over a host that was asked
    nothing. -/
theorem explains_nil {h : Host} (hcollections : h.collectionRequests = [])
    (harguments : h.argumentRequests = []) (hincidents : h.incidents = [])
    (hrequests : h.httpRequests = []) (hqueries : h.queries = []) :
    Books.Explains [] ⟨h, .zero⟩ :=
  ⟨rfl, ⟨hcollections, harguments, hincidents, hrequests, hqueries⟩⟩

/-! ## Section 3: Balance -/

/-- The counters of a bridge and the lists of its host agree with each other and with what was
    asked. -/
structure Balanced (books : Books) (b : Bridge) : Prop where
  /-- The bridge has counted as many fetches of each collection as its host has, -/
  fetches : ∀ kind, (b.metrics.fetches kind).toNat = b.host.collectionFetches kind
  /-- and their total. -/
  totalFetches : b.metrics.totalFetches.toNat =
    (CollectionKind.all.map fun kind => (b.metrics.fetches kind).toNat).sum
  /-- It has counted as many fetches of values as its host has for all arguments together. -/
  argumentFetches : b.metrics.argumentFetches.toNat =
    ∑ id ∈ b.host.argumentRequests.toFinset, b.host.argumentFetches id
  /-- It has counted the bytes of every read that succeeded, and no others. -/
  bytesRead : b.metrics.bytesRead.toNat = (books.reads.map bytesIn).sum
  /-- The incidents that the host holds are those that were reported, in order, -/
  reported : b.host.incidents = (books.asked Posting.incident?).map Incident.toJson
  /-- and the bridge has counted them. -/
  incidents : b.metrics.incidents.toNat = b.host.incidents.length
  /-- It has counted parameters, requests and queries, whatever came of them. -/
  outboundCalls : b.metrics.outboundCalls.toNat =
    (books.asked Posting.parameter?).length + (books.asked Posting.http?).length +
      (books.asked Posting.query?).length
  /-- What the host was asked is what the books say. -/
  recorded : books.Recorded b.host

/-- The fetches of all kinds together are all fetches. -/
theorem sum_count_all (kinds : List CollectionKind) :
    (CollectionKind.all.map fun kind => kinds.count kind).sum = kinds.length := by
  -- Each fetch is counted under one of the kinds, and all kinds are listed.
  induction kinds with
  | nil => rfl
  | cons kind kinds ih =>
    simp only [CollectionKind.all, List.map_cons, List.map_nil, List.sum_cons, List.sum_nil,
      List.count_cons, List.length_cons] at ih ⊢
    cases kind <;> simp <;> omega

/-- No more things of one kind are asked for than things at all. -/
theorem length_asked_le {α : Type} (books : Books) (what : Posting → Option α) :
    (books.asked what).length ≤ books.length :=
  List.length_filterMap_le _ _

/-- Parameters, requests and queries are different things. -/
theorem length_outbound_le (books : Books) :
    (books.asked Posting.parameter?).length + (books.asked Posting.http?).length +
      (books.asked Posting.query?).length ≤ books.length := by
  -- From the back, as books grow there.
  induction books using List.reverseRecOn with
  | nil => exact Nat.le_refl 0
  | append_singleton books booking ih =>
    obtain ⟨h, p⟩ := booking
    rw [asked_append, asked_append, asked_append]
    cases p <;> simp <;> omega

/-- The total of the fetches, if it does not run over. -/
theorem toNat_totalFetches {m : Metrics}
    (h : (CollectionKind.all.map fun kind => (m.fetches kind).toNat).sum < 2 ^ 64) :
    m.totalFetches.toNat = (CollectionKind.all.map fun kind => (m.fetches kind).toNat).sum := by
  simp only [Metrics.totalFetches, CollectionKind.all, List.foldl_cons, List.foldl_nil,
    List.map_cons, List.map_nil, List.sum_cons, List.sum_nil, UInt64.toNat_add] at h ⊢
  simp
  omega

/-- Counters that did not run over are the numbers of what was asked.

    There are fewer postings than a word can count, hence fewer of each kind, so every counter is
    below the size of a word and its residue is the number itself. The bytes have a bound of their
    own, as one read may yield any number of them. -/
theorem Explains.balanced {b : Bridge} (hexplains : books.Explains b.account)
    (hevents : books.length < 2 ^ 64) (hbytes : books.bytes < 2 ^ 64) : books.Balanced b := by
  obtain ⟨hmetrics, hrecorded⟩ := hexplains
  change b.metrics = books.metrics at hmetrics
  change books.Recorded b.host at hrecorded
  have htoNat : ∀ n, n ≤ books.length → (UInt64.ofNat n).toNat = n := fun n hn =>
    UInt64.toNat_ofNat_of_lt' (Nat.lt_of_le_of_lt hn hevents)
  have hfetches : ∀ kind, (b.metrics.fetches kind).toNat = b.host.collectionFetches kind := by
    intro kind
    have hcount : (books.asked Posting.collection?).count kind ≤ books.length :=
      List.count_le_length.trans (books.length_asked_le _)
    rw [hmetrics, Host.collectionFetches, hrecorded.collections]
    exact htoNat _ hcount
  refine ⟨hfetches, ?_, ?_, ?_, hrecorded.incidents, ?_, ?_, hrecorded⟩
  · have htotal : (CollectionKind.all.map fun kind => (b.metrics.fetches kind).toNat).sum =
        b.host.collectionRequests.length := by
      simp only [hfetches]
      exact sum_count_all b.host.collectionRequests
    apply toNat_totalFetches
    rw [htotal, hrecorded.collections]
    exact Nat.lt_of_le_of_lt (books.length_asked_le _) hevents
  · have hcounts : ∑ id ∈ b.host.argumentRequests.toFinset, b.host.argumentFetches id =
        b.host.argumentRequests.length := List.sum_toFinset_count_eq_length _
    rw [hcounts, hmetrics, hrecorded.arguments]
    exact htoNat _ (books.length_asked_le _)
  · rw [hmetrics]
    exact UInt64.toNat_ofNat_of_lt' hbytes
  · rw [hmetrics, hrecorded.incidents, List.length_map]
    exact htoNat _ (books.length_asked_le _)
  · rw [hmetrics]
    exact htoNat _ books.length_outbound_le

end Books

end ChainGuest
