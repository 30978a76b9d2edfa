import Mathlib
import ChainGuest.Proofs.Cache.Conversation
import ChainGuest.Proofs.Cache.Simulation

/-! # Clients of contexts

    A client says what it asks of a context in words of its own: its requests, and the accesses
    they are resolved to by the answers so far. What makes it a client of a layout is that its
    requests are wishes and its accesses plans: it resolves a request as the layout resolves the
    wish, and its action for an access is the one of the plan.

    A client that says with every request what the host serves meanwhile makes inquiries. Its
    conversations are those of its reference (`Client.conversation_eq`), which knows of no
    tables and no positions. So no look-up in a table goes astray in them
    (`Client.never_stray`).
-/

namespace ChainGuest

open Layout Remembered

variable {σ Kind Link Valued κ ι : Type} {Record : Kind → Type}
  [HasBridge σ] [∀ k, Entity (Record k)]

/-- What is asked of contexts with a layout, and how. -/
structure Client [DecidableEq Kind] (L : Layout σ Record Link Valued) (κ ι : Type) where
  resolve : List (Reply Record) → κ → Option ι
  action : ι → Action σ (Reply Record)
  /-- The wish that a request is. -/
  wish : κ → L.Wish
  /-- The plan that an access is. -/
  plan : ι → L.Plan
  resolve_wish : ∀ history request,
    (wish request).resolve history = (resolve history request).map plan
  act_plan : ∀ access, (plan access).act = action access

/-- A context that nothing was asked of mirrors a tally of nothing. Its bridge may have a past:
    what was asked through it before is in the ledger that the tally starts with. -/
theorem Layout.mirrors_new {L : Layout σ Record Link Valued} {s : σ}
    (hcells : ∀ k, ((L.part (.cell k)).get s).items? = none)
    (hlinks : ∀ l, (L.part (.links l)).get s = Memo.empty)
    (hvalues : ∀ a, (L.part (.values a)).get s = Memo.empty) :
    L.Mirrors ((L.part .bridge).get s).config ((L.part .bridge).get s).host.offer s
      (.new ((L.part .bridge).get s).ledger) := by
  intro p
  -- Place by place: cells and tables are empty, and the bridge is as it is.
  cases p with
  | bridge => exact ⟨rfl, rfl, rfl⟩
  | cell k => exact hcells k
  | links l =>
    rw [hlinks l]
    exact ⟨.empty, fun index => rfl⟩
  | values a =>
    rw [hvalues a]
    exact ⟨fun index => rfl, fun slots hslots => absurd hslots (by simp [Memo.empty])⟩

/-! ## Section 1: Accesses -/

namespace Client

variable [DecidableEq Kind] [DecidableEq Link] [DecidableEq Valued]
  {L : Layout σ Record Link Valued} (client : Client L κ ι)

omit [DecidableEq Link] [DecidableEq Valued] in
/-- A request is resolved to an access through views that were handed out. -/
theorem allowed_of_resolve {history : List (Reply Record)} {request : κ} {access : ι}
    {r : Remembered Record Valued} (hknows : ∀ reply ∈ history, Knows reply r)
    (hresolve : client.resolve history request = some access) :
    (client.plan access).Allowed r := by
  have hwish : (client.wish request).resolve history = some (client.plan access) := by
    rw [client.resolve_wish, hresolve, Option.map_some]
  exact Plan.allowed_of_resolve hknows hwish

/-- An access is answered as by the tally, and leaves what the tally leaves. -/
theorem action_agrees {config : Config} {offer : Offer} {s : σ} {t : Tally Record Link Valued}
    (h : L.Mirrors config offer s t) {history : List (Reply Record)} {request : κ} {access : ι}
    (hknows : ∀ reply ∈ history, Knows reply t.toRemembered)
    (hresolve : client.resolve history request = some access) :
    Agree (L.Mirrors config offer) (client.action access s)
      ((client.plan access).tally config offer t) := by
  rw [← client.act_plan]
  exact act_agrees h (client.allowed_of_resolve hknows hresolve)

/-- What was known stays known, and so does what is answered.

    A tally answers as the reference does that only remembers, so both facts are inherited from
    there. -/
theorem knows_tally (config : Config) (offer : Offer) (plan : L.Plan)
    {t : Tally Record Link Valued} {history : List (Reply Record)}
    (hknows : ∀ reply ∈ history, Knows reply t.toRemembered) :
    ∀ reply ∈ history ++ (plan.tally config offer t).1.toOption.toList,
      Knows reply (plan.tally config offer t).2.toRemembered := by
  obtain ⟨hanswer, hstate⟩ := plan.tally_agrees config offer t
  rw [hstate]
  intro reply hreply
  rcases List.mem_append.1 hreply with hreply | hreply
  · exact (plan.keeps_answer config offer t.toRemembered).knows (hknows reply hreply)
  · refine plan.knows_answer config offer t.toRemembered reply ?_
    rw [← hanswer]
    -- Only an answer that succeeds is added to what must be known.
    cases houtcome : (plan.tally config offer t).1 with
    | error e =>
      rw [houtcome] at hreply
      exact absurd hreply (by simp [Except.toOption])
    | ok answer =>
      rw [houtcome] at hreply
      obtain rfl : reply = answer := List.mem_singleton.1 hreply
      rfl

end Client

/-! ## Section 2: Inquiries -/

/-- An access, and what the host serves for the values of arguments while it is made. -/
structure Inquiry (ι : Type) where
  argumentValues : UInt64 → Handle
  access : ι

namespace Inquiry

variable {answer : Type}

/-- The inquiry that a request is for. -/
def resolve (resolve : List answer → κ → Option ι) (history : List answer)
    (inquiry : Inquiry κ) : Option (Inquiry ι) :=
  (resolve history inquiry.access).map fun access => ⟨inquiry.argumentValues, access⟩

/-- What the host serves meanwhile. -/
def offer (serving : Serving) (inquiry : Inquiry ι) : Offer := ⟨serving, inquiry.argumentValues⟩

/-- An inquiry of a context. -/
def make (action : ι → Action σ answer) (serving : Serving) (inquiry : Inquiry ι) :
    Action σ answer := fun s =>
  action inquiry.access (Interlude.after [.present (inquiry.offer serving)] s)

/-- An inquiry of a reference. -/
def put {ρ : Type} (reference : Offer → ι → Attempt ρ Failure answer) (serving : Serving)
    (inquiry : Inquiry ι) : Attempt ρ Failure answer :=
  reference (inquiry.offer serving) inquiry.access

end Inquiry

namespace Client

variable [DecidableEq Kind] [DecidableEq Link] [DecidableEq Valued]
  {L : Layout σ Record Link Valued} (client : Client L κ ι)

/-- A client has the conversations of the reference that remembers. From the context's side the
    relation is that it mirrors some tally, for whatever its host was serving last; from the
    reference's side, that what the tally remembers is all there is.

    The tally stands between the two. It does what the context does, step by step, and it answers
    what the reference answers, since counting does not show. -/
theorem conversation_eq {config : Config} {before : Offer} {s : σ} {t : Tally Record Link Valued}
    (h : L.Mirrors config before s t) (visits : List (Visit (Inquiry κ))) :
    conversation (Inquiry.resolve client.resolve) (Inquiry.make client.action) visits [] s =
      conversation (Inquiry.resolve client.resolve)
        (Inquiry.put fun offer access => (client.plan access).answer config offer)
        visits [] t.toRemembered := by
  have hagree : ∀ serving history request inquiry (s : σ) (r : Remembered Record Valued),
      (∃ before t, L.Mirrors config before s t ∧ t.toRemembered = r) →
      (∀ reply ∈ history, Knows reply r) →
      Inquiry.resolve client.resolve history request = some inquiry →
      Agree (fun s r => ∃ before t, L.Mirrors config before s t ∧ t.toRemembered = r)
        (Inquiry.make client.action serving inquiry s)
        ((client.plan inquiry.access).answer config (inquiry.offer serving) r) := by
    rintro serving history request inquiry s _ ⟨before, t, h, rfl⟩ hhistory hresolve
    obtain ⟨access, haccess, rfl⟩ := Option.map_eq_some_iff.1 hresolve
    let offer : Offer := ⟨serving, request.argumentValues⟩
    -- From here on the host serves what it serves at this inquiry.
    have hserved : L.Mirrors config offer (Interlude.after [.present offer] s) t := by
      have hinterlude := h.interlude [.present offer]
      rw [L.bridge_after] at hinterlude
      exact hinterlude
    -- The context does what the tally does, and the tally answers what is remembered.
    obtain ⟨hanswer, h'⟩ := client.action_agrees hserved hhistory haccess
    obtain ⟨hanswer', hstate⟩ := (client.plan access).tally_agrees config offer t
    exact ⟨hanswer.trans hanswer', offer, _, h', hstate⟩
  exact ChainGuest.conversation_eq hagree
    (fun serving inquiry r reply hreply =>
      ((client.plan inquiry.access).keeps_answer config _ r).knows hreply)
    (fun serving inquiry r reply => (client.plan inquiry.access).knows_answer config _ r reply)
    visits [] s t.toRemembered ⟨before, t, h, rfl⟩ (by simp)

/-- No look-up goes astray in a conversation, neither of a view by its position nor of the
    positions that a table of links holds: the reference has no such look-ups to fail in, and the
    context answers as it does. -/
theorem never_stray {config : Config} {before : Offer} {s : σ} {t : Tally Record Link Valued}
    (h : L.Mirrors config before s t) (visits : List (Visit (Inquiry κ))) (failure : Failure)
    (hfailure : some (.error failure) ∈
      conversation (Inquiry.resolve client.resolve) (Inquiry.make client.action) visits [] s) :
    failure.cause ≠ .strayView := by
  rw [client.conversation_eq h] at hfailure
  obtain ⟨serving, inquiry, r, hanswer⟩ := exists_of_mem_conversation hfailure
  exact Plan.answer_ne_strayView hanswer

end Client

end ChainGuest
