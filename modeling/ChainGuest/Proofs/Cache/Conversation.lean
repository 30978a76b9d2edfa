import Mathlib
import ChainGuest.Proofs.Cache.Reference

/-! # Conversations

    A client makes one request after another, and before each of them the host may begin to
    serve something else. A request may be about a view that an earlier answer handed out;
    it is resolved to an access by the answers so far.

    A context and a reference that agree on every access agree on every conversation, as
    long as what was handed out stays known to the reference (`conversation_eq`).
-/

namespace ChainGuest

variable {σ ρ κ ι answer : Type}

/-- A request, and what the host serves while it is answered. -/
structure Visit (κ : Type) where
  serving : Serving
  request : κ

/-- The answers to requests, one after another. A request about a view that was not handed out
    cannot be made, and has no answer. -/
def conversation (resolve : List answer → κ → Option ι)
    (perform : Serving → ι → Attempt σ Failure answer) :
    List (Visit κ) → List answer → σ → List (Option (Except Failure answer))
  | [], _, _ => []
  | visit :: visits, history, s =>
    match resolve history visit.request with
    | none => none :: conversation resolve perform visits history s
    | some access =>
      match perform visit.serving access s with
      | (.ok a, s') => some (.ok a) :: conversation resolve perform visits (history ++ [a]) s'
      | (.error e, s') => some (.error e) :: conversation resolve perform visits history s'

/-- Every outcome of a conversation is that of an access from some state.

    What state that is depends on all that was asked before. It is forgotten here, so this is for
    facts about outcomes that hold of an access from any state. -/
theorem exists_of_mem_conversation {resolve : List answer → κ → Option ι}
    {perform : Serving → ι → Attempt σ Failure answer} {visits : List (Visit κ)}
    {history : List answer} {s : σ} {outcome : Except Failure answer}
    (h : some outcome ∈ conversation resolve perform visits history s) :
    ∃ serving access s', (perform serving access s').1 = outcome := by
  -- On the visits, for every history and state, as both change from one to the next.
  induction visits generalizing history s with
  | nil => exact absurd h (by simp [conversation])
  | cons visit visits ih =>
    unfold conversation at h
    cases hresolve : resolve history visit.request with
    | none =>
      simp only [hresolve, List.mem_cons, reduceCtorEq, false_or] at h
      exact ih h
    | some access =>
      -- The outcome is that of this access, or one of a later access.
      rcases hperform : perform visit.serving access s with ⟨e | a, s'⟩ <;>
        simp only [hresolve, hperform, List.mem_cons, Option.some.injEq] at h <;>
        rcases h with rfl | h
      · exact ⟨visit.serving, access, s, by rw [hperform]⟩
      · exact ih h
      · exact ⟨visit.serving, access, s, by rw [hperform]⟩
      · exact ih h

/-- If every access that the answers so far allow is answered alike from related states, and the
    reference knows what it has answered from then on, every conversation goes alike.

    What carries the induction is more than the relation: the reference must still know every view
    that was handed out, or a request about one of them might be answered by one side only. An
    answer that fails hands out nothing, so it adds nothing to the history. -/
theorem conversation_eq {R : σ → ρ → Prop} {Known : answer → ρ → Prop}
    {resolve : List answer → κ → Option ι}
    {perform : Serving → ι → Attempt σ Failure answer}
    {reference : Serving → ι → Attempt ρ Failure answer}
    (hagree : ∀ serving history request access s r, R s r → (∀ a ∈ history, Known a r) →
      resolve history request = some access →
      Agree R (perform serving access s) (reference serving access r))
    (hlater : ∀ serving access r a, Known a r → Known a (reference serving access r).2)
    (hanswer : ∀ serving access r a, (reference serving access r).1 = .ok a →
      Known a (reference serving access r).2)
    (visits : List (Visit κ)) (history : List answer) (s : σ) (r : ρ) (h : R s r)
    (hhistory : ∀ a ∈ history, Known a r) :
    conversation resolve perform visits history s =
      conversation resolve reference visits history r := by
  -- On the visits, with the relation and the knowledge as the invariant.
  induction visits generalizing history s r with
  | nil => rfl
  | cons visit visits ih =>
    unfold conversation
    cases hresolve : resolve history visit.request with
    | none =>
      simp only
      -- A request that cannot be made is made by neither side, since both have one history.
      rw [ih history s r h hhistory]
    | some access =>
      have hstep := hagree visit.serving history visit.request access s r h hhistory hresolve
      have hlater := hlater visit.serving access r
      have hanswer := hanswer visit.serving access r
      rcases hperform : perform visit.serving access s with ⟨outcome, s'⟩
      rcases hreference : reference visit.serving access r with ⟨outcome', r'⟩
      rw [hperform, hreference] at hstep
      rw [hreference] at hlater hanswer
      obtain ⟨rfl, h'⟩ : outcome = outcome' ∧ R s' r' := hstep
      have hhistory' : ∀ a ∈ history, Known a r' := fun a ha => hlater a (hhistory a ha)
      cases outcome with
      | error e =>
        simp only [hperform, hreference]
        rw [ih history s' r' h' hhistory']
      | ok a =>
        -- The answer joins what the client may ask about.
        have hknown : ∀ b ∈ history ++ [a], Known b r' := by
          intro b hb
          rcases List.mem_append.1 hb with hb | hb
          · exact hhistory' b hb
          · obtain rfl := List.mem_singleton.1 hb
            exact hanswer b rfl
        simp only [hperform, hreference]
        rw [ih (history ++ [a]) s' r' h' hknown]

end ChainGuest
