import Mathlib
import ChainGuest.Proofs.Wire.Tokens

/-! # Readers that refuse derivations

    A reader with limits may refuse what a grammar derives. It refuses a grammar for an error
    if it fails with that error on every input that begins with a derivation, whatever
    follows it.

    As acceptance does, refusal follows the shape of a reader: a sequence is refused if its
    first part is, or if its first part is accepted and what follows is refused. A run of
    readers is refused at the first derivation that is (`Reader.Refuses.times`).
-/

namespace ChainGuest.Wire.Reader

/-- With `depth` levels entered, `r` fails with `e` on every derivation of `G`. -/
def Refuses {α β : Type} (depth : Nat) (r : Reader β) (G : Grammar α) (e : DecodeError) : Prop :=
  ∀ c : Cursor, c.depth = depth → ∀ front back a, c.rest = front ++ back → G front a →
    ∃ c', r c = (.error e, c')

namespace Refuses

variable {α β γ δ : Type} {depth : Nat} {e : DecodeError}

protected theorem fail (G : Grammar α) : Refuses depth (Attempt.fail e : Reader β) G e := by
  intro c _ front back a _ _
  exact ⟨c, rfl⟩

theorem mono {r : Reader β} {G : Grammar α} {H : Grammar γ} (h : Refuses depth r G e)
    (hGH : ∀ bytes b, H bytes b → ∃ a, G bytes a) : Refuses depth r H e := by
  intro c hd front back b hrest hH
  obtain ⟨a, hG⟩ := hGH front b hH
  exact h c hd front back a hrest hG

/-- A sequence is refused if its first part is. -/
theorem bind_left {r : Reader β} {G : Grammar α} (h : Refuses depth r G e)
    (f : β → Reader γ) (H : α → Grammar δ) : Refuses depth (r >>= f) (G.seq H) e := by
  rintro c hd bytes rest b hrest ⟨front, back, a, rfl, hG, -⟩
  -- To the first part, the second derivation is part of what follows.
  obtain ⟨c', hrun⟩ := h c hd front (back ++ rest) a (by rw [hrest, List.append_assoc]) hG
  exact ⟨c', Attempt.bind_of_error f hrun⟩

/-- A sequence is refused if its first part is accepted and what follows is refused. -/
theorem bind_right {r : Reader α} {G : Grammar α} {f : α → Reader β} {H : α → Grammar γ}
    (hr : Accepts depth r G) (hf : ∀ a, Refuses depth (f a) (H a) e) :
    Refuses depth (r >>= f) (G.seq H) e := by
  rintro c hd bytes rest b hrest ⟨front, back, a, rfl, hG, hH⟩
  have hrun := hr.run hd (hrest.trans (List.append_assoc front back rest)) hG
  obtain ⟨c', hrun'⟩ :=
    hf a (c.advance front.length (back ++ rest)) hd back rest b rfl hH
  exact ⟨c', by rw [Attempt.bind_of_ok f hrun, hrun']⟩

/-- A reader whose answer would be passed through `f`. -/
theorem map {r : Reader β} {G : Grammar α} (h : Refuses depth r G e) (f : β → γ) :
    Refuses depth (r >>= fun b => pure (f b)) G e := by
  intro c hd front back a hrest hG
  obtain ⟨c', hrun⟩ := h c hd front back a hrest hG
  exact ⟨c', Attempt.bind_of_error _ hrun⟩

theorem position_bind {f : Nat → Reader β} {G : Grammar α} (h : ∀ n, Refuses depth (f n) G e) :
    Refuses depth (position >>= f) G e :=
  fun c hd => h c.position c hd

theorem deeper {r : Reader β} {G : Grammar α} (h : Refuses (depth + 1) r G e) :
    Refuses depth r.deeper G e := by
  intro c hd front back a hrest hG
  obtain ⟨c', hrun⟩ := h { c with depth := c.depth + 1 } (by rw [hd]) front back a hrest hG
  refine ⟨{ c' with depth := c'.depth - 1 }, ?_⟩
  unfold Reader.deeper
  simp only [hrun]

/-- Derivations one after another, not all of which are accepted: what stands before the first
    that is not is read, and then it is refused. The condition `p` says which are accepted;
    nothing is known of how the reader fails but that it does so with `e`. -/
theorem times {r : Reader α} {G : Grammar α} {p : α → Prop}
    (hr : Accepts depth r fun bytes a => G bytes a ∧ p a)
    (h : Refuses depth r (fun bytes a => G bytes a ∧ ¬ p a) e) (count : Nat) :
    Refuses depth (times count r)
      (fun bytes answers => G.Each bytes answers ∧ answers.length = count ∧
        ¬ ∀ a ∈ answers, p a) e := by
  induction count with
  | zero =>
    rintro c hd front back answers hrest ⟨-, hlength, hnot⟩
    obtain rfl := List.length_eq_zero_iff.1 hlength
    exact absurd (by simp) hnot
  | succ count ih =>
    rintro c hd bytes rest answers hrest ⟨heach, hlength, hnot⟩
    obtain ⟨a, tail, rfl⟩ := List.exists_cons_of_length_eq_add_one hlength
    obtain ⟨front, back, rfl, hfirst, htail⟩ := Grammar.each_cons.1 heach
    rw [times_succ]
    -- The first derivation is either read, and the run is refused in what follows, or refused
    -- itself.
    by_cases ha : p a
    · have hnot' : ¬ ∀ b ∈ tail, p b := fun hall => hnot (List.forall_mem_cons.2 ⟨ha, hall⟩)
      exact bind_right hr (fun a => ih.map (a :: ·)) c hd (front ++ back) rest tail hrest
        ⟨front, back, a, rfl, ⟨hfirst, ha⟩, htail, by simpa using hlength, hnot'⟩
    · exact bind_left h _ (fun _ bytes answers => G.Each bytes answers) c hd (front ++ back) rest
        tail hrest ⟨front, back, a, rfl, ⟨hfirst, ha⟩, htail⟩

/-- An array is refused at the first element that is. -/
theorem array {r : Reader α} {G : Grammar α} {p : α → Prop}
    (hr : Accepts depth r fun bytes a => G bytes a ∧ p a)
    (h : Refuses depth r (fun bytes a => G bytes a ∧ ¬ p a) e) :
    Refuses depth (array r)
      (fun bytes answers => ArrayForm G bytes answers ∧ ¬ ∀ a ∈ answers, p a) e := by
  refine (bind_right Accepts.arrayLength fun count => times hr h count).mono ?_
  rintro bytes answers ⟨⟨hheader, heach⟩, hnot⟩
  exact ⟨answers, _, _, answers.length, rfl, hheader, heach, rfl, hnot⟩

end Refuses

end ChainGuest.Wire.Reader
