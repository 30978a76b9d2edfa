import Mathlib
import ChainGuest.Proofs.Cache.Frugality
import ChainGuest.Proofs.Cache.Sharing

/-! # Walks along joins

    A walk goes through the views of all parents and asks each for its children (`Route`), or
    goes on from there and asks each of these children for its own. While it goes, collections
    are loaded that were not loaded yet, and tables of links are filled. What it finds does not
    depend on how much of this was done before: loads answer throughout what they answered when
    the walk began (`Layout.Ready`), and a join finds the positions that a filter over the
    children does.

    So if the keys of the parents are distinct, a walk shares out the children
    (`Layout.Along.shares`, `Layout.Along.sharesThrough`).
-/

namespace ChainGuest

variable {σ Kind Link Valued ε α β γ δ κ ν : Type} {Record : Kind → Type}

/-! ## Section 1: Attempts from states alike -/

namespace Attempt

/-- From every state that is as `before` says, the attempt answers `a`, and leaves a state that
    is as `after` says. -/
def Answers (before : σ → Prop) (x : Attempt σ ε α) (a : α) (after : σ → Prop) : Prop :=
  ∀ s, before s → ∃ s', x s = (.ok a, s') ∧ after s'

namespace Answers

variable {P Q R : σ → Prop} {x : Attempt σ ε α} {a : α}

protected theorem pure (a : α) : Answers P (pure a : Attempt σ ε α) a P :=
  fun s hs => ⟨s, rfl, hs⟩

protected theorem bind {f : α → Attempt σ ε β} {b : β} (hx : Answers P x a Q)
    (hf : Answers Q (f a) b R) : Answers P (x >>= f) b R := by
  intro s hs
  obtain ⟨s', hrun, hs'⟩ := hx s hs
  rw [bind_of_ok f hrun]
  exact hf s' hs'

theorem weaken (hx : Answers P x a Q) (h : ∀ s, Q s → R s) : Answers P x a R := by
  intro s hs
  obtain ⟨s', hrun, hs'⟩ := hx s hs
  exact ⟨s', hrun, h s' hs'⟩

/-- Attempts that each leave the state as it should be can be made one after another. -/
protected theorem mapM {f : α → Attempt σ ε β} {g : α → β} {items : List α}
    (h : ∀ a ∈ items, Answers P (f a) (g a) P) :
    Answers P (items.mapM f) (items.map g) P := by
  -- On the items: one answer, and then the answers for the rest.
  induction items with
  | nil =>
    rw [List.mapM_nil]
    exact .pure []
  | cons a items ih =>
    -- Each attempt leaves the state as the next one needs it.
    have hlater := ih fun b hb => h b (List.mem_cons_of_mem a hb)
    rw [List.mapM_cons]
    exact (h a List.mem_cons_self).bind (hlater.bind (.pure (g a :: items.map g)))

end Answers

end Attempt

/-! ## Section 2: Routes -/

/-- What is asked of each of these views, one after another. -/
def walk (views : Action σ (List (View α))) (access : View α → Action σ δ) :
    Action σ (List δ) := do
  (← views).mapM access

/-- How to get from the views of all parents to their children, and the keys that say whose
    children these are. -/
structure Route (σ α β δ κ : Type) where
  join : Join σ α β
  views : Action σ (List (View α))
  access : View α → Action σ (List δ)
  /-- What is handed out for positions among the children. -/
  render : List β → List Nat → List δ
  parentKey : α → κ
  childKey : β → κ

namespace Route

/-- Of whatever records are loaded, the parents share out the children, if no two parents have
    the same key: the walk finds positions that are shared out, and hands out what stands
    there. -/
def Shares [HasBridge σ] [DecidableEq κ] (route : Route σ α β δ κ) (s : σ) : Prop :=
  ∀ parents children,
    (route.join.parents s).1 = .ok parents → (route.join.children s).1 = .ok children →
    (parents.map route.parentKey).Nodup →
    let claimed := fun c => decide (route.childKey c ∈ parents.map route.parentKey)
    ∃ found : List (List Nat),
      (walk route.views (fun v => route.join.indices v.index) s).1 = .ok found ∧
      (walk route.views route.access s).1 = .ok (found.map (route.render children)) ∧
      SharesOut claimed children found ∧
      (found.map (route.render children)).flatten.Perm
        (route.render children (matchingIndices claimed children))

/-- Of whatever records are loaded, the parents share out the children of their children, if
    no two parents have the same key, and no two of the records between. -/
def SharesThrough [HasBridge σ] [DecidableEq κ] [DecidableEq ν]
    (first : Route σ α β (View β) κ) (second : Route σ β γ δ ν) (s : σ) : Prop :=
  ∀ parents between children,
    (first.join.parents s).1 = .ok parents → (first.join.children s).1 = .ok between →
    (second.join.children s).1 = .ok children →
    (parents.map first.parentKey).Nodup → (between.map second.parentKey).Nodup →
    let claimed := fun c => decide (∃ b ∈ between,
      first.childKey b ∈ parents.map first.parentKey ∧ second.parentKey b = second.childKey c)
    ∃ found : List (List (List Nat)),
      (walk first.views (fun v =>
        walk (first.access v) fun w => second.join.indices w.index) s).1 = .ok found ∧
      (walk first.views (fun v => walk (first.access v) second.access) s).1 =
        .ok (found.map (List.map (second.render children))) ∧
      SharesOut claimed children found.flatten ∧
      (found.flatten.map (second.render children)).flatten.Perm
        (second.render children (matchingIndices claimed children))

end Route

/-! ## Section 3: What loads answer during a walk -/

namespace Layout

variable [HasBridge σ] [∀ k, Entity (Record k)] [DecidableEq Kind]
  {L : Layout σ Record Link Valued}

/-- A load answers the records that are remembered, or else what is served. -/
theorem tallyLoad_fst (L : Layout σ Record Link Valued) (k : Kind)
    (served : Except Failure (List (Record k))) (t : Tally Record Link Valued) :
    (L.tallyLoad k served t).1 = ((t.records k).map .ok).getD served := by
  unfold tallyLoad
  cases t.records k with
  | some items => rfl
  | none => cases served <;> rfl

/-- A load leaves what other loads answer.

    The host is not asked to serve the same forever; what it serves at one time is fixed, and a
    load of one kind remembers the answer of that kind only. -/
theorem tallyLoad_fst_tallyLoad (L : Layout σ Record Link Valued)
    (served : (k : Kind) → Except Failure (List (Record k)))
    (k k' : Kind) (t : Tally Record Link Valued) :
    (L.tallyLoad k' (served k') (L.tallyLoad k (served k) t).2).1 =
      (L.tallyLoad k' (served k') t).1 := by
  cases hrecords : t.records k with
  | some items => rw [tallyLoad_of_some hrecords]
  | none =>
    rw [tallyLoad_fst, tallyLoad_fst]
    unfold tallyLoad
    rw [hrecords]
    cases hserved : served k with
    | error e => rfl
    | ok items =>
      -- The record that is written is the answer that was served before.
      show ((Function.update t.records k (some items) k').map _).getD _ = _
      -- A load of the same kind answers what was remembered; any other finds nothing changed.
      by_cases hk : k' = k
      · subst hk
        rw [Function.update_self, hrecords, hserved]
        rfl
      · rw [Function.update_of_ne hk]

/-- By the tally loads answer this, and the records of these kinds are there. -/
structure Supplies (L : Layout σ Record Link Valued) (config : Config) (offer : Offer)
    (loads : (k : Kind) → Except Failure (List (Record k))) (there : Kind → Prop)
    (t : Tally Record Link Valued) : Prop where
  answers : ∀ k, (L.tallyLoad k (offer.records config (L.collection k)) t).1 = loads k
  loaded : ∀ k, there k → (t.records k).isSome

variable {config : Config} {offer : Offer} {loads : (k : Kind) → Except Failure (List (Record k))}
  {there there' : Kind → Prop} {t t' : Tally Record Link Valued}

namespace Supplies

theorem records_eq (h : L.Supplies config offer loads there t) {k : Kind} (hk : there k)
    {items : List (Record k)} (hitems : loads k = .ok items) : t.records k = some items := by
  obtain ⟨items', hitems'⟩ := Option.isSome_iff_exists.1 (h.loaded k hk)
  have hload := h.answers k
  rw [tallyLoad_of_some hitems', hitems] at hload
  rw [hitems', Except.ok.inj hload]

/-- After a load that succeeds its records are there, and loads answer as before. -/
theorem tallyLoad (h : L.Supplies config offer loads there t) {k : Kind}
    {items : List (Record k)} (hitems : loads k = .ok items) :
    ∃ t', L.tallyLoad k (offer.records config (L.collection k)) t = (.ok items, t') ∧
      L.Supplies config offer loads (fun k' => k' = k ∨ there k') t' := by
  have hkept := L.tallyLoad_fst_tallyLoad (fun k => offer.records config (L.collection k)) k
  rcases hload : L.tallyLoad k (offer.records config (L.collection k)) t with ⟨outcome, t'⟩
  obtain rfl : outcome = .ok items := by
    rw [← hitems, ← h.answers, hload]
  obtain ⟨hthere, hkeeps⟩ := records_of_tallyLoad hload
  refine ⟨t', rfl, fun k' => ?_, ?_⟩
  · have hanswer := hkept k' t
    rw [hload] at hanswer
    exact hanswer.trans (h.answers k')
  · rintro k' (rfl | hk')
    · rw [hthere]
      rfl
    · obtain ⟨items', hitems'⟩ := Option.isSome_iff_exists.1 (h.loaded k' hk')
      rw [hkeeps k' items' hitems']
      rfl

/-- Only the records matter. -/
theorem of_records_eq (h : L.Supplies config offer loads there t)
    (hsame : t'.records = t.records) : L.Supplies config offer loads there t' where
  answers k := by
    rw [tallyLoad_fst, hsame, ← L.tallyLoad_fst]
    exact h.answers k
  loaded k hk := by
    rw [hsame]
    exact h.loaded k hk

end Supplies

/-- Loads answer this, and the records of these kinds are there. -/
def Ready (L : Layout σ Record Link Valued) (config : Config) (offer : Offer)
    (loads : (k : Kind) → Except Failure (List (Record k))) (there : Kind → Prop) (s : σ) :
    Prop :=
  ∃ t, L.Mirrors config offer s t ∧ L.Supplies config offer loads there t

/-- A context that mirrors a tally is ready for a walk. -/
theorem Mirrors.ready {s : σ} (h : L.Mirrors config offer s t) :
    L.Ready config offer (fun k => (L.load k s).1) (fun _ => False) s :=
  ⟨t, h, fun k => (load_agrees h k).1.symm, fun _ hk => hk.elim⟩

theorem Ready.weaken {s : σ} (h : L.Ready config offer loads there s)
    (hthere : ∀ k, there' k → there k) : L.Ready config offer loads there' s := by
  obtain ⟨t, hmirrors, hsupplies⟩ := h
  exact ⟨t, hmirrors, hsupplies.answers, fun k hk => hsupplies.loaded k (hthere k hk)⟩

/-- A load that succeeds leaves the context ready, with its records there. -/
theorem answers_load {k : Kind} {items : List (Record k)} (hitems : loads k = .ok items) :
    (L.load k).Answers (L.Ready config offer loads there) items
      (L.Ready config offer loads fun k' => k' = k ∨ there k') := by
  rintro s ⟨t, h, hsupplies⟩
  have hagree := load_agrees h k
  obtain ⟨t', hload, hsupplies'⟩ := hsupplies.tallyLoad hitems
  rcases hrun : L.load k s with ⟨outcome, s'⟩
  rw [hrun, hload] at hagree
  obtain ⟨rfl, h'⟩ : outcome = .ok items ∧ L.Mirrors config offer s' t' := hagree
  exact ⟨s', rfl, t', h', hsupplies'⟩

/-- An access of a view leads from loaded parents to the children that are related to its record,
    whatever else is loaded and however often it was made before. -/
def Leads (L : Layout σ Record Link Valued) (p c : Kind) (related : Record p → Record c → Bool)
    (access : View (Record p) → Action σ γ) (render : List (Record c) → List Nat → γ) : Prop :=
  ∀ config offer loads there ps cs v, loads p = .ok ps → loads c = .ok cs → there p →
    v ∈ View.all ps →
      (access v).Answers (L.Ready config offer loads there)
        (render cs (matchingIndices (related v.record) cs))
        (L.Ready config offer loads fun k => k = c ∨ there k)

section Links

variable [DecidableEq Link]

/-- An access leads along a link if it does what the tally does there.

    The three forms of accesses differ in what they hand out and in the order of their steps. For
    the tally they are one: it loads the children, and enters the join. -/
theorem leads_of_agrees (l : Link) {access : View (Record (L.parent l)) → Action σ γ}
    {render : List (Record (L.child l)) → List Nat → γ}
    (hagree : ∀ {config : Config} {offer : Offer} {s : σ} {t : Tally Record Link Valued},
      L.Mirrors config offer s t →
      ∀ {v : View (Record (L.parent l))}, v.StandsIn (t.records (L.parent l)) →
      Agree (L.Mirrors config offer) (access v s)
        ((do
          let items ← L.tallyLoad (L.child l) (offer.records config (L.collection (L.child l)))
          L.tallyJoin l v
          return render items (matchingIndices ((L.join l).related v.record) items) :
            Attempt (Tally Record Link Valued) Failure γ) t)) :
    L.Leads (L.parent l) (L.child l) (L.join l).related access render := by
  rintro config offer loads there ps cs v hps hcs hthere hv s ⟨t, h, hsupplies⟩
  have hagree := hagree h ⟨ps, hsupplies.records_eq hthere hps, getElem?_of_mem_all hv⟩
  -- The tally loads the children, which leaves what loads answer, and enters the join.
  obtain ⟨t', hload, hsupplies'⟩ := hsupplies.tallyLoad hcs
  obtain ⟨t'', hjoined, hremembered⟩ := L.tallyJoin_ok l v t'
  rw [Attempt.bind_of_ok _ hload, Attempt.bind_of_ok _ hjoined] at hagree
  rcases hrun : access v s with ⟨outcome, s'⟩
  rw [hrun] at hagree
  obtain ⟨rfl, h'⟩ :
    outcome = .ok (render cs (matchingIndices ((L.join l).related v.record) cs)) ∧
      L.Mirrors config offer s' t'' := hagree
  exact ⟨s', rfl, t'', h', hsupplies'.of_records_eq (congrArg Remembered.records hremembered)⟩

/-! ## Section 4: Accesses along a link -/

theorem leads_indices (l : Link) :
    L.Leads (L.parent l) (L.child l) (L.join l).related (fun v => (L.join l).indices v.index)
      fun _ found => found :=
  leads_of_agrees l fun h _ hv => indices_agrees h l hv

theorem leads_records (l : Link) :
    L.Leads (L.parent l) (L.child l) (L.join l).related (L.join l).records recordsAt :=
  leads_of_agrees l fun h _ hv => records_first_agrees h l hv (recordsAt?_matchingIndices _)

theorem leads_views (l : Link) :
    L.Leads (L.parent l) (L.child l) (L.join l).related (L.join l).views View.pick :=
  leads_of_agrees l fun h _ hv => records_first_agrees h l hv (pick?_matchingIndices _)

theorem leads_viewsByIndex (l : Link) :
    L.Leads (L.parent l) (L.child l) (L.join l).related (L.join l).viewsByIndex View.pick :=
  leads_of_agrees l fun h _ hv => indices_first_agrees h l hv (pick?_matchingIndices _)

end Links

/-! ## Section 5: Walks -/

theorem answers_allViews {p : Kind} {ps : List (Record p)} (hps : loads p = .ok ps) :
    (allViews (L.load p)).Answers (L.Ready config offer loads there) (View.all ps)
      (L.Ready config offer loads fun k => k = p ∨ there k) :=
  (answers_load hps).bind (.pure (View.all ps))

/-- Views of parents that are there are asked one after another. -/
theorem Leads.answers_mapM {p c : Kind} {related : Record p → Record c → Bool}
    {access : View (Record p) → Action σ γ} {render : List (Record c) → List Nat → γ}
    (h : L.Leads p c related access render) {ps : List (Record p)} {cs : List (Record c)}
    (hps : loads p = .ok ps) (hcs : loads c = .ok cs) (hthere : there p)
    {vs : List (View (Record p))} (hvs : ∀ v ∈ vs, v ∈ View.all ps) :
    (vs.mapM access).Answers (L.Ready config offer loads there)
      (vs.map fun v => render cs (matchingIndices (related v.record) cs))
      (L.Ready config offer loads there) := by
  -- Every access leaves at least what the next one needs.
  refine .mapM fun v hv => ?_
  have hanswers := h config offer loads there ps cs v hps hcs hthere (hvs v hv)
  exact hanswers.weaken fun s hs => hs.weaken fun k hk => .inr hk

/-- A walk through the parents answers for one after another. -/
theorem Leads.answers_walk {p c : Kind} {related : Record p → Record c → Bool}
    {access : View (Record p) → Action σ γ} {render : List (Record c) → List Nat → γ}
    (h : L.Leads p c related access render) {ps : List (Record p)} {cs : List (Record c)}
    (hps : loads p = .ok ps) (hcs : loads c = .ok cs) :
    (walk (allViews (L.load p)) access).Answers (L.Ready config offer loads there)
      (ps.map fun a => render cs (matchingIndices (related a) cs))
      (L.Ready config offer loads fun k => k = p ∨ there k) := by
  rw [← map_all _ ps]
  exact (answers_allViews hps).bind (h.answers_mapM hps hcs (.inl rfl) fun _ hv => hv)

/-- A walk through the parents and on through their children answers for one child after
    another. -/
theorem Leads.answers_walk_through {p b c : Kind} {related : Record p → Record b → Bool}
    {access : View (Record p) → Action σ (List (View (Record b)))}
    (h : L.Leads p b related access View.pick) {related' : Record b → Record c → Bool}
    {access' : View (Record b) → Action σ γ} {render : List (Record c) → List Nat → γ}
    (h' : L.Leads b c related' access' render) {ps : List (Record p)} {bs : List (Record b)}
    {cs : List (Record c)} (hps : loads p = .ok ps) (hbs : loads b = .ok bs)
    (hcs : loads c = .ok cs) :
    (walk (allViews (L.load p)) fun v => walk (access v) access').Answers
      (L.Ready config offer loads there)
      (ps.map fun a => (bs.filter (related a)).map fun x =>
        render cs (matchingIndices (related' x) cs))
      (L.Ready config offer loads fun k => k = p ∨ there k) := by
  rw [← map_all _ ps]
  refine (answers_allViews hps).bind (.mapM fun v hv => ?_)
  -- The views that are handed out for a parent are views of records that are there by then.
  have hviews := h config offer loads (fun k => k = p ∨ there k) ps bs v hps hbs (.inl rfl) hv
  rw [pick_matchingIndices] at hviews
  have hchildren : (((View.all bs).filter fun w => related v.record w.record).mapM access').Answers
      (L.Ready config offer loads fun k => k = b ∨ k = p ∨ there k)
      ((bs.filter (related v.record)).map fun x => render cs (matchingIndices (related' x) cs))
      (L.Ready config offer loads fun k => k = b ∨ k = p ∨ there k) := by
    rw [← map_filter_all]
    exact h'.answers_mapM hbs hcs (.inl rfl) fun _ hw => List.mem_of_mem_filter hw
  exact (hviews.bind hchildren).weaken fun s hs => hs.weaken fun k hk => .inr hk

/-! ## Section 6: Routes along a layout -/

variable {p b c : Kind}

/-- The route goes along a layout, and its keys say who is related to whom. -/
structure Along (L : Layout σ Record Link Valued) (p c : Kind)
    (route : Route σ (Record p) (Record c) δ κ) : Prop where
  views : route.views = allViews (L.load p)
  parents : route.join.parents = L.load p
  children : route.join.children = L.load c
  related_iff : ∀ a x, route.join.related a x = true ↔ route.childKey x = route.parentKey a
  indices : L.Leads p c route.join.related (fun v => route.join.indices v.index)
    fun _ found => found
  access : L.Leads p c route.join.related route.access route.render
  renders : Renders route.render

/-- A route along a link, whose keys say what the join of the link does. -/
theorem along_of_leads [DecidableEq Link] (l : Link)
    {access : View (Record (L.parent l)) → Action σ (List δ)}
    {render : List (Record (L.child l)) → List Nat → List δ} {parentKey : Record (L.parent l) → κ}
    {childKey : Record (L.child l) → κ}
    (hkeys : ∀ a x, (L.join l).related a x = true ↔ childKey x = parentKey a)
    (haccess : L.Leads (L.parent l) (L.child l) (L.join l).related access render)
    (hrenders : Renders render) :
    L.Along (L.parent l) (L.child l)
      ⟨L.join l, allViews (L.load (L.parent l)), access, render, parentKey, childKey⟩ where
  views := rfl
  parents := L.join_parents l
  children := L.join_children l
  related_iff := hkeys
  indices := leads_indices l
  access := haccess
  renders := hrenders

/-- A route that hands out the records of children. -/
theorem along_records (L : Layout σ Record Link Valued) [DecidableEq Link] (l : Link)
    {parentKey : Record (L.parent l) → κ} {childKey : Record (L.child l) → κ}
    (hkeys : ∀ a x, (L.join l).related a x = true ↔ childKey x = parentKey a) :
    L.Along (L.parent l) (L.child l)
      ⟨L.join l, allViews (L.load (L.parent l)), (L.join l).records, recordsAt, parentKey,
        childKey⟩ :=
  along_of_leads l hkeys (leads_records l) renders_recordsAt

/-- A route that hands out views of children. -/
theorem along_views (L : Layout σ Record Link Valued) [DecidableEq Link] (l : Link)
    {parentKey : Record (L.parent l) → κ} {childKey : Record (L.child l) → κ}
    (hkeys : ∀ a x, (L.join l).related a x = true ↔ childKey x = parentKey a) :
    L.Along (L.parent l) (L.child l)
      ⟨L.join l, allViews (L.load (L.parent l)), (L.join l).views, View.pick, parentKey,
        childKey⟩ :=
  along_of_leads l hkeys (leads_views l) renders_pick

/-- A route that hands out views of children, and asks for their positions first. -/
theorem along_viewsByIndex (L : Layout σ Record Link Valued) [DecidableEq Link] (l : Link)
    {parentKey : Record (L.parent l) → κ} {childKey : Record (L.child l) → κ}
    (hkeys : ∀ a x, (L.join l).related a x = true ↔ childKey x = parentKey a) :
    L.Along (L.parent l) (L.child l)
      ⟨L.join l, allViews (L.load (L.parent l)), (L.join l).viewsByIndex, View.pick, parentKey,
        childKey⟩ :=
  along_of_leads l hkeys (leads_viewsByIndex l) renders_pick

namespace Along

variable [DecidableEq κ] [DecidableEq ν]

theorem related_eq {route : Route σ (Record p) (Record c) δ κ} (h : L.Along p c route)
    (a : Record p) :
    route.join.related a = fun x => decide (route.childKey x = route.parentKey a) := by
  funext x
  exact Bool.eq_iff_iff.2 ((h.related_iff a x).trans decide_eq_true_iff.symm)

variable {s : σ} {t : Tally Record Link Valued}

/-- Parents with distinct keys share out their children.

    Two walks are compared, one that asks for positions and one that hands out records or views.
    Each starts from the same state, and both find what a filter over the children does; the rest
    is a fact about these filters. -/
theorem shares {route : Route σ (Record p) (Record c) δ κ} (h : L.Along p c route)
    (hmirrors : L.Mirrors config offer s t) : route.Shares s := by
  intro parents children hparents hchildren hkeys
  rw [h.parents] at hparents
  rw [h.children] at hchildren
  -- Both walks go through the same parents, and see the same children.
  let found := parents.map fun a => matchingIndices (route.join.related a) children
  obtain ⟨s', hfound, -⟩ := h.indices.answers_walk hparents hchildren s hmirrors.ready
  obtain ⟨s'', haccess, -⟩ := h.access.answers_walk hparents hchildren s hmirrors.ready
  have hshares : SharesOut
      (fun x => decide (route.childKey x ∈ parents.map route.parentKey)) children found := by
    have hkeyed := sharesOut_of_nodup hkeys route.childKey children
    rw [List.map_map] at hkeyed
    simpa only [found, h.related_eq, Function.comp_def] using hkeyed
  refine ⟨found, ?_, ?_, hshares, hshares.perm_render h.renders⟩
  · rw [h.views, hfound]
  · rw [h.views, haccess, List.map_map]
    rfl

/-- Parents with distinct keys share out the children of their children, if these have distinct
    keys too.

    The walk visits every record between at most once, as that one is a child of one parent at
    most. So its visits are to records with distinct keys, which share out the children. -/
theorem sharesThrough {first : Route σ (Record p) (Record b) (View (Record b)) κ}
    {second : Route σ (Record b) (Record c) δ ν} (h : L.Along p b first) (h' : L.Along b c second)
    (hpick : first.render = View.pick) (hmirrors : L.Mirrors config offer s t) :
    first.SharesThrough second s := by
  intro parents between children hparents hbetween hchildren hkeys hkeys'
  rw [h.parents] at hparents
  rw [h.children] at hbetween
  rw [h'.children] at hchildren
  have haccess := h.access
  rw [hpick] at haccess
  -- What is found is grouped by parents, and in each group by the records between.
  let found := parents.map fun a => (between.filter (first.join.related a)).map fun x =>
    matchingIndices (second.join.related x) children
  obtain ⟨s', hfound, -⟩ :=
    haccess.answers_walk_through h'.indices hparents hbetween hchildren s hmirrors.ready
  obtain ⟨s'', hanswers, -⟩ :=
    haccess.answers_walk_through h'.access hparents hbetween hchildren s hmirrors.ready
  have hshares : SharesOut (fun x => decide (∃ b ∈ between,
      first.childKey b ∈ parents.map first.parentKey ∧
        second.parentKey b = second.childKey x)) children found.flatten := by
    have hkeyed := sharesOut_through hkeys first.childKey hkeys' second.childKey children
    rw [List.map_map] at hkeyed
    simpa only [found, h.related_eq, h'.related_eq, Function.comp_def] using hkeyed
  refine ⟨found, ?_, ?_, hshares, hshares.perm_render h'.renders⟩
  · rw [h.views, hfound]
  · rw [h.views, hanswers, List.map_map]
    simp only [Function.comp_def, List.map_map]

end Along

end Layout

end ChainGuest
