import Handly.Lib.Interleaving

/-!
# Components over one store

A component that reads and writes a part of a larger store is a machine over the whole of it
(`Machine.onPart`). Several components over one store, whose calls are numbered together, are one
machine again (`Machine.sigma`): a call, like an input, is tagged with its component, and a
statement takes an input of its own one.

`Outline.sigma` is the rule for assertions about such a machine. It asks about the statements of
each component as the component itself has them.
-/

namespace Interleaving

universe u u' v w

variable {σ : Type u} {τ : Type u'}

/-- The same outcome, its store put into a larger one and its calls tagged. -/
def Outcome.map {κ κ' : Type v} (f : τ → σ) (g : κ → κ') (o : Outcome τ κ) : Outcome σ κ' :=
  ⟨f o.store, g o.call, o.spawned.map g⟩

namespace Machine

/-! ### One component over a part of the store -/

/-- The component, of which only the calls with `p` are started. -/
def restrict {κ : Type v} {ι : Type w} (M : Machine τ κ ι) (p : κ → Bool) : Machine τ κ ι :=
  { M with entry := fun k => M.entry k && p k }

/-- What the restricted component does, the component does, and each call that is started
has `p`. -/
theorem restrict_fires {κ : Type v} {ι : Type w} {M : Machine τ κ ι} {p : κ → Bool}
    {t : Transition τ κ ι} (h : (M.restrict p).Fires t) :
    M.Fires t ∧ ∀ k, t.event = .start k → p k = true := by
  obtain ⟨c, e, c'⟩ := t
  cases e with
  | run i x => exact ⟨h, fun k he => by simp at he⟩
  | start k =>
      rcases h.cases with ⟨k', he, hk, hpost⟩ | ⟨i, x, k', o, he, -⟩
      · obtain rfl := Event.start.inj he
        obtain ⟨hentry, hp⟩ := Bool.and_eq_true_iff.mp hk
        refine ⟨?_, fun k' he' => Event.start.inj he' ▸ hp⟩
        obtain rfl : c' = ⟨c.store, c.calls ++ [k]⟩ := hpost
        simp [Fires, fire, hentry]
      · simp at he

/-- The component over the part of the store that `get` reads and `put` writes back. -/
def onPart {κ : Type v} {ι : Type w} (M : Machine τ κ ι) (get : σ → τ) (put : τ → σ → σ) :
    Machine σ κ ι where
  entry := M.entry
  step i x k s := (M.step i x k (get s)).map (Outcome.map (fun part => put part s) id)

/-- A statement of the component over the whole store is one over its part. -/
theorem onPart_step {κ : Type v} {ι : Type w} {M : Machine τ κ ι} {get : σ → τ} {put : τ → σ → σ}
    {i : ℕ} {x : ι} {k : κ} {s : σ} {o : Outcome σ κ}
    (h : (M.onPart get put).step i x k s = some o) :
    ∃ o', M.step i x k (get s) = some o' ∧ o = ⟨put o'.store s, o'.call, o'.spawned⟩ := by
  obtain ⟨o', ho', rfl⟩ := Option.map_eq_some_iff.mp h
  exact ⟨o', ho', by simp [Outcome.map]⟩

/-! ### Several components over the same store -/

variable {I : Type} [DecidableEq I] {κ : I → Type v} {ι : I → Type w}

/-- The components side by side. -/
def sigma (M : ∀ c, Machine σ (κ c) (ι c)) : Machine σ (Σ c, κ c) (Σ c, ι c) where
  entry k := (M k.1).entry k.2
  step i x k s :=
    if h : x.1 = k.1 then
      ((M k.1).step i (h ▸ x.2) k.2 s).map (Outcome.map id (Sigma.mk k.1))
    else none

/-- A statement of the whole is one of the component whose call it runs. -/
theorem sigma_step {M : ∀ c, Machine σ (κ c) (ι c)} {i : ℕ} {x : Σ c, ι c} {c : I} {k : κ c}
    {s : σ} {o : Outcome σ (Σ c, κ c)} (h : (sigma M).step i x ⟨c, k⟩ s = some o) :
    ∃ x' o', x = ⟨c, x'⟩ ∧ (M c).step i x' k s = some o' ∧
      o = ⟨o'.store, ⟨c, o'.call⟩, o'.spawned.map (Sigma.mk c)⟩ := by
  obtain ⟨c', x'⟩ := x
  simp only [sigma] at h
  split at h
  · rename_i hc
    obtain rfl : c' = c := hc
    obtain ⟨o', ho', rfl⟩ := Option.map_eq_some_iff.mp h
    exact ⟨x', o', rfl, ho', rfl⟩
  · simp at h

/-- **What a transition of the whole can be**: the start of a call of some component, or the
next statement of one. -/
theorem sigma_fires {M : ∀ c, Machine σ (κ c) (ι c)} {t : Transition σ (Σ c, κ c) (Σ c, ι c)}
    (h : (sigma M).Fires t) :
    (∃ c k, t.event = .start ⟨c, k⟩ ∧ (M c).entry k = true ∧
        t.post = ⟨t.pre.store, t.pre.calls ++ [⟨c, k⟩]⟩) ∨
    (∃ i c x k o, t.event = .run i ⟨c, x⟩ ∧ t.pre.calls[i]? = some ⟨c, k⟩ ∧
        (M c).step i x k t.pre.store = some o ∧
        t.post = ⟨o.store, t.pre.calls.set i ⟨c, o.call⟩ ++ o.spawned.map (Sigma.mk c)⟩) := by
  rcases h.cases with ⟨⟨c, k⟩, he, hk, hpost⟩ | ⟨i, x, ⟨c, k⟩, o, he, hk, ho, hpost⟩
  · exact Or.inl ⟨c, k, he, hk, hpost⟩
  · obtain ⟨x', o', rfl, ho', rfl⟩ := sigma_step ho
    exact Or.inr ⟨i, c, x', k, o', he, hk, ho', hpost⟩

/-- The store after a transition is what the statement that it runs leaves. -/
theorem sigma_post {M : ∀ c, Machine σ (κ c) (ι c)} {t : Transition σ (Σ c, κ c) (Σ c, ι c)}
    (h : (sigma M).Fires t) {i : ℕ} {c : I} {x : ι c} {k : κ c} {o : Outcome σ (κ c)}
    (he : t.event = .run i ⟨c, x⟩) (hk : t.pre.calls[i]? = some ⟨c, k⟩)
    (ho : (M c).step i x k t.pre.store = some o) : t.post.store = o.store := by
  rcases sigma_fires h with ⟨c', k', he', -⟩ | ⟨i', c', x', k', o', he', hk', ho', hpost⟩
  · simp [he] at he'
  · obtain ⟨rfl, hx⟩ := Event.run.inj (he.symm.trans he')
    cases hx
    cases Option.some.inj (hk.symm.trans hk')
    cases ho.symm.trans ho'
    rw [hpost]

end Machine

/-! ### Assertions -/

/-- The outline of a composition, from facts about the statements of its components. -/
def Outline.sigma {I : Type} [DecidableEq I] {κ : I → Type v} {ι : I → Type w}
    (M : ∀ c, Machine σ (κ c) (ι c)) (C : Transition σ (Σ c, κ c) (Σ c, ι c) → Prop)
    (G : σ → Prop) (L : σ → ℕ → (Σ c, κ c) → Prop)
    (start : ∀ s i c k, (M c).entry k = true → G s → L s i ⟨c, k⟩)
    (own : ∀ t i c x k o, C t → t.event = .run i ⟨c, x⟩ → t.pre.calls[i]? = some ⟨c, k⟩ →
      (M c).step i x k t.pre.store = some o →
      t.post = ⟨o.store, t.pre.calls.set i ⟨c, o.call⟩ ++ o.spawned.map (Sigma.mk c)⟩ →
      G t.pre.store → L t.pre.store i ⟨c, k⟩ →
      G o.store ∧ L o.store i ⟨c, o.call⟩ ∧ ∀ k' ∈ o.spawned, (M c).entry k' = true)
    (others : ∀ t i c x k o j c' k', C t → t.event = .run i ⟨c, x⟩ →
      t.pre.calls[i]? = some ⟨c, k⟩ → (M c).step i x k t.pre.store = some o →
      t.pre.calls[j]? = some ⟨c', k'⟩ → i ≠ j → G t.pre.store → L t.pre.store i ⟨c, k⟩ →
      L t.pre.store j ⟨c', k'⟩ → L o.store j ⟨c', k'⟩) : Outline (Machine.sigma M) C where
  G := G
  L := L
  start t i k _ _ hentry hG := start t.pre.store i k.1 k.2 hentry hG
  own t i x k o hC he hk hstep hpost hG hL := by
    obtain ⟨c, k⟩ := k
    obtain ⟨x', o', rfl, ho', rfl⟩ := Machine.sigma_step hstep
    obtain ⟨hG', hown, hspawned⟩ := own t i c x' k o' hC he hk ho' hpost hG hL
    refine ⟨hG', hown, fun j k' hk' => ?_⟩
    obtain ⟨k', hmem, rfl⟩ := List.mem_map.mp hk'
    exact start o'.store j c k' (hspawned k' hmem) hG'
  others t i x k o j k' hC he hk hstep hk' hne hG hL hL' := by
    obtain ⟨c, k⟩ := k
    obtain ⟨x', o', rfl, ho', rfl⟩ := Machine.sigma_step hstep
    exact others t i c x' k o' j k'.1 k'.2 hC he hk ho' hk' hne hG hL hL'

end Interleaving
