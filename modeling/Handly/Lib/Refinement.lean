import Handly.Lib.Interleaving

/-!
# Refinement of a labelled transition system

What a component is for can be said about one object at a time: which steps the object may take,
and whose they are. A machine refines such a description when each of its transitions either
leaves the object or is one of these steps, taken by the one who is said to take it. The run of
the machine then traces a path of the description, whose labels are those of the transitions in
their order, however many calls are interleaved.
-/

namespace Interleaving

universe u v w

/-- A path of labelled steps. -/
inductive Path {S : Type*} {L : Type*} (step : L → S → S → Prop) : S → List L → S → Prop
  | nil (s : S) : Path step s [] s
  | snoc {s s' s'' : S} {ls : List L} {l : L} :
      Path step s ls s' → step l s' s'' → Path step s (ls ++ [l]) s''

/-- What every step keeps holds along a path. -/
theorem Path.invariant {S L : Type*} {step : L → S → S → Prop} {I : S → Prop}
    (hstep : ∀ l s s', step l s s' → I s → I s') {s s' : S} {ls : List L}
    (h : Path step s ls s') (h0 : I s) : I s' := by
  induction h with
  | nil => exact h0
  | snoc _ hlast ih => exact hstep _ _ _ hlast ih

variable {σ : Type u} {κ : Type v} {ι : Type w}

/-- An object that every transition keeps is there at the end. -/
theorem Machine.Run.object_stays {M : Machine σ κ ι} {S : Type*}
    {c c' : Config σ κ} {ts : List (Transition σ κ ι)} (hrun : M.Run c ts c')
    (object : σ → Option S)
    (hstep : ∀ t ∈ ts, (object t.pre.store).isSome → (object t.post.store).isSome)
    (h0 : (object c.store).isSome) : (object c'.store).isSome :=
  (hrun.invariant (fun d => (object d.store).isSome) (· ∈ ts) (fun _ ht => ht) h0
    fun t _ ht h => hstep t ht h).1

/-- **The rule for whole runs.** An object that appears in an initial state, and that every
transition leaves alone or moves by a step with the label of the transition, has come along a
path of the description. -/
theorem Machine.Run.path {M : Machine σ κ ι} {S L : Type*} {step : L → S → S → Prop}
    {c c' : Config σ κ} {ts : List (Transition σ κ ι)} (hrun : M.Run c ts c')
    (object : σ → Option S) (initial : S → Prop) (label : Transition σ κ ι → Option L)
    (hstep : ∀ t ∈ ts, ∀ s, object t.pre.store = some s → ∃ s', object t.post.store = some s' ∧
      (s' = s ∨ ∃ l, label t = some l ∧ step l s s'))
    (hnew : ∀ t ∈ ts, ∀ s', object t.pre.store = none → object t.post.store = some s' →
      initial s')
    {s' : S} (hs' : object c'.store = some s') :
    ∃ s ls, (object c.store = some s ∨ object c.store = none ∧ initial s) ∧
      Path step s ls s' ∧ ls.Sublist (ts.filterMap label) := by
  induction hrun generalizing s' with
  | nil => exact ⟨s', [], Or.inl hs', .nil s', by simp⟩
  | @snoc c' ts t hrun hpre hfire ih =>
      obtain rfl := hpre
      have hsteps := fun t ht => hstep t (List.mem_append_left _ ht)
      have hlast := hstep t (by simp)
      rw [List.filterMap_append]
      cases hs : object t.pre.store with
      | some s =>
          obtain ⟨s₀, ls, hs₀, hpath, hsub⟩ :=
            ih hsteps (fun t ht => hnew t (List.mem_append_left _ ht)) hs
          obtain ⟨s'', hs'', hmove⟩ := hlast s hs
          obtain rfl := Option.some.inj (hs'.symm.trans hs'')
          rcases hmove with rfl | ⟨l, hl, hmove⟩
          · exact ⟨s₀, ls, hs₀, hpath, hsub.trans (List.sublist_append_left _ _)⟩
          · refine ⟨s₀, ls ++ [l], hs₀, hpath.snoc hmove, hsub.append ?_⟩
            simp [hl]
      | none =>
          -- It has not been there before, since no transition drops it.
          have hnone : object c.store = none := by
            by_contra hsome
            have hstays := hrun.object_stays object
              (fun t ht h => by
                obtain ⟨s, hs⟩ := Option.isSome_iff_exists.mp h
                obtain ⟨s'', hs'', -⟩ := hsteps t ht s hs
                simp [hs''])
              (Option.isSome_iff_ne_none.mpr hsome)
            simp [hs] at hstays
          exact ⟨s', [], Or.inr ⟨hnone, hnew t (by simp) s' hs hs'⟩, .nil s', by simp⟩

/-- **The rule for histories.** What a configuration says about the past of its run holds at the
end, if it holds of no past and each transition keeps it, itself now part of the past. -/
theorem Machine.Run.history {M : Machine σ κ ι} {c c' : Config σ κ}
    {ts : List (Transition σ κ ι)} (hrun : M.Run c ts c')
    (I : List (Transition σ κ ι) → Config σ κ → Prop) (h0 : I [] c)
    (hstep : ∀ past t, M.Fires t → I past t.pre → I (past ++ [t]) t.post) : I ts c' := by
  induction hrun with
  | nil => exact h0
  | snoc t hrun hpre hfire ih =>
      obtain rfl := hpre
      exact hstep _ t hfire ih

end Interleaving
