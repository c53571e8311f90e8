import Handly.Lib.Interleaving
import Handly.Lib.Table

/-!
# One decision on a record

Calls that decide on a record all go the same way: a call writes its decision under a guard
that finds the record open, and tells it in a later statement. A `Register` says what a store
and its calls show of one record, and a `Move` what a statement may do with it. Over a run of
moves the decision is made once.
-/

namespace OneDecision

open Interleaving

/-- How far a call has come with its decision. -/
inductive Stage
  /-- It has not written one. -/
  | idle
  /-- Its decision is stored and was not told yet. -/
  | written
  /-- Its decision was told. -/
  | done
  deriving DecidableEq

/-- What a store and its calls show of one record. -/
structure Register (σ κ O D N Δ : Type*) where
  /-- The decision on the record, if there is one. -/
  decision : σ → Option D
  /-- The notices of decisions on the record. -/
  notices : σ → List N
  /-- All that a statement can change. -/
  data : σ → Δ
  /-- What a call was asked to do. -/
  op : κ → O
  stage : κ → Stage
  /-- Such a call decides on the record. -/
  Decides : O → Prop
  /-- Such a call makes this decision. -/
  Asks : O → D → Prop
  /-- The notice states the decision of such a call. -/
  States : O → N → Prop

namespace Register

variable {σ κ ι O D N Δ : Type*} (R : Register σ κ O D N Δ)

/-- What one statement may do with the record. -/
inductive Move (s : σ) (k : κ) (s' : σ) (k' : κ) : Prop
  | keep : R.decision s' = R.decision s → R.notices s' = R.notices s → R.stage k' = R.stage k →
      (R.Decides (R.op k) → R.data s' = R.data s) → Move s k s' k'
  | write {d : D} : R.decision s = none → R.decision s' = some d → R.notices s' = R.notices s →
      R.stage k = .idle → R.stage k' = .written → R.Asks (R.op k) d → Move s k s' k'
  | tell {n : N} : R.decision s' = R.decision s → R.notices s' = R.notices s ++ [n] →
      R.stage k = .written → R.stage k' = .done → R.States (R.op k) n → Move s k s' k'

/-- A transition that starts a call with nothing written, or runs a statement that is a move. -/
inductive Moves (t : Transition σ κ ι) : Prop
  | start {k : κ} : t.event = .start k → t.post = ⟨t.pre.store, t.pre.calls ++ [k]⟩ →
      R.stage k = .idle → Moves t
  | run {i : ℕ} {x : ι} {k k' : κ} {s' : σ} : t.event = .run i x → t.pre.calls[i]? = some k →
      t.post = ⟨s', t.pre.calls.set i k'⟩ → R.op k' = R.op k →
      R.Move t.pre.store k s' k' → Moves t

/-- The same call, as far or further. -/
structure Later (k k' : κ) : Prop where
  op : R.op k' = R.op k
  past : R.stage k ≠ .idle → R.stage k' ≠ .idle
  done : R.stage k = .done → R.stage k' = .done

/-- The record of `s₀` as it stands after some moves. -/
inductive Account (s₀ : σ) (c : Config σ κ) : Prop
  | undecided : R.decision c.store = none → R.notices c.store = R.notices s₀ →
      (∀ (i : ℕ) (k : κ), c.calls[i]? = some k → R.stage k = .idle) → Account s₀ c
  /-- Call `i` has decided. -/
  | decided {i : ℕ} {k : κ} {d : D} : c.calls[i]? = some k → R.stage k ≠ .idle →
      R.Asks (R.op k) d → R.decision c.store = some d →
      (R.stage k = .written → R.notices c.store = R.notices s₀) →
      (R.stage k = .done → ∃ n, R.States (R.op k) n ∧ R.notices c.store = R.notices s₀ ++ [n]) →
      (∀ (j : ℕ) (k' : κ), c.calls[j]? = some k' → j ≠ i → R.stage k' = .idle) → Account s₀ c

/-- **The decision is made once.** In a run from `s₀` to `c'`: -/
structure MadeOnce (s₀ : σ) (ts : List (Transition σ κ ι)) (c' : Config σ κ) : Prop where
  /-- At most one call completes a decision. -/
  one : ∀ (i j : ℕ) (k k' : κ), c'.calls[i]? = some k → c'.calls[j]? = some k' →
    R.stage k = .done → R.stage k' = .done → i = j
  /-- From its completion on the decision is the one that this call wrote, and the one notice
  of it states it. -/
  final : ∀ t ∈ ts, ∀ (i : ℕ) (k : κ), t.post.calls[i]? = some k → R.stage k = .done →
    ∃ d n, R.Asks (R.op k) d ∧ R.States (R.op k) n ∧
      R.decision t.post.store = some d ∧ R.decision c'.store = some d ∧
      (∃ t' ∈ ts, t'.IsBy i ∧ R.decision t'.pre.store = none ∧
        R.decision t'.post.store = some d) ∧
      R.notices c'.store = R.notices s₀ ++ [n]
  /-- A call that has not written its decision changes nothing. -/
  others : ∀ (i : ℕ) (k : κ), c'.calls[i]? = some k → R.Decides (R.op k) → R.stage k = .idle →
    ∀ t ∈ ts, t.IsBy i → R.data t.post.store = R.data t.pre.store
  /-- Where none has, the record is as it was. -/
  untouched : (∀ (i : ℕ) (k : κ), c'.calls[i]? = some k → R.stage k = .idle) →
    R.decision c'.store = none ∧ R.notices c'.store = R.notices s₀

variable {R}

theorem Later.refl (k : κ) : R.Later k k := ⟨rfl, id, id⟩

theorem Later.trans {k k' k'' : κ} (h : R.Later k k') (h' : R.Later k' k'') : R.Later k k'' :=
  ⟨h'.op.trans h.op, fun hk => h'.past (h.past hk), fun hk => h'.done (h.done hk)⟩

/-! ### One move -/

theorem set_getElem? {calls : List κ} {i j : ℕ} {k k' k₀ : κ} (hi : calls[i]? = some k)
    (hj : (calls.set i k')[j]? = some k₀) : (j = i ∧ k₀ = k') ∨ (j ≠ i ∧ calls[j]? = some k₀) := by
  by_cases hji : j = i
  · subst hji
    rw [List.getElem?_set_self (List.getElem?_eq_some_iff.mp hi).1] at hj
    exact Or.inl ⟨rfl, (Option.some.inj hj).symm⟩
  · rw [List.getElem?_set_ne (Ne.symm hji)] at hj
    exact Or.inr ⟨hji, hj⟩

/-- A stored decision stays. -/
theorem Moves.decision {t : Transition σ κ ι} (h : R.Moves t) {d : D}
    (hd : R.decision t.pre.store = some d) : R.decision t.post.store = some d := by
  cases h with
  | start _ hpost => rwa [hpost]
  | run _ _ hpost _ hmove =>
      rw [hpost]
      cases hmove with
      | keep hdecision => exact hdecision.trans hd
      | write hnone => exact absurd (hnone.symm.trans hd) (by simp)
      | tell hdecision => exact hdecision.trans hd

/-- No move takes a call back. -/
theorem Move.later {s s' : σ} {k k' : κ} (h : R.Move s k s' k') (hop : R.op k' = R.op k) :
    R.Later k k' := by
  cases h with
  | keep _ _ hsame => exact ⟨hop, fun h => hsame ▸ h, fun h => hsame.trans h⟩
  | write _ _ _ hidle hwritten =>
      exact ⟨hop, fun h => absurd hidle h, fun h => absurd (hidle.symm.trans h) (by simp)⟩
  | tell _ _ _ hdone => exact ⟨hop, fun _ => by simp [hdone], fun _ => hdone⟩

theorem Moves.later {t : Transition σ κ ι} (h : R.Moves t) {i : ℕ} {k : κ}
    (hk : t.pre.calls[i]? = some k) : ∃ k', t.post.calls[i]? = some k' ∧ R.Later k k' := by
  have hlt := (List.getElem?_eq_some_iff.mp hk).1
  cases h with
  | start _ hpost =>
      rw [hpost]
      exact ⟨k, by rwa [List.getElem?_append_left hlt], .refl k⟩
  | @run i' x k₀ k' s' _ hi hpost hop hmove =>
      rw [hpost]
      by_cases hii : i = i'
      · subst hii
        obtain rfl := Option.some.inj (hi.symm.trans hk)
        exact ⟨k', List.getElem?_set_self hlt, hmove.later hop⟩
      · exact ⟨k, by rwa [List.getElem?_set_ne (Ne.symm hii)], .refl k⟩

theorem Moves.account {t : Transition σ κ ι} (h : R.Moves t) {s₀ : σ} (hpre : R.Account s₀ t.pre) :
    R.Account s₀ t.post := by
  cases h with
  | @start k _ hpost hidle =>
      rw [hpost]
      cases hpre with
      | undecided hnone hnotices hall =>
          refine .undecided hnone hnotices fun j k₀ hj => ?_
          rcases Table.of_append hj with hj | ⟨-, rfl⟩
          · exact hall j k₀ hj
          · exact hidle
      | @decided i k₁ d hk₁ hstage hasks hd hwritten hdone hothers =>
          have hlt := (List.getElem?_eq_some_iff.mp hk₁).1
          refine .decided (by rwa [List.getElem?_append_left hlt]) hstage hasks hd hwritten hdone
            fun j k₀ hj hji => ?_
          rcases Table.of_append hj with hj | ⟨-, rfl⟩
          · exact hothers j k₀ hj hji
          · exact hidle
  | @run i x k k' s' _ hi hpost hop hmove =>
      rw [hpost]
      have hself : (t.pre.calls.set i k')[i]? = some k' :=
        List.getElem?_set_self (List.getElem?_eq_some_iff.mp hi).1
      cases hpre with
      | undecided hnone hnotices hall =>
          cases hmove with
          | keep hdecision hnotices' hsame =>
              refine .undecided (hdecision.trans hnone) (hnotices'.trans hnotices) fun j k₀ hj => ?_
              rcases set_getElem? hi hj with ⟨-, rfl⟩ | ⟨-, hj⟩
              · exact hsame.trans (hall i k hi)
              · exact hall j k₀ hj
          | write _ hd hnotices' _ hwritten hasks =>
              -- The running call decides.
              refine .decided hself (by simp [hwritten]) (hop ▸ hasks) hd
                (fun _ => hnotices'.trans hnotices) (by simp [hwritten]) fun j k₀ hj hji => ?_
              rcases set_getElem? hi hj with ⟨rfl, -⟩ | ⟨-, hj⟩
              · exact absurd rfl hji
              · exact hall j k₀ hj
          | tell _ _ hwritten => simp [hall i k hi] at hwritten
      | @decided i₁ k₁ d hk₁ hstage hasks hd hwritten hdone hothers =>
          by_cases hii : i = i₁
          · -- The running call is the one that has decided.
            subst hii
            obtain rfl := Option.some.inj (hi.symm.trans hk₁)
            have hrest : ∀ (j : ℕ) (k₀ : κ), (t.pre.calls.set i k')[j]? = some k₀ → j ≠ i →
                R.stage k₀ = .idle := by
              intro j k₀ hj hji
              rcases set_getElem? hi hj with ⟨rfl, -⟩ | ⟨-, hj⟩
              · exact absurd rfl hji
              · exact hothers j k₀ hj hji
            cases hmove with
            | keep hdecision hnotices' hsame =>
                refine .decided hself (by rwa [hsame]) (hop ▸ hasks) (hdecision.trans hd)
                  (fun h => hnotices'.trans (hwritten (hsame.symm.trans h))) (fun h => ?_) hrest
                obtain ⟨n, hstates, hn⟩ := hdone (hsame.symm.trans h)
                exact ⟨n, hop ▸ hstates, hnotices'.trans hn⟩
            | write _ _ _ hidle => exact absurd hidle hstage
            | @tell n hdecision hnotices' hst hst' hstates =>
                refine .decided hself (by simp [hst']) (hop ▸ hasks) (hdecision.trans hd)
                  (by simp [hst']) (fun _ => ⟨n, hop ▸ hstates, ?_⟩) hrest
                exact hnotices'.trans (congrArg (· ++ [n]) (hwritten hst))
          · -- Every other call keeps the record.
            have hidle : R.stage k = .idle := hothers i k hi hii
            cases hmove with
            | keep hdecision hnotices' hsame =>
                refine .decided (by rwa [List.getElem?_set_ne hii]) hstage hasks
                  (hdecision.trans hd) (fun h => hnotices'.trans (hwritten h)) (fun h => ?_)
                  fun j k₀ hj hji => ?_
                · obtain ⟨n, hstates, hn⟩ := hdone h
                  exact ⟨n, hstates, hnotices'.trans hn⟩
                · rcases set_getElem? hi hj with ⟨-, rfl⟩ | ⟨-, hj⟩
                  · exact hsame.trans hidle
                  · exact hothers j k₀ hj hji
            | write hnone => exact absurd (hnone.symm.trans hd) (by simp)
            | tell _ _ hst => exact absurd (hidle.symm.trans hst) (by simp)

/-- A call that has written its decision is the one that decided. -/
theorem Account.of_call {s₀ : σ} {c : Config σ κ} (h : R.Account s₀ c) {i : ℕ} {k : κ}
    (hk : c.calls[i]? = some k) (hstage : R.stage k ≠ .idle) :
    ∃ d, R.Asks (R.op k) d ∧ R.decision c.store = some d ∧
      (R.stage k = .done → ∃ n, R.States (R.op k) n ∧ R.notices c.store = R.notices s₀ ++ [n]) ∧
      ∀ (j : ℕ) (k' : κ), c.calls[j]? = some k' → R.stage k' ≠ .idle → j = i := by
  cases h with
  | undecided _ _ hidle => exact absurd (hidle i k hk) hstage
  | @decided i₁ k₁ d hk₁ _ hasks hd _ hdone hothers =>
      have hone : ∀ (j : ℕ) (k' : κ), c.calls[j]? = some k' → R.stage k' ≠ .idle → j = i₁ := by
        intro j k' hj hk'
        by_contra hne
        exact hk' (hothers j k' hj hne)
      obtain rfl := hone i k hk hstage
      obtain rfl := Option.some.inj (hk.symm.trans hk₁)
      exact ⟨d, hasks, hd, hdone, hone⟩

/-! ### Runs of moves -/

variable {M : Machine σ κ ι} {c c' : Config σ κ} {ts : List (Transition σ κ ι)}

theorem decision_of_run (hrun : M.Run c ts c') (hmoves : ∀ t ∈ ts, R.Moves t) {d : D}
    (hd : R.decision c.store = some d) : R.decision c'.store = some d :=
  (hrun.invariant (fun c => R.decision c.store = some d) R.Moves hmoves hd
    fun _ _ hmove => hmove.decision).1

theorem later_of_run (hrun : M.Run c ts c') (hmoves : ∀ t ∈ ts, R.Moves t) {i : ℕ} {k : κ}
    (hk : c.calls[i]? = some k) : ∃ k', c'.calls[i]? = some k' ∧ R.Later k k' := by
  refine (hrun.invariant (fun c => ∃ k', c.calls[i]? = some k' ∧ R.Later k k') R.Moves hmoves
    ⟨k, hk, .refl k⟩ fun t _ hmove hlater => ?_).1
  obtain ⟨k', hk', hlater⟩ := hlater
  obtain ⟨k'', hk'', hlater'⟩ := hmove.later hk'
  exact ⟨k'', hk'', hlater.trans hlater'⟩

/-- A decision that was made in the run was written by one of its calls. -/
theorem exists_write (hrun : M.Run c ts c') (hmoves : ∀ t ∈ ts, R.Moves t)
    (hnone : R.decision c.store = none) {d : D} (hd : R.decision c'.store = some d) :
    ∃ t ∈ ts, ∃ i k, t.IsBy i ∧ t.post.calls[i]? = some k ∧ R.stage k ≠ .idle ∧
      R.decision t.pre.store = none ∧ R.decision t.post.store = some d := by
  induction hrun with
  | nil => exact absurd (hnone.symm.trans hd) (by simp)
  | snoc t hrun hpre hfire ih =>
      cases hstored : R.decision t.pre.store with
      | some d' =>
          have hmove := hmoves t (by simp)
          obtain rfl := Option.some.inj ((hmove.decision hstored).symm.trans hd)
          obtain ⟨t', ht', hwrite⟩ := ih (fun t ht => hmoves t (List.mem_append_left _ ht))
            (hpre ▸ hstored)
          exact ⟨t', List.mem_append_left _ ht', hwrite⟩
      | none =>
          refine ⟨t, by simp, ?_⟩
          cases hmoves t (by simp) with
          | start _ hpost =>
              rw [hpost] at hd
              exact absurd (hstored.symm.trans hd) (by simp)
          | @run i x k k' s' he hi hpost hop hmove =>
              rw [hpost] at hd ⊢
              refine ⟨i, k', ⟨x, he⟩,
                List.getElem?_set_self (List.getElem?_eq_some_iff.mp hi).1, ?_, hstored, hd⟩
              cases hmove with
              | keep hdecision => exact absurd ((hdecision.trans hstored).symm.trans hd) (by simp)
              | write _ _ _ _ hwritten => simp [hwritten]
              | tell hdecision => exact absurd ((hdecision.trans hstored).symm.trans hd) (by simp)

/-- **A run of moves decides once.** -/
theorem madeOnce_of_run {s₀ : σ} (hrun : M.Run ⟨s₀, []⟩ ts c') (hmoves : ∀ t ∈ ts, R.Moves t)
    (hnone : R.decision s₀ = none) : R.MadeOnce s₀ ts c' := by
  obtain ⟨hend, hall⟩ := hrun.invariant (R.Account s₀) R.Moves hmoves
    (.undecided hnone rfl (by simp)) fun _ _ hmove => hmove.account
  refine ⟨fun i j k k' hi hj hk hk' => ?_, fun t ht i k hk hdone => ?_,
    fun i k hk hdecides hidle t ht hby => ?_, fun hidle => ?_⟩
  · obtain ⟨d, -, -, -, hone⟩ := hend.of_call hj (by simp [hk'])
    exact hone i k hi (by simp [hk])
  · obtain ⟨before, after, rfl, -, hafter⟩ := hrun.split t ht
    have hmoves' : ∀ t' ∈ after, R.Moves t' := fun t' ht' => hmoves t' (by simp [ht'])
    obtain ⟨d, hasks, hd, -⟩ := (hall t ht).2.of_call hk (by simp [hdone])
    have hd' := decision_of_run hafter hmoves' hd
    obtain ⟨k', hk', hlater⟩ := later_of_run hafter hmoves' hk
    obtain ⟨-, -, -, hstated, hone⟩ := hend.of_call hk' (hlater.past (by simp [hdone]))
    obtain ⟨n, hstates, hn⟩ := hstated (hlater.done hdone)
    refine ⟨d, n, hasks, hlater.op ▸ hstates, hd, hd', ?_, hn⟩
    -- The call that wrote the decision has come past that point, and only call `i` has.
    obtain ⟨t', ht', j, kj, hby, hkj, hpast, hpre, hpost⟩ := exists_write hrun hmoves hnone hd'
    obtain ⟨before', after', hts, -, hafter'⟩ := hrun.split t' ht'
    obtain ⟨kj', hkj', hlater'⟩ :=
      later_of_run hafter' (fun t'' ht'' => hmoves t'' (by rw [hts]; simp [ht''])) hkj
    obtain rfl : j = i := hone j kj' hkj' (hlater'.past hpast)
    exact ⟨t', ht', hby, hpre, hpost⟩
  · obtain ⟨before, after, rfl, -, hafter⟩ := hrun.split t ht
    have hmoves' : ∀ t' ∈ after, R.Moves t' := fun t' ht' => hmoves t' (by simp [ht'])
    obtain ⟨x, hby⟩ := hby
    cases hmoves t ht with
    | start he => simp [he] at hby
    | @run i' x' k₀ k₁ s' he hi hpost hop hmove =>
        obtain ⟨rfl, rfl⟩ := Event.run.inj (he.symm.trans hby)
        -- What the call was after this statement it still is, so the statement wrote nothing.
        have hself : t.post.calls[i']? = some k₁ := by
          rw [hpost]
          exact List.getElem?_set_self (List.getElem?_eq_some_iff.mp hi).1
        obtain ⟨k', hk', hlater⟩ := later_of_run hafter hmoves' hself
        obtain rfl := Option.some.inj (hk'.symm.trans hk)
        have hidle₁ : R.stage k₁ = .idle := by
          by_contra hne
          exact hlater.past hne hidle
        rw [hpost]
        cases hmove with
        | keep _ _ _ hdata => exact hdata (hop ▸ hlater.op ▸ hdecides)
        | write _ _ _ _ hwritten => exact absurd (hidle₁.symm.trans hwritten) (by simp)
        | tell _ _ _ hdone => exact absurd (hidle₁.symm.trans hdone) (by simp)
  · cases hend with
    | undecided hnone hnotices => exact ⟨hnone, hnotices⟩
    | decided hk hstage => exact absurd (hidle _ _ hk) hstage

end Register

end OneDecision
