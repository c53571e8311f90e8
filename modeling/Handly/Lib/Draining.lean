import Handly.Lib.Interleaving

/-!
# Machines that drain

Locks make calls wait for each other, and loops make a call repeat its statements. A machine
*drains* when neither keeps it from coming to rest: once the environment starts no more calls,
there is a bound on the statements that are still run, however they are interleaved, and as long
as a call is left some call can run.

`Draining` is the argument for it. Every call has an amount of work left, which its own
statements pay for, spawned calls included, and which the statements of the others never raise.
And a call that waits does so for another one that can run.
-/

namespace Interleaving

universe u v w

variable {σ : Type u} {κ : Type v} {ι : Type w}

/-- The environment starts a call in one of these transitions. -/
def Starting (ts : List (Transition σ κ ι)) : Prop := ∃ t ∈ ts, ∃ k, t.event = .start k

theorem starting_append {ts ts' : List (Transition σ κ ι)} :
    Starting (ts ++ ts') ↔ Starting ts ∨ Starting ts' := by
  simp [Starting, or_and_right, exists_or]

/-- From this configuration the machine comes to rest by itself, within `n` statements. -/
structure Drains (M : Machine σ κ ι) (Finished : κ → Prop) (n : ℕ) (c : Config σ κ) : Prop where
  /-- However the calls are scheduled, they run at most `n` more statements. -/
  bounded : ∀ ts c', M.Run c ts c' → ¬ Starting ts → ts.length ≤ n
  /-- At no time do the calls wait for each other: some call can run on whatever input. -/
  never_stuck : ∀ ts c', M.Run c ts c' → ¬ Starting ts → (∃ k ∈ c'.calls, ¬ Finished k) →
    ∃ i, ∀ x, (M.fire c' (.run i x)).isSome
  /-- Whatever the world supplies, there is a schedule in which every call finishes. -/
  completes : ∀ xs : ℕ → ι, ∃ ts c', M.Run c ts c' ∧
    (∀ (p : ℕ) (t : Transition σ κ ι), ts[p]? = some t → ∃ i, t.event = .run i (xs p)) ∧
    ∀ k ∈ c'.calls, Finished k

/-- The argument that a machine drains. -/
structure Draining (M : Machine σ κ ι) where
  Finished : κ → Prop
  /-- An invariant of the configurations. -/
  Inv : Config σ κ → Prop
  kept : ∀ t, M.Fires t → Inv t.pre → Inv t.post
  /-- A bound on the statements that the call and the calls it spawns can still run. -/
  work : κ → σ → ℕ
  /-- A statement pays for itself and for the calls it spawns. -/
  pays : ∀ c i x k o, Inv c → c.calls[i]? = some k → M.step i x k c.store = some o →
    1 + work o.call o.store + (o.spawned.map fun k' => work k' o.store).sum ≤ work k c.store
  /-- It makes no work for another call. -/
  others : ∀ i x k s o k', M.step i x k s = some o → work k' o.store ≤ work k' s
  /-- A call that has not finished can run, or waits for one that can. -/
  ready : ∀ c k, Inv c → k ∈ c.calls → ¬ Finished k →
    ∃ i, ∀ x, (M.fire c (.run i x)).isSome

namespace Draining

variable {M : Machine σ κ ι}

/-- The work left to all calls. -/
def total (D : Draining M) (c : Config σ κ) : ℕ := (c.calls.map fun k => D.work k c.store).sum

/-- A transition that starts no call pays for one statement. -/
theorem total_fires (D : Draining M) {t : Transition σ κ ι} (ht : M.Fires t)
    (hinv : D.Inv t.pre) (hrun : ¬ Starting [t]) : 1 + D.total t.post ≤ D.total t.pre := by
  rcases ht.cases with ⟨k, he, -⟩ | ⟨i, x, k, o, -, hi, ho, hpost⟩
  · exact absurd ⟨t, by simp, k, he⟩ hrun
  · have hpays := D.pays t.pre i x k o hinv hi ho
    -- The books of the calls at the work they have left after the statement.
    have hset := sum_map_set (g := fun k' => D.work k' o.store) hi o.call
    have hothers : (t.pre.calls.map fun k' => D.work k' o.store).sum + D.work k t.pre.store ≤
        D.total t.pre + D.work k o.store := by
      obtain ⟨before, after, hcalls⟩ := List.append_of_mem (List.mem_of_getElem? hi)
      have hle : ∀ calls : List κ, (calls.map fun k' => D.work k' o.store).sum ≤
          (calls.map fun k' => D.work k' t.pre.store).sum := fun calls =>
        List.sum_le_sum fun k' _ => D.others i x k t.pre.store o k' ho
      have hbefore := hle before
      have hafter := hle after
      simp only [total, hcalls, List.map_append, List.map_cons, List.sum_append, List.sum_cons]
      omega
    rw [total, hpost]
    simp only [List.map_append, List.sum_append]
    omega

theorem inv_run (D : Draining M) {c c' : Config σ κ} {ts : List (Transition σ κ ι)}
    (hrun : M.Run c ts c') (h0 : D.Inv c) : D.Inv c' :=
  (hrun.always D.Inv h0 fun t ht h => D.kept t ht h).1

/-- A run without starts pays for its statements. -/
theorem length_add_total_le (D : Draining M) {c c' : Config σ κ} {ts : List (Transition σ κ ι)}
    (hrun : M.Run c ts c') (h0 : D.Inv c) (hquiet : ¬ Starting ts) :
    ts.length + D.total c' ≤ D.total c := by
  induction hrun with
  | nil => simp
  | snoc t hrun hpre hfire ih =>
      rw [starting_append, not_or] at hquiet
      have hrest := ih hquiet.1
      have hlast := D.total_fires hfire (hpre ▸ D.inv_run hrun h0) hquiet.2
      rw [hpre] at hlast
      rw [List.length_append, List.length_singleton]
      omega

/-- A call pays for its own statements, whatever is started in the meantime. -/
theorem countP_isBy_add_work_le (D : Draining M) {c c' : Config σ κ}
    {ts : List (Transition σ κ ι)} (hrun : M.Run c ts c') (h0 : D.Inv c) {i : ℕ} {k : κ}
    (hk : c.calls[i]? = some k) :
    ∃ k', c'.calls[i]? = some k' ∧
      ts.countP (fun t => decide (t.IsBy i)) + D.work k' c'.store ≤ D.work k c.store := by
  induction hrun with
  | nil => exact ⟨k, hk, by simp⟩
  | snoc t hrun hpre hfire ih =>
      obtain ⟨k₁, hk₁, hle⟩ := ih
      have hinv := hpre ▸ D.inv_run hrun h0
      rw [← hpre] at hk₁ hle
      have hlt := (List.getElem?_eq_some_iff.mp hk₁).1
      rw [List.countP_append, List.countP_singleton]
      rcases hfire.cases with ⟨k₂, he, -, hpost⟩ | ⟨j, x, k₂, o, he, hj, ho, hpost⟩
      · have hby : ¬ t.IsBy i := by
          rintro ⟨x, hx⟩
          simp [he] at hx
        refine ⟨k₁, ?_, by simpa [hby, hpost] using hle⟩
        rw [hpost, List.getElem?_append_left hlt]
        exact hk₁
      · have hlt' := (List.getElem?_eq_some_iff.mp hj).1
        by_cases hij : i = j
        · subst hij
          obtain rfl := Option.some.inj (hj.symm.trans hk₁)
          have hpays := D.pays t.pre i x k₂ o hinv hj ho
          have hby : t.IsBy i := ⟨x, he⟩
          refine ⟨o.call, Machine.getElem?_of_post hj hpost, ?_⟩
          simp only [hby, decide_true, if_true, hpost]
          omega
        · have hothers := D.others j x k₂ t.pre.store o k₁ ho
          have hby : ¬ t.IsBy i := by
            rintro ⟨y, hy⟩
            exact hij (Event.run.inj (hy.symm.trans he)).1
          refine ⟨k₁, ?_, ?_⟩
          · rw [hpost, Machine.getElem?_set_append hlt', if_neg hij, if_pos hlt]
            exact hk₁
          · simp only [hby, decide_false, Bool.false_eq_true, if_false, hpost]
            omega

/-- A schedule that finishes every call, by induction on the work that is left. -/
theorem exists_schedule (D : Draining M) (n : ℕ) {c : Config σ κ} (hn : D.total c ≤ n)
    (h0 : D.Inv c) (xs : ℕ → ι) :
    ∃ ts c', M.Run c ts c' ∧
      (∀ (p : ℕ) (t : Transition σ κ ι), ts[p]? = some t → ∃ i, t.event = .run i (xs p)) ∧
      ∀ k ∈ c'.calls, D.Finished k := by
  induction n generalizing c xs with
  | zero =>
      by_cases hall : ∀ k ∈ c.calls, D.Finished k
      · exact ⟨[], c, .nil c, by simp, hall⟩
      · obtain ⟨k, hk, hunfinished⟩ : ∃ k ∈ c.calls, ¬ D.Finished k := by simpa using hall
        obtain ⟨i, hi⟩ := D.ready c k h0 hk hunfinished
        have hpays := D.total_fires (M.fires_after (hi (xs 0))) h0 (by simp [Starting])
        dsimp only at hpays
        omega
  | succ n ih =>
      by_cases hall : ∀ k ∈ c.calls, D.Finished k
      · exact ⟨[], c, .nil c, by simp, hall⟩
      · obtain ⟨k, hk, hunfinished⟩ : ∃ k ∈ c.calls, ¬ D.Finished k := by simpa using hall
        obtain ⟨i, hi⟩ := D.ready c k h0 hk hunfinished
        have hfire := M.fires_after (hi (xs 0))
        have hpays := D.total_fires hfire h0 (by simp [Starting])
        obtain ⟨ts, c', hrun, hinputs, hdone⟩ := ih (c := M.after c [.run i (xs 0)])
          (by dsimp only at hpays; omega) (D.kept _ hfire h0) fun p => xs (p + 1)
        refine ⟨_ :: ts, c', hfire.run.append hrun, fun p t ht => ?_, hdone⟩
        cases p with
        | zero =>
            obtain rfl := Option.some.inj ht
            exact ⟨i, rfl⟩
        | succ p => exact hinputs p t ht

/-- **Draining.** A configuration with the invariant comes to rest within the work that is left
in it. -/
theorem drains (D : Draining M) {c : Config σ κ} (h0 : D.Inv c) :
    Drains M D.Finished (D.total c) c where
  bounded ts c' hrun hquiet := by
    have := D.length_add_total_le hrun h0 hquiet
    omega
  never_stuck ts c' hrun _ hleft := by
    obtain ⟨k, hk, hunfinished⟩ := hleft
    exact D.ready c' k (D.inv_run hrun h0) hk hunfinished
  completes xs := D.exists_schedule (D.total c) le_rfl h0 xs

end Draining

/-! ### Row locks -/

/-- The row `r` is locked by `j`: by another call than `me`, as it was before, or by `me`, for
whom `holding` is true now. -/
def HeldAfter {ρ : Type*} (locks : ρ → Option ℕ) (me : ℕ) (holding : Prop) (r : ρ) (j : ℕ) :
    Prop :=
  (j ≠ me ∧ locks r = some j) ∨ (j = me ∧ holding)

section RowLocks

variable {ρ : Type*} {locks : ρ → Option ℕ} {me j : ℕ} {before holding : Prop} {r : ρ}

/-- A statement outside a transaction leaves the locks, none of which is its own. -/
theorem heldAfter_kept (hself : ∀ r, locks r = some me → before) (hnot : ¬ before)
    (h : locks r = some j) : HeldAfter locks me holding r j := by
  refine Or.inl ⟨?_, h⟩
  rintro rfl
  exact hnot (hself r h)

/-- The end of a transaction releases its locks. -/
theorem heldAfter_released (h : (if locks r = some me then none else locks r) = some j) :
    HeldAfter locks me holding r j := by
  split at h
  · simp at h
  · rename_i hnot
    refine Or.inl ⟨?_, h⟩
    rintro rfl
    exact hnot h

/-- The beginning of a transaction takes one. -/
theorem heldAfter_taken [DecidableEq ρ] (hself : ∀ r, locks r = some me → before)
    (hnot : ¬ before) (hholding : holding) {taken : ρ}
    (h : Function.update locks taken (some me) r = some j) : HeldAfter locks me holding r j := by
  by_cases hr : r = taken
  · subst hr
    rw [Function.update_self] at h
    exact Or.inr ⟨(Option.some.inj h).symm, hholding⟩
  · rw [Function.update_of_ne hr] at h
    exact heldAfter_kept hself hnot h

/-- Inside a transaction a statement that leaves the locks leaves them to a call that is still
inside. -/
theorem heldAfter_inside (hself : ∀ r, locks r = some me → before) (hinside : before → holding)
    (h : locks r = some j) : HeldAfter locks me holding r j := by
  by_cases hj : j = me
  · subst hj
    exact Or.inr ⟨rfl, hinside (hself r h)⟩
  · exact Or.inl ⟨hj, h⟩

end RowLocks

/-- Why a machine drains whose calls wait for nothing but row locks: a lock is held by a call
inside a transaction, and such a call never waits. -/
structure LockDiscipline (M : Machine σ κ ι) (ρ : Type*) where
  Finished : κ → Prop
  /-- The call of the transaction that holds the row. -/
  lock : σ → ρ → Option ℕ
  /-- The call is inside a transaction that has locked a row. -/
  Holding : κ → Prop
  /-- The call stands at a point of its own method. -/
  Fits : κ → Prop
  fits_start : ∀ k, M.entry k = true → Fits k
  fits_step : ∀ i x k s o, Fits k → M.step i x k s = some o →
    Fits o.call ∧ ∀ k' ∈ o.spawned, Fits k'
  /-- A statement takes locks for its own call only, and a call that ends its transaction
  releases what it holds. -/
  lock_step : ∀ i x k s o r j, M.step i x k s = some o → (∀ r, lock s r = some i → Holding k) →
    lock o.store r = some j → HeldAfter (lock s) i (Holding o.call) r j
  /-- A call inside its transaction runs on. -/
  holding_runs : ∀ i x k s, Holding k → (M.step i x k s).isSome
  /-- A call waits for nothing but a lock. -/
  waits : ∀ i x k s, Fits k → ¬ Finished k → M.step i x k s = none → ∃ r, (lock s r).isSome
  work : κ → σ → ℕ
  pays : ∀ i x k s o, Fits k → M.step i x k s = some o →
    1 + work o.call o.store + (o.spawned.map fun k' => work k' o.store).sum ≤ work k s
  others : ∀ i x k s o k', M.step i x k s = some o → work k' o.store ≤ work k' s

namespace LockDiscipline

variable {M : Machine σ κ ι} {ρ : Type*}

/-- Every lock is held by a call inside its transaction, and every call is where its method can
be. -/
structure Inv (D : LockDiscipline M ρ) (c : Config σ κ) : Prop where
  holders : ∀ r j, D.lock c.store r = some j → ∃ k, c.calls[j]? = some k ∧ D.Holding k
  fits : ∀ k ∈ c.calls, D.Fits k

/-- Before the first call, when nothing is locked. -/
theorem Inv.initial (D : LockDiscipline M ρ) {s : σ} (hfree : ∀ r, D.lock s r = none) :
    D.Inv ⟨s, []⟩ where
  holders r j hlock := by simp [hfree r] at hlock
  fits k hk := by simp at hk

theorem Inv.fires (D : LockDiscipline M ρ) {t : Transition σ κ ι} (ht : M.Fires t)
    (h : D.Inv t.pre) : D.Inv t.post := by
  obtain ⟨hholders, hfits⟩ := h
  rcases ht.cases with ⟨k, -, hk, hpost⟩ | ⟨i, x, k, o, -, hi, ho, hpost⟩
  · rw [hpost]
    refine ⟨fun r j hlock => ?_, fun k' hk' => ?_⟩
    · obtain ⟨k', hk', hholding⟩ := hholders r j hlock
      exact ⟨k', by rw [List.getElem?_append_left (List.getElem?_eq_some_iff.mp hk').1]; exact hk',
        hholding⟩
    · rcases List.mem_append.mp hk' with hold | hnew
      · exact hfits k' hold
      · rw [List.mem_singleton.mp hnew]
        exact D.fits_start k hk
  · have hi' := (List.getElem?_eq_some_iff.mp hi).1
    have hfit := D.fits_step i x k t.pre.store o (hfits k (List.mem_of_getElem? hi)) ho
    have hself : ∀ r, D.lock t.pre.store r = some i → D.Holding k := by
      intro r hlock
      obtain ⟨k', hk', hholding⟩ := hholders r i hlock
      obtain rfl := Option.some.inj (hi.symm.trans hk')
      exact hholding
    rw [hpost]
    refine ⟨fun r j hlock => ?_, fun k' hk' => ?_⟩
    · rcases D.lock_step i x k t.pre.store o r j ho hself hlock with
        ⟨hne, hbefore⟩ | ⟨rfl, hholding⟩
      · obtain ⟨k', hk', hholding⟩ := hholders r j hbefore
        refine ⟨k', ?_, hholding⟩
        rw [Machine.getElem?_set_append hi', if_neg hne,
          if_pos (List.getElem?_eq_some_iff.mp hk').1]
        exact hk'
      · exact ⟨o.call, by rw [Machine.getElem?_set_append hi', if_pos rfl], hholding⟩
    · rcases List.mem_append.mp hk' with hold | hnew
      · rcases List.mem_or_eq_of_mem_set hold with hmem | rfl
        · exact hfits k' hmem
        · exact hfit.1
      · exact hfit.2 k' hnew

/-- What waits, waits for a transaction that goes on. -/
def draining (D : LockDiscipline M ρ) : Draining M where
  Finished := D.Finished
  Inv := D.Inv
  kept _ ht h := Inv.fires D ht h
  work := D.work
  pays c i x k o hinv hi ho :=
    D.pays i x k c.store o (hinv.fits k (List.mem_of_getElem? hi)) ho
  others := D.others
  ready c k hinv hk hunfinished := by
    obtain ⟨i, hi⟩ := List.mem_iff_getElem?.mp hk
    have hruns : ∀ {j k'}, c.calls[j]? = some k' → (∀ x, (M.step j x k' c.store).isSome) →
        ∀ x, (M.fire c (.run j x)).isSome := by
      intro j k' hj hsome x
      simp only [Machine.fire, hj, Option.isSome_map]
      exact hsome x
    by_cases hall : ∀ x, (M.step i x k c.store).isSome
    · exact ⟨i, hruns hi hall⟩
    · obtain ⟨x, hx⟩ := not_forall.mp hall
      obtain ⟨r, hr⟩ := D.waits i x k c.store (hinv.fits k hk) hunfinished (by simpa using hx)
      obtain ⟨j, hj⟩ := Option.isSome_iff_exists.mp hr
      obtain ⟨k', hk', hholding⟩ := hinv.holders r j hj
      exact ⟨j, hruns hk' fun y => D.holding_runs j y k' c.store hholding⟩

/-- **A machine that waits for nothing but row locks drains**, after every run in which the
calls started with nothing locked. -/
theorem drains (D : LockDiscipline M ρ) {s : σ} (hfree : ∀ r, D.lock s r = none)
    {ts : List (Transition σ κ ι)} {c : Config σ κ} (hrun : M.Run ⟨s, []⟩ ts c) :
    Drains M D.Finished (c.calls.map fun k => D.work k c.store).sum c :=
  D.draining.drains (D.draining.inv_run hrun (Inv.initial D hfree))

/-- After such a run every call runs no more statements than the work it has left. -/
theorem countP_isBy_le (D : LockDiscipline M ρ) {s : σ} (hfree : ∀ r, D.lock s r = none)
    {ts ts' : List (Transition σ κ ι)} {c c' : Config σ κ} (hrun : M.Run ⟨s, []⟩ ts c)
    (hrun' : M.Run c ts' c') {i : ℕ} {k : κ} (hk : c.calls[i]? = some k) :
    ts'.countP (fun t => decide (t.IsBy i)) ≤ D.work k c.store := by
  have hinv := D.draining.inv_run hrun (Inv.initial D hfree)
  obtain ⟨k', -, hle⟩ := D.draining.countP_isBy_add_work_le hrun' hinv hk
  exact (Nat.le_add_right _ _).trans hle

end LockDiscipline

end Interleaving
