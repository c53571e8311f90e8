import Mathlib.Data.List.Basic
import Mathlib.Data.List.Induction
import Mathlib.Algebra.BigOperators.Group.List.Basic
import Mathlib.Algebra.Order.BigOperators.Group.List
import Mathlib.Algebra.Order.Ring.Nat

/-!
# Interleavings of calls over a shared store

A component whose calls run concurrently is a `Machine`: it says what the next
*atomic* statement of one call does to the shared store, which local state the
call is left in, and which further calls it sets going. A `Config` is the store
together with every call ever started, finished ones included, so a call keeps
its index for the whole run.

`Machine.Run` is then every interleaving of any number of calls. Each element of
the run is a `Transition` (the configuration before, the event, the
configuration after), so that a property may speak about steps as well as about
states, and a condition on a run is a condition on its transitions.

The statements of a call receive the call's own index. A row lock records it as
its owner, and a log records it as the author of a write.
-/

namespace Interleaving

universe u v w

/-- What one atomic statement leaves behind. -/
structure Outcome (σ : Type u) (κ : Type v) where
  /-- The shared store after the statement. -/
  store : σ
  /-- The local state of the call that ran. -/
  call : κ
  /-- Calls started in the background by the statement. -/
  spawned : List κ

/-- A component whose calls run one atomic statement at a time. -/
structure Machine (σ : Type u) (κ : Type v) (ι : Type w) where
  /-- The local states in which the environment may start a call. -/
  entry : κ → Bool
  /-- The next statement of the call with the given index, on the given input.
  `none` means that the call has no enabled statement (it is finished, or it
  waits for a lock). -/
  step : ℕ → ι → κ → σ → Option (Outcome σ κ)

/-- The shared store and every call started so far. -/
structure Config (σ : Type u) (κ : Type v) where
  store : σ
  calls : List κ

/-- One scheduling decision. -/
inductive Event (κ : Type v) (ι : Type w)
  /-- The environment starts a call. -/
  | start (k : κ)
  /-- Call number `i` runs its next statement on the input `x`. -/
  | run (i : ℕ) (x : ι)

/-- One step of a run. -/
structure Transition (σ : Type u) (κ : Type v) (ι : Type w) where
  pre : Config σ κ
  event : Event κ ι
  post : Config σ κ

variable {σ : Type u} {κ : Type v} {ι : Type w}

namespace Transition

/-- The local state of the call that runs in a transition, before it runs. -/
def caller (t : Transition σ κ ι) : Option κ :=
  match t.event with
  | .start _ => none
  | .run i _ => t.pre.calls[i]?

/-- The local state of that call after it has run. -/
def callerAfter (t : Transition σ κ ι) : Option κ :=
  match t.event with
  | .start _ => none
  | .run i _ => t.post.calls[i]?

theorem caller_eq {t : Transition σ κ ι} {i : ℕ} {x : ι} {k : κ} (he : t.event = .run i x)
    (hk : t.pre.calls[i]? = some k) : t.caller = some k := by
  simp [caller, he, hk]

theorem callerAfter_eq {t : Transition σ κ ι} {i : ℕ} {x : ι} {k k' : κ} {s : σ}
    (he : t.event = .run i x) (hk : t.pre.calls[i]? = some k)
    (hpost : t.post = ⟨s, t.pre.calls.set i k'⟩) : t.callerAfter = some k' := by
  simp only [callerAfter, he, hpost]
  exact List.getElem?_set_self (List.getElem?_eq_some_iff.mp hk).1

/-- Does the call with index `i` run in this transition? -/
def IsBy (t : Transition σ κ ι) (i : ℕ) : Prop :=
  ∃ x, t.event = .run i x

instance (t : Transition σ κ ι) (i : ℕ) : Decidable (t.IsBy i) :=
  match he : t.event with
  | .start _ => isFalse fun hby => by
      obtain ⟨x, hx⟩ := hby
      simp [he] at hx
  | .run j y => decidable_of_iff (j = i)
      ⟨fun hj => ⟨y, hj ▸ he⟩, fun hby => by
        obtain ⟨x, hx⟩ := hby
        exact (Event.run.inj (he.symm.trans hx)).1⟩

/-- A condition on the statement that a transition runs: on the index of the call,
the input, the call's local state and the store. -/
def Satisfies (C : ℕ → ι → κ → σ → Prop) (t : Transition σ κ ι) : Prop :=
  ∀ i x k, t.event = .run i x → t.pre.calls[i]? = some k → C i x k t.pre.store

theorem satisfies_iff {C : ℕ → ι → κ → σ → Prop} {t : Transition σ κ ι} {i : ℕ} {x : ι} {k : κ}
    (he : t.event = .run i x) (hk : t.pre.calls[i]? = some k) :
    t.Satisfies C ↔ C i x k t.pre.store := by
  refine ⟨fun h => h i x k he hk, fun h i' x' k' he' hk' => ?_⟩
  obtain ⟨rfl, rfl⟩ := Event.run.inj (he.symm.trans he')
  obtain rfl := Option.some.inj (hk.symm.trans hk')
  exact h

/-- Starting a call runs no statement. -/
theorem satisfies_start {C : ℕ → ι → κ → σ → Prop} {t : Transition σ κ ι} {k : κ}
    (he : t.event = .start k) : t.Satisfies C := by
  intro i x k' he'
  simp [he] at he'

instance {C : ℕ → ι → κ → σ → Prop} [∀ i x k s, Decidable (C i x k s)] (t : Transition σ κ ι) :
    Decidable (t.Satisfies C) :=
  match he : t.event with
  | .start _ => isTrue (satisfies_start he)
  | .run i _ =>
      match hk : t.pre.calls[i]? with
      | none => isTrue fun i' x' k' he' hk' => by
          obtain ⟨rfl, rfl⟩ := Event.run.inj (he.symm.trans he')
          simp [hk] at hk'
      | some _ => decidable_of_iff _ (satisfies_iff he hk).symm

end Transition

namespace Machine

variable (M : Machine σ κ ι)

/-- The configuration after an event, if the event is enabled. -/
def fire (c : Config σ κ) : Event κ ι → Option (Config σ κ)
  | .start k => if M.entry k then some ⟨c.store, c.calls ++ [k]⟩ else none
  | .run i x =>
      match c.calls[i]? with
      | none => none
      | some k =>
          (M.step i x k c.store).map fun o =>
            ⟨o.store, c.calls.set i o.call ++ o.spawned⟩

/-- A transition the machine can make. -/
def Fires (t : Transition σ κ ι) : Prop := M.fire t.pre t.event = some t.post

/-- Every interleaving: the transitions in order, from the first configuration
to the last. -/
inductive Run : Config σ κ → List (Transition σ κ ι) → Config σ κ → Prop
  | nil (c : Config σ κ) : Run c [] c
  | snoc {c c' : Config σ κ} {ts : List (Transition σ κ ι)} (t : Transition σ κ ι) :
      Run c ts c' → t.pre = c' → M.Fires t → Run c (ts ++ [t]) t.post

variable {M}

/-! ### What an event can do -/

/-- Everything one transition can be: a call is started, or a call runs its next
statement. -/
theorem Fires.cases {t : Transition σ κ ι} (h : M.Fires t) :
    (∃ k, t.event = .start k ∧ M.entry k = true ∧
        t.post = ⟨t.pre.store, t.pre.calls ++ [k]⟩) ∨
    (∃ i x k o, t.event = .run i x ∧ t.pre.calls[i]? = some k ∧
        M.step i x k t.pre.store = some o ∧
        t.post = ⟨o.store, t.pre.calls.set i o.call ++ o.spawned⟩) := by
  obtain ⟨c, e, c'⟩ := t
  cases e with
  | start k =>
      simp only [Fires, fire] at h
      split at h
      · rename_i hk
        exact Or.inl ⟨k, rfl, hk, (Option.some.inj h).symm⟩
      · exact absurd h (by simp)
  | run i x =>
      simp only [Fires, fire] at h
      cases hk : c.calls[i]? with
      | none => rw [hk] at h; exact absurd h (by simp)
      | some k =>
          rw [hk] at h
          obtain ⟨o, ho, rfl⟩ := Option.map_eq_some_iff.mp h
          exact Or.inr ⟨i, x, k, o, rfl, hk, ho, rfl⟩

/-! ### Induction over a run -/

/-- **The invariant rule.** What holds at the start and is kept by every
transition that meets `C` holds at the end of a run all of whose transitions
meet `C`, and on both sides of each of them. -/
theorem Run.invariant {c c' : Config σ κ} {ts : List (Transition σ κ ι)}
    (hrun : M.Run c ts c') (I : Config σ κ → Prop) (C : Transition σ κ ι → Prop)
    (hC : ∀ t ∈ ts, C t) (h0 : I c)
    (hstep : ∀ t, M.Fires t → C t → I t.pre → I t.post) :
    I c' ∧ ∀ t ∈ ts, I t.pre ∧ I t.post := by
  induction hrun with
  | nil => exact ⟨h0, by simp⟩
  | snoc t hrun hpre hfire ih =>
      obtain ⟨hend, hall⟩ := ih (fun t ht => hC t (List.mem_append_left _ ht))
      have hI : I t.pre := hpre ▸ hend
      have hI' : I t.post := hstep t hfire (hC t (by simp)) hI
      refine ⟨hI', fun t' ht' => ?_⟩
      rcases List.mem_append.mp ht' with h | h
      · exact hall t' h
      · rw [List.mem_singleton] at h
        subst h
        exact ⟨hI, hI'⟩

/-- The invariant rule with no condition on the transitions. -/
theorem Run.always {c c' : Config σ κ} {ts : List (Transition σ κ ι)}
    (hrun : M.Run c ts c') (I : Config σ κ → Prop) (h0 : I c)
    (hstep : ∀ t, M.Fires t → I t.pre → I t.post) :
    I c' ∧ ∀ t ∈ ts, I t.pre ∧ I t.post :=
  hrun.invariant I (fun _ => True) (fun _ _ => trivial) h0
    (fun t ht _ hI => hstep t ht hI)

/-- What holds at the start and after every transition holds at the end. -/
theorem Run.last {c c' : Config σ κ} {ts : List (Transition σ κ ι)} (hrun : M.Run c ts c')
    {I : Config σ κ → Prop} (h0 : I c) (hall : ∀ t ∈ ts, I t.post) : I c' := by
  cases hrun with
  | nil => exact h0
  | snoc t hrun hpre hfire => exact hall t (by simp)

/-- **The exact invariant rule.** When a transition out of a state with `I` leads to
one with `I` exactly if it meets `C`, then `I` holds throughout a run exactly if all
its transitions meet `C`. -/
theorem Run.invariant_iff {c c' : Config σ κ} {ts : List (Transition σ κ ι)}
    (hrun : M.Run c ts c') (I : Config σ κ → Prop) (C : Transition σ κ ι → Prop) (h0 : I c)
    (hstep : ∀ t ∈ ts, I t.pre → (I t.post ↔ C t)) :
    (∀ t ∈ ts, I t.post) ↔ ∀ t ∈ ts, C t := by
  induction hrun with
  | nil => simp
  | snoc t hrun hpre hfire ih =>
      have hiff := ih fun t ht => hstep t (List.mem_append_left _ ht)
      simp only [List.forall_mem_append, List.forall_mem_singleton]
      constructor
      · intro hboth
        obtain ⟨hposts, hpost⟩ := hboth
        exact ⟨hiff.mp hposts, (hstep t (by simp) (hpre ▸ hrun.last h0 hposts)).mp hpost⟩
      · intro hboth
        obtain ⟨hconds, hcond⟩ := hboth
        have hposts := hiff.mpr hconds
        exact ⟨hposts, (hstep t (by simp) (hpre ▸ hrun.last h0 hposts)).mpr hcond⟩

/-- Every transition of a run is one the machine can make. -/
theorem Run.fires {c c' : Config σ κ} {ts : List (Transition σ κ ι)}
    (hrun : M.Run c ts c') : ∀ t ∈ ts, M.Fires t := by
  induction hrun with
  | nil => simp
  | snoc t hrun hpre hfire ih =>
      intro t' ht'
      rcases List.mem_append.mp ht' with h | h
      · exact ih t' h
      · rw [List.mem_singleton] at h
        exact h ▸ hfire

/-- Two runs, the second from where the first ends, are one run. -/
theorem Run.append {c c' c'' : Config σ κ} {ts ts' : List (Transition σ κ ι)}
    (h : M.Run c ts c') (h' : M.Run c' ts' c'') : M.Run c (ts ++ ts') c'' := by
  induction h' with
  | nil => simpa using h
  | snoc t _ hpre hfire ih =>
      rw [← List.append_assoc]
      exact .snoc t ih hpre hfire

/-- A transition is a run of its own. -/
theorem Fires.run {t : Transition σ κ ι} (h : M.Fires t) : M.Run t.pre [t] t.post :=
  .snoc t (.nil _) rfl h

/-- A run splits at any of its transitions. -/
theorem Run.split {c c' : Config σ κ} {ts : List (Transition σ κ ι)}
    (hrun : M.Run c ts c') :
    ∀ t ∈ ts, ∃ before after, ts = before ++ t :: after ∧
      M.Run c before t.pre ∧ M.Run t.post after c' := by
  induction hrun with
  | nil => simp
  | @snoc _ ts t hrun hpre hfire ih =>
      intro t' ht'
      rcases List.mem_append.mp ht' with h | h
      · obtain ⟨before, after, rfl, hb, ha⟩ := ih t' h
        exact ⟨before, after ++ [t], by simp, hb, .snoc t ha hpre hfire⟩
      · rw [List.mem_singleton] at h
        subst h
        exact ⟨ts, [], rfl, hpre ▸ hrun, .nil _⟩

theorem Run.of_snoc {c c' : Config σ κ} {ts : List (Transition σ κ ι)} {t : Transition σ κ ι}
    (hrun : M.Run c (ts ++ [t]) c') : M.Run c ts t.pre ∧ c' = t.post := by
  generalize hts : ts ++ [t] = all at hrun
  cases hrun with
  | nil => simp at hts
  | snoc t' hrun hpre hfire =>
      obtain ⟨rfl, ht⟩ := List.append_inj' hts rfl
      obtain rfl : t = t' := by simpa using ht
      exact ⟨hpre ▸ hrun, rfl⟩

/-- A run splits at a given one of its transitions. -/
theorem Run.of_append_cons {c c' : Config σ κ} {before after : List (Transition σ κ ι)}
    {t : Transition σ κ ι} (hrun : M.Run c (before ++ t :: after) c') :
    M.Run c before t.pre ∧ M.Run t.post after c' := by
  induction after using List.reverseRecOn generalizing c' with
  | nil =>
      obtain ⟨hbefore, rfl⟩ := hrun.of_snoc
      exact ⟨hbefore, .nil _⟩
  | append_singleton after t' ih =>
      rw [← List.cons_append, ← List.append_assoc] at hrun
      obtain ⟨hinit, rfl⟩ := hrun.of_snoc
      obtain ⟨hbefore, hafter⟩ := ih hinit
      exact ⟨hbefore, .snoc t' hafter rfl (hrun.fires t' (by simp))⟩

/-- What follows a transition, that transition included, is a run of its own. -/
theorem Run.suffix {c c' : Config σ κ} {ts : List (Transition σ κ ι)} (hrun : M.Run c ts c')
    {t : Transition σ κ ι} (ht : t ∈ ts) :
    ∃ after, (∀ t' ∈ after, t' ∈ ts) ∧ M.Run t.pre after c' := by
  obtain ⟨before, after, rfl, -, hafter⟩ := hrun.split t ht
  exact ⟨t :: after, fun t' h' => List.mem_append_right _ h', (hrun.fires t ht).run.append hafter⟩

/-- **The log rule.** When every transition appends to a log entries that satisfy
`P` exactly if the transition satisfies `C`, the whole log satisfies `P` exactly
if it did at the start and all transitions satisfy `C`. -/
theorem Run.forall_log_iff {A : Type*} {c c' : Config σ κ} {ts : List (Transition σ κ ι)}
    (hrun : M.Run c ts c') (log : σ → List A) (P : A → Prop) (C : Transition σ κ ι → Prop)
    (hstep : ∀ t ∈ ts, ∃ new, log t.post.store = log t.pre.store ++ new ∧
      ((∀ a ∈ new, P a) ↔ C t)) :
    (∀ a ∈ log c'.store, P a) ↔ (∀ a ∈ log c.store, P a) ∧ ∀ t ∈ ts, C t := by
  induction hrun with
  | nil => simp
  | snoc t hrun hpre hfire ih =>
      have ih := ih fun t ht => hstep t (List.mem_append_left _ ht)
      obtain ⟨new, hlog, hnew⟩ := hstep t (by simp)
      rw [hlog, hpre]
      simp only [List.forall_mem_append, ih, hnew, List.forall_mem_singleton, and_assoc]

/-! ### Calls keep their index -/

theorem getElem?_set_append {calls spawned : List κ} {i j : ℕ} {k : κ}
    (hi : i < calls.length) :
    (calls.set i k ++ spawned)[j]? =
      if j = i then some k
      else if j < calls.length then calls[j]? else spawned[j - calls.length]? := by
  by_cases hj : j < calls.length
  · rw [List.getElem?_append_left (by simpa using hj), List.getElem?_set]
    by_cases h : i = j
    · subst h
      simp [hi]
    · simp [h, Ne.symm h, hj]
  · rw [List.getElem?_append_right (by simpa using hj), List.length_set]
    have hne : j ≠ i := by omega
    simp [hj, hne]

/-- The call that has run stands at its index. -/
theorem getElem?_of_post {t : Transition σ κ ι} {i : ℕ} {k k' : κ} {s : σ} {spawned : List κ}
    (hk : t.pre.calls[i]? = some k) (hpost : t.post = ⟨s, t.pre.calls.set i k' ++ spawned⟩) :
    t.post.calls[i]? = some k' := by
  rw [hpost, getElem?_set_append (List.getElem?_eq_some_iff.mp hk).1, if_pos rfl]

/-- What a transition is whose event is a statement of call number `i`. -/
theorem Fires.of_event {t : Transition σ κ ι} (h : M.Fires t) {i : ℕ} {x : ι}
    (he : t.event = .run i x) :
    ∃ k o, t.pre.calls[i]? = some k ∧ M.step i x k t.pre.store = some o ∧
      t.post = ⟨o.store, t.pre.calls.set i o.call ++ o.spawned⟩ ∧
      t.post.calls[i]? = some o.call := by
  rcases h.cases with ⟨k, he', -⟩ | ⟨j, y, k, o, he', hk, ho, hpost⟩
  · simp [he] at he'
  · obtain ⟨rfl, rfl⟩ := Event.run.inj (he.symm.trans he')
    exact ⟨k, o, hk, ho, hpost, getElem?_of_post hk hpost⟩

/-- A call that is in the list stays at its index: it is the one that runs, or
it is left as it was. -/
theorem Fires.calls_getElem? {t : Transition σ κ ι} (h : M.Fires t) {j : ℕ} {k : κ}
    (hk : t.pre.calls[j]? = some k) :
    t.post.calls[j]? = some k ∨
      ∃ x o, t.event = .run j x ∧ M.step j x k t.pre.store = some o ∧
        t.post.store = o.store ∧ t.post.calls[j]? = some o.call := by
  have hj : j < t.pre.calls.length := (List.getElem?_eq_some_iff.mp hk).1
  rcases h.cases with ⟨k', -, -, hpost⟩ | ⟨i, x, k', o, he, hi, ho, hpost⟩
  · rw [hpost]
    exact Or.inl (by rw [List.getElem?_append_left hj]; exact hk)
  · have hi' : i < t.pre.calls.length := (List.getElem?_eq_some_iff.mp hi).1
    by_cases hij : j = i
    · subst hij
      obtain rfl : k = k' := Option.some.inj (hk.symm.trans hi)
      refine Or.inr ⟨x, o, he, ho, by rw [hpost], ?_⟩
      rw [hpost, getElem?_set_append hi', if_pos rfl]
    · left
      rw [hpost, getElem?_set_append hi', if_neg hij, if_pos hj]
      exact hk

/-- A property of a call's local state that its own statements keep is never
lost again. -/
theorem Run.call_stable {c c' : Config σ κ} {ts : List (Transition σ κ ι)}
    (hrun : M.Run c ts c') (P : κ → Prop)
    (hP : ∀ i x k s o, P k → M.step i x k s = some o → P o.call)
    {j : ℕ} {k : κ} (hk : c.calls[j]? = some k) (hPk : P k) :
    ∃ k', c'.calls[j]? = some k' ∧ P k' := by
  have hinv := (hrun.always (fun c => ∃ k, c.calls[j]? = some k ∧ P k) ⟨k, hk, hPk⟩ ?_).1
  · exact hinv
  · intro t ht hheld
    obtain ⟨k, hk, hPk⟩ := hheld
    rcases ht.calls_getElem? hk with h | ⟨x, o, -, ho, -, h⟩
    · exact ⟨k, h, hPk⟩
    · exact ⟨o.call, h, hP j x k _ o hPk ho⟩

end Machine

/-! ### Assertions attached to calls

The classical way to verify concurrent code: a global assertion `G` on the
store, and a local assertion `L` for each call at its current point. A statement
must establish the assertions of the call that ran and of the calls it spawned,
and must not interfere with those of the others. -/

/-- A proof outline for runs whose transitions meet `C`. -/
structure Outline (M : Machine σ κ ι) (C : Transition σ κ ι → Prop) where
  /-- The assertion on the store. -/
  G : σ → Prop
  /-- The assertion on call number `i` in its current local state. -/
  L : σ → ℕ → κ → Prop
  /-- A call that the environment starts meets its assertion. -/
  start : ∀ t i k, C t → t.event = .start k → M.entry k = true → G t.pre.store →
    L t.pre.store i k
  /-- A statement re-establishes the assertions of its own call and of the calls
  it spawns. -/
  own : ∀ t i x k o, C t → t.event = .run i x → t.pre.calls[i]? = some k →
    M.step i x k t.pre.store = some o →
    t.post = ⟨o.store, t.pre.calls.set i o.call ++ o.spawned⟩ →
    G t.pre.store → L t.pre.store i k →
    G o.store ∧ L o.store i o.call ∧ ∀ j, ∀ k' ∈ o.spawned, L o.store j k'
  /-- A statement does not interfere with the assertion of another call. -/
  others : ∀ t i x k o j k', C t → t.event = .run i x → t.pre.calls[i]? = some k →
    M.step i x k t.pre.store = some o → t.pre.calls[j]? = some k' → i ≠ j →
    G t.pre.store → L t.pre.store i k → L t.pre.store j k' → L o.store j k'

namespace Outline

variable {M : Machine σ κ ι} {C : Transition σ κ ι → Prop}

/-- The outline of a machine whose statements start no calls, from facts about its
statements alone. -/
def ofSteps (M : Machine σ κ ι) (C : ℕ → ι → κ → σ → Prop) (G : σ → Prop)
    (L : σ → ℕ → κ → Prop) (start : ∀ s i k, M.entry k = true → G s → L s i k)
    (own : ∀ i x k s o, C i x k s → M.step i x k s = some o → G s → L s i k →
      G o.store ∧ L o.store i o.call ∧ o.spawned = [])
    (others : ∀ i x k s o j k', C i x k s → M.step i x k s = some o → i ≠ j → G s → L s i k →
      L s j k' → L o.store j k') : Outline M fun t => t.Satisfies C where
  G := G
  L := L
  start t i k _ _ hentry hG := start t.pre.store i k hentry hG
  own t i x k o hC he hk hstep _ hG hL := by
    obtain ⟨hG', hown, hspawned⟩ := own i x k t.pre.store o (hC i x k he hk) hstep hG hL
    refine ⟨hG', hown, fun j k' hk' => ?_⟩
    simp [hspawned] at hk'
  others t i x k o j k' hC he hk hstep _ hne hG hL hL' :=
    others i x k t.pre.store o j k' (hC i x k he hk) hstep hne hG hL hL'

/-- Every assertion of the outline holds in a configuration. -/
def Holds (P : Outline M C) (c : Config σ κ) : Prop :=
  P.G c.store ∧ ∀ i k, c.calls[i]? = some k → P.L c.store i k

/-- The assertions survive a transition that meets the condition. -/
theorem holds_step (P : Outline M C) {t : Transition σ κ ι} (ht : M.Fires t) (hC : C t)
    (h : P.Holds t.pre) : P.Holds t.post := by
  obtain ⟨hG, hL⟩ := h
  rcases ht.cases with ⟨k, he, hk, hpost⟩ | ⟨i, x, k, o, he, hi, ho, hpost⟩
  · rw [hpost]
    refine ⟨hG, fun j k' hj => ?_⟩
    by_cases hlt : j < t.pre.calls.length
    · exact hL j k' (by rwa [List.getElem?_append_left hlt] at hj)
    · rw [List.getElem?_append_right (by omega)] at hj
      obtain rfl : k = k' := by
        have := List.mem_of_getElem? hj
        simpa [eq_comm] using this
      exact P.start t j k hC he hk hG
  · obtain ⟨hG', hown, hspawn⟩ := P.own t i x k o hC he hi ho hpost hG (hL i k hi)
    have hi' : i < t.pre.calls.length := (List.getElem?_eq_some_iff.mp hi).1
    rw [hpost]
    refine ⟨hG', fun j k' hj => ?_⟩
    dsimp only at hj ⊢
    rw [Machine.getElem?_set_append hi'] at hj
    split at hj
    · rename_i hji
      obtain rfl := Option.some.inj hj
      exact hji ▸ hown
    · rename_i hji
      split at hj
      · exact P.others t i x k o j k' hC he hi ho hj (Ne.symm hji) hG (hL i k hi) (hL j k' hj)
      · exact hspawn j k' (List.mem_of_getElem? hj)

/-- The assertions hold throughout a run whose transitions meet the condition. -/
theorem holds_run (P : Outline M C) {c c' : Config σ κ} {ts : List (Transition σ κ ι)}
    (hrun : M.Run c ts c') (hC : ∀ t ∈ ts, C t) (h0 : P.Holds c) :
    P.Holds c' ∧ ∀ t ∈ ts, P.Holds t.pre ∧ P.Holds t.post :=
  hrun.invariant P.Holds C hC h0 (fun _ ht hCt h => P.holds_step ht hCt h)

end Outline

/-- A proof outline with assertions on the calls that have not been started, too. It is what a
call needs that relies on having done nothing before: that it holds no lock, say. -/
structure Roster (M : Machine σ κ ι) (C : ℕ → ι → κ → σ → Prop) where
  /-- The assertion on the store. -/
  G : σ → Prop
  /-- The assertion on call number `i`, which is none before it is started. -/
  L : σ → ℕ → Option κ → Prop
  start : ∀ s i k, M.entry k = true → G s → L s i none → L s i (some k)
  own : ∀ i x k s o, C i x k s → M.step i x k s = some o → G s → L s i (some k) →
    G o.store ∧ L o.store i (some o.call) ∧ o.spawned = []
  others : ∀ i x k s o j l, C i x k s → M.step i x k s = some o → i ≠ j → G s →
    L s i (some k) → L s j l → L o.store j l

namespace Roster

variable {M : Machine σ κ ι} {C : ℕ → ι → κ → σ → Prop}

/-- Every assertion holds in a configuration. -/
def Holds (P : Roster M C) (c : Config σ κ) : Prop := P.G c.store ∧ ∀ i, P.L c.store i c.calls[i]?

theorem holds_step (P : Roster M C) {t : Transition σ κ ι} (ht : M.Fires t) (hC : t.Satisfies C)
    (h : P.Holds t.pre) : P.Holds t.post := by
  obtain ⟨hG, hL⟩ := h
  rcases ht.cases with ⟨k, -, hk, hpost⟩ | ⟨i, x, k, o, he, hi, ho, hpost⟩
  · rw [hpost]
    refine ⟨hG, fun j => ?_⟩
    show P.L t.pre.store j (t.pre.calls ++ [k])[j]?
    by_cases hj : j = t.pre.calls.length
    · subst hj
      have hnone := hL t.pre.calls.length
      rw [List.getElem?_eq_none le_rfl] at hnone
      rw [List.getElem?_concat_length]
      exact P.start t.pre.store t.pre.calls.length k hk hG hnone
    · have hkept : (t.pre.calls ++ [k])[j]? = t.pre.calls[j]? := by
        rcases Nat.lt_or_gt_of_ne hj with hlt | hgt
        · exact List.getElem?_append_left hlt
        · rw [List.getElem?_eq_none hgt.le, List.getElem?_eq_none]
          rw [List.length_append, List.length_singleton]
          exact hgt
      rw [hkept]
      exact hL j
  · have hself := hL i
    rw [hi] at hself
    have hCi := hC i x k he hi
    obtain ⟨hG', hown, hspawned⟩ := P.own i x k t.pre.store o hCi ho hG hself
    rw [hpost, hspawned, List.append_nil]
    refine ⟨hG', fun j => ?_⟩
    show P.L o.store j (t.pre.calls.set i o.call)[j]?
    by_cases hji : i = j
    · subst hji
      rw [List.getElem?_set_self (List.getElem?_eq_some_iff.mp hi).1]
      exact hown
    · rw [List.getElem?_set_ne hji]
      exact P.others i x k t.pre.store o j _ hCi ho hji hG hself (hL j)

theorem holds_run (P : Roster M C) {c c' : Config σ κ} {ts : List (Transition σ κ ι)}
    (hrun : M.Run c ts c') (hC : ∀ t ∈ ts, t.Satisfies C) (h0 : P.Holds c) :
    P.Holds c' ∧ ∀ t ∈ ts, P.Holds t.pre ∧ P.Holds t.post :=
  hrun.invariant P.Holds _ hC h0 fun _ ht hCt h => P.holds_step ht hCt h

end Roster

/-! ### Accounting over all calls

A quantity held partly by the store and partly by the calls: rights to act,
rows still owed, claims not yet settled. -/

section Potential

variable {A : Type*} [AddCommMonoid A]

/-- The share `f` of the store plus the shares `g` of all calls. -/
def potential (f : σ → A) (g : κ → A) (c : Config σ κ) : A :=
  f c.store + (c.calls.map g).sum

theorem sum_map_set {g : κ → A} {calls : List κ} {i : ℕ} {k : κ} (hi : calls[i]? = some k)
    (k' : κ) :
    ((calls.set i k').map g).sum + g k = (calls.map g).sum + g k' := by
  induction calls generalizing i with
  | nil => simp at hi
  | cons a calls ih =>
      cases i with
      | zero =>
          obtain rfl : a = k := by simpa using hi
          simp [add_comm, add_left_comm]
      | succ i =>
          have := ih (i := i) (by simpa using hi)
          simp only [List.set_cons_succ, List.map_cons, List.sum_cons]
          rw [add_assoc, this, add_assoc]

/-- The books of one transition: a started call brings its share, and a statement
moves shares between its call, the store and the calls it spawns. -/
theorem potential_fires {M : Machine σ κ ι} {t : Transition σ κ ι} (ht : M.Fires t)
    (f : σ → A) (g : κ → A) :
    (∃ k, t.event = .start k ∧ M.entry k = true ∧
        potential f g t.post = potential f g t.pre + g k) ∨
    (∃ i x k o, t.event = .run i x ∧ t.pre.calls[i]? = some k ∧
        M.step i x k t.pre.store = some o ∧ t.post.store = o.store ∧
        potential f g t.post + (f t.pre.store + g k) =
          potential f g t.pre + (f o.store + g o.call + (o.spawned.map g).sum)) := by
  rcases ht.cases with ⟨k, he, hk, hpost⟩ | ⟨i, x, k, o, he, hi, ho, hpost⟩
  · refine Or.inl ⟨k, he, hk, ?_⟩
    rw [hpost]
    simp [potential, add_assoc]
  · refine Or.inr ⟨i, x, k, o, he, hi, ho, by rw [hpost], ?_⟩
    rw [hpost]
    simp only [potential, List.map_append, List.sum_append]
    have hset := sum_map_set (g := g) hi o.call
    calc f o.store + (((t.pre.calls.set i o.call).map g).sum + (o.spawned.map g).sum)
          + (f t.pre.store + g k)
        = f o.store + f t.pre.store + (o.spawned.map g).sum
            + (((t.pre.calls.set i o.call).map g).sum + g k) := by
          simp only [add_comm, add_left_comm, add_assoc]
      _ = f o.store + f t.pre.store + (o.spawned.map g).sum
            + ((t.pre.calls.map g).sum + g o.call) := by rw [hset]
      _ = _ := by simp only [add_comm, add_left_comm, add_assoc]

end Potential

/-- **Conservation.** A potential to which started calls bring nothing and whose
books every statement balances is the same at the end of the run. -/
theorem potential_run_eq {A : Type*} [AddCommGroup A] {M : Machine σ κ ι}
    {C : Transition σ κ ι → Prop} (f : σ → A) (g : κ → A)
    (hstart : ∀ t k, C t → t.event = .start k → M.entry k = true → g k = 0)
    (hstep : ∀ t i x k o, M.Fires t → C t → t.event = .run i x →
      t.pre.calls[i]? = some k → M.step i x k t.pre.store = some o →
      f o.store + g o.call + (o.spawned.map g).sum = f t.pre.store + g k)
    {c c' : Config σ κ} {ts : List (Transition σ κ ι)} (hrun : M.Run c ts c')
    (hC : ∀ t ∈ ts, C t) : potential f g c' = potential f g c := by
  refine (hrun.invariant (fun d => potential f g d = potential f g c) C hC rfl ?_).1
  intro t ht hCt hI
  rcases potential_fires ht f g with ⟨k, he, hk, hpot⟩ | ⟨i, x, k, o, he, hi, ho, -, hpot⟩
  · rw [hpot, hstart t k hCt he hk, add_zero, hI]
  · rw [hstep t i x k o ht hCt he hi ho, hI] at hpot
    exact add_right_cancel hpot

/-- A share held by two different calls is held twice. -/
theorem add_le_potential {f : σ → ℕ} {g : κ → ℕ} {c : Config σ κ} {i j : ℕ} {k k' : κ}
    (hi : c.calls[i]? = some k) (hj : c.calls[j]? = some k') (hij : i ≠ j) :
    f c.store + (g k + g k') ≤ potential f g c := by
  have key : ∀ (calls : List κ) (i j : ℕ), calls[i]? = some k → calls[j]? = some k' →
      i ≠ j → g k + g k' ≤ (calls.map g).sum := by
    intro calls
    induction calls with
    | nil => intro i j h; simp at h
    | cons a calls ih =>
        intro i j hi hj hij
        have single : ∀ (n : ℕ) (b : κ), calls[n]? = some b → g b ≤ (calls.map g).sum :=
          fun n b hb => List.single_le_sum (fun _ _ => Nat.zero_le _) _
            (List.mem_map_of_mem (List.mem_of_getElem? hb))
        cases i with
        | zero =>
            cases j with
            | zero => exact absurd rfl hij
            | succ j =>
                obtain rfl : a = k := by simpa using hi
                have := single j k' (by simpa using hj)
                simp only [List.map_cons, List.sum_cons]
                omega
        | succ i =>
            cases j with
            | zero =>
                obtain rfl : a = k' := by simpa using hj
                have := single i k (by simpa using hi)
                simp only [List.map_cons, List.sum_cons]
                omega
            | succ j =>
                have := ih i j (by simpa using hi) (by simpa using hj) (by omega)
                simp only [List.map_cons, List.sum_cons]
                omega
  exact Nat.add_le_add_left (key c.calls i j hi hj hij) _

/-- **No gain.** A bound on a potential to which started calls bring nothing, and
which no statement increases, holds throughout the run. -/
theorem potential_run_le {M : Machine σ κ ι} {C : Transition σ κ ι → Prop}
    (f : σ → ℕ) (g : κ → ℕ)
    (hstart : ∀ t k, C t → t.event = .start k → M.entry k = true → g k = 0)
    (hstep : ∀ t i x k o, M.Fires t → C t → t.event = .run i x →
      t.pre.calls[i]? = some k → M.step i x k t.pre.store = some o →
      f o.store + g o.call + (o.spawned.map g).sum ≤ f t.pre.store + g k)
    {c c' : Config σ κ} {ts : List (Transition σ κ ι)} (hrun : M.Run c ts c')
    (hC : ∀ t ∈ ts, C t) {b : ℕ} (h0 : potential f g c ≤ b) :
    potential f g c' ≤ b ∧ ∀ t ∈ ts, potential f g t.pre ≤ b ∧ potential f g t.post ≤ b := by
  refine hrun.invariant (fun d => potential f g d ≤ b) C hC h0 ?_
  intro t ht hCt hI
  rcases potential_fires ht f g with ⟨k, he, hk, hpot⟩ | ⟨i, x, k, o, he, hi, ho, -, hpot⟩
  · rw [hpot, hstart t k hCt he hk]
    exact hI
  · have := hstep t i x k o ht hCt he hi ho
    omega

/-- **Rights used up.** When every transition with `P` takes one from a count of rights
that no transition increases, a run has at most as many of them as there were rights. -/
theorem Machine.Run.countP_add_le {M : Machine σ κ ι} {c c' : Config σ κ}
    {ts : List (Transition σ κ ι)} (hrun : M.Run c ts c') (f : Config σ κ → ℕ)
    (P : Transition σ κ ι → Bool)
    (hstep : ∀ t ∈ ts, M.Fires t → (if P t then 1 else 0) + f t.post ≤ f t.pre) :
    ts.countP P + f c' ≤ f c := by
  induction hrun with
  | nil => simp
  | snoc t hrun hpre hfire ih =>
      have hrest := ih fun t ht => hstep t (List.mem_append_left _ ht)
      have hlast := hstep t (by simp) hfire
      rw [hpre] at hlast
      rw [List.countP_append, List.countP_singleton]
      omega

/-- **Rights granted.** A quantity that only transitions with `P` raise, by one each, is
bounded by their number. -/
theorem Machine.Run.le_add_countP {M : Machine σ κ ι} {c c' : Config σ κ}
    {ts : List (Transition σ κ ι)} (hrun : M.Run c ts c') (f : Config σ κ → ℕ)
    (P : Transition σ κ ι → Bool)
    (hstep : ∀ t ∈ ts, M.Fires t → f t.post ≤ f t.pre + if P t then 1 else 0) :
    f c' ≤ f c + ts.countP P := by
  induction hrun with
  | nil => simp
  | snoc t hrun hpre hfire ih =>
      have hrest := ih fun t ht => hstep t (List.mem_append_left _ ht)
      have hlast := hstep t (by simp) hfire
      rw [hpre] at hlast
      rw [List.countP_append, List.countP_singleton]
      omega

/-- **Double entry.** When every transition books the same amount on both sides, one more on
the left if it has `P`, so does the whole run, with as many more as it has such transitions. -/
theorem Machine.Run.add_countP_eq {M : Machine σ κ ι} {c c' : Config σ κ}
    {ts : List (Transition σ κ ι)} (hrun : M.Run c ts c') (f g : Config σ κ → ℕ)
    (P : Transition σ κ ι → Bool) (h0 : f c = g c)
    (hstep : ∀ t ∈ ts, M.Fires t →
      f t.post + (if P t then 1 else 0) + g t.pre = f t.pre + g t.post) :
    f c' + ts.countP P = g c' := by
  induction hrun with
  | nil => simpa using h0
  | snoc t hrun hpre hfire ih =>
      have hrest := ih fun t ht => hstep t (List.mem_append_left _ ht)
      have hlast := hstep t (by simp) hfire
      rw [hpre] at hlast
      rw [List.countP_append, List.countP_singleton]
      omega

/-- **Double entry with a charge.** When every transition books the same amount on both sides,
its charge included on the left, so does the whole run with the sum of the charges. -/
theorem Machine.Run.add_sum_eq {M : Machine σ κ ι} {c c' : Config σ κ}
    {ts : List (Transition σ κ ι)} (hrun : M.Run c ts c') (f g : Config σ κ → ℕ)
    (charge : Transition σ κ ι → ℕ)
    (hstep : ∀ t ∈ ts, M.Fires t → f t.post + charge t + g t.pre = f t.pre + g t.post) :
    f c' + (ts.map charge).sum + g c = f c + g c' := by
  induction hrun with
  | nil => simp
  | snoc t hrun hpre hfire ih =>
      have hrest := ih fun t ht => hstep t (List.mem_append_left _ ht)
      have hlast := hstep t (by simp) hfire
      rw [hpre] at hlast
      rw [List.map_append, List.sum_append, List.map_singleton, List.sum_singleton]
      omega

/-- **Double entry with a charge and counted receipts.** When every transition books on the left,
its charge included, what it had and one more where `P` holds, so does the whole run with the sum
of the charges and the number of transitions with `P`. -/
theorem Machine.Run.add_sum_eq_add_countP {M : Machine σ κ ι} {c c' : Config σ κ}
    {ts : List (Transition σ κ ι)} (hrun : M.Run c ts c') (f : Config σ κ → ℕ)
    (charge : Transition σ κ ι → ℕ) (P : Transition σ κ ι → Bool)
    (hstep : ∀ t ∈ ts, M.Fires t → f t.post + charge t = f t.pre + if P t then 1 else 0) :
    f c' + (ts.map charge).sum = f c + ts.countP P := by
  induction hrun with
  | nil => simp
  | snoc t hrun hpre hfire ih =>
      have hrest := ih fun t ht => hstep t (List.mem_append_left _ ht)
      have hlast := hstep t (by simp) hfire
      rw [hpre] at hlast
      rw [List.map_append, List.sum_append, List.map_singleton, List.sum_singleton,
        List.countP_append, List.countP_singleton]
      omega

/-! ### Runs given by their events -/

namespace Machine

variable (M : Machine σ κ ι)

/-- The transitions made by a list of events, as far as they are enabled. -/
def trace (c : Config σ κ) : List (Event κ ι) → List (Transition σ κ ι)
  | [] => []
  | e :: es =>
      match M.fire c e with
      | none => []
      | some c' => ⟨c, e, c'⟩ :: trace c' es

/-- The configuration after a list of events, as far as they are enabled. -/
def after (c : Config σ κ) : List (Event κ ι) → Config σ κ
  | [] => c
  | e :: es =>
      match M.fire c e with
      | none => c
      | some c' => after c' es

/-- A list of events gives a run. -/
theorem run_trace (c : Config σ κ) (es : List (Event κ ι)) :
    M.Run c (M.trace c es) (M.after c es) := by
  induction es generalizing c with
  | nil => exact .nil c
  | cons e es ih =>
      rw [trace, after]
      cases h : M.fire c e with
      | none => exact .nil c
      | some c' =>
          have hone : M.Fires ⟨c, e, c'⟩ := h
          exact hone.run.append (ih c')

/-- An enabled event is a transition to what comes after it. -/
theorem fires_after {c : Config σ κ} {e : Event κ ι} (h : (M.fire c e).isSome) :
    M.Fires ⟨c, e, M.after c [e]⟩ := by
  obtain ⟨c', hc'⟩ := Option.isSome_iff_exists.mp h
  simp [Fires, after, hc']

/-- A run through one enabled event, with the events before it and after it. -/
theorem run_around (c : Config σ κ) (es : List (Event κ ι)) {e : Event κ ι}
    (h : (M.fire (M.after c es) e).isSome) (es' : List (Event κ ι)) :
    M.Run c (M.trace c es ++ ⟨M.after c es, e, M.after (M.after c es) [e]⟩ ::
        M.trace (M.after (M.after c es) [e]) es')
      (M.after (M.after (M.after c es) [e]) es') :=
  (M.run_trace c es).append ((M.fires_after h).run.append (M.run_trace _ es'))

/-- A trace consists of the given events. -/
theorem event_mem_of_mem_trace {c : Config σ κ} {es : List (Event κ ι)} {t : Transition σ κ ι}
    (ht : t ∈ M.trace c es) : t.event ∈ es := by
  induction es generalizing c with
  | nil => simp [trace] at ht
  | cons e es ih =>
      rw [trace] at ht
      cases h : M.fire c e with
      | none => simp [h] at ht
      | some c' =>
          rw [h] at ht
          rcases List.mem_cons.mp ht with rfl | ht
          · exact List.mem_cons_self
          · exact List.mem_cons_of_mem _ (ih ht)

end Machine

end Interleaving
