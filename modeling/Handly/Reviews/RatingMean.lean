import Handly.Reviews.Statements

/-!
# The stored rating

Each transaction writes the average of the ratings that it has seen over whatever is stored. The
average is that of all ratings if no other review of the master is committed between the
aggregate and the commit. Nothing in `create` sees to that: the profile row is locked after the
aggregate.
-/

namespace Handly.Reviews

open Interleaving

/-- The stored rating of every master with reviews is the mean of their ratings, to two
decimals. -/
def Db.RatingsCurrent (db : Db) : Prop :=
  ∀ m ∈ db.masters, ∀ mean ∈ average (db.ratingsOf m.userId), m.ratingAvg = toDecimal mean

instance (db : Db) : Decidable db.RatingsCurrent :=
  inferInstanceAs (Decidable (∀ m ∈ db.masters, ∀ mean ∈ average _, _))

/-- When no call is in flight, the stored ratings are the means. -/
def RatingsAtRest (c : Config Db Call) : Prop :=
  (∀ k ∈ c.calls, k.isFinished = true) → c.store.RatingsCurrent

/-- The master whose ratings the call has aggregated in its open transaction. -/
def Call.aggregates (k : Call) : Option UserId :=
  match k.pc with
  | .aggregated masterId _ | .updated masterId _ => some masterId
  | _ => none

/-- The master whose review the call commits next. -/
def Call.commits (k : Call) : Option UserId :=
  match k.pc with
  | .updated masterId _ => some masterId
  | _ => none

/-- A transaction that commits is the only one that has aggregated the ratings of its master. -/
def CommitsAlone (t : Transition Db Call Input) : Prop :=
  match t.event with
  | .start _ => True
  | .run i x =>
      x.fail = false → ∀ masterId ∈ t.pre.calls[i]?.bind Call.commits,
        ∀ j < t.pre.calls.length, j ≠ i → t.pre.calls[j]?.bind Call.aggregates ≠ some masterId

instance : DecidablePred CommitsAlone := fun t => by
  unfold CommitsAlone
  split <;> infer_instance

/-- The average that a transaction has computed is still that of all ratings and its own. -/
def Call.AverageCurrent (db : Db) (k : Call) : Prop :=
  match k.pc with
  | .aggregated masterId ratingAvg | .updated masterId ratingAvg =>
      average (db.ratingsOf masterId ++ [k.op.rating]) = some ratingAvg
  | _ => True

section Statements

variable {me : ℕ} {x : Input} {k : Call} {db : Db} {o : Outcome Db Call}

/-- A commit adds one rating of its master. -/
theorem ratingsOf_commit {op : Op} {masterId : UserId} {ratingAvg : ℚ} (other : UserId) :
    (commitReview db me op masterId ratingAvg).ratingsOf other =
      db.ratingsOf other ++ if masterId = other then [op.rating] else [] := by
  by_cases hm : masterId = other
  · simp [Db.ratingsOf, commitReview, reviewOf, hm]
  · simp [Db.ratingsOf, commitReview, reviewOf, hm]

/-- The ratings of a master change only with a commit. -/
theorem Stmt.ratingsOf (h : Stmt me x db k o) {masterId : UserId}
    (hnot : k.commits ≠ some masterId) : o.store.ratingsOf masterId = db.ratingsOf masterId := by
  cases h with
  | @commit op m ratingAvg =>
      have hne : m ≠ masterId := fun heq => hnot (congrArg some heq)
      show (commitReview db me op m ratingAvg).ratingsOf masterId = _
      rw [ratingsOf_commit, if_neg hne, List.append_nil]
  | _ => rfl

theorem Stmt.averageCurrent (h : Stmt me x db k o) (hk : k.AverageCurrent db) :
    o.call.AverageCurrent o.store := by
  cases h with
  | aggregate hmean => exact hmean
  | update => exact hk
  | _ => trivial

/-- A statement of another call keeps it, unless it commits a review of the same master. -/
theorem Stmt.averageCurrent_other (h : Stmt me x db k o) {k' : Call} (hk' : k'.AverageCurrent db)
    (halone : ∀ masterId, k.commits = some masterId → k'.aggregates ≠ some masterId) :
    k'.AverageCurrent o.store := by
  have hkept : ∀ masterId, k'.aggregates = some masterId →
      o.store.ratingsOf masterId = db.ratingsOf masterId :=
    fun masterId hagg => h.ratingsOf fun hcommits => halone masterId hcommits hagg
  obtain ⟨op, pc⟩ := k'
  cases pc with
  | aggregated masterId ratingAvg | updated masterId ratingAvg =>
      show average (o.store.ratingsOf masterId ++ [op.rating]) = some ratingAvg
      rw [hkept masterId rfl]
      exact hk'
  | _ => trivial

/-- **One statement keeps the stored ratings**, since a transaction commits an average that is
still current. -/
theorem Stmt.ratingsCurrent (h : Stmt me x db k o) (hG : db.RatingsCurrent)
    (hk : k.AverageCurrent db) : o.store.RatingsCurrent := by
  cases h with
  | @commit op masterId ratingAvg =>
      intro m hm mean hmean
      obtain ⟨m₀, hm₀, rfl⟩ := List.mem_map.mp hm
      by_cases hid : m₀.userId = masterId
      · rw [if_pos hid] at hmean ⊢
        have hall : average (db.ratingsOf masterId ++ [op.rating]) = some mean := by
          simpa [ratingsOf_commit, hid] using hmean
        rw [← Option.some.inj (hk.symm.trans hall)]
      · rw [if_neg hid] at hmean ⊢
        refine hG m₀ hm₀ mean ?_
        simpa [ratingsOf_commit, Ne.symm hid] using hmean
  | @followup op f todo shared hf =>
      rcases Followup.run_masters hf with hsame | ⟨masterId, tier, hmasters⟩
      · intro m hm
        exact hG m (hsame ▸ hm)
      · intro m hm mean hmean
        rw [hmasters] at hm
        obtain ⟨m₀, hm₀, rfl⟩ := List.mem_map.mp hm
        have hkept := hG m₀ hm₀ mean
        split at hmean
        · split
          · exact hkept hmean
          · contradiction
        · split
          · contradiction
          · exact hkept hmean
  | _ => exact hG

end Statements

/-! ### Runs -/

/-- What is known of the averages. -/
def averageOutline : Outline reviewing CommitsAlone where
  G := Db.RatingsCurrent
  L db _ k := k.AverageCurrent db
  start t i k _ _ hentry _ := by
    obtain ⟨op, pc⟩ := k
    cases pc with
    | start => trivial
    | _ => simp [reviewing, Call.isStart] at hentry
  own t i x k o _ he hk hstep _ hG hL := by
    obtain ⟨h, -⟩ := step_cases hstep
    refine ⟨h.ratingsCurrent hG hL, h.averageCurrent hL, fun j k' hk' => ?_⟩
    simp [h.spawned_eq_nil] at hk'
  others t i x k o j k' hC he hk hstep hk' hne _ _ hL' := by
    obtain ⟨h, hfails⟩ := step_cases hstep
    cases hx : x.fail with
    | true =>
        rw [hfails hx]
        exact hL'
    | false =>
        refine h.averageCurrent_other hL' fun masterId hcommits hagg => ?_
        simp only [CommitsAlone, he] at hC
        have hj := (List.getElem?_eq_some_iff.mp hk').1
        refine hC hx masterId ?_ j hj (Ne.symm hne) ?_
        · rw [hk]
          exact hcommits
        · rw [hk']
          exact hagg

/-- **The stored ratings are the means at rest** in a run whose transactions commit alone. -/
theorem ratingsAtRest_of_run {db : Db} {c' : Config Db Call} {ts : List (Transition Db Call Input)}
    (hrun : reviewing.Run ⟨db, []⟩ ts c') (h0 : db.RatingsCurrent)
    (hC : ∀ t ∈ ts, CommitsAlone t) : RatingsAtRest c' ∧ ∀ t ∈ ts, RatingsAtRest t.post := by
  obtain ⟨hend, hall⟩ := averageOutline.holds_run hrun hC ⟨h0, fun i k hk => by simp at hk⟩
  exact ⟨fun _ => hend.1, fun t ht _ => (hall t ht).2.1⟩

/-- Two CLOSED orders of customer 0 and master 1. -/
def twoClosed : Db where
  users := [⟨.active, .customer⟩, ⟨.active, .master⟩]
  masters :=
    [{ userId := 1, verificationStatus := .verified, trustTier := 0, ratingAvg := 0, jobsDone := 2
       isOnline := true }]
  orders :=
    [{ customerId := 0, categoryId := some 0, description := "", status := .closed
       masterId := some 1 },
     { customerId := 0, categoryId := some 0, description := "", status := .closed
       masterId := some 1 }]

/-- One order is reviewed after the other. -/
def reviewInTurn : List (Event Call Input) :=
  [.start ⟨{ customerId := 0, orderId := 0, rating := 5 }, .start⟩,
    .run 0 {}, .run 0 {}, .run 0 {}, .run 0 {}, .run 0 {}, .run 0 {}, .run 0 {}, .run 0 {},
    .start ⟨{ customerId := 0, orderId := 1, rating := 4 }, .start⟩,
    .run 1 {}, .run 1 {}, .run 1 {}, .run 1 {}, .run 1 {}, .run 1 {}, .run 1 {}, .run 1 {}]

theorem ratingsAtRest_reviewInTurn :
    RatingsAtRest (reviewing.after ⟨twoClosed, []⟩ reviewInTurn) ∧
      ∀ t ∈ reviewing.trace ⟨twoClosed, []⟩ reviewInTurn, RatingsAtRest t.post :=
  ratingsAtRest_of_run (reviewing.run_trace _ _) (by decide +kernel) (by decide +kernel)

/-- Both transactions insert, then both aggregate, and both commit. -/
def reviewAtOnce : List (Event Call Input) :=
  [.start ⟨{ customerId := 0, orderId := 0, rating := 5 }, .start⟩,
    .start ⟨{ customerId := 0, orderId := 1, rating := 3 }, .start⟩,
    .run 0 {}, .run 0 {}, .run 0 {}, .run 1 {}, .run 1 {}, .run 1 {},
    .run 0 {}, .run 1 {}, .run 0 {}, .run 0 {}, .run 1 {}, .run 1 {},
    .run 0 {}, .run 0 {}, .run 1 {}, .run 1 {}]

/-- The second commit overwrites the first: the rating is 3, and the mean is 4. -/
theorem not_ratingsAtRest_always :
    ¬ ∀ (db : Db) (ts : List (Transition Db Call Input)) (c' : Config Db Call),
      reviewing.Run ⟨db, []⟩ ts c' → db.RatingsCurrent → RatingsAtRest c' := by
  intro h
  have hrest := h twoClosed _ _ (reviewing.run_trace ⟨twoClosed, []⟩ reviewAtOnce)
    (by decide +kernel) (by decide +kernel)
  revert hrest
  decide +kernel

end Handly.Reviews
