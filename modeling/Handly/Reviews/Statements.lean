import Handly.Lib.Checks
import Handly.Reviews.ReviewsService

/-!
# What one statement of the review service can do

`step_cases` inverts a step once; what is known of reviews goes by cases on `Stmt`.
-/

namespace Handly.Reviews

open Interleaving

/-- Everything the next statement of a call can be. -/
inductive Stmt (me : ℕ) (x : Input) (db : Db) : Call → Outcome Db Call → Prop
  | fails {op pc} : x.fail = true →
      Stmt me x db ⟨op, pc⟩ ⟨db.unlock me, ⟨op, .threw .infrastructure⟩, []⟩
  | refused {op pc e} : pc = .start ∨ (∃ m, pc = .checked m) ∨ (∃ m, pc = .vacant m) ∨
      (∃ todo, pc = .after todo) → Stmt me x db ⟨op, pc⟩ ⟨db, ⟨op, .threw e⟩, []⟩
  | read {op masterId order} : db.orders[op.orderId]? = some order →
      order.customerId = op.customerId → order.status = .closed → order.masterId = some masterId →
      Stmt me x db ⟨op, .start⟩ ⟨db, ⟨op, .checked masterId⟩, []⟩
  | unreviewed {op masterId} : db.hasReview op.orderId = false →
      Stmt me x db ⟨op, .checked masterId⟩ ⟨db, ⟨op, .vacant masterId⟩, []⟩
  | insert {op masterId} : db.reviewLock op.orderId = none → db.hasReview op.orderId = false →
      Stmt me x db ⟨op, .vacant masterId⟩
        ⟨db.lockReview op.orderId me, ⟨op, .inserted masterId⟩, []⟩
  | aggregate {op masterId ratingAvg} :
      average (db.ratingsOf masterId ++ [op.rating]) = some ratingAvg →
      Stmt me x db ⟨op, .inserted masterId⟩ ⟨db, ⟨op, .aggregated masterId ratingAvg⟩, []⟩
  | missing {op masterId ratingAvg} : db.findMaster masterId = none →
      Stmt me x db ⟨op, .aggregated masterId ratingAvg⟩
        ⟨db.unlock me, ⟨op, .threw .infrastructure⟩, []⟩
  | update {op masterId ratingAvg} : db.profileLock masterId = none →
      Stmt me x db ⟨op, .aggregated masterId ratingAvg⟩
        ⟨db.lockProfile masterId me, ⟨op, .updated masterId ratingAvg⟩, []⟩
  | commit {op masterId ratingAvg} :
      Stmt me x db ⟨op, .updated masterId ratingAvg⟩
        ⟨commitReview db me op masterId ratingAvg, ⟨op, .after (reviewFollowups op masterId)⟩, []⟩
  | followup {op f todo shared} : f.run db.toDb x.now = .ok shared →
      Stmt me x db ⟨op, .after (f :: todo)⟩ ⟨{ db with toDb := shared }, ⟨op, .after todo⟩, []⟩
  | done {op} : Stmt me x db ⟨op, .after []⟩ ⟨db, ⟨op, .returned⟩, []⟩

section Cases

variable {me : ℕ} {x : Input} {k : Call} {db : Db} {o : Outcome Db Call}

theorem createGuard_eq_ok {op : Op} {masterId : UserId} (h : createGuard db op = .ok masterId) :
    ∃ order, db.orders[op.orderId]? = some order ∧ order.customerId = op.customerId ∧
      order.status = .closed ∧ order.masterId = some masterId := by
  unfold createGuard at h
  split at h
  · simp at h
  · rename_i order hrow
    simp only [Checks.check_eq_ok] at h
    obtain ⟨hcustomer, hst, hmaster⟩ := h
    refine ⟨order, hrow, of_not_not hcustomer, of_not_not hst, ?_⟩
    split at hmaster
    · simp [throw, throwThe, MonadExceptOf.throw] at hmaster
    · rename_i m hm
      obtain rfl := Checks.pure_eq_ok.mp hmaster
      exact hm

/-- An aggregate over at least one row is not `null`. -/
theorem average_append (ratings : List ℕ) (rating : ℕ) :
    average (ratings ++ [rating]) =
      some (((ratings ++ [rating]).sum : ℚ) / (ratings ++ [rating]).length) := by
  simp [average]

/-- The next statement of a call that does not fail. -/
theorem proceed_cases (h : proceed me x k db = some o) : Stmt me x db k o := by
  obtain ⟨op, pc⟩ := k
  cases pc with
  | start =>
      simp only [proceed] at h
      split at h
      · rw [← Option.some.inj h]
        exact .refused (Or.inl rfl)
      · rename_i masterId hguard
        rw [← Option.some.inj h]
        obtain ⟨order, hrow, hcustomer, hst, hmaster⟩ := createGuard_eq_ok hguard
        exact .read hrow hcustomer hst hmaster
  | checked masterId =>
      simp only [proceed] at h
      split at h
      · rw [← Option.some.inj h]
        exact .refused (Or.inr (Or.inl ⟨masterId, rfl⟩))
      · rename_i hfree
        rw [← Option.some.inj h]
        exact .unreviewed (by simpa using hfree)
  | vacant masterId =>
      simp only [proceed] at h
      split at h
      · simp at h
      · rename_i hlock
        split at h
        · rw [← Option.some.inj h]
          exact .refused (Or.inr (Or.inr (Or.inl ⟨masterId, rfl⟩)))
        · rename_i hfree
          rw [← Option.some.inj h]
          exact .insert (by simpa using hlock) (by simpa using hfree)
  | inserted masterId =>
      rw [← Option.some.inj h, average_append]
      exact .aggregate (average_append _ _)
  | aggregated masterId ratingAvg =>
      simp only [proceed] at h
      split at h
      · rename_i hnone
        rw [← Option.some.inj h]
        exact .missing (by simpa using hnone)
      · split at h
        · simp at h
        · rename_i hlock
          rw [← Option.some.inj h]
          exact .update (by simpa using hlock)
  | updated masterId ratingAvg =>
      rw [← Option.some.inj h]
      exact .commit
  | after todo =>
      cases todo with
      | nil =>
          rw [← Option.some.inj h]
          exact .done
      | cons f todo =>
          simp only [proceed] at h
          split at h
          · rw [← Option.some.inj h]
            exact .refused (Or.inr (Or.inr (Or.inr ⟨_, rfl⟩)))
          · rename_i shared hf
            rw [← Option.some.inj h]
            exact .followup hf
  | returned => simp [proceed] at h
  | threw e => simp [proceed] at h

/-- **Inversion of a step.** -/
theorem step_cases (h : step me x k db = some o) :
    Stmt me x db k o ∧
      (x.fail = true → o = k.goto (db.unlock me) (.threw .infrastructure)) := by
  unfold step at h
  split at h
  · simp at h
  · split at h
    · rename_i hfail
      rw [← Option.some.inj h]
      exact ⟨.fails hfail, fun _ => rfl⟩
    · rename_i hfail
      exact ⟨proceed_cases h, fun hx => absurd hx hfail⟩

/-- Reviewing starts no calls. -/
theorem Stmt.spawned_eq_nil (h : Stmt me x db k o) : o.spawned = [] := by
  cases h <;> rfl

/-- A review leaves the orders and the dispatches alone. -/
theorem Stmt.frame (h : Stmt me x db k o) :
    o.store.orders = db.orders ∧ o.store.dispatches = db.dispatches ∧
      o.store.orderLock = db.orderLock := by
  cases h with
  | followup hf =>
      obtain ⟨horders, hdispatches, -, -, hlock⟩ := Followup.run_frame hf
      exact ⟨horders, hdispatches, hlock⟩
  | _ => exact ⟨rfl, rfl, rfl⟩

end Cases

end Handly.Reviews
