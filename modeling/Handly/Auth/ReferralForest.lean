import Handly.Auth.Effects
import Mathlib.Data.List.Nodup
import Mathlib.Logic.Relation

/-!
# The referral graph

Nothing checks that referrals form no cycle. They form none because a code is the code of a
user who already exists when it is looked up: the call that has created the newest user looks
up the referrer before any other user is created, if calls run one at a time. So a referrer
is older than the referee, and ids grow with age.
-/

namespace Handly.Auth

open Interleaving

/-- The user `a` is recorded as the referrer of the user `b`. -/
def Refers (db : Db) (a b : UserId) : Prop :=
  ∃ r ∈ db.referrals, r.referrerId = a ∧ r.refereeId = b

/-- The recorded referrals form a forest. -/
structure ReferralForest (db : Db) : Prop where
  noSelfLoop : ∀ u, ¬ Refers db u u
  oneReferrer : ∀ a b u, Refers db a u → Refers db b u → a = b
  acyclic : ∀ u, ¬ Relation.TransGen (Refers db) u u

/-- One call runs at a time: every other has not begun or has finished. -/
def OneAtATime (t : Transition Db Call Input) : Prop :=
  t.Satisfies fun i _ _ _ =>
    ∀ r ∈ t.pre.calls.zipIdx, r.2 ≠ i → r.1.isStart = true ∨ r.1.isFinished = true

instance (t : Transition Db Call Input) : Decidable (OneAtATime t) := by
  unfold OneAtATime
  infer_instance

/-- Every referrer is older than the referee, and no user is referred twice. -/
structure Seniority (db : Db) : Prop where
  older : ∀ r ∈ db.referrals, r.referrerId < r.refereeId
  once : (db.referrals.map Referral.refereeId).Nodup

/-- The user that a call has created is still the newest one while its referrer is looked up,
and the referrer that is found is older. -/
def Call.SignsUp (db : Db) (k : Call) : Prop :=
  match k.pc with
  | .profiling id true | .signingUp id _ => id + 1 = db.users.length
  | .recordingSignup id referrerId => referrerId < id
  | _ => True

theorem Call.signsUp_of_idle {db : Db} {k : Call}
    (h : k.isStart = true ∨ k.isFinished = true) : k.SignsUp db := by
  obtain ⟨op, pc⟩ := k
  cases pc <;> first | trivial | simp [Call.isStart, Call.isFinished] at h

/-! ### One operation -/

section Seniority

variable {env : Env} {me : ℕ} {x : Input} {k : Call} {db : Db} {o : Outcome Db Call}

/-- Referrals that are in order form a forest. -/
theorem Seniority.forest (h : Seniority db) : ReferralForest db := by
  have hlt : ∀ {a b : UserId}, Refers db a b → a < b := by
    intro a b hrefers
    obtain ⟨r, hr, rfl, rfl⟩ := hrefers
    exact h.older r hr
  refine ⟨fun u hu => lt_irrefl u (hlt hu), fun a b u ha hb => ?_, fun u hu => ?_⟩
  · obtain ⟨r, hr, rfl, hreferee⟩ := ha
    obtain ⟨r', hr', rfl, hreferee'⟩ := hb
    rw [List.inj_on_of_nodup_map h.once hr hr' (hreferee.trans hreferee'.symm)]
  · -- Along a chain of referrals the users get younger.
    have hchain : ∀ {a b : UserId}, Relation.TransGen (Refers db) a b → a < b := by
      intro a b hab
      induction hab with
      | single hstep => exact hlt hstep
      | tail _ hstep ih => exact ih.trans (hlt hstep)
    exact lt_irrefl u (hchain hu)

theorem Seniority.createReferral (h : Seniority db) {r : Referral}
    (hr : r.referrerId < r.refereeId) : Seniority (db.createReferral r) := by
  unfold Db.createReferral
  split
  · exact h
  · rename_i hnone
    simp only [List.any_eq_true, decide_eq_true_eq, not_exists, not_and] at hnone
    refine ⟨?_, ?_⟩
    · simp only [List.forall_mem_append, List.forall_mem_singleton]
      exact ⟨h.older, hr⟩
    · rw [List.map_append, List.map_singleton, List.nodup_append]
      refine ⟨h.once, List.nodup_singleton _, fun a ha b hb => ?_⟩
      obtain ⟨r', hr', rfl⟩ := List.mem_map.mp ha
      obtain rfl := List.mem_singleton.mp hb
      exact hnone r' hr'

/-- What an activation leaves of the referrals: who referred whom. -/
theorem activateReferrals_pairs (db : Db) (u : UserId) :
    (db.activateReferrals u).referrals.map (fun r => (r.referrerId, r.refereeId)) =
      db.referrals.map fun r => (r.referrerId, r.refereeId) := by
  simp only [Db.activateReferrals, List.map_map]
  refine List.map_congr_left fun r _ => ?_
  dsimp only [Function.comp_apply]
  split <;> rfl

theorem Seniority.activateReferrals (h : Seniority db) (u : UserId) :
    Seniority (db.activateReferrals u) := by
  refine ⟨fun r hr => ?_, ?_⟩
  · simp only [Db.activateReferrals, List.mem_map] at hr
    obtain ⟨r, hr, rfl⟩ := hr
    split <;> exact h.older r hr
  · have hsame : (db.activateReferrals u).referrals.map Referral.refereeId =
        db.referrals.map Referral.refereeId := by
      simpa [List.map_map] using congrArg (List.map Prod.snd) (activateReferrals_pairs db u)
    rw [hsame]
    exact h.once

/-- **An operation keeps the referrals in order.** -/
theorem Stmt.seniority (h : Stmt env me x db k o) (hk : k.SignsUp db) (hdb : Seniority db) :
    Seniority o.store := by
  cases h with
  | aside ha =>
      cases ha with
      | recordSignup => exact hdb.createReferral hk
      | activateReferrals => exact hdb.activateReferrals _
      | _ => exact ⟨hdb.older, hdb.once⟩
  | _ => exact ⟨hdb.older, hdb.once⟩

/-- The call goes on to know what it needs of the user that it has created. -/
theorem Stmt.signsUp (h : Stmt env me x db k o) (hk : k.SignsUp db) : o.call.SignsUp o.store := by
  cases h with
  | reads hr =>
      cases hr with
      | @referrer dto id referredByCode referrerId row hrow _ hne =>
          have hlt : referrerId < db.users.length := (List.getElem?_eq_some_iff.mp hrow).1
          have hnewest : id + 1 = db.users.length := hk
          exact Nat.lt_of_le_of_ne (Nat.le_of_lt_succ (hlt.trans_eq hnewest.symm)) hne
      | limited hlimited => cases hlimited <;> trivial
      | uncleared hadmitted => cases hadmitted <;> trivial
      | _ => trivial
  | aside ha =>
      cases ha with
      | profileNew => exact hk
      | countOver _ hlimited | expireOver _ hlimited => cases hlimited <;> trivial
      | countFailure hpc => rcases hpc with rfl | rfl <;> trivial
      | clearFailures hadmitted => cases hadmitted <;> trivial
      | _ => trivial
  | create =>
      show db.users.length + 1 = (db.createUser _).users.length
      simp
  | _ => trivial

/-- A recorded referral stays. -/
theorem Stmt.refers (h : Stmt env me x db k o) {a b : UserId} (hab : Refers db a b) :
    Refers o.store a b := by
  obtain ⟨r, hr, rfl, rfl⟩ := hab
  cases h with
  | aside ha =>
      cases ha with
      | recordSignup =>
          refine ⟨r, ?_, rfl, rfl⟩
          simp only [Db.createReferral]
          split
          · exact hr
          · exact List.mem_append_left _ hr
      | activateReferrals =>
          refine ⟨_, List.mem_map_of_mem hr, ?_⟩
          split <;> exact ⟨rfl, rfl⟩
      | _ => exact ⟨r, hr, rfl, rfl⟩
  | _ => exact ⟨r, hr, rfl, rfl⟩

end Seniority

/-! ### Whole runs -/

section Run

variable {env : Env} {db : Db} {c c' : Config Db Call} {ts : List (Transition Db Call Input)}

/-- Calls that run one at a time keep the referrals in order. -/
def signups (env : Env) : Outline (accounts env) OneAtATime where
  G := Seniority
  L db _ k := k.SignsUp db
  start _ _ _ _ _ hentry _ := Call.signsUp_of_idle (Or.inl hentry)
  own t i x k o _ _ _ hstep _ hdb hk := by
    have h := step_cases hstep
    refine ⟨h.seniority hk hdb, h.signsUp hk, fun j k' hk' => ?_⟩
    simp [h.spawned_eq_nil] at hk'
  others _ i x k _ j k' hC he hk _ hk' hne _ _ _ :=
    Call.signsUp_of_idle
      (hC i x k he hk (k', j) (List.mem_zipIdx_iff_getElem?.mpr hk') (Ne.symm hne))

/-- A recorded referral stays for the rest of the run. -/
theorem refers_of_run (hrun : (accounts env).Run c ts c') {a b : UserId}
    (hab : Refers c.store a b) : Refers c'.store a b := by
  refine (hrun.always (fun c => Refers c.store a b) hab fun t ht hI => ?_).1
  rcases stmt_of_fires ht with ⟨k, -, -, hpost⟩ | ⟨i, x, k, o, -, -, h, hpost⟩
  · rwa [hpost]
  · rw [hpost]
    exact h.refers hI

/-- **The referral graph is a forest** after any number of calls that run one at a time, and
the referrer of a user never changes. -/
theorem referralForest_of_run (hrun : (accounts env).Run ⟨db, []⟩ ts c')
    (hreferrals : db.referrals = []) (hone : ∀ t ∈ ts, OneAtATime t) :
    ReferralForest c'.store ∧ ∀ t ∈ ts, ∀ a u, Refers t.pre.store a u →
      ∀ b, Refers c'.store b u ↔ b = a := by
  have hforest := ((signups env).holds_run hrun hone
    ⟨⟨by simp [hreferrals], by simp [hreferrals]⟩, by simp⟩).1.1.forest
  refine ⟨hforest, fun t ht a u hau b => ?_⟩
  obtain ⟨_, after, _, _, hafter⟩ := hrun.split t ht
  have hstays : Refers c'.store a u := refers_of_run ((hrun.fires t ht).run.append hafter) hau
  constructor
  · intro hbu
    exact hforest.oneReferrer b a u hbu hstays
  · rintro rfl
    exact hstays

end Run

/-- A user signs up twice before the verification, the second time with its own code. Another
one signs up with the code of the first, and is verified. -/
def signupsInTurn : List (Event Call Input) :=
  List.flatten
    [play 0 12 (.register { phone := "p", password := "a" }) { referralCode := "P", code := "1" },
      play 1 10 (.register { phone := "p", password := "a", referredByCode := some "P" })
        { code := "2", now := 60000 },
      play 2 14 (.register { phone := "q", password := "b", referredByCode := some "P" })
        { referralCode := "Q", code := "3" },
      play 3 7 (.verifyOtp "q" "3" .signup) {}]

theorem referralForest_signupsInTurn :
    ReferralForest ((accounts plainHashes).after ⟨{}, []⟩ signupsInTurn).store ∧
      ((accounts plainHashes).after ⟨{}, []⟩ signupsInTurn).store.referrals.map
        (fun r => (r.referrerId, r.refereeId)) = [(0, 1)] :=
  ⟨(referralForest_of_run ((accounts plainHashes).run_trace ⟨{}, []⟩ signupsInTurn) rfl
    (by decide +kernel)).1, by decide +kernel⟩

end Handly.Auth
