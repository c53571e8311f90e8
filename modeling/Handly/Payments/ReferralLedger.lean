import Handly.Auth.Tables
import Handly.Payments.Effects

/-!
# The referral ledger

`rewardOnFirstPayment` claims the referral in one commit and enters the cashback record in
another. A call that fails in between leaves a REWARDED referral without a record, and its
status turns every later call away. The books of a run show that nothing else unbalances the
ledger.
-/

namespace Handly.Payments

open Interleaving

/-! ### The summary -/

/-- `ReferralDto`; the rows stand in the order of their `createdAt`. -/
structure ReferralDto where
  id : ReferralId
  refereeId : UserId
  refereePhoneMasked : String
  status : ReferralStatus
  rewardedAt : Option Time

structure CashbackRecordDto where
  id : ℕ
  amount : ℤ
  sourceType : CashbackSourceType
  status : CashbackStatus
  note : Option String

structure ReferralSummaryDto where
  referralCode : String
  totalReferred : ℕ
  totalRewarded : ℕ
  totalCashbackEarned : ℤ
  referrals : List ReferralDto
  cashbackRecords : List CashbackRecordDto

def maskPhone (phone : String) : String :=
  if phone.length < 6 then phone
  else
    String.ofList (phone.toList.take 6) ++ "***" ++
      String.ofList (phone.toList.drop (phone.length - 2))

/-- `ReferralsService.getSummary` -/
def getSummary (users : List Auth.User) (db : Db) (userId : UserId) :
    Except ApiError ReferralSummaryDto :=
  match users[userId]? with
  | none => .error .infrastructure
  | some user =>
      let referrals := (db.referrals.zipIdx.filter fun r => r.1.referrerId = userId).reverse
      let cashbackRecords := (db.cashbackRecords.zipIdx.filter fun c => c.1.userId = userId).reverse
      .ok
        { referralCode := user.referralCode
          totalReferred := referrals.length
          totalRewarded := (referrals.filter fun r => r.1.status = .rewarded).length
          totalCashbackEarned := (cashbackRecords.map fun c => c.1.amount).sum
          referrals := referrals.map fun r =>
            { id := r.2, refereeId := r.1.refereeId
              refereePhoneMasked := maskPhone ((users[r.1.refereeId]?.map Auth.User.phone).getD "")
              status := r.1.status, rewardedAt := r.1.rewardedAt }
          cashbackRecords := cashbackRecords.map fun c =>
            { id := c.2, amount := c.1.amount, sourceType := c.1.sourceType, status := c.1.status
              note := c.1.note } }

/-- What the summary shows as earned from referrals. -/
def ReferralSummaryDto.earnedFromReferrals (s : ReferralSummaryDto) : ℤ :=
  ((s.cashbackRecords.filter fun c => c.sourceType = .referralReward).map
    CashbackRecordDto.amount).sum

/-! ### The ledger -/

/-- The record rewards a referral. -/
def CashbackRecord.Rewards (r : CashbackRecord) : Bool := r.sourceType = .referralReward

/-- The cashback records that reward the referral. -/
def Db.rewardsOf (db : Db) (id : ReferralId) : ℕ :=
  db.cashbackRecords.countP fun r => r.Rewards && r.referralId = some id

/-- The cashback records that the referrer has for referrals. -/
def Db.rewardsTo (db : Db) (u : UserId) : ℕ :=
  db.cashbackRecords.countP fun r => r.Rewards && r.userId = u

/-- The referrals of the referrer that are REWARDED. -/
def Db.rewardedBy (db : Db) (u : UserId) : ℕ :=
  db.referrals.countP fun r => r.referrerId = u && r.status = .rewarded

/-- The ledger matches the referrals. -/
structure LedgerMatches (db : Db) : Prop where
  amounts : ∀ r ∈ db.cashbackRecords, r.Rewards = true → r.amount = referralRewardAmount
  /-- A REWARDED referral has one record, any other none. -/
  counted : ∀ id : ReferralId,
    db.rewardsOf id = if db.referrals[id]?.any fun r => r.status = .rewarded then 1 else 0
  earned : ∀ (users : List Auth.User) (u : UserId) (s : ReferralSummaryDto),
    getSummary users db u = .ok s →
    s.earnedFromReferrals = referralRewardAmount * s.totalRewarded

/-- The `cashbackRecord.create` of a call that has claimed its referral does not fail. -/
def CreditsClaimed (_me : ℕ) (x : Input) (k : Call) (_db : Db) : Prop :=
  (k.pc matches .crediting _ _) = true → x.fail = false

instance (me : ℕ) (x : Input) (k : Call) (db : Db) : Decidable (CreditsClaimed me x k db) :=
  inferInstanceAs (Decidable (_ → _))

/-! ### What the summary adds up -/

section Summary

variable {users : List Auth.User} {db : Db} {u : UserId} {s : ReferralSummaryDto}

theorem totalRewarded_eq (h : getSummary users db u = .ok s) :
    s.totalRewarded = db.rewardedBy u := by
  unfold getSummary at h
  split at h
  · simp at h
  · rw [← Except.ok.inj h]
    have hcount := Table.countP_zipIdx
      (fun r : Referral => r.referrerId = u && r.status = .rewarded) db.referrals
    dsimp only
    rw [← List.countP_eq_length_filter, List.countP_reverse, List.countP_filter, Db.rewardedBy,
      ← hcount]
    simp only [Bool.and_comm]

/-- Every record of a referral reward has the fixed amount, so their sum is a multiple of it. -/
theorem earnedFromReferrals_eq (hamounts : ∀ r ∈ db.cashbackRecords, r.Rewards = true →
    r.amount = referralRewardAmount) (h : getSummary users db u = .ok s) :
    s.earnedFromReferrals = referralRewardAmount * db.rewardsTo u := by
  unfold getSummary at h
  split at h
  · simp at h
  · rw [← Except.ok.inj h]
    simp only [ReferralSummaryDto.earnedFromReferrals, List.filter_map, List.map_map]
    have hcount := Table.countP_zipIdx
      (fun r : CashbackRecord => r.Rewards && r.userId = u) db.cashbackRecords
    rw [List.sum_eq_card_nsmul _ referralRewardAmount]
    · rw [List.length_map, ← List.countP_eq_length_filter, List.countP_reverse,
        List.countP_filter, Db.rewardsTo, ← hcount, nsmul_eq_mul, mul_comm]
      simp only [CashbackRecord.Rewards, Function.comp_apply]
    · intro amount hamount
      obtain ⟨c, hc, rfl⟩ := List.mem_map.mp hamount
      simp only [List.mem_filter, List.mem_reverse, Function.comp_apply, decide_eq_true_eq] at hc
      obtain ⟨⟨hmem, -⟩, hrewards⟩ := hc
      have hrow : c.1 ∈ db.cashbackRecords := (List.mem_zipIdx hmem).2.2 ▸ List.getElem_mem _
      exact hamounts c.1 hrow (by simpa [CashbackRecord.Rewards] using hrewards)

/-- In a ledger that matches, a referrer has one record for each of his REWARDED referrals. -/
theorem LedgerMatches.rewardsTo_eq (h : LedgerMatches db) (u : UserId) :
    db.rewardsTo u = db.rewardedBy u := by
  let user : Auth.User :=
    { phone := "", passwordHash := "", role := .customer, referralCode := "", locale := .uz }
  have hfound : (List.replicate (u + 1) user)[u]? = some user := by simp
  obtain ⟨s, hs⟩ : ∃ s, getSummary (List.replicate (u + 1) user) db u = .ok s := by
    unfold getSummary
    rw [hfound]
    exact ⟨_, rfl⟩
  have hearned := h.earned _ u s hs
  rw [earnedFromReferrals_eq h.amounts hs, totalRewarded_eq hs] at hearned
  have hcounts := mul_left_cancel₀ (by decide : referralRewardAmount ≠ 0) hearned
  exact_mod_cast hcounts

end Summary

/-! ### The books -/

/-- The columns that the claim of `rewardOnFirstPayment` sets. -/
def claimData (now : Time) (row : Referral) : Referral :=
  { row with status := .rewarded, rewardedAt := some now }

/-- One account of the books: some of the referrals, and the records that reward them. -/
structure Account where
  /-- A call credits this account for the referral as it read it. -/
  owed : ReferralId → Referral → Bool
  credited : CashbackRecord → Bool
  /-- How many of the account's referrals are REWARDED. -/
  claimed : List Referral → ℕ
  credited_of_owed : ∀ id referral, credited (cashbackOf id referral) = owed id referral
  claimed_modify : ∀ (rows : List Referral) (id : ReferralId) (row referral : Referral)
    (now : Time), rows[id]? = some row → row.status = .active →
    row.referrerId = referral.referrerId →
    claimed (rows.modify id (claimData now)) = claimed rows + if owed id referral then 1 else 0

theorem claimed_modify_referral (rows : List Referral) (id id' : ReferralId) (row : Referral)
    (now : Time) (hrow : rows[id']? = some row) (hst : row.status = .active) :
    (if (rows.modify id' (claimData now))[id]?.any fun r => r.status = .rewarded then 1 else 0) =
      (if rows[id]?.any fun r => r.status = .rewarded then 1 else 0) +
        if id' = id then 1 else 0 := by
  rw [List.getElem?_modify]
  by_cases hid : id' = id
  · subst hid
    simp [hrow, hst, claimData]
  · simp [hid]

theorem claimed_modify_referrer (rows : List Referral) (u : UserId) (id : ReferralId)
    (row : Referral) (now : Time) (hrow : rows[id]? = some row) (hst : row.status = .active) :
    (rows.modify id (claimData now)).countP (fun r => r.referrerId = u && r.status = .rewarded) =
      (rows.countP fun r => r.referrerId = u && r.status = .rewarded) +
        if row.referrerId = u then 1 else 0 := by
  have hcount := Table.countP_modify (p := fun r => r.referrerId = u && r.status = .rewarded)
    (f := claimData now) hrow
  by_cases hreferrer : row.referrerId = u
  · simpa [hst, claimData, hreferrer] using hcount
  · simpa [hst, claimData, hreferrer] using hcount

/-- The account of one referral. -/
def Account.ofReferral (id : ReferralId) : Account where
  owed id' _ := id' = id
  credited r := r.Rewards && r.referralId = some id
  claimed rows := if rows[id]?.any fun r => r.status = .rewarded then 1 else 0
  credited_of_owed id' referral := by simp [cashbackOf, CashbackRecord.Rewards]
  claimed_modify rows id' row referral now hrow hst _ := by
    simpa using claimed_modify_referral rows id id' row now hrow hst

/-- The account of one referrer. -/
def Account.ofReferrer (u : UserId) : Account where
  owed _ referral := referral.referrerId = u
  credited r := r.Rewards && r.userId = u
  claimed rows := rows.countP fun r => r.referrerId = u && r.status = .rewarded
  credited_of_owed _ _ := rfl
  claimed_modify rows id row referral now hrow hst hreferrer := by
    simpa [hreferrer] using claimed_modify_referrer rows u id row now hrow hst

/-- What a call that has claimed a referral owes the account. -/
def Call.owes (a : Account) (k : Call) : ℕ :=
  match k.pc with
  | .crediting id referral => if a.owed id referral then 1 else 0
  | _ => 0

/-- The referral that a call has read has the referrer of the row. -/
def Call.Referring (db : Db) (k : Call) : Prop :=
  match k.pc with
  | .rewarding id referral =>
      ∃ row, db.referrals[id]? = some row ∧ row.referrerId = referral.referrerId
  | _ => True

/-- The transition fails at the record that it owes the account. -/
def losesCredit (a : Account) (t : Transition Db Call Input) : Bool :=
  match t.event with
  | .start _ => false
  | .run _ x => x.fail && t.caller.any fun k => k.owes a = 1

section Statements

variable {env : Env} {me : ℕ} {x : Input} {k : Call} {db : Db} {o : Outcome Db Call}

theorem Stmt.referring (h : Stmt env me x db k o) : o.call.Referring o.store := by
  cases h with
  | reads hr =>
      cases hr with
      | rewardReads _ hrow => exact ⟨_, hrow, rfl⟩
      | _ => trivial
  | credit hpc => rcases hpc with rfl | rfl <;> trivial
  | _ => trivial

/-- Every referral keeps its referrer. -/
theorem Stmt.referral_stays (h : Stmt env me x db k o) {id : ReferralId} {row : Referral}
    (hrow : db.referrals[id]? = some row) :
    ∃ row', o.store.referrals[id]? = some row' ∧ row'.referrerId = row.referrerId := by
  cases h with
  | @claimReferral op id' referral =>
      refine ⟨_, Table.modify_of_row hrow id', ?_⟩
      split <;> rfl
  | _ => exact ⟨row, hrow, rfl⟩

theorem Stmt.referring_other (h : Stmt env me x db k o) {k' : Call} (hk' : k'.Referring db) :
    k'.Referring o.store := by
  obtain ⟨op, pc⟩ := k'
  cases pc with
  | rewarding id referral =>
      obtain ⟨row, hrow, hreferrer⟩ := hk'
      obtain ⟨row', hrow', hreferrer'⟩ := h.referral_stays hrow
      exact ⟨row', hrow', hreferrer'.trans hreferrer⟩
  | _ => trivial

/-- The books of one statement: what is claimed is credited, owed or lost. -/
theorem Stmt.balance (h : Stmt env me x db k o)
    (hfails : x.fail = true → o = k.goto (db.unlock me) (.threw .infrastructure))
    (hk : k.Referring db) (a : Account) :
    o.store.cashbackRecords.countP a.credited + o.call.owes a +
        (if x.fail && k.owes a = 1 then 1 else 0) + a.claimed db.referrals =
      db.cashbackRecords.countP a.credited + k.owes a + a.claimed o.store.referrals := by
  have howes : k.owes a = 0 ∨ k.owes a = 1 := by
    unfold Call.owes
    split
    · split
      · exact Or.inr rfl
      · exact Or.inl rfl
    · exact Or.inl rfl
  by_cases hx : x.fail = true
  · rw [hfails hx]
    show db.cashbackRecords.countP a.credited + 0 + _ + a.claimed db.referrals = _
    rcases howes with hzero | hone
    · simp [hzero, Call.goto, Db.unlock]
    · simp [hone, hx, Call.goto, Db.unlock]
  · -- Only the claim and the record move amounts.
    have hidle : o.store.cashbackRecords = db.cashbackRecords →
        o.store.referrals = db.referrals → o.call.owes a = 0 → k.owes a = 0 →
        o.store.cashbackRecords.countP a.credited + o.call.owes a +
            (if x.fail && k.owes a = 1 then 1 else 0) + a.claimed db.referrals =
          db.cashbackRecords.countP a.credited + k.owes a + a.claimed o.store.referrals := by
      intro hrecords hreferrals ho hk
      simp [hrecords, hreferrals, ho, hk]
    cases h with
    | fails hfail => exact absurd hfail hx
    | reads hr =>
        cases hr with
        | rewardReads henter => cases henter <;> exact hidle rfl rfl rfl rfl
        | _ => exact hidle rfl rfl rfl rfl
    | rewardNone henter => cases henter <;> exact hidle rfl rfl rfl rfl
    | @claimReferral op id referral row hrow hst =>
        obtain ⟨row', hrow', hreferrer⟩ := hk
        obtain rfl := Option.some.inj (hrow.symm.trans hrow')
        have hclaimed := a.claimed_modify db.referrals id row referral x.now hrow hst hreferrer
        have howed : Call.owes a ⟨op, .crediting id referral⟩ =
            if a.owed id referral then 1 else 0 := rfl
        have hnone : Call.owes a ⟨op, .rewarding id referral⟩ = 0 := rfl
        show db.cashbackRecords.countP a.credited + _ + _ + a.claimed db.referrals =
          db.cashbackRecords.countP a.credited + _ +
            a.claimed (db.referrals.modify id (claimData x.now))
        rw [howed, hnone, hclaimed]
        simp only [hx, Bool.false_and, Bool.false_eq_true, if_false]
        omega
    | @credit op id referral pc hpc =>
        have hpaid : Call.owes a ⟨op, pc⟩ = 0 := by
          rcases hpc with rfl | rfl <;> rfl
        have howed : Call.owes a ⟨op, .crediting id referral⟩ =
            if a.owed id referral then 1 else 0 := rfl
        have hrecord : ((db.createCashback (cashbackOf id referral)).rewardReturned me
            referral.refereeId).cashbackRecords = db.cashbackRecords ++ [cashbackOf id referral] :=
          rfl
        simp only [hpaid, howed, hrecord, List.countP_append, List.countP_singleton,
          a.credited_of_owed]
        simp [hx, Db.createCashback, Db.rewardReturned]
    | _ => exact hidle rfl rfl rfl rfl

/-- Every record of a referral reward has the fixed amount. -/
theorem Stmt.amounts (h : Stmt env me x db k o)
    (hamounts : ∀ r ∈ db.cashbackRecords, r.Rewards = true → r.amount = referralRewardAmount) :
    ∀ r ∈ o.store.cashbackRecords, r.Rewards = true → r.amount = referralRewardAmount := by
  cases h with
  | @credit op id referral =>
      intro r hr hrewards
      rcases List.mem_append.mp hr with hold | hnew
      · exact hamounts r hold hrewards
      · rw [List.mem_singleton.mp hnew]
        rfl
  | _ => exact hamounts

end Statements

section Run

variable {env : Env} {db : Db} {c' : Config Db Call} {ts : List (Transition Db Call Input)}

/-- The outline of any run: calls know the referrer of the referral they read, and records have
the fixed amount. -/
def referring (env : Env) : Outline (payments env) fun t => t.Satisfies fun _ _ _ _ => True :=
  .ofSteps (payments env) _
    (fun db => ∀ r ∈ db.cashbackRecords, r.Rewards = true → r.amount = referralRewardAmount)
    (fun db _ k => k.Referring db)
    (by
      intro db me k hentry _
      obtain ⟨op, pc⟩ := k
      cases pc with
      | start => trivial
      | _ => simp [payments, Call.isStart] at hentry)
    (by
      intro me x k db o _ hstep hamounts _
      obtain ⟨-, h, -⟩ := step_cases hstep
      exact ⟨h.amounts hamounts, h.referring, h.spawned_eq_nil⟩)
    (by
      intro me x k db o other k' _ hstep _ _ _ hk'
      obtain ⟨-, h, -⟩ := step_cases hstep
      exact h.referring_other hk')

theorem referring_of_run (hrun : (payments env).Run ⟨db, []⟩ ts c')
    (hamounts : ∀ r ∈ db.cashbackRecords, r.Rewards = true → r.amount = referralRewardAmount) :
    (referring env).Holds c' ∧ ∀ t ∈ ts, (referring env).Holds t.pre := by
  obtain ⟨hend, hall⟩ := (referring env).holds_run hrun (fun _ _ _ _ _ _ _ => trivial)
    ⟨hamounts, by simp⟩
  exact ⟨hend, fun t ht => (hall t ht).1⟩

/-- **The books of a run.** What an account has claimed is credited, owed by a call in flight, or
lost to a failure. -/
theorem balance_of_run (hrun : (payments env).Run ⟨db, []⟩ ts c')
    (hamounts : ∀ r ∈ db.cashbackRecords, r.Rewards = true → r.amount = referralRewardAmount)
    (a : Account) (h0 : db.cashbackRecords.countP a.credited = a.claimed db.referrals) :
    potential (fun db : Db => db.cashbackRecords.countP a.credited) (Call.owes a) c' +
        ts.countP (losesCredit a) =
      a.claimed c'.store.referrals := by
  have hholds := (referring_of_run hrun hamounts).2
  refine hrun.add_countP_eq
    (potential (fun db : Db => db.cashbackRecords.countP a.credited) (Call.owes a))
    (fun c => a.claimed c.store.referrals) (losesCredit a) (by simpa [potential] using h0) ?_
  intro t ht hfire
  rcases stmt_of_fires hfire with ⟨k, he, hstart, hpost⟩ | ⟨i, x, k, o, he, hk, -, h, hfails, hpost⟩
  · have howes : k.owes a = 0 := by
      simp [Call.owes, hstart]
    simp [potential, hpost, howes, losesCredit, he]
  · have hbooks := h.balance hfails ((hholds t ht).2 i k hk) a
    have hsum := sum_map_set (g := Call.owes a) hk o.call
    have hloses : losesCredit a t = (x.fail && k.owes a = 1) := by
      simp [losesCredit, he, Transition.caller_eq he hk]
    rw [hloses, hpost]
    simp only [potential]
    omega

/-- Once no call is in flight, nothing is owed. -/
theorem credited_of_run (hrun : (payments env).Run ⟨db, []⟩ ts c')
    (hamounts : ∀ r ∈ db.cashbackRecords, r.Rewards = true → r.amount = referralRewardAmount)
    (hquiet : ∀ k ∈ c'.calls, k.isFinished = true) (a : Account)
    (h0 : db.cashbackRecords.countP a.credited = a.claimed db.referrals) :
    c'.store.cashbackRecords.countP a.credited + ts.countP (losesCredit a) =
      a.claimed c'.store.referrals := by
  have hbooks := balance_of_run hrun hamounts a h0
  have hnone : (c'.calls.map (Call.owes a)).sum = 0 := by
    refine List.sum_eq_zero fun n hn => ?_
    obtain ⟨⟨op, pc⟩, hk, rfl⟩ := List.mem_map.mp hn
    have hfinished := hquiet _ hk
    cases pc with
    | crediting => simp [Call.isFinished] at hfinished
    | _ => rfl
  simpa [potential, hnone] using hbooks

/-- **The ledger matches the referrals**, once no call is in flight, exactly if the record of a
claimed referral was never lost to a failure. -/
theorem ledgerMatches_iff (hrun : (payments env).Run ⟨db, []⟩ ts c')
    (hledger : LedgerMatches db) (hquiet : ∀ k ∈ c'.calls, k.isFinished = true) :
    LedgerMatches c'.store ↔ ∀ t ∈ ts, t.Satisfies CreditsClaimed := by
  have hreferral := fun id =>
    credited_of_run hrun hledger.amounts hquiet (.ofReferral id) (hledger.counted id)
  have hreferrer := fun u =>
    credited_of_run hrun hledger.amounts hquiet (.ofReferrer u) (hledger.rewardsTo_eq u)
  constructor
  · intro hmatches t ht i x k he hk hcrediting
    obtain ⟨op, pc⟩ := k
    cases pc with
    | crediting id referral =>
        -- The lost record is missing from the account of its referral.
        have hnone : ts.countP (losesCredit (.ofReferral id)) = 0 := by
          have hbooks := hreferral id
          have hcount : c'.store.cashbackRecords.countP (Account.ofReferral id).credited =
              (Account.ofReferral id).claimed c'.store.referrals := hmatches.counted id
          omega
        have hkept := List.countP_eq_zero.mp hnone t ht
        simpa [losesCredit, he, Transition.caller_eq he hk, Call.owes, Account.ofReferral]
          using hkept
    | _ => simp at hcrediting
  · intro hC
    have hnone : ∀ a : Account, ts.countP (losesCredit a) = 0 := by
      intro a
      refine List.countP_eq_zero.mpr fun t ht hloses => ?_
      unfold losesCredit at hloses
      split at hloses
      · simp at hloses
      · rename_i i x he
        obtain ⟨hfail, hcaller⟩ := (Bool.and_eq_true _ _).mp hloses
        obtain ⟨⟨op, pc⟩, hk, howes⟩ := (Option.any_eq_true _ _).mp hcaller
        simp only [Transition.caller, he] at hk
        cases pc with
        | crediting id referral => simp [hC t ht i x _ he hk rfl] at hfail
        | _ => simp [Call.owes] at howes
    refine ⟨(referring_of_run hrun hledger.amounts).1.1, fun id => ?_, fun users u s hs => ?_⟩
    · have hbooks := hreferral id
      rw [hnone] at hbooks
      exact hbooks
    · have hbooks := hreferrer u
      rw [hnone] at hbooks
      rw [earnedFromReferrals_eq (referring_of_run hrun hledger.amounts).1.1 hs,
        totalRewarded_eq hs]
      exact congrArg (fun n : ℕ => referralRewardAmount * n) hbooks

end Run

/-- A database in which nothing was rewarded yet. -/
theorem ledgerMatches_of_unrewarded {db : Db}
    (hrecords : ∀ r ∈ db.cashbackRecords, r.Rewards = false)
    (hreferrals : ∀ r ∈ db.referrals, r.status ≠ .rewarded) : LedgerMatches db := by
  have hamounts : ∀ r ∈ db.cashbackRecords, r.Rewards = true → r.amount = referralRewardAmount := by
    intro r hr hrewards
    simp [hrecords r hr] at hrewards
  refine ⟨hamounts, fun id => ?_, fun users u s hs => ?_⟩
  · rw [if_neg]
    · exact List.countP_eq_zero.mpr fun r hr => by simp [hrecords r hr]
    · intro hany
      obtain ⟨row, hrow, hst⟩ := (Option.any_eq_true _ _).mp hany
      exact hreferrals row (List.mem_of_getElem? hrow) (of_decide_eq_true hst)
  · have hto : db.rewardsTo u = 0 :=
      List.countP_eq_zero.mpr fun r hr => by simp [hrecords r hr]
    have hby : db.rewardedBy u = 0 :=
      List.countP_eq_zero.mpr fun r hr => by simp [hreferrals r hr]
    rw [earnedFromReferrals_eq hamounts hs, totalRewarded_eq hs, hto, hby]

/-- Customer 0 was referred by user 1. -/
def oneReferred : Db where
  referrals := [{ referrerId := 1, refereeId := 0, status := .active }]

/-- Two calls race, and a third comes later. -/
def rewardTogether : List (Event Call Input) :=
  [.start ⟨.rewardOnFirstPayment 0, .start⟩, .start ⟨.rewardOnFirstPayment 0, .start⟩, .run 0 {},
    .run 1 {}, .run 1 {}, .run 0 {}, .run 1 {}, .start ⟨.rewardOnFirstPayment 0, .start⟩, .run 2 {}]

theorem ledgerMatches_rewardTogether :
    LedgerMatches ((payments {}).after ⟨oneReferred, []⟩ rewardTogether).store :=
  (ledgerMatches_iff ((payments {}).run_trace _ _)
    (ledgerMatches_of_unrewarded (by decide) (by decide)) (by decide +kernel)).mpr
    (by decide +kernel)

/-- The record fails after the claim, and a later call is turned away. -/
def creditFails : List (Event Call Input) :=
  [.start ⟨.rewardOnFirstPayment 0, .start⟩, .run 0 {}, .run 0 {}, .run 0 { fail := true },
    .start ⟨.rewardOnFirstPayment 0, .start⟩, .run 1 {}]

/-- A failure between the two commits leaves a REWARDED referral without its record. -/
theorem not_ledgerMatches_always :
    ¬ ∀ (db : Db) (ts : List (Transition Db Call Input)) (c' : Config Db Call),
      (payments {}).Run ⟨db, []⟩ ts c' → LedgerMatches db →
        (∀ k ∈ c'.calls, k.isFinished = true) → LedgerMatches c'.store := by
  intro h
  have hmatches := h oneReferred _ _ ((payments {}).run_trace _ creditFails)
    (ledgerMatches_of_unrewarded (by decide) (by decide)) (by decide +kernel)
  exact absurd (hmatches.counted 0) (by decide +kernel)

end Handly.Payments
