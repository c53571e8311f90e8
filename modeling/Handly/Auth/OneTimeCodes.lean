import Handly.Auth.Effects

/-!
# One-time codes

`OtpService.verify` reads a code, compares, and only then counts the failed guess or marks
the code used. Calls that overlap on one code all pass the checks of the first read. Where
they do not overlap, a code is consumed once and compared with at most as many wrong
guesses as the cap allows.
-/

namespace Handly.Auth

open Interleaving

/-- Where a call stands in its window on a code, between the read and the write. -/
inductive Stage
  | comparing | mismatched | matched
  deriving DecidableEq

/-- The stage of a call on the code `q`. -/
def Call.stage (q : CodeId) (k : Call) : Option Stage :=
  match k.pc with
  | .comparing id _ => if id = q then some .comparing else none
  | .mismatched id => if id = q then some .mismatched else none
  | .matched id _ => if id = q then some .matched else none
  | _ => none

/-- `OtpService.verify` has returned normally for the code `q`, and nothing since. -/
def Call.verifiedBy (q : CodeId) (k : Call) : Bool :=
  match k.pc with
  | .verified id => id = q
  | _ => false

/-- In this transition a call's verification of the code succeeds. -/
def succeeds (q : CodeId) (t : Transition Db Call Input) : Bool :=
  t.callerAfter.any fun k => k.verifiedBy q

/-- In this transition a call compares a wrong guess with the code. -/
def guessesWrong (q : CodeId) (t : Transition Db Call Input) : Bool :=
  t.callerAfter.any fun k => k.stage q = some .mismatched

/-- One verification of the code succeeds at most, and no more wrong guesses are compared
with it than the cap allows. -/
structure OneTime (env : Env) (q : CodeId) (ts : List (Transition Db Call Input)) : Prop where
  succeeds : ts.countP (succeeds q) ≤ 1
  guesses : ts.countP (guessesWrong q) ≤ env.otpMaxAttempts

/-- The code that the first read of a call finds. -/
def Call.reads (x : Input) (k : Call) (db : Db) : Option CodeId :=
  match k.pc, k.op with
  | .start, .verifyOtp phone _ purpose => (db.findCode phone purpose x.now).map Prod.fst
  | .start, .resetPassword phone _ _ => (db.findCode phone .reset x.now).map Prod.fst
  | _, _ => none

/-- A call that reads the code finds no other call between its read and its write on it, and
the update that counts a wrong guess does not fail. -/
def VerifiesAlone (q : CodeId) (t : Transition Db Call Input) : Prop :=
  t.Satisfies fun _ x k db =>
    (k.reads x db = some q → ∀ k' ∈ t.pre.calls, k'.stage q = none) ∧
      (k.stage q = some .mismatched → x.fail = false)

instance (q : CodeId) (t : Transition Db Call Input) : Decidable (VerifiesAlone q t) := by
  unfold VerifiesAlone
  infer_instance

/-! ### One operation -/

/-- What an operation of a call makes of its stage on a code and of the code's row. The last
argument says whether the verification succeeds. -/
inductive VerifyStep (env : Env) (x : Input) :
    Option Stage → Option Stage → Option OtpCode → Option OtpCode → Bool → Prop
  | same {row} : VerifyStep env x none none row row false
  | issued {row} : row.usedAt = none → row.attempts = 0 → row.deleted = false →
      VerifyStep env x none none none (some row) false
  | deleted {row} :
      VerifyStep env x none none (some row) (some { row with deleted := true }) false
  | read {row} : row.usedAt = none → row.deleted = false → row.attempts < env.otpMaxAttempts →
      VerifyStep env x none (some .comparing) (some row) (some row) false
  | agrees {row} : VerifyStep env x (some .comparing) (some .matched) row row false
  | differs {row} : VerifyStep env x (some .comparing) (some .mismatched) row row false
  | counts {row} : row.deleted = false →
      VerifyStep env x (some .mismatched) none (some row)
        (some { row with attempts := row.attempts + 1 }) false
  | consumes {row} : row.deleted = false →
      VerifyStep env x (some .matched) none (some row)
        (some { row with usedAt := some x.now }) true
  | leaves {stage row} :
      (stage = .mismatched → x.fail = true ∨ ∀ r, row = some r → r.deleted = true) →
      VerifyStep env x (some stage) none row row false

section Statements

variable {env : Env} {me : ℕ} {x : Input} {k : Call} {db : Db} {o : Outcome Db Call} {q : ℕ}

/-- The rows that no call in its window on the code writes. -/
theorem VerifyStep.of_codeEffect {row' : Option OtpCode}
    (hk : k.stage q = none) (hrow : ∀ r, row' = some r → CodeEffect env me x db k q r)
    (hnone : row' = none → db.otpCodes[q]? = none) :
    VerifyStep env x none none db.otpCodes[q]? row' false := by
  cases row' with
  | none =>
      rw [hnone rfl]
      exact .same
  | some r =>
      cases hrow r rfl with
      | same h =>
          rw [h]
          exact .same
      | created =>
          rw [List.getElem?_eq_none (Nat.le_refl _)]
          exact .issued rfl rfl rfl
      | deleted h =>
          rw [h]
          exact .deleted
      | attempted | consumed => simp [Call.stage] at hk

theorem codes_eq_none (h : Stmt env me x db k o) (hnone : o.store.otpCodes[q]? = none) :
    db.otpCodes[q]? = none := by
  by_contra hsome
  obtain ⟨row, hrow⟩ := Option.ne_none_iff_exists'.mp hsome
  obtain ⟨row', hrow', -⟩ := h.code_stays hrow
  simp [hnone] at hrow'

theorem hasCode_eq_false (h : db.hasCode q = false) :
    ∀ r, db.otpCodes[q]? = some r → r.deleted = true := by
  intro r hr
  simpa [Db.hasCode, hr] using h

theorem Reads.verifyStep {op : Op} {pc pc' : Pc} (h : Reads env x db op pc pc') :
    VerifyStep env x (Call.stage q ⟨op, pc⟩) (Call.stage q ⟨op, pc'⟩) db.otpCodes[q]?
      db.otpCodes[q]? (Call.verifiedBy q ⟨op, pc'⟩) := by
  cases h with
  | @codeRead _ phone purpose id otp hop hfound hmax =>
      obtain ⟨hrow, -, -, hdel, hused, -⟩ := findCode_eq_some hfound
      by_cases hid : id = q
      · subst hid
        rw [hrow]
        simpa [Call.stage, Call.verifiedBy] using VerifyStep.read hused hdel hmax
      · simpa [Call.stage, Call.verifiedBy, hid] using VerifyStep.same
  | @codeMatches _ id =>
      by_cases hid : id = q
      · simpa [Call.stage, Call.verifiedBy, hid] using VerifyStep.agrees
      · simpa [Call.stage, Call.verifiedBy, hid] using VerifyStep.same
  | @codeDiffers _ id =>
      by_cases hid : id = q
      · simpa [Call.stage, Call.verifiedBy, hid] using VerifyStep.differs
      · simpa [Call.stage, Call.verifiedBy, hid] using VerifyStep.same
  | @codeGone _ id hgone =>
      by_cases hid : id = q
      · subst hid
        simpa [Call.stage, Call.verifiedBy] using
          VerifyStep.leaves fun _ => Or.inr (hasCode_eq_false hgone)
      · simpa [Call.stage, Call.verifiedBy, hid] using VerifyStep.same
  | @matchedGone _ id otp =>
      by_cases hid : id = q
      · have hleaves :
            VerifyStep env x (some .matched) none db.otpCodes[q]? db.otpCodes[q]? false :=
          .leaves (by simp)
        simpa [Call.stage, Call.verifiedBy, hid] using hleaves
      · simpa [Call.stage, Call.verifiedBy, hid] using VerifyStep.same
  | limited hlimited | uncleared hlimited => cases hlimited <;> exact .same
  | _ => exact .same

theorem Aside.verifyStep {op : Op} {pc pc' : Pc} {db' : Db} (h : Aside env x db op pc db' pc') :
    VerifyStep env x (Call.stage q ⟨op, pc⟩) (Call.stage q ⟨op, pc'⟩) db.otpCodes[q]?
      db'.otpCodes[q]? (Call.verifiedBy q ⟨op, pc'⟩) := by
  rw [h.frame.2.1]
  cases h with
  | countOver _ hlimited | expireOver _ hlimited | clearFailures hlimited =>
      cases hlimited <;> exact .same
  | countFailure hpc => rcases hpc with rfl | rfl <;> exact .same
  | _ => exact .same

theorem Stmt.verifyStep (h : Stmt env me x db k o) :
    VerifyStep env x (k.stage q) (o.call.stage q) db.otpCodes[q]? o.store.otpCodes[q]?
      (o.call.verifiedBy q) := by
  have hrows : k.stage q = none →
      VerifyStep env x none none db.otpCodes[q]? o.store.otpCodes[q]? false := fun hk =>
    .of_codeEffect hk (fun r hr => h.codeEffect hr) (codes_eq_none h)
  cases h with
  | @fails op pc hx =>
      show VerifyStep env x (Call.stage q ⟨op, pc⟩) none db.otpCodes[q]? db.otpCodes[q]? false
      cases Call.stage q ⟨op, pc⟩ with
      | none => exact .same
      | some stage => exact .leaves fun _ => Or.inl hx
  | reads hr => exact hr.verifyStep
  | aside ha => exact ha.verifyStep
  | deleteCodes | createCode => exact hrows rfl
  | @countAttempt op id hx hcode =>
      by_cases hid : id = q
      · subst hid
        obtain ⟨row, hrow, hdel⟩ := hasCode_eq_true.mp hcode
        simpa [Call.stage, Call.verifiedBy, hrow] using VerifyStep.counts hdel
      · simpa [Call.stage, Call.verifiedBy, hid] using VerifyStep.same
  | @consumeCode op id otp hx hcode =>
      by_cases hid : id = q
      · subst hid
        obtain ⟨row, hrow, hdel⟩ := hasCode_eq_true.mp hcode
        simpa [Call.stage, Call.verifiedBy, hrow] using VerifyStep.consumes hdel
      · simpa [Call.stage, Call.verifiedBy, hid] using VerifyStep.same
  | _ => exact .same

/-- A call that enters its window has read the code. -/
theorem Stmt.reads_of_comparing (h : Stmt env me x db k o) (hk : k.stage q = none)
    (ho : o.call.stage q = some .comparing) : k.reads x db = some q := by
  cases h with
  | reads hr =>
      cases hr with
      | @codeRead _ phone purpose id otp hop hfound =>
          have hid : id = q := by
            by_contra hne
            simp [Call.stage, hne] at ho
          subst hid
          cases hop <;> simp [Call.reads, hfound]
      | codeMatches | codeDiffers => simp [Call.stage] at ho
      | limited hlimited | uncleared hlimited => cases hlimited <;> simp [Call.stage] at ho
      | _ => simp [Call.stage] at ho
  | aside ha =>
      cases ha with
      | countOver _ hlimited | expireOver _ hlimited | clearFailures hlimited =>
          cases hlimited <;> simp [Call.stage] at ho
      | countFailure hpc => rcases hpc with rfl | rfl <;> simp [Call.stage] at ho
      | _ => simp [Call.stage] at ho
  | _ => simp [Call.stage] at ho

end Statements

/-! ### Rights -/

/-- The right to consume a code: it is unused, or not issued yet. -/
def consumable (row : Option OtpCode) : ℕ :=
  match row with
  | none => 1
  | some r => if r.usedAt = none then 1 else 0

/-- The wrong guesses that may still be compared with a code, when `comparing` calls are
about to compare with it and `mismatched` calls about to count a guess. -/
def guessesLeft (env : Env) (row : Option OtpCode) (comparing mismatched : ℕ) : ℕ :=
  match row with
  | none => env.otpMaxAttempts
  | some r => if r.deleted then comparing else env.otpMaxAttempts - r.attempts - mismatched

theorem consumable_le_one (row : Option OtpCode) : consumable row ≤ 1 := by
  unfold consumable
  split
  · exact Nat.le_refl 1
  · split <;> omega

theorem guessesLeft_le (env : Env) (row : Option OtpCode) :
    guessesLeft env row 0 0 ≤ env.otpMaxAttempts := by
  unfold guessesLeft
  split
  · exact Nat.le_refl _
  · split <;> omega

/-- The code is as the call in its window has read it. -/
def StillValid (env : Env) (row : Option OtpCode) : Prop :=
  ∃ r, row = some r ∧ r.usedAt = none ∧ r.attempts < env.otpMaxAttempts

/-- One operation on the numbers of calls in each stage, when at most one call is in its
window: what is consumed or guessed uses up a right. -/
theorem VerifyStep.rights {env : Env} {x : Input} {a b : Option Stage} {row row' : Option OtpCode}
    {v : Bool} (h : VerifyStep env x a b row row' v) {n n' : Stage → ℕ}
    (hn : ∀ stage, n' stage + (if a = some stage then 1 else 0) =
      n stage + if b = some stage then 1 else 0)
    (hone : n .comparing + n .mismatched + n .matched ≤ 1)
    (hvalid : 0 < n .comparing + n .mismatched + n .matched → StillValid env row)
    (hread : a = none → b = some .comparing →
      n .comparing + n .mismatched + n .matched = 0)
    (hcounted : a = some .mismatched → x.fail = false) :
    (n' .comparing + n' .mismatched + n' .matched ≤ 1 ∧
      (0 < n' .comparing + n' .mismatched + n' .matched → StillValid env row')) ∧
    (if v then 1 else 0) + consumable row' ≤ consumable row ∧
    (if b = some .mismatched then 1 else 0) +
        guessesLeft env row' (n' .comparing) (n' .mismatched) ≤
      guessesLeft env row (n .comparing) (n .mismatched) := by
  have hc := hn .comparing
  have hm := hn .mismatched
  have ht := hn .matched
  cases h with
  | same =>
      simp only [reduceCtorEq, if_false, add_zero] at hc hm ht
      refine ⟨⟨by omega, fun hpos => hvalid (by omega)⟩, by simp, ?_⟩
      simp [hc, hm]
  | issued hused hattempts hdel =>
      simp only [reduceCtorEq, if_false, add_zero] at hc hm ht
      refine ⟨⟨by omega, fun hpos => ?_⟩, by simp [consumable, hused], ?_⟩
      · obtain ⟨r, hr, -⟩ := hvalid (by omega)
        simp at hr
      · simp only [guessesLeft, hdel, reduceCtorEq, if_false, Bool.false_eq_true]
        omega
  | @deleted row =>
      simp only [reduceCtorEq, if_false, add_zero] at hc hm ht
      refine ⟨⟨by omega, fun hpos => ?_⟩, by simp [consumable], ?_⟩
      · obtain ⟨r, hr, hused, hlt⟩ := hvalid (by omega)
        obtain rfl := Option.some.inj hr
        exact ⟨_, rfl, hused, hlt⟩
      · -- A call that was about to compare keeps its guess, which was among those left.
        have hleft : n .comparing ≤ guessesLeft env (some row) (n .comparing) (n .mismatched) := by
          by_cases hpos : 0 < n .comparing
          · obtain ⟨r, hr, -, hlt⟩ := hvalid (by omega)
            obtain rfl := Option.some.inj hr
            simp only [guessesLeft]
            split <;> omega
          · omega
        simpa [guessesLeft, hc] using hleft
  | @read row hused hdel hlt =>
      have hnone := hread rfl rfl
      simp only [reduceCtorEq, if_false, if_true, add_zero, Option.some.injEq] at hc hm ht
      refine ⟨⟨by omega, fun _ => ⟨row, rfl, hused, hlt⟩⟩, by simp, ?_⟩
      simp [guessesLeft, hdel, hm]
  | @agrees row =>
      simp only [reduceCtorEq, if_false, if_true, add_zero, Option.some.injEq] at hc hm ht
      refine ⟨⟨by omega, fun _ => hvalid (by omega)⟩, by simp, ?_⟩
      obtain ⟨r, rfl, -, hlt⟩ := hvalid (by omega)
      simp only [guessesLeft, reduceCtorEq, if_false, Option.some.injEq]
      split <;> omega
  | @differs row =>
      simp only [reduceCtorEq, if_false, if_true, add_zero, Option.some.injEq] at hc hm ht
      refine ⟨⟨by omega, fun _ => hvalid (by omega)⟩, by simp, ?_⟩
      obtain ⟨r, rfl, -, hlt⟩ := hvalid (by omega)
      simp only [guessesLeft, if_true]
      split <;> omega
  | @counts row hdel =>
      simp only [reduceCtorEq, if_false, if_true, add_zero, Option.some.injEq] at hc hm ht
      refine ⟨⟨by omega, fun hpos => absurd hpos (by omega)⟩, by simp [consumable], ?_⟩
      simp only [guessesLeft, hdel, reduceCtorEq, if_false, Bool.false_eq_true]
      omega
  | @consumes row hdel =>
      simp only [reduceCtorEq, if_false, if_true, add_zero, Option.some.injEq] at hc hm ht
      obtain ⟨r, hr, hused, -⟩ := hvalid (by omega)
      obtain rfl := Option.some.inj hr
      refine ⟨⟨by omega, fun hpos => absurd hpos (by omega)⟩, by simp [consumable, hused], ?_⟩
      simp only [guessesLeft, hdel, reduceCtorEq, if_false, Bool.false_eq_true]
      omega
  | @leaves stage row hleft =>
      have hsum : n' .comparing + n' .mismatched + n' .matched = 0 := by
        cases stage <;> simp at hc hm ht <;> omega
      have hpos : 0 < n .comparing + n .mismatched + n .matched := by
        cases stage <;> simp at hc hm ht <;> omega
      refine ⟨⟨by omega, fun hpos => absurd hpos (by omega)⟩, by simp, ?_⟩
      obtain ⟨r, rfl, -, hlt⟩ := hvalid hpos
      simp only [guessesLeft, reduceCtorEq, if_false, zero_add]
      by_cases hdel : r.deleted = true
      · simp only [hdel, if_true]
        omega
      · -- A guess that was to be counted in a row that is still there does not leave.
        have hstage : stage ≠ .mismatched := by
          intro hst
          rcases hleft hst with hfail | hgone
          · simp [hcounted (congrArg some hst)] at hfail
          · exact hdel (hgone r rfl)
        have hmis : n .mismatched = 0 := by
          cases stage with
          | mismatched => exact absurd rfl hstage
          | comparing | matched =>
              simp at hc hm ht
              omega
        simp only [hdel, if_false, hmis, Bool.false_eq_true]
        omega

section Run

variable {env : Env} {db : Db} {c' : Config Db Call} {ts : List (Transition Db Call Input)}
  {q : CodeId}

/-- The number of calls in a stage on the code. -/
def inStage (q : CodeId) (c : Config Db Call) (stage : Stage) : ℕ :=
  c.calls.countP fun k => k.stage q = some stage

/-- At most one call is in its window on the code, and it has read the code as it is. -/
def Alone (env : Env) (q : CodeId) (c : Config Db Call) : Prop :=
  inStage q c .comparing + inStage q c .mismatched + inStage q c .matched ≤ 1 ∧
    (0 < inStage q c .comparing + inStage q c .mismatched + inStage q c .matched →
      StillValid env c.store.otpCodes[q]?)

/-- The wrong guesses that may still be compared with the code. -/
def guessesAt (env : Env) (q : CodeId) (c : Config Db Call) : ℕ :=
  guessesLeft env c.store.otpCodes[q]? (inStage q c .comparing) (inStage q c .mismatched)

theorem inStage_eq_zero {c : Config Db Call} (h : ∀ k ∈ c.calls, k.stage q = none)
    (stage : Stage) : inStage q c stage = 0 := by
  refine List.countP_eq_zero.mpr fun k hk => ?_
  simp [h k hk]

theorem rights_step {t : Transition Db Call Input} (ht : (accounts env).Fires t)
    (hC : VerifiesAlone q t) (hI : Alone env q t.pre) :
    Alone env q t.post ∧
      (if succeeds q t then 1 else 0) + consumable t.post.store.otpCodes[q]? ≤
        consumable t.pre.store.otpCodes[q]? ∧
      (if guessesWrong q t then 1 else 0) + guessesAt env q t.post ≤ guessesAt env q t.pre := by
  rcases stmt_of_fires ht with ⟨k, he, hstart, hpost⟩ | ⟨i, x, k, o, he, hk, h, hpost⟩
  · have hcount : ∀ stage, inStage q t.post stage = inStage q t.pre stage := by
      intro stage
      simp [inStage, hpost, Call.stage, hstart]
    have hafter : t.callerAfter = none := by
      simp [Transition.callerAfter, he]
    have hstore : t.post.store = t.pre.store := by
      rw [hpost]
    simpa [Alone, guessesAt, hcount, succeeds, guessesWrong, hafter, hstore] using hI
  · obtain ⟨hread, hcounted⟩ := hC i x k he hk
    have hafter := Transition.callerAfter_eq he hk hpost
    have hcount : ∀ stage, inStage q t.post stage + (if k.stage q = some stage then 1 else 0) =
        inStage q t.pre stage + if o.call.stage q = some stage then 1 else 0 := by
      intro stage
      simpa [inStage, hpost] using
        Table.countP_set (p := fun k => decide (k.stage q = some stage)) (b := o.call) hk
    have hrights := h.verifyStep.rights hcount hI.1 hI.2
      (fun hnone hcomparing => by
        simp [inStage_eq_zero (hread (h.reads_of_comparing hnone hcomparing))])
      hcounted
    simpa [Alone, guessesAt, succeeds, guessesWrong, hafter, hpost] using hrights

/-- **A code is for one time** where the calls that verify it do not overlap. -/
theorem oneTime_of_run (hrun : (accounts env).Run ⟨db, []⟩ ts c')
    (hC : ∀ t ∈ ts, VerifiesAlone q t) : OneTime env q ts := by
  have hstart : Alone env q ⟨db, []⟩ := by
    simp [Alone, inStage]
  have halone := (hrun.invariant (Alone env q) (VerifiesAlone q) hC hstart
    (fun t ht hCt hI => (rights_step ht hCt hI).1)).2
  have hsucceeds := hrun.countP_add_le (fun c => consumable c.store.otpCodes[q]?) (succeeds q)
    fun t ht hfire => (rights_step hfire (hC t ht) (halone t ht).1).2.1
  have hguesses := hrun.countP_add_le (guessesAt env q) (guessesWrong q)
    fun t ht hfire => (rights_step hfire (hC t ht) (halone t ht).1).2.2
  have hone := consumable_le_one db.otpCodes[q]?
  have hmax : guessesAt env q ⟨db, []⟩ ≤ env.otpMaxAttempts := by
    simpa [guessesAt, inStage] using guessesLeft_le env db.otpCodes[q]?
  dsimp only at hsucceeds
  exact ⟨by omega, by omega⟩

end Run

/-- A wrong guess, then the code itself. -/
def guessTwice : List (Event Call Input) :=
  List.flatten
    [play 0 12 (.register { phone := "p", password := "a" }) { code := "1" },
      play 1 3 (.verifyOtp "p" "2" .signup) {}, play 2 7 (.verifyOtp "p" "1" .signup) {}]

theorem oneTime_guessTwice :
    OneTime plainHashes 0 ((accounts plainHashes).trace ⟨{}, []⟩ guessTwice) :=
  oneTime_of_run ((accounts plainHashes).run_trace _ _) (by decide +kernel)

/-- Two calls read the code before either marks it used. -/
def verifyTogether : List (Event Call Input) :=
  List.flatten
    [play 0 12 (.register { phone := "p", password := "a" }) { code := "1" },
      play 1 1 (.verifyOtp "p" "1" .signup) {}, play 2 3 (.verifyOtp "p" "1" .signup) {},
      [.run 1 {}, .run 1 {}]]

/-- Both verifications of one code succeed. -/
theorem not_oneTime_always :
    ¬ ∀ (env : Env) (db : Db) (q : CodeId) (ts : List (Transition Db Call Input))
        (c' : Config Db Call), (accounts env).Run ⟨db, []⟩ ts c' → OneTime env q ts := by
  intro h
  have hone := h plainHashes {} 0 _ _ ((accounts plainHashes).run_trace _ verifyTogether)
  exact absurd hone.succeeds (by decide +kernel)

end Handly.Auth
