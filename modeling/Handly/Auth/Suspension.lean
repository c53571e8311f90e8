import Handly.Auth.Effects

/-!
# Suspensions

`verifyOtp` reads that the account is PENDING and later activates it by id. A suspension
that lands in between is overwritten. Every other statement leaves a SUSPENDED account as
it is, and a call that reads it throws, so the activating writes alone decide whether a
suspension holds.
-/

namespace Handly.Auth

open Interleaving

/-- The status of a user. -/
def Db.statusOf (db : Db) (id : UserId) : Option UserStatus := db.users[id]?.map User.status

/-- In this transition a `suspend` of the user runs its update. -/
def Suspends (u : UserId) (t : Transition Db Call Input) : Prop :=
  ∃ i x adminId reason target, t.event = .run i x ∧ x.fail = false ∧
    t.pre.calls[i]? = some ⟨.suspend u adminId reason, .writingStatus target⟩

/-- In this transition a `restore` of the user runs its update. -/
def Restores (u : UserId) (t : Transition Db Call Input) : Prop :=
  ∃ i x adminId target, t.event = .run i x ∧ x.fail = false ∧
    t.pre.calls[i]? = some ⟨.restore u adminId, .writingStatus target⟩

/-- In this transition the call `i` issues tokens for the user. -/
def IssuesTokens (u : UserId) (i : ℕ) (t : Transition Db Call Input) : Prop :=
  ∃ x op, t.event = .run i x ∧ x.fail = false ∧ t.pre.calls[i]? = some ⟨op, .issuingTokens u⟩

/-- After `c`, in these transitions, the user stays SUSPENDED and no call that starts in them
issues tokens for it. -/
structure StaysSuspended (u : UserId) (c : Config Db Call) (ts : List (Transition Db Call Input)) :
    Prop where
  status : ∀ t ∈ ts, t.post.store.statusOf u = some .suspended
  tokens : ∀ t ∈ ts, ∀ i, c.calls.length ≤ i → ¬ IssuesTokens u i t

/-- The update by which `verifyOtp` activates the user does not find it SUSPENDED. -/
def ActivatesUnsuspended (u : UserId) (_me : ℕ) (x : Input) (k : Call) (db : Db) : Prop :=
  match k.pc with
  | .activating _ id => id = u → x.fail = false → db.statusOf u ≠ some .suspended
  | _ => True

instance (u : UserId) (me : ℕ) (x : Input) (k : Call) (db : Db) :
    Decidable (ActivatesUnsuspended u me x k db) :=
  decidable_of_bool
    (match k.pc with
      | .activating _ id => decide (id = u → x.fail = false → db.statusOf u ≠ some .suspended)
      | _ => true)
    (by unfold ActivatesUnsuspended; split <;> simp only [decide_eq_true_iff])

/-- The call has not read the user as one that is let in. -/
def Call.ShutOut (u : UserId) (k : Call) : Prop :=
  match k.pc with
  | .activating _ id | .activated _ id | .issuingTokens id => id ≠ u
  | .comparingPassword id user | .clearingFailures id user => id = u → user.status = .suspended
  | _ => True

/-- The user that a `suspend` has read exists. -/
def Call.TargetExists (s : Db) (k : Call) : Prop :=
  ∀ u adminId reason target, k = ⟨.suspend u adminId reason, .writingStatus target⟩ →
    ∃ row, s.users[u]? = some row

section Statements

variable {env : Env} {i : ℕ} {x : Input} {k : Call} {s : Db} {o : Outcome Db Call} {u : UserId}

theorem Db.statusOf_eq_some {st : UserStatus} :
    s.statusOf u = some st ↔ ∃ row, s.users[u]? = some row ∧ row.status = st := by
  simp [Db.statusOf]

/-- A SUSPENDED user stays SUSPENDED, unless it is activated or restored. -/
theorem Stmt.suspended (h : Stmt env i x s k o) (hC : ActivatesUnsuspended u i x k s)
    (hr : ∀ adminId target, x.fail = false → k ≠ ⟨.restore u adminId, .writingStatus target⟩)
    (hs : s.statusOf u = some .suspended) : o.store.statusOf u = some .suspended := by
  obtain ⟨row, hrow, hst⟩ := Db.statusOf_eq_some.mp hs
  obtain ⟨row', hrow', -⟩ := h.user_stays hrow
  refine Db.statusOf_eq_some.mpr ⟨row', hrow', ?_⟩
  cases h.userEffect hrow' with
  | same hsame =>
      obtain rfl := Option.some.inj (hrow.symm.trans hsame)
      exact hst
  | created => simp at hrow
  | @reRegistered _ _ _ row₁ hx hfound | @reset _ _ _ row₁ hx hfound =>
      obtain rfl := Option.some.inj (hrow.symm.trans hfound)
      exact hst
  | activated hx => exact absurd hs (hC rfl hx)
  | suspended => rfl
  | restored hx => exact absurd rfl (hr _ _ hx)

/-- A call that reads a SUSPENDED user is not let in. -/
theorem Stmt.shutOut (h : Stmt env i x s k o) (hs : s.statusOf u = some .suspended)
    (hk : k.ShutOut u) : o.call.ShutOut u := by
  obtain ⟨row₀, hrow₀, hst₀⟩ := Db.statusOf_eq_some.mp hs
  have hread : ∀ {id : ℕ} {row : User}, s.users[id]? = some row → row.status ≠ .suspended →
      id ≠ u := by
    intro id row hrow hne hid
    subst hid
    obtain rfl := Option.some.inj (hrow₀.symm.trans hrow)
    exact hne hst₀
  cases h with
  | reads hr =>
      cases hr with
      | activates hrow _ hpending => exact hread hrow (by simp [hpending])
      | issues hrow _ hactive => exact hread hrow (by simp [hactive])
      | @refreshes _ userId row hrow hblocked =>
          refine hread hrow fun hsus => ?_
          simp [hsus, isBlocked] at hblocked
      | @userRead _ _ id row hrow =>
          intro hid
          by_contra hne
          exact hread hrow hne hid
      | passwordMatches => exact hk
      | uncleared hadmitted =>
          cases hadmitted with
          | active hactive =>
              intro hid
              simp [hk hid] at hactive
          | _ => trivial
      | limited hlimited => cases hlimited <;> trivial
      | _ => trivial
  | aside ha =>
      cases ha with
      | activateReferrals => exact hk
      | clearFailures hadmitted =>
          cases hadmitted with
          | active hactive =>
              intro hid
              simp [hk hid] at hactive
          | _ => trivial
      | countOver _ hlimited | expireOver _ hlimited => cases hlimited <;> trivial
      | countFailure hpc => rcases hpc with rfl | rfl <;> trivial
      | _ => trivial
  | activate => exact hk
  | _ => trivial

theorem statusGuard_suspend {adminId : UserId} {reason : String} {target : User}
    (h : statusGuard s (.suspend u adminId reason) = .ok target) :
    s.users[u]? = some target := by
  simp only [statusGuard] at h
  split at h
  · simp at h
  · split at h
    · simp at h
    · rename_i row hrow
      obtain ⟨-, hok⟩ := Checks.ite_error_eq_ok.mp h
      rw [← Except.ok.inj hok]
      exact hrow

theorem Stmt.targetExists (h : Stmt env i x s k o) : o.call.TargetExists o.store := by
  intro u adminId reason target hcall
  cases h with
  | reads hr =>
      obtain ⟨rfl, rfl⟩ := Call.mk.inj hcall
      cases hr with
      | targetRead hok => exact ⟨target, statusGuard_suspend hok⟩
      | limited hlimited => cases hlimited
  | aside ha =>
      obtain ⟨rfl, rfl⟩ := Call.mk.inj hcall
      cases ha with
      | countOver _ hlimited | expireOver _ hlimited => cases hlimited
      | countFailure hpc => simp at hpc
  | _ => simp at hcall

theorem Stmt.targetExists_other (h : Stmt env i x s k o) {k' : Call} (hk' : k'.TargetExists s) :
    k'.TargetExists o.store := by
  intro u adminId reason target hcall
  obtain ⟨row, hrow⟩ := hk' u adminId reason target hcall
  obtain ⟨row', hrow', -⟩ := h.user_stays hrow
  exact ⟨row', hrow'⟩

/-- The update of `suspend` leaves its target SUSPENDED. -/
theorem Stmt.suspends {adminId : UserId} {reason : String} {target : User}
    (h : Stmt env i x s ⟨.suspend u adminId reason, .writingStatus target⟩ o)
    (hx : x.fail = false)
    (hk : Call.TargetExists s ⟨.suspend u adminId reason, .writingStatus target⟩) :
    o.store.statusOf u = some .suspended := by
  obtain ⟨row, hrow⟩ := hk u adminId reason target rfl
  cases h with
  | fails hfail => simp [hx] at hfail
  | reads hr => cases hr
  | aside ha => cases ha
  | suspend => simp [Db.statusOf, hrow]
  | suspendNoop hsus => exact Db.statusOf_eq_some.mpr ⟨row, hrow, hsus row hrow⟩

end Statements

section Run

variable {env : Env} {db : Db} {c c' : Config Db Call} {ts ts' : List (Transition Db Call Input)}
  {t : Transition Db Call Input} {u : UserId}

/-- The outline of any run: the target of a `suspend` exists. -/
def targets (env : Env) : Outline (accounts env) fun _ => True :=
  outline env _ (fun _ => True) (fun s _ k => k.TargetExists s)
    (fun _ _ _ _ _ _ _ _ hcall => by simp at hcall)
    (fun _ _ _ _ _ _ _ _ h _ _ _ => ⟨trivial, h.targetExists⟩)
    (fun _ _ _ _ _ _ _ _ _ _ h _ _ _ hk' => h.targetExists_other hk')

theorem suspended_of_suspends (hrun : (accounts env).Run ⟨db, []⟩ ts t.pre)
    (ht : (accounts env).Fires t) (hs : Suspends u t) :
    t.post.store.statusOf u = some .suspended := by
  have hholds := ((targets env).holds_run hrun (fun _ _ => trivial) ⟨trivial, by simp⟩).1
  obtain ⟨i, x, adminId, reason, target, he, hx, hk⟩ := hs
  obtain ⟨k, o, hk', h, hpost, -⟩ := stmt_of_event ht he
  obtain rfl := Option.some.inj (hk.symm.trans hk')
  rw [hpost]
  exact h.suspends hx (hholds.2 i _ hk)

/-- The user is SUSPENDED and the calls from number `n` on are shut out. -/
def Closed (u : UserId) (n : ℕ) (c : Config Db Call) : Prop :=
  c.store.statusOf u = some .suspended ∧
    ∀ i k, n ≤ i → c.calls[i]? = some k → k.ShutOut u

theorem closed_step {n : ℕ} (ht : (accounts env).Fires t)
    (hC : t.Satisfies (ActivatesUnsuspended u)) (hr : ¬ Restores u t) (hI : Closed u n t.pre) :
    Closed u n t.post := by
  obtain ⟨hs, hcalls⟩ := hI
  rcases stmt_of_fires ht with ⟨k, he, hstart, hpost⟩ | ⟨i, x, k, o, he, hk, h, hpost⟩
  · rw [hpost]
    refine ⟨hs, fun j k' hn hj => ?_⟩
    rcases Table.of_append hj with hold | ⟨-, rfl⟩
    · exact hcalls j k' hn hold
    · simp [Call.ShutOut, hstart]
  · rw [hpost]
    refine ⟨h.suspended (hC i x k he hk) ?_ hs, fun j k' hn hj => ?_⟩
    · intro adminId target hx heq
      obtain rfl := heq
      exact hr ⟨i, x, adminId, target, he, hx, hk⟩
    · have hlt : i < t.pre.calls.length := (List.getElem?_eq_some_iff.mp hk).1
      by_cases hij : i = j
      · subst hij
        rw [List.getElem?_set_self hlt] at hj
        obtain rfl := Option.some.inj hj
        exact h.shutOut hs (hcalls i k hn hk)
      · rw [List.getElem?_set_ne hij] at hj
        exact hcalls j k' hn hj

/-- Without a `restore` call nothing restores. -/
theorem not_restores_of_calls
    (h : ∀ t ∈ ts, ∀ k ∈ t.pre.calls, (k.op matches .restore _ _) = false) :
    ∀ t ∈ ts, ¬ Restores u t := by
  intro t ht hrestores
  obtain ⟨i, x, adminId, target, -, -, hk⟩ := hrestores
  exact absurd (h t ht _ (List.mem_of_getElem? hk)) (by simp)

/-- **A suspension holds** until a `restore` writes exactly if no activating update finds the
user SUSPENDED. -/
theorem staysSuspended_iff (hbefore : (accounts env).Run ⟨db, []⟩ ts t.pre)
    (ht : (accounts env).Fires t) (hs : Suspends u t)
    (hafter : (accounts env).Run t.post ts' c') (hr : ∀ t' ∈ ts', ¬ Restores u t') :
    StaysSuspended u t.post ts' ↔ ∀ t' ∈ ts', t'.Satisfies (ActivatesUnsuspended u) := by
  constructor
  · intro hstays t' ht' i x k he hk
    obtain ⟨k', o, hk', h, hpost, -⟩ := stmt_of_event (hafter.fires t' ht') he
    obtain rfl := Option.some.inj (hk.symm.trans hk')
    have hstatus := hstays.status t' ht'
    rw [hpost] at hstatus
    obtain ⟨op, pc⟩ := k
    cases pc with
    | activating codeId id =>
        intro hid hx hsus
        subst hid
        obtain ⟨row, hrow, -⟩ := Db.statusOf_eq_some.mp hsus
        cases h with
        | fails hfail => simp [hx] at hfail
        | reads hread =>
            cases hread with
            | notActivated hnone => simp [hrow] at hnone
        | aside ha => cases ha
        | activate => simp [Db.statusOf, hrow] at hstatus
    | _ => trivial
  · intro hC
    have hstart : Closed u t.post.calls.length t.post := by
      refine ⟨suspended_of_suspends hbefore ht hs, fun i k hn hk => ?_⟩
      exact absurd (List.getElem?_eq_some_iff.mp hk).1 (Nat.not_lt.mpr hn)
    have hclosed := (hafter.invariant (Closed u t.post.calls.length)
      (fun t' => t'.Satisfies (ActivatesUnsuspended u) ∧ ¬ Restores u t')
      (fun t' ht' => ⟨hC t' ht', hr t' ht'⟩) hstart
      (fun t' hfire hCt hI => closed_step hfire hCt.1 hCt.2 hI)).2
    refine ⟨fun t' ht' => (hclosed t' ht').2.1, fun t' ht' i hn hissues => ?_⟩
    obtain ⟨x, op, -, -, hk⟩ := hissues
    exact (hclosed t' ht').1.2 i _ hn hk rfl

end Run

/-- A suspension is about to be written; a `verifyOtp` of the account has run `n`
operations. -/
def suspending (n : ℕ) : Config Db Call :=
  (accounts plainHashes).after ⟨{}, []⟩ (List.flatten
    [play 0 12 (.register { phone := "p", password := "a" }) { code := "1" },
      play 1 n (.verifyOtp "p" "1" .signup) {}, play 2 1 (.suspend 0 9 "") {}])

/-- The suspension is written. -/
def suspensionAt (n : ℕ) : Transition Db Call Input :=
  ⟨suspending n, .run 2 {}, (accounts plainHashes).after (suspending n) [.run 2 {}]⟩

/-- The `verifyOtp` goes on, the suspension returns, and the user tries to log in. -/
def afterSuspension : List (Event Call Input) :=
  [.run 1 {}, .run 2 {}, .run 2 {}] ++ play 3 4 (.login "p" "a") {}

theorem staysSuspended_blockedVerify :
    StaysSuspended 0 (suspensionAt 3).post
      ((accounts plainHashes).trace (suspensionAt 3).post afterSuspension) := by
  refine (staysSuspended_iff ((accounts plainHashes).run_trace _ _)
    ((accounts plainHashes).fires_after (by decide +kernel)) ⟨2, {}, 9, "", _, rfl, rfl, rfl⟩
    ((accounts plainHashes).run_trace _ _)
    (not_restores_of_calls (by decide +kernel))).mpr (by decide +kernel)

/-- A `verifyOtp` that read the account before the suspension activates it afterwards. -/
theorem not_staysSuspended_always :
    ¬ ∀ (env : Env) (db : Db) (u : UserId) (t : Transition Db Call Input)
        (ts ts' : List (Transition Db Call Input)) (c' : Config Db Call),
      (accounts env).Run ⟨db, []⟩ ts t.pre → (accounts env).Fires t → Suspends u t →
        (accounts env).Run t.post ts' c' → (∀ t' ∈ ts', ¬ Restores u t') →
        StaysSuspended u t.post ts' := by
  intro h
  have hstays := h plainHashes {} 0 (suspensionAt 4) _ _ _ ((accounts plainHashes).run_trace _ _)
    ((accounts plainHashes).fires_after (by decide +kernel)) ⟨2, {}, 9, "", _, rfl, rfl, rfl⟩
    ((accounts plainHashes).run_trace _ afterSuspension)
    (not_restores_of_calls (by decide +kernel))
  exact absurd hstays.status (by decide +kernel)

end Handly.Auth
