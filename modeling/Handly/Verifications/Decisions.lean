import Handly.Lib.OneDecision
import Handly.Verifications.Statements

/-!
# Decisions on a verification

`decide` as a register of one decision: it writes under the guard that finds the request
PENDING, and the lock keeps it so until the commit.
-/

namespace Handly.Verifications

open Interleaving

/-- The request once it is decided, with all its columns. -/
def decisionOn (id : VerificationId) (db : Db) : Option Verification :=
  db.verifications[id]?.filter fun row => row.status ≠ .pending

/-- The notifications of a decision on the request. -/
def noticesOn (id : VerificationId) (db : Db) : List Notification :=
  db.notifications.filter fun n => n.verificationId = some id

/-- How far a call has come with its decision on the request. -/
def Call.stage (id : VerificationId) (k : Call) : OneDecision.Stage :=
  match k.pc, k.op with
  | .notifying _, .decide id' _ _ _ => if id' = id then .written else .idle
  | .returned, .decide id' _ _ _ => if id' = id then .done else .idle
  | _, _ => .idle

/-- The call decides on the request. -/
def Op.Decides (id : VerificationId) : Op → Prop
  | .decide id' _ _ _ => id' = id
  | .submit _ _ => False

/-- The row has the outcome, the admin and the note of the call, and a time. -/
def Op.Asks (op : Op) (row : Verification) : Prop :=
  match op with
  | .decide _ adminId approve note =>
      row.status = newStatus approve ∧ row.decidedBy = some adminId ∧ row.decidedAt.isSome ∧
        (note.isSome → row.note = note)
  | .submit _ _ => False

/-- The notification states the outcome of the call. -/
def Op.States (op : Op) (n : Notification) : Prop :=
  match op with
  | .decide id _ approve note => ∃ record, n = decidedNotice id record approve note
  | .submit _ _ => False

/-- The decision on one request. -/
def register (id : VerificationId) :
    OneDecision.Register Db Call Op Verification Notification Db where
  decision := decisionOn id
  notices := noticesOn id
  data db := { db with profileLock := fun _ => none, verificationLock := fun _ => none }
  op := Call.op
  stage := Call.stage id
  Decides := Op.Decides id
  Asks := Op.Asks
  States := Op.States

/-- The request is decided once, and every call on it that does not complete its decision
throws. -/
structure DecidedOnce (id : VerificationId) (db : Db) (ts : List (Transition Db Call Input))
    (c' : Config Db Call) : Prop extends (register id).MadeOnce db ts c' where
  throws : ∀ k ∈ c'.calls, k.op.Decides id → k.isFinished = true → k.stage id ≠ .done →
    ∃ e, k.pc = .threw e

/-- The notification of a committed decision on the request does not fail. -/
def NoticeGoesOut (id : VerificationId) (_me : ℕ) (x : Input) (k : Call) (_db : Db) : Prop :=
  k.stage id = .written → x.fail = false

instance (id : VerificationId) (me : ℕ) (x : Input) (k : Call) (db : Db) :
    Decidable (NoticeGoesOut id me x k db) :=
  inferInstanceAs (Decidable (_ → _))

section Moves

variable {me : ℕ} {x : Input} {k : Call} {db : Db} {o : Outcome Db Call} {id : VerificationId}

theorem decisionOn_eq_none {row : Verification} (hrow : db.verifications[id]? = some row)
    (hst : row.status = .pending) : decisionOn id db = none := by
  simp [decisionOn, hrow, hst]

theorem threw_of_finished (hdecides : k.op.Decides id) (hfinished : k.isFinished = true)
    (hdone : k.stage id ≠ .done) : ∃ e, k.pc = .threw e := by
  obtain ⟨op, pc⟩ := k
  cases op with
  | submit masterId note => exact hdecides.elim
  | decide id' adminId approve note =>
      cases pc with
      | returned => exact absurd (if_pos hdecides) hdone
      | threw e => exact ⟨e, rfl⟩
      | _ => simp [Call.isFinished] at hfinished

theorem newStatus_ne_pending (approve : Bool) : newStatus approve ≠ .pending := by
  cases approve <;> simp [newStatus]

/-- A call that has not finished and may fail here has written nothing. -/
theorem stage_eq_idle (hfinished : k.isFinished = false) (hwritten : k.stage id ≠ .written) :
    k.stage id = .idle := by
  obtain ⟨op, pc⟩ := k
  cases op with
  | submit masterId note => cases pc <;> rfl
  | decide id' adminId approve note =>
      cases pc with
      | notifying record =>
          by_cases hid : id' = id
          · exact absurd (if_pos hid) hwritten
          · exact if_neg hid
      | returned => simp [Call.isFinished] at hfinished
      | _ => rfl

theorem decisionOn_createVerification {row : Verification} (hst : row.status = .pending) :
    decisionOn id (db.createVerification row) = decisionOn id db :=
  Table.filter_append (by simp [hst]) id

/-- A notification that concerns another request is no notice of this one. -/
theorem noticesOn_createNotification {n : Notification} :
    noticesOn id (db.createNotification n) =
      noticesOn id db ++ if n.verificationId = some id then [n] else [] := by
  simp only [noticesOn, Db.createNotification_notifications, List.filter_append]
  by_cases hn : n.verificationId = some id <;> simp [hn]

/-- **Every statement of the service is a move.** -/
theorem Stmt.move (h : Stmt me x db k o) (hk : k.Claims db me) (hfinished : k.isFinished = false)
    (hC : NoticeGoesOut id me x k db) : (register id).Move db k o.store o.call := by
  cases h with
  | @fails op pc hfail =>
      have hidle : Call.stage id ⟨op, pc⟩ = .idle :=
        stage_eq_idle hfinished fun hwritten => by simp [hC hwritten] at hfail
      exact .keep rfl rfl hidle.symm fun _ => rfl
  | @refused op pc e db' hpc hdb =>
      have hidle : Call.stage id ⟨op, pc⟩ = .idle := by
        cases pc <;> first | rfl | exact hpc.elim
      rcases hdb with rfl | rfl <;> exact .keep rfl rfl hidle.symm fun _ => rfl
  | create => exact .keep (decisionOn_createVerification rfl) rfl rfl False.elim
  | @commit id' adminId approve note record decidedAt =>
      obtain ⟨-, -, row, hrow, -, hst⟩ := hk
      have hmodify : (db.verifications.modify id'
          (decideData adminId approve note record decidedAt))[id']? =
          some (decideData adminId approve note record decidedAt row) := by
        rw [Table.modify_of_row hrow, if_pos rfl]
      by_cases hid : id' = id
      · subst hid
        refine .write (d := decideData adminId approve note record decidedAt row) ?_ ?_ rfl rfl
          (if_pos rfl) ⟨rfl, rfl, rfl, ?_⟩
        · simp [register, decisionOn, hrow, hst]
        · show Option.filter _ (db.verifications.modify id' _)[id']? = _
          rw [hmodify]
          simp [decideData, newStatus_ne_pending]
        · intro hnote
          obtain ⟨n, rfl⟩ := Option.isSome_iff_exists.mp hnote
          rfl
      · refine .keep ?_ rfl (if_neg hid) hid.elim
        show Option.filter _ (db.verifications.modify id' _)[id]? = _
        rw [List.getElem?_modify_ne _ _ hid]
        rfl
  | @notify id' adminId approve note record =>
      by_cases hid : id' = id
      · subst hid
        refine .tell rfl ?_ (if_pos rfl) (if_pos rfl) ⟨record, rfl⟩
        exact noticesOn_createNotification.trans (congrArg _ (if_pos rfl))
      · refine .keep rfl ?_ ((if_neg hid).trans (if_neg hid).symm) hid.elim
        refine noticesOn_createNotification.trans ?_
        rw [if_neg, List.append_nil]
        · rfl
        · exact fun h => hid (Option.some.inj h)
  | _ => exact .keep rfl rfl rfl fun _ => rfl

end Moves

/-- What decisions hold, over a run. -/
def claimsOutline (C : ℕ → Input → Call → Db → Prop) :
    Outline verification fun t => t.Satisfies C :=
  .ofSteps verification C (fun _ => True) (fun db me k => k.Claims db me)
    (by
      intro db me k hentry _
      obtain ⟨op, pc⟩ := k
      cases pc with
      | start => cases op <;> trivial
      | _ => simp [verification, Call.isStart] at hentry)
    (by
      intro me x k db o _ hstep _ hk
      obtain ⟨-, h⟩ := step_cases hstep
      exact ⟨trivial, h.claims hk, h.spawned_eq_nil⟩)
    (by
      intro me x k db o other k' _ hstep hne _ hk hk'
      obtain ⟨-, h⟩ := step_cases hstep
      exact h.claims_other hk (Ne.symm hne) hk')

/-- **A request is decided once.** -/
theorem decidedOnce_of_run {id : VerificationId} {db : Db} {c' : Config Db Call}
    {ts : List (Transition Db Call Input)} (hrun : verification.Run ⟨db, []⟩ ts c')
    (hpending : ∀ row, db.verifications[id]? = some row → row.status = .pending)
    (hC : ∀ t ∈ ts, t.Satisfies (NoticeGoesOut id)) : DecidedOnce id db ts c' := by
  have hholds := ((claimsOutline (NoticeGoesOut id)).holds_run hrun hC
    ⟨trivial, fun i k hk => by simp at hk⟩).2
  refine ⟨OneDecision.Register.madeOnce_of_run hrun (fun t ht => ?_) ?_,
    fun k _ hdecides hfinished hdone => threw_of_finished hdecides hfinished hdone⟩
  · rcases stmt_of_fires (hrun.fires t ht) with
      ⟨k, he, hstart, hpost⟩ | ⟨i, x, k, o, he, hi, hfinished, h, hpost⟩
    · refine .start he hpost ?_
      obtain ⟨op, pc⟩ := k
      obtain rfl : pc = .start := hstart
      rfl
    · have hk := (hholds t ht).1.2 i k hi
      exact .run he hi hpost h.op_eq (h.move hk hfinished (hC t ht i x k he hi))
  · cases hrow : db.verifications[id]? with
    | none => simp [register, decisionOn, hrow]
    | some row => exact decisionOn_eq_none hrow (hpending row hrow)

end Handly.Verifications
