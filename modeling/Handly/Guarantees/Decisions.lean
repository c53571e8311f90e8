import Handly.Lib.OneDecision
import Handly.Guarantees.Statements

/-!
# Decisions on a guarantee claim

`decide` as a register of one decision: its `updateMany` matches only while the claim has the
status that was read, OPEN or UNDER_REVIEW.
-/

namespace Handly.Guarantees

open Interleaving

/-- No decision was made on the claim yet. -/
def GuaranteeClaim.Undecided (c : GuaranteeClaim) : Prop :=
  c.status = .open_ ∨ c.status = .underReview

instance (c : GuaranteeClaim) : Decidable c.Undecided := inferInstanceAs (Decidable (_ ∨ _))

/-- The claim once it is decided, with all its columns. -/
def decisionOn (id : ClaimId) (db : Db) : Option GuaranteeClaim :=
  db.claims[id]?.filter fun row => ¬ row.Undecided

/-- The notifications of a decision on the claim. -/
def noticesOn (id : ClaimId) (db : Db) : List Notification :=
  db.notifications.filter fun n => n.claimId = some id

/-- How far a call has come with its decision on the claim. -/
def Call.stage (id : ClaimId) (k : Call) : OneDecision.Stage :=
  match k.pc, k.op with
  | .decided _, .decide id' _ _ _ | .notifying _, .decide id' _ _ _ =>
      if id' = id then .written else .idle
  | .returned, .decide id' _ _ _ => if id' = id then .done else .idle
  | _, _ => .idle

/-- The call decides on the claim. -/
def Op.Decides (id : ClaimId) : Op → Prop
  | .decide id' _ _ _ => id' = id
  | .fileClaim _ _ _ => False

/-- The row has the outcome, the admin and the note of the call, and a time. -/
def Op.Asks (op : Op) (row : GuaranteeClaim) : Prop :=
  match op with
  | .decide _ adminId approve note =>
      row.status = (if approve then .approved else .rejected) ∧ row.decidedBy = some adminId ∧
        row.decidedAt.isSome ∧ (note.isSome → row.resolutionNote = note)
  | .fileClaim _ _ _ => False

/-- The notification states the outcome of the call. -/
def Op.States (op : Op) (n : Notification) : Prop :=
  match op with
  | .decide id _ approve note => ∃ claim, n = decidedNotice id claim approve note
  | .fileClaim _ _ _ => False

/-- The decision on one claim. -/
def register (id : ClaimId) :
    OneDecision.Register Db Call Op GuaranteeClaim Notification Db where
  decision := decisionOn id
  notices := noticesOn id
  data db := db
  op := Call.op
  stage := Call.stage id
  Decides := Op.Decides id
  Asks := Op.Asks
  States := Op.States

/-- The claim is decided once, and every call on it that does not complete its decision throws. -/
structure DecidedOnce (id : ClaimId) (db : Db) (ts : List (Transition Db Call Input))
    (c' : Config Db Call) : Prop extends (register id).MadeOnce db ts c' where
  throws : ∀ k ∈ c'.calls, k.op.Decides id → k.isFinished = true → k.stage id ≠ .done →
    ∃ e, k.pc = .threw e

/-- No statement of a call fails between the decision on the claim and the end of the call. -/
def NoticeGoesOut (id : ClaimId) (_me : ℕ) (x : Input) (k : Call) (_db : Db) : Prop :=
  k.stage id = .written → x.fail = false

instance (id : ClaimId) (me : ℕ) (x : Input) (k : Call) (db : Db) :
    Decidable (NoticeGoesOut id me x k db) :=
  inferInstanceAs (Decidable (_ → _))

/-- A call that decides has read its claim undecided, and its claim is there. -/
def Call.Knows (db : Db) (k : Call) : Prop :=
  match k.pc, k.op with
  | .checked claim, .decide _ _ _ _ => claim.Undecided
  | .decided _, .decide id _ _ _ => db.claims[id]?.isSome
  | _, _ => True

section Moves

variable {x : Input} {k : Call} {db : Db} {o : Outcome Db Call} {id : ClaimId}

theorem Stmt.knows (h : Stmt x db k o) : o.call.Knows o.store := by
  cases h with
  | read _ hst => exact hst
  | decide hrow => exact Option.isSome_iff_exists.mpr ⟨_, Table.modify_of_row hrow _⟩
  | _ => trivial

theorem Stmt.knows_other (h : Stmt x db k o) {k' : Call} (hk' : k'.Knows db) :
    k'.Knows o.store := by
  obtain ⟨op, pc⟩ := k'
  cases op with
  | fileClaim customerId orderId reason => cases pc <;> trivial
  | decide id adminId approve note =>
      cases pc with
      | checked claim => exact hk'
      | decided claim => exact h.row_stays hk'
      | _ => trivial

/-- A call that has not finished and may fail here has written nothing. -/
theorem stage_eq_idle (hfinished : k.isFinished = false) (hwritten : k.stage id ≠ .written) :
    k.stage id = .idle := by
  obtain ⟨op, pc⟩ := k
  cases op with
  | fileClaim customerId orderId reason => cases pc <;> rfl
  | decide id' adminId approve note =>
      cases pc with
      | decided claim | notifying claim =>
          by_cases hid : id' = id
          · exact absurd (if_pos hid) hwritten
          · exact if_neg hid
      | returned => simp [Call.isFinished] at hfinished
      | _ => rfl

theorem threw_of_finished (hdecides : k.op.Decides id) (hfinished : k.isFinished = true)
    (hdone : k.stage id ≠ .done) : ∃ e, k.pc = .threw e := by
  obtain ⟨op, pc⟩ := k
  cases op with
  | fileClaim customerId orderId reason => exact hdecides.elim
  | decide id' adminId approve note =>
      cases pc with
      | returned => exact absurd (if_pos hdecides) hdone
      | threw e => exact ⟨e, rfl⟩
      | _ => simp [Call.isFinished] at hfinished

theorem decideData_decided (adminId : UserId) (approve : Bool) (note : Option String) (now : Time)
    (row : GuaranteeClaim) : ¬ (decideData adminId approve note now row).Undecided := by
  cases approve <;> simp [GuaranteeClaim.Undecided, decideData]

theorem decisionOn_eq_none {row : GuaranteeClaim} (hrow : db.claims[id]? = some row)
    (hst : row.Undecided) : decisionOn id db = none := by
  simp [decisionOn, hrow, hst]

theorem decisionOn_createClaim {row : GuaranteeClaim} (hst : row.Undecided) :
    decisionOn id (db.createClaim row) = decisionOn id db :=
  Table.filter_append (by simp [hst]) id

/-- A notification that concerns another claim is no notice of this one. -/
theorem noticesOn_createNotification {n : Notification} :
    noticesOn id (db.createNotification n) =
      noticesOn id db ++ if n.claimId = some id then [n] else [] := by
  simp only [noticesOn, Db.createNotification_notifications, List.filter_append]
  by_cases hn : n.claimId = some id <;> simp [hn]

/-- **Every statement of the service is a move.** -/
theorem Stmt.move {me : ℕ} (h : Stmt x db k o) (hk : k.Knows db) (hfinished : k.isFinished = false)
    (hC : NoticeGoesOut id me x k db) : (register id).Move db k o.store o.call := by
  cases h with
  | @fails op pc hfail =>
      have hidle : Call.stage id ⟨op, pc⟩ = .idle :=
        stage_eq_idle hfinished fun hwritten => by simp [hC hwritten] at hfail
      exact .keep rfl rfl hidle.symm fun _ => rfl
  | refused hpc =>
      rcases hpc with rfl | rfl | rfl | ⟨claim, rfl⟩ <;> exact .keep rfl rfl rfl fun _ => rfl
  | create => exact .keep (decisionOn_createClaim (Or.inl rfl)) rfl rfl False.elim
  | @decide id' adminId approve note claim row hrow hst =>
      have hopen : row.Undecided := by
        have hread : claim.Undecided := hk
        simpa [GuaranteeClaim.Undecided, hst] using hread
      by_cases hid : id' = id
      · subst hid
        refine .write (d := decideData adminId approve note x.now row) ?_ ?_ rfl rfl
          (if_pos rfl) ⟨rfl, rfl, rfl, ?_⟩
        · exact decisionOn_eq_none hrow hopen
        · show Option.filter _ (db.claims.modify id' _)[id']? = _
          rw [Table.modify_of_row hrow, if_pos rfl]
          simp [decideData_decided]
        · intro hnote
          obtain ⟨n, rfl⟩ := Option.isSome_iff_exists.mp hnote
          rfl
      · refine .keep ?_ rfl (if_neg hid) hid.elim
        show Option.filter _ (db.claims.modify id' _)[id]? = _
        rw [List.getElem?_modify_ne _ _ hid]
        rfl
  | missing hnone => simp [Call.Knows, hnone] at hk
  | @notify id' adminId approve note claim =>
      by_cases hid : id' = id
      · subst hid
        refine .tell rfl ?_ (if_pos rfl) (if_pos rfl) ⟨claim, rfl⟩
        exact noticesOn_createNotification.trans (congrArg _ (if_pos rfl))
      · refine .keep rfl ?_ ((if_neg hid).trans (if_neg hid).symm) hid.elim
        refine noticesOn_createNotification.trans ?_
        rw [if_neg, List.append_nil]
        · rfl
        · exact fun h => hid (Option.some.inj h)
  | _ => exact .keep rfl rfl rfl fun _ => rfl

end Moves

/-- What deciding calls know, over a run. -/
def knowsOutline (C : ℕ → Input → Call → Db → Prop) :
    Outline guarantees fun t => t.Satisfies C :=
  .ofSteps guarantees C (fun _ => True) (fun db _ k => k.Knows db)
    (by
      intro db me k hentry _
      obtain ⟨op, pc⟩ := k
      cases pc with
      | start => cases op <;> trivial
      | _ => simp [guarantees, Call.isStart] at hentry)
    (by
      intro me x k db o _ hstep _ _
      obtain ⟨-, h⟩ := step_cases hstep
      exact ⟨trivial, h.knows, h.spawned_eq_nil⟩)
    (by
      intro me x k db o other k' _ hstep _ _ _ hk'
      obtain ⟨-, h⟩ := step_cases hstep
      exact h.knows_other hk')

/-- **A claim is decided once.** -/
theorem decidedOnce_of_run {id : ClaimId} {db : Db} {c' : Config Db Call}
    {ts : List (Transition Db Call Input)} (hrun : guarantees.Run ⟨db, []⟩ ts c')
    (hundecided : ∀ row, db.claims[id]? = some row → row.Undecided)
    (hC : ∀ t ∈ ts, t.Satisfies (NoticeGoesOut id)) : DecidedOnce id db ts c' := by
  have hholds := ((knowsOutline (NoticeGoesOut id)).holds_run hrun hC
    ⟨trivial, fun i k hk => by simp at hk⟩).2
  refine ⟨OneDecision.Register.madeOnce_of_run hrun (fun t ht => ?_) ?_,
    fun k _ hdecides hfinished hdone => threw_of_finished hdecides hfinished hdone⟩
  · rcases stmt_of_fires (hrun.fires t ht) with
      ⟨k, he, hstart, hpost⟩ | ⟨i, x, k, o, he, hi, hfinished, h, hpost⟩
    · refine .start he hpost ?_
      obtain ⟨op, pc⟩ := k
      obtain rfl : pc = .start := hstart
      rfl
    · have hk := (hholds t ht).1.2 i k hi
      exact .run he hi hpost h.op_eq (h.move hk hfinished (hC t ht i x k he hi))
  · cases hrow : db.claims[id]? with
    | none => simp [register, decisionOn, hrow]
    | some row => exact decisionOn_eq_none hrow (hundecided row hrow)

end Handly.Guarantees
