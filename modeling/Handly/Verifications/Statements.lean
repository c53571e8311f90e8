import Handly.Lib.Checks
import Handly.Verifications.VerificationService

/-!
# What one statement of the verification service can do

`step_cases` inverts a step once; what is known of verifications, profiles and locks goes by
cases on `Stmt`.
-/

namespace Handly.Verifications

open Interleaving

/-- A check of the source may refuse the call here. -/
def Pc.Checks (pc : Pc) : Prop :=
  match pc with
  | .start | .locked | .unverified | .checked _ | .claimed _ _ => True
  | _ => False

/-- Everything the next statement of a call can be. -/
inductive Stmt (me : ℕ) (x : Input) (db : Db) : Call → Outcome Db Call → Prop
  | fails {op pc} : x.fail = true →
      Stmt me x db ⟨op, pc⟩ ⟨db.unlock me, ⟨op, .threw .infrastructure⟩, []⟩
  | refused {op pc e db'} : pc.Checks → db' = db ∨ db' = db.unlock me →
      Stmt me x db ⟨op, pc⟩ ⟨db', ⟨op, .threw e⟩, []⟩
  -- submit
  | lockProfile {masterId note} : db.profileLock masterId = none →
      Stmt me x db ⟨.submit masterId note, .start⟩
        ⟨db.lockProfile masterId me, ⟨.submit masterId note, .locked⟩, []⟩
  | readProfile {masterId note master} : db.findMaster masterId = some master →
      master.verificationStatus ≠ .verified →
      Stmt me x db ⟨.submit masterId note, .locked⟩
        ⟨db, ⟨.submit masterId note, .unverified⟩, []⟩
  | readPending {masterId note} :
      (∀ v ∈ db.verifications, v.masterId = masterId → v.status ≠ .pending) →
      Stmt me x db ⟨.submit masterId note, .unverified⟩
        ⟨db, ⟨.submit masterId note, .vacant⟩, []⟩
  | create {masterId note} :
      Stmt me x db ⟨.submit masterId note, .vacant⟩
        ⟨((db.createVerification (verificationOf masterId note)).setVerificationStatus masterId
          .pending).unlock me, ⟨.submit masterId note, .returned⟩, []⟩
  -- decide
  | read {verificationId adminId approve note record} :
      db.verifications[verificationId]? = some record → record.status = .pending →
      Stmt me x db ⟨.decide verificationId adminId approve note, .start⟩
        ⟨db, ⟨.decide verificationId adminId approve note, .checked record⟩, []⟩
  | claim {verificationId adminId approve note record row} :
      db.verifications[verificationId]? = some row → row.status = .pending →
      db.verificationLock verificationId = none →
      Stmt me x db ⟨.decide verificationId adminId approve note, .checked record⟩
        ⟨db.lockVerification verificationId me,
          ⟨.decide verificationId adminId approve note, .claimed record x.now⟩, []⟩
  | sync {verificationId adminId approve note record decidedAt master} :
      db.profileLock record.masterId = none → db.findMaster record.masterId = some master →
      Stmt me x db ⟨.decide verificationId adminId approve note, .claimed record decidedAt⟩
        ⟨db.lockProfile record.masterId me,
          ⟨.decide verificationId adminId approve note, .synced record decidedAt⟩, []⟩
  | commit {verificationId adminId approve note record decidedAt} :
      Stmt me x db ⟨.decide verificationId adminId approve note, .synced record decidedAt⟩
        ⟨((db.updateVerification verificationId
            (decideData adminId approve note record decidedAt)).setVerificationStatus
              record.masterId (newStatus approve)).unlock me,
          ⟨.decide verificationId adminId approve note, .notifying record⟩, []⟩
  | notify {verificationId adminId approve note record} :
      Stmt me x db ⟨.decide verificationId adminId approve note, .notifying record⟩
        ⟨db.createNotification (decidedNotice verificationId record approve note),
          ⟨.decide verificationId adminId approve note, .returned⟩, []⟩

section Cases

variable {me : ℕ} {x : Input} {k : Call} {db : Db} {o : Outcome Db Call}

theorem decideGuard_eq_ok {id : VerificationId} {approve : Bool} {note : Option String}
    {record : Verification} (h : decideGuard db id approve note = .ok record) :
    db.verifications[id]? = some record ∧ record.status = .pending := by
  unfold decideGuard at h
  split at h
  · simp at h
  · rename_i row hrow
    simp only [Checks.check_eq_ok, Checks.pure_eq_ok] at h
    obtain ⟨hst, -, rfl⟩ := h
    exact ⟨hrow, of_not_not hst⟩

theorem findMaster_eq_some {id : UserId} {m : MasterProfile} (h : db.findMaster id = some m) :
    m ∈ db.masters ∧ m.userId = id :=
  ⟨List.mem_of_find?_eq_some h, by simpa using List.find?_some h⟩

/-- The next statement of a call that does not fail. -/
theorem proceed_cases (h : proceed me x k db = some o) : Stmt me x db k o := by
  obtain ⟨op, pc⟩ := k
  cases op with
  | submit masterId note =>
      cases pc with
      | start =>
          simp only [proceed] at h
          split at h
          · simp at h
          · rename_i hlock
            rw [← Option.some.inj h]
            exact .lockProfile (by simpa using hlock)
      | locked =>
          simp only [proceed] at h
          split at h
          · rw [← Option.some.inj h]
            exact .refused trivial (Or.inr rfl)
          · rename_i master hmaster
            split at h
            · rw [← Option.some.inj h]
              exact .refused trivial (Or.inr rfl)
            · rename_i hst
              rw [← Option.some.inj h]
              exact .readProfile hmaster hst
      | unverified =>
          simp only [proceed] at h
          split at h
          · rw [← Option.some.inj h]
            exact .refused trivial (Or.inr rfl)
          · rename_i hnone
            rw [← Option.some.inj h]
            refine .readPending fun v hv hmaster hst => hnone ?_
            exact List.any_eq_true.mpr ⟨v, hv, by simp [hmaster, hst]⟩
      | vacant =>
          rw [← Option.some.inj h]
          exact .create
      | _ => simp [proceed] at h
  | decide verificationId adminId approve note =>
      cases pc with
      | start =>
          simp only [proceed] at h
          split at h
          · rw [← Option.some.inj h]
            exact .refused trivial (Or.inl rfl)
          · rename_i record hok
            rw [← Option.some.inj h]
            obtain ⟨hrow, hst⟩ := decideGuard_eq_ok hok
            exact .read hrow hst
      | checked record =>
          simp only [proceed] at h
          split at h
          · rename_i hpending
            obtain ⟨row, hrow, hst⟩ := (Option.any_eq_true _ _).mp hpending
            split at h
            · simp at h
            · rename_i hlock
              rw [← Option.some.inj h]
              exact .claim hrow (of_decide_eq_true hst) (by simpa using hlock)
          · rw [← Option.some.inj h]
            exact .refused trivial (Or.inl rfl)
      | claimed record decidedAt =>
          simp only [proceed] at h
          split at h
          · simp at h
          · rename_i hlock
            split at h
            · rw [← Option.some.inj h]
              exact .refused trivial (Or.inr rfl)
            · rename_i hmaster
              rw [← Option.some.inj h]
              obtain ⟨master, hmaster⟩ :=
                Option.ne_none_iff_exists'.mp (mt Option.isNone_iff_eq_none.mpr hmaster)
              exact .sync (by simpa using hlock) hmaster
      | synced record decidedAt =>
          rw [← Option.some.inj h]
          exact .commit
      | notifying record =>
          rw [← Option.some.inj h]
          exact .notify
      | _ => simp [proceed] at h

/-- **Inversion of a step.** -/
theorem step_cases (h : step me x k db = some o) : k.isFinished = false ∧ Stmt me x db k o := by
  unfold step at h
  split at h
  · simp at h
  · rename_i hfinished
    refine ⟨by simpa using hfinished, ?_⟩
    split at h
    · rename_i hfail
      rw [← Option.some.inj h]
      exact .fails hfail
    · exact proceed_cases h

theorem Stmt.op_eq (h : Stmt me x db k o) : o.call.op = k.op := by
  cases h <;> rfl

theorem Stmt.spawned_eq_nil (h : Stmt me x db k o) : o.spawned = [] := by
  cases h <;> rfl

end Cases

/-! ### Effects -/

/-- Where a row of `verifications` after a statement comes from. -/
inductive RowEffect (db : Db) : Call → VerificationId → Verification → Prop
  | same {k id row} : db.verifications[id]? = some row → RowEffect db k id row
  | created {masterId note} :
      RowEffect db ⟨.submit masterId note, .vacant⟩ db.verifications.length
        (verificationOf masterId note)
  | decided {id adminId approve note record decidedAt row} : db.verifications[id]? = some row →
      RowEffect db ⟨.decide id adminId approve note, .synced record decidedAt⟩ id
        (decideData adminId approve note record decidedAt row)

section Effects

variable {me : ℕ} {x : Input} {k : Call} {db : Db} {o : Outcome Db Call}

theorem Stmt.rowEffect (h : Stmt me x db k o) {id : ℕ} {row' : Verification}
    (hrow' : o.store.verifications[id]? = some row') : RowEffect db k id row' := by
  cases h with
  | refused _ hdb => rcases hdb with rfl | rfl <;> exact .same hrow'
  | create =>
      rcases Table.of_append hrow' with hrow | ⟨rfl, rfl⟩
      · exact .same hrow
      · exact .created
  | commit =>
      obtain ⟨row, hrow, ⟨rfl, rfl⟩ | ⟨-, rfl⟩⟩ := Table.of_modify hrow'
      · exact .decided hrow
      · exact .same hrow
  | _ => exact .same hrow'

/-- No statement removes a request or gives it to another master. -/
theorem Stmt.row_stays (h : Stmt me x db k o) {id : ℕ} {row : Verification}
    (hrow : db.verifications[id]? = some row) :
    ∃ row', o.store.verifications[id]? = some row' ∧ row'.masterId = row.masterId := by
  cases h with
  | refused _ hdb => rcases hdb with rfl | rfl <;> exact ⟨row, hrow, rfl⟩
  | create => exact ⟨row, Table.append_of_row hrow _, rfl⟩
  | @commit id' =>
      refine ⟨_, Table.modify_of_row hrow id', ?_⟩
      split <;> rfl
  | _ => exact ⟨row, hrow, rfl⟩

/-- A statement leaves the locks of the other transactions. -/
theorem Stmt.locks_other (h : Stmt me x db k o) {other : ℕ} (hne : other ≠ me) :
    (∀ id, db.profileLock id = some other → o.store.profileLock id = some other) ∧
      ∀ id, db.verificationLock id = some other → o.store.verificationLock id = some other := by
  have hprofile : ∀ masterId, db.profileLock masterId = none →
      ∀ id, db.profileLock id = some other →
        (db.lockProfile masterId me).profileLock id = some other := by
    intro masterId hfree id hlock
    rw [Db.lockProfile_profileLock]
    split
    · have hid : id ≠ masterId := by
        intro hid
        simp [hid, hfree] at hlock
      rwa [Function.update_of_ne hid]
    · exact hlock
  have hunlock : (∀ id, db.profileLock id = some other →
        (db.unlock me).profileLock id = some other) ∧
      ∀ id, db.verificationLock id = some other →
        (db.unlock me).verificationLock id = some other := by
    constructor <;> intro id hlock <;> simp [hlock, hne]
  cases h with
  | fails | create | commit => exact hunlock
  | refused _ hdb =>
      rcases hdb with rfl | rfl
      · exact ⟨fun _ h => h, fun _ h => h⟩
      · exact hunlock
  | @lockProfile masterId _ hfree => exact ⟨hprofile masterId hfree, fun _ h => h⟩
  | sync hfree => exact ⟨hprofile _ hfree, fun _ h => h⟩
  | @claim verificationId _ _ _ _ _ _ _ hfree =>
      refine ⟨fun _ h => h, fun id hlock => ?_⟩
      have hid : id ≠ verificationId := by
        intro hid
        simp [hid, hfree] at hlock
      simpa [Function.update_of_ne hid] using hlock
  | _ => exact ⟨fun _ h => h, fun _ h => h⟩

end Effects

/-! ### What a decision holds -/

/-- A call that decides has read a request of this master. Once its `updateMany` has matched it
holds the lock of the row, which stays PENDING until it commits, and in the end that of the
profile. -/
def Call.Claims (db : Db) (me : ℕ) (k : Call) : Prop :=
  match k.pc, k.op with
  | .checked record, .decide id _ _ _ =>
      ∃ row, db.verifications[id]? = some row ∧ row.masterId = record.masterId
  | .claimed record _, .decide id _ _ _ => db.verificationLock id = some me ∧
      ∃ row, db.verifications[id]? = some row ∧ row.masterId = record.masterId ∧
        row.status = .pending
  | .synced record _, .decide id _ _ _ => db.verificationLock id = some me ∧
      db.profileLock record.masterId = some me ∧
      ∃ row, db.verifications[id]? = some row ∧ row.masterId = record.masterId ∧
        row.status = .pending
  | _, _ => True

section Claims

variable {me : ℕ} {x : Input} {k : Call} {db : Db} {o : Outcome Db Call}

theorem Stmt.claims (h : Stmt me x db k o) (hk : k.Claims db me) : o.call.Claims o.store me := by
  cases h with
  | read hrow => exact ⟨_, hrow, rfl⟩
  | claim hrow hst =>
      obtain ⟨row, hrow', hmaster⟩ := hk
      obtain rfl := Option.some.inj (hrow.symm.trans hrow')
      exact ⟨by simp, _, hrow, hmaster, hst⟩
  | sync hfree hmaster =>
      obtain ⟨hlock, hrow⟩ := hk
      exact ⟨hlock, by simp [hmaster], hrow⟩
  | _ => trivial

/-- A statement of another call keeps what a decision holds: the lock shields the row. -/
theorem Stmt.claims_other (h : Stmt me x db k o) (hk : k.Claims db me) {other : ℕ} {k' : Call}
    (hne : other ≠ me) (hk' : k'.Claims db other) : k'.Claims o.store other := by
  obtain ⟨hprofile, hverification⟩ := h.locks_other hne
  have hrow : ∀ {id : VerificationId} {row : Verification},
      db.verificationLock id = some other → db.verifications[id]? = some row →
      o.store.verifications[id]? = some row := by
    intro id row hlock hrow
    obtain ⟨row', hrow', -⟩ := h.row_stays hrow
    cases h.rowEffect hrow' with
    | same hold => rwa [← Option.some.inj (hold.symm.trans hrow)]
    | created => simp at hrow
    | decided => exact absurd (Option.some.inj (hlock.symm.trans hk.1)) hne
  obtain ⟨op, pc⟩ := k'
  cases op with
  | submit masterId note => cases pc <;> trivial
  | decide id adminId approve note =>
      cases pc with
      | checked record =>
          obtain ⟨row, hfound, hmaster⟩ := hk'
          obtain ⟨row', hfound', hmaster'⟩ := h.row_stays hfound
          exact ⟨row', hfound', hmaster'.trans hmaster⟩
      | claimed record decidedAt =>
          obtain ⟨hlock, row, hfound, hknown⟩ := hk'
          exact ⟨hverification id hlock, row, hrow hlock hfound, hknown⟩
      | synced record decidedAt =>
          obtain ⟨hlock, hlock', row, hfound, hknown⟩ := hk'
          exact ⟨hverification id hlock, hprofile _ hlock', row, hrow hlock hfound, hknown⟩
      | _ => trivial

end Claims

section Fires

/-- The call that a transition runs, and its statement. -/
theorem stmt_of_fires {t : Transition Db Call Input} (ht : verification.Fires t) :
    (∃ k, t.event = .start k ∧ k.pc = .start ∧ t.post = ⟨t.pre.store, t.pre.calls ++ [k]⟩) ∨
    (∃ i x k o, t.event = .run i x ∧ t.pre.calls[i]? = some k ∧ k.isFinished = false ∧
        Stmt i x t.pre.store k o ∧ t.post = ⟨o.store, t.pre.calls.set i o.call⟩) := by
  rcases ht.cases with ⟨k, he, hk, hpost⟩ | ⟨i, x, k, o, he, hi, ho, hpost⟩
  · refine Or.inl ⟨k, he, ?_, hpost⟩
    obtain ⟨op, pc⟩ := k
    cases pc <;> trivial
  · obtain ⟨hfinished, h⟩ := step_cases ho
    rw [h.spawned_eq_nil, List.append_nil] at hpost
    exact Or.inr ⟨i, x, k, o, he, hi, hfinished, h, hpost⟩

end Fires

end Handly.Verifications
