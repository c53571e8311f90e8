import Handly.Media.MediaService
import Handly.Orders.Knowledge

/-!
# What one operation on the media can do

`step_cases` inverts a step once. The rest goes by cases on `Stmt`.
-/

namespace Handly.Media

open Interleaving

/-- Everything the next operation of a call can be. -/
inductive Stmt (x : Input) (db : Db) : Call → Outcome Db Call → Prop
  | throws {op pc e} : Stmt x db ⟨op, pc⟩ ⟨db, ⟨op, .threw e⟩, []⟩
  | addMediaChecked {customerId orderId file kind ext order} :
      db.orders[orderId]? = some order → order.customerId = customerId → order.status.Editable →
      Stmt x db ⟨.addMedia customerId orderId file, .start⟩
        ⟨db, ⟨.addMedia customerId orderId file, .checked kind ext⟩, []⟩
  | addJobMediaChecked {masterId orderId file kind ext order} :
      db.orders[orderId]? = some order → order.masterId = some masterId →
      order.status = .inProgress ∨ order.status = .completed →
      Stmt x db ⟨.addJobMedia masterId orderId file, .start⟩
        ⟨db, ⟨.addJobMedia masterId orderId file, .checked kind ext⟩, []⟩
  | found {customerId orderId mediaId media} :
      db.media[mediaId]? = some (some media) → media.orderId = orderId →
      Stmt x db ⟨.deleteMedia customerId orderId mediaId, .start⟩
        ⟨db, ⟨.deleteMedia customerId orderId mediaId, .found media⟩, []⟩
  | stored {op kind ext} :
      Stmt x db ⟨op, .checked kind ext⟩
        ⟨db.saveFile (x.uuid ++ ext), ⟨op, .stored kind (x.uuid ++ ext)⟩, []⟩
  | addMedia {customerId orderId file kind objectKey order} : db.orders[orderId]? = some order →
      Stmt x db ⟨.addMedia customerId orderId file, .stored kind objectKey⟩
        ⟨db.createMedia (mediaOf orderId .customer file kind objectKey),
          ⟨.addMedia customerId orderId file, .rereading⟩, []⟩
  | addJobMedia {masterId orderId file kind objectKey order} : db.orders[orderId]? = some order →
      Stmt x db ⟨.addJobMedia masterId orderId file, .stored kind objectKey⟩
        ⟨db.createMedia (mediaOf orderId .master file kind objectKey),
          ⟨.addJobMedia masterId orderId file, .rereading⟩, []⟩
  | deleteMedia {customerId orderId mediaId media row} : db.media[mediaId]? = some (some row) →
      Stmt x db ⟨.deleteMedia customerId orderId mediaId, .found media⟩
        ⟨db.deleteMedia mediaId, ⟨.deleteMedia customerId orderId mediaId, .deleted media⟩, []⟩
  | deleteFile {op media} :
      Stmt x db ⟨op, .deleted media⟩ ⟨db.deleteFile media.objectKey, ⟨op, .rereading⟩, []⟩
  | returns {op} : Stmt x db ⟨op, .rereading⟩ ⟨db, ⟨op, .returned⟩, []⟩

section Cases

variable {env : Env} {me : ℕ} {x : Input} {k : Call} {db : Db} {o : Outcome Db Call}

theorem addMediaGuard_eq_ok {customerId : UserId} {orderId : OrderId} {file : MediaFile}
    {p : OrderMediaKind × String} (h : addMediaGuard env db customerId orderId file = .ok p) :
    ∃ order, db.orders[orderId]? = some order ∧ order.customerId = customerId ∧
      order.status.Editable := by
  unfold addMediaGuard at h
  obtain ⟨order, hown, h⟩ := Checks.bind_eq_ok.mp h
  simp only [Checks.check_eq_ok] at h
  obtain ⟨hrow, hcustomer⟩ := getOwned_eq_ok hown
  exact ⟨order, hrow, hcustomer, of_not_not h.1⟩

theorem addJobMediaGuard_eq_ok {masterId : UserId} {orderId : OrderId} {file : MediaFile}
    {p : OrderMediaKind × String} (h : addJobMediaGuard env db masterId orderId file = .ok p) :
    ∃ order, db.orders[orderId]? = some order ∧ order.masterId = some masterId ∧
      (order.status = .inProgress ∨ order.status = .completed) := by
  unfold addJobMediaGuard at h
  obtain ⟨order, hown, h⟩ := Checks.bind_eq_ok.mp h
  simp only [Checks.check_eq_ok] at h
  obtain ⟨hrow, hmaster⟩ := getOwnedByMaster_eq_ok hown
  refine ⟨order, hrow, hmaster, ?_⟩
  by_contra hne
  exact h.1 (not_or.mp hne)

theorem deleteMediaGuard_eq_ok {customerId : UserId} {orderId : OrderId} {mediaId : MediaId}
    {media : OrderMedia} (h : deleteMediaGuard db customerId orderId mediaId = .ok media) :
    db.media[mediaId]? = some (some media) ∧ media.orderId = orderId := by
  unfold deleteMediaGuard at h
  obtain ⟨order, -, h⟩ := Checks.bind_eq_ok.mp h
  split at h
  · simp [throw, throwThe, MonadExceptOf.throw] at h
  · rename_i m hfind
    obtain rfl := Checks.pure_eq_ok.mp h
    simpa [Db.findMedia, Option.join_eq_some_iff] using hfind

theorem insertMedia_cases {row : OrderMedia} :
    (∃ order, db.orders[row.orderId]? = some order ∧
      insertMedia k db row = k.goto (db.createMedia row) .rereading) ∨
      insertMedia k db row = k.goto db (.threw .infrastructure) := by
  unfold insertMedia
  split
  · exact Or.inr rfl
  · rename_i order hrow
    exact Or.inl ⟨order, hrow, rfl⟩

/-- The next operation of a call that does not fail. -/
theorem proceed_cases (h : proceed env x k db = some o) : Stmt x db k o := by
  obtain ⟨op, pc⟩ := k
  cases pc with
  | start =>
      cases op with
      | addMedia customerId orderId file =>
          rw [← Option.some.inj h]
          cases hguard : addMediaGuard env db customerId orderId file with
          | error e => exact .throws
          | ok p =>
              obtain ⟨order, hrow, hcustomer, hst⟩ := addMediaGuard_eq_ok hguard
              exact .addMediaChecked hrow hcustomer hst
      | addJobMedia masterId orderId file =>
          rw [← Option.some.inj h]
          cases hguard : addJobMediaGuard env db masterId orderId file with
          | error e => exact .throws
          | ok p =>
              obtain ⟨order, hrow, hmaster, hst⟩ := addJobMediaGuard_eq_ok hguard
              exact .addJobMediaChecked hrow hmaster hst
      | deleteMedia customerId orderId mediaId =>
          rw [← Option.some.inj h]
          cases hguard : deleteMediaGuard db customerId orderId mediaId with
          | error e => exact .throws
          | ok media =>
              obtain ⟨hrow, horder⟩ := deleteMediaGuard_eq_ok hguard
              exact .found hrow horder
  | checked kind ext =>
      cases op with
      | addMedia | addJobMedia =>
          rw [← Option.some.inj h]
          exact .stored
      | deleteMedia => simp [proceed] at h
  | stored kind objectKey =>
      cases op with
      | addMedia customerId orderId file =>
          rw [← Option.some.inj h]
          rcases insertMedia_cases with ⟨order, hrow, hins⟩ | hins
          · rw [hins]
            exact .addMedia hrow
          · rw [hins]
            exact .throws
      | addJobMedia masterId orderId file =>
          rw [← Option.some.inj h]
          rcases insertMedia_cases with ⟨order, hrow, hins⟩ | hins
          · rw [hins]
            exact .addJobMedia hrow
          · rw [hins]
            exact .throws
      | deleteMedia => simp [proceed] at h
  | found media =>
      cases op with
      | deleteMedia customerId orderId mediaId =>
          simp only [proceed] at h
          split at h
          · rw [← Option.some.inj h]
            exact .throws
          · rename_i row hrow
            rw [← Option.some.inj h]
            exact .deleteMedia (Option.join_eq_some_iff.mp hrow)
      | addMedia | addJobMedia => simp [proceed] at h
  | deleted media =>
      cases op with
      | deleteMedia =>
          rw [← Option.some.inj h]
          exact .deleteFile
      | addMedia | addJobMedia => simp [proceed] at h
  | rereading =>
      have hcheck : some (Call.check ⟨op, .rereading⟩ db (fun _ => .returned) (op.reread db)) =
          some o := by
        cases op <;> exact h
      rw [← Option.some.inj hcheck]
      cases op.reread db with
      | error e => exact .throws
      | ok order => exact .returns
  | returned | threw => cases op <;> simp [proceed] at h

/-- **Inversion of a step.** -/
theorem step_cases (h : step env me x k db = some o) :
    Stmt x db k o ∧ (x.fail = true → o = k.goto db (.threw .infrastructure)) := by
  unfold step at h
  split at h
  · simp at h
  · split at h
    · rw [← Option.some.inj h]
      exact ⟨.throws, fun _ => rfl⟩
    · rename_i hfail
      exact ⟨proceed_cases h, fun hx => absurd hx hfail⟩

/-- The three methods start no calls. -/
theorem Stmt.spawned_eq_nil (h : Stmt x db k o) : o.spawned = [] := by
  cases h <;> rfl

/-- An operation on the media writes no other table. -/
theorem Stmt.toDb_eq (h : Stmt x db k o) : o.store.toDb = db.toDb := by
  cases h <;> rfl

end Cases

end Handly.Media
