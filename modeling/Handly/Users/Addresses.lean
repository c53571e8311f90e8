import Handly.Contracts
import Handly.Lib.Checks
import Handly.Lib.Interleaving
import Handly.Lib.ReadCommitted
import Handly.Lib.Rounding

/-!
# The addresses of a user

`createAddress`, `setDefaultAddress` and `deleteAddress` of `users.service.ts`, with their
statements at READ COMMITTED. An address that is to be the default is made so in a transaction of
two statements: the first clears `isDefault` of the user's addresses, the second inserts or
updates the one address. The clearing statement takes the addresses that its transaction sees,
and writes them one after another.

The id of an address is its position in the table.
-/

namespace Handly.Addresses

open Interleaving ReadCommitted

abbrev AddressId := ℕ

structure Address where
  userId : UserId
  label : String
  addressText : String
  latitude : ℚ
  longitude : ℚ
  isDefault : Bool
  deriving DecidableEq

/-- `AddressCreate` -/
structure AddressCreate where
  label : String
  addressText : String
  latitude : ℚ
  longitude : ℚ
  isDefault : Bool := false

/-! ### Calls -/

/-- A call of the service with its arguments. -/
inductive Op
  | createAddress (userId : UserId) (dto : AddressCreate)
  | setDefaultAddress (userId : UserId) (id : AddressId)
  | deleteAddress (userId : UserId) (id : AddressId)

def Op.userId : Op → UserId
  | .createAddress userId _ | .setDefaultAddress userId _ | .deleteAddress userId _ => userId

/-- The call makes an address the default. -/
def Op.setsDefault : Op → Bool
  | .createAddress _ dto => dto.isDefault
  | .setDefaultAddress _ _ => true
  | .deleteAddress _ _ => false

/-- Where a call stands between two awaited operations. -/
inductive Pc
  /-- Nothing has run yet. -/
  | start
  /-- The address was found, and is the user's own. -/
  | checked
  /-- The clearing statement has taken the addresses `seen` and has yet to write `todo`. -/
  | clearing (seen todo : List AddressId)
  /-- The clearing statement is done, or there was none to run. -/
  | cleared (seen : List AddressId)
  /-- The address `target` is written; the transaction commits next. -/
  | written (seen : List AddressId) (target : AddressId)
  /-- The promise is resolved. -/
  | returned (created : Option (AddressId × Address))
  /-- The promise is rejected. -/
  | threw (e : ApiError)

/-- A call in flight, or a finished one. -/
structure Call where
  op : Op
  pc : Pc

namespace Call

def isStart (k : Call) : Bool := k.pc matches .start

/-- The call has returned or thrown. -/
def isFinished (k : Call) : Bool :=
  match k.pc with
  | .returned _ | .threw _ => true
  | _ => false

/-- The call stands at `pc` next. -/
def goto (k : Call) (db : Table Address) (pc : Pc) : Outcome (Table Address) Call :=
  ⟨db, { k with pc }, []⟩

end Call

/-- What the world outside the database supplies to one statement. -/
structure Input where
  /-- The awaited operation fails, and its transaction is rolled back. -/
  fail : Bool := false

/-! ### Statements -/

/-- `where: { userId }` -/
def ofUser (userId : UserId) (a : Address) : Bool := a.userId = userId

/-- The row that `createAddress` inserts. The coordinates are columns `Decimal(9, 6)`. -/
def addressOf (userId : UserId) (dto : AddressCreate) : Address :=
  { userId, label := dto.label, addressText := dto.addressText
    latitude := Rounding.toNumeric 6 dto.latitude, longitude := Rounding.toNumeric 6 dto.longitude
    isDefault := dto.isDefault }

/-- What a call returns besides its success: `createAddress` the row with its id. -/
def Op.result (op : Op) (target : AddressId) : Option (AddressId × Address) :=
  match op with
  | .createAddress userId dto => some (target, addressOf userId dto)
  | _ => none

/-- `address.findUnique`, and the check that follows it. -/
def getOwn (db : Table Address) (userId : UserId) (id : AddressId) : Except ApiError Address :=
  match db.committed id with
  | none => .error (.notFound "Manzil topilmadi")
  | some address => do
      if address.userId ≠ userId then throw (.notFound "Manzil topilmadi")
      return address

/-- The clearing `updateMany` starts: it takes the addresses of the user. -/
def startClearing (me : ℕ) (k : Call) (db : Table Address) : Outcome (Table Address) Call :=
  let seen := db.snapshot me (ofUser k.op.userId)
  k.goto db (.clearing seen seen)

/-! ### Steps -/

/-- The next operation of a call that has not finished and does not fail. -/
def proceed (me : ℕ) (k : Call) (db : Table Address) : Option (Outcome (Table Address) Call) :=
  match k.pc, k.op with
  | .start, .createAddress _ dto =>
      if dto.isDefault then some (startClearing me k db) else some (k.goto db (.cleared []))
  | .start, .setDefaultAddress userId id | .start, .deleteAddress userId id =>
      match getOwn db userId id with
      | .error e => some (k.goto db (.threw e))
      | .ok _ => some (k.goto db .checked)
  | .checked, .deleteAddress _ id =>
      -- One statement: its transaction commits next.
      if ¬ db.Free me id then none
      else if (db.view me id).isNone then some (k.goto db (.threw .infrastructure))
      else some (k.goto (db.write me id none) (.written [] id))
  | .checked, .setDefaultAddress _ _ => some (startClearing me k db)
  | .clearing seen (id :: todo), _ =>
      (db.updateRow me (ofUser k.op.userId) (fun a => some { a with isDefault := false }) id).map
        fun db' => k.goto db' (.clearing seen todo)
  | .clearing seen [], _ => some (k.goto db (.cleared seen))
  | .cleared seen, .createAddress userId dto =>
      some (k.goto (db.insert me (addressOf userId dto)) (.written seen db.size))
  | .cleared seen, .setDefaultAddress _ id =>
      if ¬ db.Free me id then none
      else match db.view me id with
        | none => some (k.goto (db.rollback me) (.threw .infrastructure))
        | some a =>
            some (k.goto (db.write me id (some { a with isDefault := true })) (.written seen id))
  | .written _ target, _ => some (k.goto (db.commit me) (.returned (k.op.result target)))
  | .checked, .createAddress _ _ | .cleared _, .deleteAddress _ _ | .returned _, _
  | .threw _, _ => none

/-- The next awaited operation of a call. -/
def step (me : ℕ) (x : Input) (k : Call) (db : Table Address) :
    Option (Outcome (Table Address) Call) :=
  if k.isFinished then none
  else if x.fail then some (k.goto (db.rollback me) (.threw .infrastructure))
  else proceed me k db

/-- The machine of the addresses. -/
def addresses : Machine (Table Address) Call Input where
  entry := Call.isStart
  step := step

/-! ### What one statement can do -/

/-- Everything the next statement of a call can be. -/
inductive Stmt (me : ℕ) (x : Input) (db : Table Address) :
    Call → Outcome (Table Address) Call → Prop
  | fails {op pc} : x.fail = true →
      Stmt me x db ⟨op, pc⟩ ⟨db.rollback me, ⟨op, .threw .infrastructure⟩, []⟩
  | refused {op pc e} : pc = .start ∨ pc = .checked →
      Stmt me x db ⟨op, pc⟩ ⟨db, ⟨op, .threw e⟩, []⟩
  | found {op id address} :
      op = .setDefaultAddress op.userId id ∨ op = .deleteAddress op.userId id →
      db.committed id = some address → address.userId = op.userId →
      Stmt me x db ⟨op, .start⟩ ⟨db, ⟨op, .checked⟩, []⟩
  | clears {op pc} : (pc = .start ∧ ∃ dto, op = .createAddress op.userId dto) ∨
      (pc = .checked ∧ ∃ id, op = .setDefaultAddress op.userId id) → op.setsDefault = true →
      Stmt me x db ⟨op, pc⟩
        ⟨db, ⟨op, .clearing (db.snapshot me (ofUser op.userId))
          (db.snapshot me (ofUser op.userId))⟩, []⟩
  | skips {userId dto} : dto.isDefault = false →
      Stmt me x db ⟨.createAddress userId dto, .start⟩
        ⟨db, ⟨.createAddress userId dto, .cleared []⟩, []⟩
  | deletes {userId id address} : db.Free me id → db.view me id = some address →
      Stmt me x db ⟨.deleteAddress userId id, .checked⟩
        ⟨db.write me id none, ⟨.deleteAddress userId id, .written [] id⟩, []⟩
  | clearsOne {op seen id todo db'} :
      db.updateRow me (ofUser op.userId) (fun a => some { a with isDefault := false }) id =
        some db' →
      Stmt me x db ⟨op, .clearing seen (id :: todo)⟩ ⟨db', ⟨op, .clearing seen todo⟩, []⟩
  | cleared {op seen} : Stmt me x db ⟨op, .clearing seen []⟩ ⟨db, ⟨op, .cleared seen⟩, []⟩
  | inserts {userId dto seen} :
      Stmt me x db ⟨.createAddress userId dto, .cleared seen⟩
        ⟨db.insert me (addressOf userId dto),
          ⟨.createAddress userId dto, .written seen db.size⟩, []⟩
  | sets {userId id seen address} : db.Free me id → db.view me id = some address →
      Stmt me x db ⟨.setDefaultAddress userId id, .cleared seen⟩
        ⟨db.write me id (some { address with isDefault := true }),
          ⟨.setDefaultAddress userId id, .written seen id⟩, []⟩
  | missing {op seen} :
      Stmt me x db ⟨op, .cleared seen⟩ ⟨db.rollback me, ⟨op, .threw .infrastructure⟩, []⟩
  | commits {op seen target} :
      Stmt me x db ⟨op, .written seen target⟩ ⟨db.commit me, ⟨op, .returned (op.result target)⟩, []⟩

section Cases

variable {me : ℕ} {x : Input} {k : Call} {db : Table Address} {o : Outcome (Table Address) Call}

theorem getOwn_eq_ok {userId : UserId} {id : AddressId} {address : Address}
    (h : getOwn db userId id = .ok address) :
    db.committed id = some address ∧ address.userId = userId := by
  unfold getOwn at h
  split at h
  · cases h
  · rename_i row hrow
    simp only [Checks.check_eq_ok] at h
    obtain ⟨huser, h⟩ := h
    obtain rfl := Checks.pure_eq_ok.mp h
    exact ⟨hrow, of_not_not huser⟩

/-- A call on an address by its id that looks for it. -/
theorem find_cases {id : AddressId}
    (hop : k.op = .setDefaultAddress k.op.userId id ∨ k.op = .deleteAddress k.op.userId id)
    (hpc : k.pc = .start)
    (h : (match getOwn db k.op.userId id with
      | .error e => some (k.goto db (.threw e))
      | .ok _ => some (k.goto db .checked)) = some o) : Stmt me x db k o := by
  obtain ⟨op, pc⟩ := k
  obtain rfl : pc = .start := hpc
  split at h
  · rw [← Option.some.inj h]
    exact .refused (Or.inl rfl)
  · rename_i address hown
    rw [← Option.some.inj h]
    obtain ⟨hrow, huser⟩ := getOwn_eq_ok hown
    exact .found hop hrow huser

/-- The next statement of a call that does not fail. -/
theorem proceed_cases (h : proceed me k db = some o) : Stmt me x db k o := by
  obtain ⟨op, pc⟩ := k
  cases pc with
  | start =>
      cases op with
      | createAddress userId dto =>
          simp only [proceed] at h
          split at h
          · rename_i hdefault
            rw [← Option.some.inj h]
            exact .clears (Or.inl ⟨rfl, dto, rfl⟩) hdefault
          · rename_i hdefault
            rw [← Option.some.inj h]
            exact .skips (by simpa using hdefault)
      | setDefaultAddress userId id => exact find_cases (Or.inl rfl) rfl h
      | deleteAddress userId id => exact find_cases (Or.inr rfl) rfl h
  | checked =>
      cases op with
      | deleteAddress userId id =>
          simp only [proceed] at h
          split at h
          · cases h
          · rename_i hfree
            split at h
            · rw [← Option.some.inj h]
              exact .refused (Or.inr rfl)
            · rename_i hsome
              obtain ⟨address, hview⟩ := Option.ne_none_iff_exists'.mp (by simpa using hsome)
              rw [← Option.some.inj h]
              exact .deletes (of_not_not hfree) hview
      | createAddress userId dto => cases h
      | setDefaultAddress userId id =>
          rw [← Option.some.inj h]
          exact .clears (Or.inr ⟨rfl, id, rfl⟩) rfl
  | clearing seen todo =>
      cases todo with
      | nil =>
          rw [← Option.some.inj h]
          exact .cleared
      | cons id todo =>
          obtain ⟨db', hdb', rfl⟩ := Option.map_eq_some_iff.mp h
          exact .clearsOne hdb'
  | cleared seen =>
      cases op with
      | createAddress userId dto =>
          rw [← Option.some.inj h]
          exact .inserts
      | setDefaultAddress userId id =>
          simp only [proceed] at h
          split at h
          · cases h
          · rename_i hfree
            split at h
            · rw [← Option.some.inj h]
              exact .missing
            · rename_i address hview
              rw [← Option.some.inj h]
              exact .sets (of_not_not hfree) hview
      | deleteAddress userId id => cases h
  | written seen target =>
      rw [← Option.some.inj h]
      exact .commits
  | returned created => cases h
  | threw e => cases h

theorem step_cases (h : step me x k db = some o) : ¬ k.isFinished ∧ Stmt me x db k o ∧
    (x.fail = true → o = k.goto (db.rollback me) (.threw .infrastructure)) := by
  unfold step at h
  split at h
  · cases h
  · rename_i hfinished
    split at h
    · rename_i hfail
      rw [← Option.some.inj h]
      exact ⟨hfinished, .fails hfail, fun _ => rfl⟩
    · rename_i hfail
      exact ⟨hfinished, proceed_cases h, fun hx => absurd hx hfail⟩

end Cases

end Handly.Addresses
