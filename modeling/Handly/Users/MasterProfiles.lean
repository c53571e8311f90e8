import Handly.Lib.Checks
import Handly.Lib.Interleaving
import Handly.Lib.ReadCommitted
import Handly.Lib.Rounding
import Handly.Schema
import Mathlib.Data.Finset.Card

/-!
# The profile of a master

`updateMasterProfile` of `users.service.ts`, with its statements at READ COMMITTED, and
`getMasterProfile`, which it ends with. The transaction upserts the profile row and then replaces
the skills and the service areas: for each it deletes the rows of the master that it sees, one
after another, and inserts new ones.

The columns of a profile are those that the edit writes. `edits` is a ghost log of the edits that
have been committed. Nothing reads it; properties are stated about it.
-/

namespace Handly.MasterProfiles

open Interleaving ReadCommitted

/-- The node cipher that `FieldCrypto.encrypt` calls with a random `iv`. -/
structure FieldCrypto where
  encrypt : (plain : String) → (iv : ℕ) → String

structure Profile where
  userId : UserId
  fullName : Option String
  avatarUrl : Option String
  experienceYears : ℕ
  bio : Option String
  pinflEncrypted : Option String
  isSelfEmployed : Bool

structure ServiceArea where
  masterId : UserId
  label : String
  centerLat : ℚ
  centerLng : ℚ
  radiusM : ℕ

/-- An element of `serviceAreas`. -/
structure ServiceAreaInput where
  label : String
  centerLat : ℚ
  centerLng : ℚ
  radiusM : ℕ
  deriving DecidableEq

/-- `MasterProfileUpdate`: a field that may be left out is `none` then. -/
structure MasterProfileUpdate where
  fullName : String
  avatarUrl : Option String := none
  experienceYears : ℕ
  bio : Option String := none
  skills : List CategoryId := []
  serviceAreas : List ServiceAreaInput := []
  pinfl : Option String := none
  isSelfEmployed : Bool := false
  deriving DecidableEq

structure Db where
  categories : List ServiceCategory
  profiles : Table Profile
  skills : Table MasterSkill
  serviceAreas : Table ServiceArea
  /-- Ghost: the committed edits, oldest first. -/
  edits : List (UserId × MasterProfileUpdate) := []

/-! ### Calls -/

/-- The result of `getMasterProfile`, as far as an edit writes it. -/
structure MasterProfileDto where
  fullName : Option String
  avatarUrl : Option String
  experienceYears : ℕ
  bio : Option String
  isSelfEmployed : Bool
  pinflSet : Bool
  skills : List CategoryId
  serviceAreas : List ServiceArea

/-- Where a call stands between two awaited operations. -/
inductive Pc
  /-- Nothing has run yet. -/
  | start
  /-- The categories exist; the transaction is opened next. -/
  | checked
  /-- The profile is upserted; the old skills are looked for next. -/
  | upserted
  /-- The `deleteMany` of the skills has yet to delete these. -/
  | deletingSkills (todo : List ℕ)
  /-- The `createMany` of the skills has yet to insert these. -/
  | creatingSkills (todo : List CategoryId)
  /-- The `deleteMany` of the service areas has yet to delete these. -/
  | deletingAreas (todo : List ℕ)
  /-- The `createMany` of the service areas has yet to insert these; then the transaction
  commits. -/
  | creatingAreas (todo : List ServiceAreaInput)
  /-- The transaction is committed; the profile is read next. -/
  | committed
  /-- The promise is resolved. -/
  | returned (profile : MasterProfileDto)
  /-- The promise is rejected. -/
  | threw (e : ApiError)

/-- A call of `updateMasterProfile` in flight, or a finished one. -/
structure Call where
  userId : UserId
  dto : MasterProfileUpdate
  pc : Pc

namespace Call

def isStart (k : Call) : Bool := k.pc matches .start

/-- The call has returned or thrown. -/
def isFinished (k : Call) : Bool :=
  match k.pc with
  | .returned _ | .threw _ => true
  | _ => false

/-- The call stands at `pc` next. -/
def goto (k : Call) (db : Db) (pc : Pc) : Outcome Db Call := ⟨db, { k with pc }, []⟩

end Call

/-- What the world outside the database supplies to one statement. -/
structure Input where
  /-- The random `iv` of the ciphertext in `data`, and in the row to create. -/
  updateIv : ℕ := 0
  createIv : ℕ := 0
  /-- The awaited operation fails, and its transaction is rolled back. -/
  fail : Bool := false

/-! ### Statements -/

/-- `where: { userId }` -/
def ofUser (userId : UserId) (p : Profile) : Bool := p.userId = userId

/-- `where: { masterId: userId }` -/
def skillOf (userId : UserId) (s : MasterSkill) : Bool := s.masterId = userId

/-- `where: { masterId: userId }` -/
def areaOf (userId : UserId) (a : ServiceArea) : Bool := a.masterId = userId

/-- The check of the categories: all that are asked for exist and are active. -/
def checkSkills (db : Db) (dto : MasterProfileUpdate) : Except ApiError Unit := do
  if 0 < dto.skills.length then
    let found := (List.range db.categories.length).countP fun id =>
      id ∈ dto.skills ∧ db.categories[id]?.any ServiceCategory.active
    if found ≠ dto.skills.toFinset.card then
      throw (.badRequest "Tanlangan xizmat turlaridan biri noto'g'ri")

/-- `if (dto.pinfl)`: the empty string is none. -/
def MasterProfileUpdate.givenPinfl (dto : MasterProfileUpdate) : Option String :=
  dto.pinfl.filter fun p => p ≠ ""

/-- The `update` of the upsert: a column whose value is `undefined` is left alone. -/
def updated (crypto : FieldCrypto) (iv : ℕ) (dto : MasterProfileUpdate) (row : Profile) : Profile :=
  { row with
    fullName := some dto.fullName
    avatarUrl := dto.avatarUrl.or row.avatarUrl
    experienceYears := dto.experienceYears
    bio := dto.bio.or row.bio
    isSelfEmployed := dto.isSelfEmployed
    pinflEncrypted := (dto.givenPinfl.map fun p => crypto.encrypt p iv).or row.pinflEncrypted }

/-- The `create` of the upsert. -/
def created (crypto : FieldCrypto) (iv : ℕ) (userId : UserId) (dto : MasterProfileUpdate) :
    Profile where
  userId := userId
  fullName := some dto.fullName
  avatarUrl := dto.avatarUrl
  experienceYears := dto.experienceYears
  bio := dto.bio
  isSelfEmployed := dto.isSelfEmployed
  pinflEncrypted := dto.givenPinfl.map fun p => crypto.encrypt p iv

/-- A row of the `createMany`. The coordinates are columns `Decimal(9, 6)`. -/
def areaRow (userId : UserId) (a : ServiceAreaInput) : ServiceArea where
  masterId := userId
  label := a.label
  centerLat := Rounding.toNumeric 6 a.centerLat
  centerLng := Rounding.toNumeric 6 a.centerLng
  radiusM := a.radiusM

namespace Db

/-- The committed profile of a master. -/
def profileOf (db : Db) (userId : UserId) : Option Profile :=
  (db.profiles.rows (ofUser userId)).head?

/-- What is rolled back when a statement fails. -/
def rollback (db : Db) (me : ℕ) : Db :=
  { db with
    profiles := db.profiles.rollback me
    skills := db.skills.rollback me
    serviceAreas := db.serviceAreas.rollback me }

/-- The transaction of an edit commits. -/
def commitEdit (db : Db) (me : ℕ) (userId : UserId) (dto : MasterProfileUpdate) : Db where
  categories := db.categories
  profiles := db.profiles.commit me
  skills := db.skills.commit me
  serviceAreas := db.serviceAreas.commit me
  edits := db.edits ++ [(userId, dto)]

end Db

/-- `getMasterProfile` -/
def getMasterProfile (db : Db) (userId : UserId) : Except ApiError MasterProfileDto :=
  match db.profileOf userId with
  | none => .error (.notFound "Usta profili topilmadi")
  | some master => .ok
      { fullName := master.fullName
        avatarUrl := master.avatarUrl
        experienceYears := master.experienceYears
        bio := master.bio
        isSelfEmployed := master.isSelfEmployed
        pinflSet := master.pinflEncrypted.isSome
        skills := (db.skills.rows (skillOf userId)).map MasterSkill.categoryId
        serviceAreas := db.serviceAreas.rows (areaOf userId) }

/-! ### Steps -/

/-- The next operation of a call that has not finished and does not fail. -/
def proceed (crypto : FieldCrypto) (me : ℕ) (x : Input) (k : Call) (db : Db) :
    Option (Outcome Db Call) :=
  match k.pc with
  | .start =>
      match checkSkills db k.dto with
      | .error e => some (k.goto db (.threw e))
      | .ok () => some (k.goto db .checked)
  | .checked =>
      (db.profiles.upsert me (ofUser k.userId) (created crypto x.createIv k.userId k.dto)
        (updated crypto x.updateIv k.dto)).map fun profiles => k.goto { db with profiles } .upserted
  | .upserted => some (k.goto db (.deletingSkills (db.skills.snapshot me (skillOf k.userId))))
  | .deletingSkills (i :: todo) =>
      (db.skills.updateRow me (skillOf k.userId) (fun _ => none) i).map
        fun skills => k.goto { db with skills } (.deletingSkills todo)
  | .deletingSkills [] => some (k.goto db (.creatingSkills k.dto.skills))
  | .creatingSkills (categoryId :: todo) =>
      -- `skipDuplicates`
      (db.skills.insertUnless me
          (fun s => s.masterId = k.userId ∧ s.categoryId = categoryId) ⟨k.userId, categoryId⟩).map
        fun skills => k.goto { db with skills } (.creatingSkills todo)
  | .creatingSkills [] =>
      some (k.goto db (.deletingAreas (db.serviceAreas.snapshot me (areaOf k.userId))))
  | .deletingAreas (i :: todo) =>
      (db.serviceAreas.updateRow me (areaOf k.userId) (fun _ => none) i).map
        fun serviceAreas => k.goto { db with serviceAreas } (.deletingAreas todo)
  | .deletingAreas [] => some (k.goto db (.creatingAreas k.dto.serviceAreas))
  | .creatingAreas (a :: todo) =>
      some (k.goto { db with serviceAreas := db.serviceAreas.insert me (areaRow k.userId a) }
        (.creatingAreas todo))
  | .creatingAreas [] => some (k.goto (db.commitEdit me k.userId k.dto) .committed)
  | .committed =>
      match getMasterProfile db k.userId with
      | .error e => some (k.goto db (.threw e))
      | .ok profile => some (k.goto db (.returned profile))
  | .returned _ | .threw _ => none

/-- The next awaited operation of a call. -/
def step (crypto : FieldCrypto) (me : ℕ) (x : Input) (k : Call) (db : Db) :
    Option (Outcome Db Call) :=
  if k.isFinished then none
  else if x.fail then some (k.goto (db.rollback me) (.threw .infrastructure))
  else proceed crypto me x k db

/-- The machine of the edits. -/
def profileEdits (crypto : FieldCrypto) : Machine Db Call Input where
  entry := Call.isStart
  step := step crypto

/-! ### What one statement can do -/

/-- Everything the next statement of a call can be. -/
inductive Stmt (crypto : FieldCrypto) (me : ℕ) (x : Input) (db : Db) : Call → Outcome Db Call → Prop
  | fails {u dto pc} :
      Stmt crypto me x db ⟨u, dto, pc⟩ ⟨db.rollback me, ⟨u, dto, .threw .infrastructure⟩, []⟩
  | refused {u dto pc e} : pc = .start ∨ pc = .committed →
      Stmt crypto me x db ⟨u, dto, pc⟩ ⟨db, ⟨u, dto, .threw e⟩, []⟩
  | checks {u dto} : Stmt crypto me x db ⟨u, dto, .start⟩ ⟨db, ⟨u, dto, .checked⟩, []⟩
  | upserts {u dto profiles} :
      db.profiles.upsert me (ofUser u) (created crypto x.createIv u dto)
        (updated crypto x.updateIv dto) = some profiles →
      Stmt crypto me x db ⟨u, dto, .checked⟩ ⟨{ db with profiles }, ⟨u, dto, .upserted⟩, []⟩
  | findsSkills {u dto} :
      Stmt crypto me x db ⟨u, dto, .upserted⟩
        ⟨db, ⟨u, dto, .deletingSkills (db.skills.snapshot me (skillOf u))⟩, []⟩
  | deletesSkill {u dto i todo skills} :
      db.skills.updateRow me (skillOf u) (fun _ => none) i = some skills →
      Stmt crypto me x db ⟨u, dto, .deletingSkills (i :: todo)⟩
        ⟨{ db with skills }, ⟨u, dto, .deletingSkills todo⟩, []⟩
  | deletedSkills {u dto} :
      Stmt crypto me x db ⟨u, dto, .deletingSkills []⟩
        ⟨db, ⟨u, dto, .creatingSkills dto.skills⟩, []⟩
  | createsSkill {u dto categoryId todo skills} :
      db.skills.insertUnless me (fun s => s.masterId = u ∧ s.categoryId = categoryId)
        ⟨u, categoryId⟩ = some skills →
      Stmt crypto me x db ⟨u, dto, .creatingSkills (categoryId :: todo)⟩
        ⟨{ db with skills }, ⟨u, dto, .creatingSkills todo⟩, []⟩
  | findsAreas {u dto} :
      Stmt crypto me x db ⟨u, dto, .creatingSkills []⟩
        ⟨db, ⟨u, dto, .deletingAreas (db.serviceAreas.snapshot me (areaOf u))⟩, []⟩
  | deletesArea {u dto i todo serviceAreas} :
      db.serviceAreas.updateRow me (areaOf u) (fun _ => none) i = some serviceAreas →
      Stmt crypto me x db ⟨u, dto, .deletingAreas (i :: todo)⟩
        ⟨{ db with serviceAreas }, ⟨u, dto, .deletingAreas todo⟩, []⟩
  | deletedAreas {u dto} :
      Stmt crypto me x db ⟨u, dto, .deletingAreas []⟩
        ⟨db, ⟨u, dto, .creatingAreas dto.serviceAreas⟩, []⟩
  | createsArea {u dto a todo} :
      Stmt crypto me x db ⟨u, dto, .creatingAreas (a :: todo)⟩
        ⟨{ db with serviceAreas := db.serviceAreas.insert me (areaRow u a) },
          ⟨u, dto, .creatingAreas todo⟩, []⟩
  | commits {u dto} :
      Stmt crypto me x db ⟨u, dto, .creatingAreas []⟩
        ⟨db.commitEdit me u dto, ⟨u, dto, .committed⟩, []⟩
  | returns {u dto profile} :
      Stmt crypto me x db ⟨u, dto, .committed⟩ ⟨db, ⟨u, dto, .returned profile⟩, []⟩

section Cases

variable {crypto : FieldCrypto} {me : ℕ} {x : Input} {k : Call} {db : Db} {o : Outcome Db Call}

/-- The next statement of a call that does not fail. -/
theorem proceed_cases (h : proceed crypto me x k db = some o) : Stmt crypto me x db k o := by
  obtain ⟨u, dto, pc⟩ := k
  cases pc with
  | start =>
      simp only [proceed] at h
      split at h
      · rw [← Option.some.inj h]
        exact .refused (Or.inl rfl)
      · rw [← Option.some.inj h]
        exact .checks
  | checked =>
      obtain ⟨profiles, hprofiles, rfl⟩ := Option.map_eq_some_iff.mp h
      exact .upserts hprofiles
  | upserted =>
      rw [← Option.some.inj h]
      exact .findsSkills
  | deletingSkills todo =>
      cases todo with
      | nil =>
          rw [← Option.some.inj h]
          exact .deletedSkills
      | cons i todo =>
          obtain ⟨skills, hskills, rfl⟩ := Option.map_eq_some_iff.mp h
          exact .deletesSkill hskills
  | creatingSkills todo =>
      cases todo with
      | nil =>
          rw [← Option.some.inj h]
          exact .findsAreas
      | cons categoryId todo =>
          obtain ⟨skills, hskills, rfl⟩ := Option.map_eq_some_iff.mp h
          exact .createsSkill hskills
  | deletingAreas todo =>
      cases todo with
      | nil =>
          rw [← Option.some.inj h]
          exact .deletedAreas
      | cons i todo =>
          obtain ⟨serviceAreas, hareas, rfl⟩ := Option.map_eq_some_iff.mp h
          exact .deletesArea hareas
  | creatingAreas todo =>
      cases todo with
      | nil =>
          rw [← Option.some.inj h]
          exact .commits
      | cons a todo =>
          rw [← Option.some.inj h]
          exact .createsArea
  | committed =>
      simp only [proceed] at h
      split at h
      · rw [← Option.some.inj h]
        exact .refused (Or.inr rfl)
      · rw [← Option.some.inj h]
        exact .returns
  | returned profile => cases h
  | threw e => cases h

theorem step_cases (h : step crypto me x k db = some o) : Stmt crypto me x db k o := by
  unfold step at h
  split at h
  · cases h
  · split at h
    · rw [← Option.some.inj h]
      exact .fails
    · exact proceed_cases h

end Cases

end Handly.MasterProfiles
