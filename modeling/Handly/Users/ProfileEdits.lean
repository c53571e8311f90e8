import Handly.Users.MasterProfiles

/-!
# Edits of a profile replace one another

The first statement of an edit locks the profile row of the master, and the lock is held until the
commit. So the edits of one master run one after another from that statement on, and each finds
the skills and areas that the one before has committed: it deletes them all and inserts its own.
What is not replaced is a column whose value an edit leaves out. It keeps the value that the last
edit gave that did not leave it out.
-/

namespace Handly.MasterProfiles

open Interleaving ReadCommitted

/-- The committed edits of a master, oldest first. -/
def Db.editsOf (db : Db) (userId : UserId) : List MasterProfileUpdate :=
  (db.edits.filter fun e => e.1 = userId).map Prod.snd

/-- The last value that the edits gave, or else the one before them. -/
def lastGiven {β : Type} (field : MasterProfileUpdate → Option β) (edits : List MasterProfileUpdate)
    (before : Option β) : Option β :=
  (edits.filterMap field).getLast?.or before

/-- The columns whose value may be left out have the last that was given. Of a PINFL the
ciphertext is stored. -/
structure LastGiven (crypto : FieldCrypto) (before : Option Profile)
    (edits : List MasterProfileUpdate) (profile : Option Profile) : Prop where
  avatarUrl : profile.bind Profile.avatarUrl =
    lastGiven MasterProfileUpdate.avatarUrl edits (before.bind Profile.avatarUrl)
  bio : profile.bind Profile.bio = lastGiven MasterProfileUpdate.bio edits (before.bind Profile.bio)
  pinfl : ∃ encrypt : String → String, (∀ p, ∃ iv, encrypt p = crypto.encrypt p iv) ∧
    profile.bind Profile.pinflEncrypted =
      lastGiven (fun e => e.givenPinfl.map encrypt) edits (before.bind Profile.pinflEncrypted)

/-- The other columns, the skills and the service areas are those of the one edit. -/
structure Replaced (db : Db) (userId : UserId) (e : MasterProfileUpdate) : Prop where
  profile : ∃ row, db.profileOf userId = some row ∧ row.fullName = some e.fullName ∧
    row.experienceYears = e.experienceYears ∧ row.isSelfEmployed = e.isSelfEmployed
  nodup : ((db.skills.rows (skillOf userId)).map MasterSkill.categoryId).Nodup
  skills : ∀ c, c ∈ (db.skills.rows (skillOf userId)).map MasterSkill.categoryId ↔ c ∈ e.skills
  serviceAreas : (db.serviceAreas.rows (areaOf userId)).Perm
    (e.serviceAreas.map (areaRow userId))

/-! ### Assertions -/

/-- The transaction has written nothing. -/
structure Db.Idle (db : Db) (me : ℕ) : Prop where
  profiles : db.profiles.Idle me
  skills : db.skills.Idle me
  serviceAreas : db.serviceAreas.Idle me

/-- The row that the upsert writes where `before` was. -/
def upsertedRow (crypto : FieldCrypto) (iv : ℕ) (userId : UserId) (dto : MasterProfileUpdate)
    (before : Option Profile) : Profile :=
  before.elim (created crypto iv userId dto) (updated crypto iv dto)

/-- The transaction has upserted the profile and holds its row, and all that it has written is
about the one master. -/
structure InTransaction (crypto : FieldCrypto) (db : Db) (me : ℕ) (userId : UserId)
    (dto : MasterProfileUpdate) : Prop where
  holds : ∃ i iv, db.profiles.Holds me i
    (some (upsertedRow crypto iv userId dto (db.profileOf userId)))
  profiles : db.profiles.Confined me fun p => p.userId = userId
  skills : db.skills.Confined me fun s => s.masterId = userId
  serviceAreas : db.serviceAreas.Confined me fun a => a.masterId = userId

/-- The transaction sees exactly these skills of the master. -/
structure SeesSkills (db : Db) (me : ℕ) (userId : UserId) (skills : List CategoryId) : Prop where
  nodup : ((db.skills.visible me (skillOf userId)).map MasterSkill.categoryId).Nodup
  mem_iff : ∀ c, c ∈ (db.skills.visible me (skillOf userId)).map MasterSkill.categoryId ↔
    c ∈ skills

/-- How far a call has come. -/
def Call.Asserts (crypto : FieldCrypto) (db : Db) (me : ℕ) (k : Call) : Prop :=
  match k.pc with
  | .upserted => InTransaction crypto db me k.userId k.dto
  | .deletingSkills todo => InTransaction crypto db me k.userId k.dto ∧
      ∀ i ∈ db.skills.snapshot me (skillOf k.userId), i ∈ todo
  | .creatingSkills todo => InTransaction crypto db me k.userId k.dto ∧
      ∃ done, k.dto.skills = done ++ todo ∧ SeesSkills db me k.userId done
  | .deletingAreas todo => InTransaction crypto db me k.userId k.dto ∧
      SeesSkills db me k.userId k.dto.skills ∧
      ∀ i ∈ db.serviceAreas.snapshot me (areaOf k.userId), i ∈ todo
  | .creatingAreas todo => InTransaction crypto db me k.userId k.dto ∧
      SeesSkills db me k.userId k.dto.skills ∧
      ∃ done, k.dto.serviceAreas = done ++ todo ∧
        db.serviceAreas.visible me (areaOf k.userId) = done.map (areaRow k.userId)
  | .start | .checked | .committed | .returned _ | .threw _ => db.Idle me

/-- What every committed state satisfies, where the profiles were `before` at first. -/
structure Settled (crypto : FieldCrypto) (before : UserId → Option Profile) (db : Db) : Prop where
  unique : db.profiles.UniqueKey Profile.userId
  lastGiven : ∀ userId, LastGiven crypto (before userId) (db.editsOf userId) (db.profileOf userId)
  replaced : ∀ userId e, (db.editsOf userId).getLast? = some e → Replaced db userId e

section Step

variable {crypto : FieldCrypto} {before : UserId → Option Profile} {me other : ℕ} {x : Input}
  {k : Call} {db db' : Db} {o : Outcome Db Call} {userId u : UserId} {dto : MasterProfileUpdate}

/-! ### What one statement does to the tables -/

/-- One step of the transaction on each table. -/
structure Db.Evolves (me : ℕ) (db db' : Db) : Prop where
  profiles : db.profiles.Evolves Profile.userId me db'.profiles
  skills : db.skills.Evolves MasterSkill.masterId me db'.skills
  serviceAreas : db.serviceAreas.Evolves ServiceArea.masterId me db'.serviceAreas

theorem Stmt.evolves (h : Stmt crypto me x db k o) : Db.Evolves me db o.store := by
  cases h with
  | fails => exact ⟨.rollback, .rollback, .rollback⟩
  | upserts hprofiles =>
      obtain ⟨-, ⟨-, hinsert⟩ | ⟨i, a, hview, -, hfree, hwrite⟩⟩ := Table.upsert_cases hprofiles
      · exact ⟨hinsert ▸ .insert, .same, .same⟩
      · refine ⟨hwrite ▸ .write hfree hview ?_, .same, .same⟩
        rintro b hb
        obtain rfl := Option.some.inj hb
        rfl
  | deletesSkill hskills => exact ⟨.same, Table.evolves_updateRow hskills (by simp), .same⟩
  | createsSkill hskills =>
      obtain ⟨-, ⟨-, hinsert⟩ | ⟨-, hsame⟩⟩ := Table.insertUnless_cases hskills
      · exact ⟨.same, hinsert ▸ .insert, .same⟩
      · exact ⟨.same, hsame ▸ .same, .same⟩
  | deletesArea hareas => exact ⟨.same, .same, Table.evolves_updateRow hareas (by simp)⟩
  | createsArea => exact ⟨.same, .same, .insert⟩
  | commits => exact ⟨.commit, .commit, .commit⟩
  | refused | checks | findsSkills | deletedSkills | findsAreas | deletedAreas | returns =>
      exact ⟨.same, .same, .same⟩

/-! ### What the others keep -/

/-- The transaction has written nothing of the master. -/
structure Db.Apart (db : Db) (me : ℕ) (userId : UserId) : Prop where
  profiles : ∃ q, db.profiles.Confined me q ∧ ∀ p, q p → ofUser userId p = false
  skills : ∃ q, db.skills.Confined me q ∧ ∀ s, q s → skillOf userId s = false
  serviceAreas : ∃ q, db.serviceAreas.Confined me q ∧ ∀ a, q a → areaOf userId a = false

theorem Db.Idle.apart (h : db.Idle me) : db.Apart me userId where
  profiles := ⟨fun _ => False, h.profiles.confined, fun _ hq => hq.elim⟩
  skills := ⟨fun _ => False, h.skills.confined, fun _ hq => hq.elim⟩
  serviceAreas := ⟨fun _ => False, h.serviceAreas.confined, fun _ hq => hq.elim⟩

theorem InTransaction.apart (h : InTransaction crypto db me userId dto) (hne : userId ≠ u) :
    db.Apart me u where
  profiles := ⟨_, h.profiles, fun p hp => by simp [ofUser, hp, hne]⟩
  skills := ⟨_, h.skills, fun s hs => by simp [skillOf, hs, hne]⟩
  serviceAreas := ⟨_, h.serviceAreas, fun a ha => by simp [areaOf, ha, hne]⟩

theorem Db.Idle.evolves (h : db.Idle other) (hstep : Db.Evolves me db db') (hne : other ≠ me) :
    db'.Idle other where
  profiles := hstep.profiles.idle_other hne h.profiles
  skills := hstep.skills.idle_other hne h.skills
  serviceAreas := hstep.serviceAreas.idle_other hne h.serviceAreas

/-- What is committed of a master stays, if the transaction is about another. -/
theorem Db.Evolves.rows_eq (hstep : Db.Evolves me db db') (hapart : db.Apart me userId) :
    db'.profiles.rows (ofUser userId) = db.profiles.rows (ofUser userId) ∧
      db'.skills.rows (skillOf userId) = db.skills.rows (skillOf userId) ∧
      db'.serviceAreas.rows (areaOf userId) = db.serviceAreas.rows (areaOf userId) := by
  obtain ⟨⟨q, hq, hp⟩, ⟨r, hr, hs⟩, ⟨s, ht, ha⟩⟩ := hapart
  exact ⟨hstep.profiles.rows_eq hq hp, hstep.skills.rows_eq hr hs, hstep.serviceAreas.rows_eq ht ha⟩

theorem Db.Evolves.profileOf_eq (hstep : Db.Evolves me db db') (hapart : db.Apart me userId) :
    db'.profileOf userId = db.profileOf userId := by
  rw [Db.profileOf, Db.profileOf, (hstep.rows_eq hapart).1]

theorem InTransaction.evolves (h : InTransaction crypto db other userId dto)
    (hstep : Db.Evolves me db db') (hapart : db.Apart me userId) (hne : other ≠ me) :
    InTransaction crypto db' other userId dto where
  holds := by
    obtain ⟨i, iv, hheld⟩ := h.holds
    rw [← hstep.profileOf_eq hapart] at hheld
    exact ⟨i, iv, (hstep.profiles.holds_other hne).mpr hheld⟩
  profiles := hstep.profiles.confined_other hne h.profiles
  skills := hstep.skills.confined_other hne h.skills
  serviceAreas := hstep.serviceAreas.confined_other hne h.serviceAreas

theorem SeesSkills.evolves {skills : List CategoryId} (h : SeesSkills db other userId skills)
    (hstep : Db.Evolves me db db') (hapart : db.Apart me userId) (hne : other ≠ me) :
    SeesSkills db' other userId skills := by
  obtain ⟨q, hq, hs⟩ := hapart.skills
  have hsame := hstep.skills.visible_other hne hq hs
  exact ⟨by rw [hsame]; exact h.nodup, fun c => by rw [hsame]; exact h.mem_iff c⟩

/-- A call holds nothing, or is in its transaction. -/
theorem Call.Asserts.idle_or (h : k.Asserts crypto db me) :
    db.Idle me ∨ InTransaction crypto db me k.userId k.dto := by
  obtain ⟨userId, dto, pc⟩ := k
  cases pc with
  | upserted => exact Or.inr h
  | deletingSkills | creatingSkills | deletingAreas | creatingAreas => exact Or.inr h.1
  | start | checked | committed | returned | threw => exact Or.inl h

/-- The statements of others do not interfere, if they are about other masters. -/
theorem Call.Asserts.evolves (h : k.Asserts crypto db other) (hstep : Db.Evolves me db db')
    (hne : other ≠ me)
    (hapart : InTransaction crypto db other k.userId k.dto → db.Apart me k.userId) :
    k.Asserts crypto db' other := by
  obtain ⟨userId, dto, pc⟩ := k
  cases pc with
  | start | checked | committed | returned | threw => exact Db.Idle.evolves h hstep hne
  | upserted => exact InTransaction.evolves h hstep (hapart h) hne
  | deletingSkills todo =>
      obtain ⟨htx, htodo⟩ := h
      have hapart := hapart htx
      obtain ⟨q, hq, hs⟩ := hapart.skills
      exact ⟨htx.evolves hstep hapart hne, fun i hi =>
        htodo i ((hstep.skills.mem_snapshot_other hne hq hs).mp hi)⟩
  | creatingSkills todo =>
      obtain ⟨htx, done, hdone, hskills⟩ := h
      have hapart := hapart htx
      exact ⟨htx.evolves hstep hapart hne, done, hdone, hskills.evolves hstep hapart hne⟩
  | deletingAreas todo =>
      obtain ⟨htx, hskills, htodo⟩ := h
      have hapart := hapart htx
      obtain ⟨q, hq, ha⟩ := hapart.serviceAreas
      exact ⟨htx.evolves hstep hapart hne, hskills.evolves hstep hapart hne, fun i hi =>
        htodo i ((hstep.serviceAreas.mem_snapshot_other hne hq ha).mp hi)⟩
  | creatingAreas todo =>
      obtain ⟨htx, hskills, done, hdone, hareas⟩ := h
      have hapart := hapart htx
      obtain ⟨q, hq, ha⟩ := hapart.serviceAreas
      refine ⟨htx.evolves hstep hapart hne, hskills.evolves hstep hapart hne, done, hdone, ?_⟩
      rw [hstep.serviceAreas.visible_other hne hq ha, hareas]

/-- **The lock of the profile row**: two transactions are never about one master. -/
theorem InTransaction.ne (hunique : db.profiles.UniqueKey Profile.userId)
    {dto' : MasterProfileUpdate} (h : InTransaction crypto db me userId dto)
    (h' : InTransaction crypto db other u dto') (hne : other ≠ me) : userId ≠ u := by
  rintro rfl
  obtain ⟨i, iv, hheld⟩ := h.holds
  obtain ⟨j, iv', hheld'⟩ := h'.holds
  have hi := (h.profiles i _ hheld).1 _ rfl
  have hj := (h'.profiles j _ hheld').1 _ rfl
  obtain rfl := hunique i j _ _ (Or.inr ⟨me, hheld⟩) (Or.inr ⟨other, hheld'⟩) (hi.trans hj.symm)
  exact hne (hheld.unique hheld').1.symm

/-! ### The upsert -/

/-- A profile row is the profile of its user. -/
theorem profileOf_eq_some (hunique : db.profiles.UniqueKey Profile.userId) {i : ℕ} {row : Profile}
    (hrow : db.profiles.committed i = some row) : db.profileOf row.userId = some row := by
  have hmem : row ∈ db.profiles.rows (ofUser row.userId) :=
    Table.mem_rows.mpr ⟨i, hrow, by simp [ofUser]⟩
  have hone : (db.profiles.rows (ofUser row.userId)).length ≤ 1 := by
    refine Table.length_rows_le_one_iff.mpr fun i j a b ha hpa hb hpb => ?_
    have hau : a.userId = row.userId := by simpa [ofUser] using hpa
    have hbu : b.userId = row.userId := by simpa [ofUser] using hpb
    exact hunique i j a b (Or.inl ha) (Or.inl hb) (hau.trans hbu.symm)
  obtain ⟨only, honly⟩ := List.length_eq_one_iff.mp
    (Nat.le_antisymm hone (List.length_pos_of_mem hmem))
  rw [honly, List.mem_singleton] at hmem
  rw [Db.profileOf, honly, hmem]
  rfl

theorem profileOf_eq_none (hidle : db.profiles.Idle me)
    (hnone : db.profiles.snapshot me (ofUser userId) = []) : db.profileOf userId = none := by
  rw [Db.profileOf, List.head?_eq_none_iff, List.eq_nil_iff_forall_not_mem]
  intro row hrow
  obtain ⟨i, hi, hp⟩ := Table.mem_rows.mp hrow
  rw [Table.snapshot_eq_nil_iff.mp hnone i row (by rw [hidle.view, hi])] at hp
  cases hp

/-- **The upsert** opens the transaction of an edit, and keeps the users of the profiles apart. -/
theorem inTransaction_upsert {profiles : Table Profile} (hidle : db.Idle me)
    (hunique : db.profiles.UniqueKey Profile.userId)
    (h : db.profiles.upsert me (ofUser userId) (created crypto x.createIv userId dto)
      (updated crypto x.updateIv dto) = some profiles) :
    profiles.UniqueKey Profile.userId ∧
      InTransaction crypto { db with profiles } me userId dto := by
  have hprofile : Db.profileOf { db with profiles } userId = db.profileOf userId := by
    rw [Db.profileOf, Db.profileOf, Table.rows_upsert h]
  obtain ⟨hcontended, ⟨hnone, rfl⟩ | ⟨i, a, hview, hp, hfree, rfl⟩⟩ := Table.upsert_cases h
  · have hbefore := profileOf_eq_none hidle.profiles hnone
    refine ⟨Table.uniqueKey_insert hunique fun i a ha huser => ?_, ?_, ?_,
      hidle.skills.confined, hidle.serviceAreas.confined⟩
    · have hnot := Table.not_isVersion hcontended hidle.profiles hnone ha
      obtain rfl : a.userId = userId := huser
      simp [ofUser] at hnot
    · refine ⟨db.profiles.size, x.createIv, Table.holds_insert.mpr ?_⟩
      rw [if_pos rfl, hprofile, hbefore]
      exact ⟨rfl, rfl⟩
    · exact Table.confined_insert hidle.profiles.confined rfl
  · have hlt := Table.lt_size_of_view hview
    have hcommitted : db.profiles.committed i = some a := by rw [← hidle.profiles.view, hview]
    have huser : a.userId = userId := by simpa [ofUser] using hp
    have hbefore : db.profileOf userId = some a := huser ▸ profileOf_eq_some hunique hcommitted
    have hstep : db.profiles.Evolves Profile.userId me
        (db.profiles.write me i (some (updated crypto x.updateIv dto a))) :=
      .write hfree hview fun b hb => by
        obtain rfl := Option.some.inj hb
        rfl
    refine ⟨hstep.uniqueKey rfl hunique, ?_, ?_, hidle.skills.confined,
      hidle.serviceAreas.confined⟩
    · refine ⟨i, x.updateIv, (Table.holds_write hlt).mpr ?_⟩
      rw [if_pos rfl, hprofile, hbefore]
      exact ⟨rfl, rfl⟩
    · refine Table.confined_write hidle.profiles.confined hlt (fun b hb => ?_) fun b hb => ?_
      · obtain rfl := Option.some.inj hb
        exact huser
      · obtain rfl := Option.some.inj (hcommitted.symm.trans hb)
        exact huser

/-! ### The other statements -/

/-- Nothing of the master is seen of the skills that were there. -/
theorem seesSkills_nil (h : ∀ i ∈ db.skills.snapshot me (skillOf userId), i ∈ ([] : List ℕ)) :
    SeesSkills db me userId [] := by
  have hnil := Table.visible_eq_nil (List.eq_nil_iff_forall_not_mem.mpr fun i hi =>
    List.not_mem_nil (h i hi))
  exact ⟨by simp [hnil], by simp [hnil]⟩

/-- A skill is inserted, unless it is there already. -/
theorem SeesSkills.create {done : List CategoryId} {categoryId : CategoryId}
    {skills : Table MasterSkill} (h : SeesSkills db me userId done)
    (hskills : db.skills.insertUnless me
      (fun s => s.masterId = userId ∧ s.categoryId = categoryId) ⟨userId, categoryId⟩ =
        some skills) : SeesSkills { db with skills } me userId (done ++ [categoryId]) := by
  have hseen :
      db.skills.snapshot me (fun s => s.masterId = userId ∧ s.categoryId = categoryId) = [] ↔
        categoryId ∉ done := by
    rw [← h.mem_iff, Table.snapshot_eq_nil_iff, List.mem_map]
    constructor
    · rintro hnone ⟨s, hs, rfl⟩
      obtain ⟨i, hi, hp⟩ := Table.mem_visible.mp hs
      have huser : s.masterId = userId := by simpa [skillOf] using hp
      simpa [huser] using hnone i s hi
    · intro hnot i s hs
      by_contra hp
      obtain ⟨huser, hcategory⟩ : s.masterId = userId ∧ s.categoryId = categoryId := by
        simpa using hp
      exact hnot ⟨s, Table.mem_visible.mpr ⟨i, hs, by simp [skillOf, huser]⟩, hcategory⟩
  obtain ⟨-, ⟨hnone, rfl⟩ | ⟨hsome, rfl⟩⟩ := Table.insertUnless_cases hskills
  · have hvisible : (db.skills.insert me ⟨userId, categoryId⟩).visible me (skillOf userId) =
        db.skills.visible me (skillOf userId) ++ [⟨userId, categoryId⟩] := by
      rw [Table.visible_insert]
      simp [skillOf]
    refine ⟨?_, fun c => ?_⟩
    · show (((db.skills.insert me ⟨userId, categoryId⟩).visible me (skillOf userId)).map
        MasterSkill.categoryId).Nodup
      rw [hvisible, List.map_append]
      refine h.nodup.append (List.nodup_singleton _) fun c hc hc' => ?_
      obtain rfl : c = categoryId := by simpa using hc'
      exact hseen.mp hnone ((h.mem_iff c).mp hc)
    · show c ∈ ((db.skills.insert me ⟨userId, categoryId⟩).visible me (skillOf userId)).map
        MasterSkill.categoryId ↔ _
      rw [hvisible, List.map_append, List.mem_append, h.mem_iff, List.mem_append]
      rfl
  · have hmem : categoryId ∈ done := by
      by_contra hnot
      exact hsome (hseen.mpr hnot)
    refine ⟨h.nodup, fun c => (h.mem_iff c).trans ?_⟩
    rw [List.mem_append, List.mem_singleton]
    constructor
    · exact Or.inl
    · rintro (hc | rfl)
      · exact hc
      · exact hmem

/-- **What a statement does for its own call.** -/
theorem Stmt.asserts (h : Stmt crypto me x db k o)
    (hunique : db.profiles.UniqueKey Profile.userId) (hk : k.Asserts crypto db me) :
    o.call.Asserts crypto o.store me := by
  cases h with
  | fails => exact ⟨Table.idle_rollback, Table.idle_rollback, Table.idle_rollback⟩
  | refused hpc => rcases hpc with rfl | rfl <;> exact hk
  | checks | returns => exact hk
  | upserts hprofiles => exact (inTransaction_upsert hk hunique hprofiles).2
  | findsSkills => exact ⟨hk, fun i hi => hi⟩
  | deletesSkill hskills =>
      obtain ⟨htx, htodo⟩ := hk
      refine ⟨⟨htx.holds, htx.profiles, ?_, htx.serviceAreas⟩, fun j hj => ?_⟩
      · exact Table.confined_updateRow htx.skills hskills (by simp [skillOf]) (by simp)
      · obtain ⟨hold, hne⟩ := Table.mem_snapshot_deleteRow hskills hj
        exact (List.mem_cons.mp (htodo j hold)).resolve_left hne
  | deletedSkills => exact ⟨hk.1, [], rfl, seesSkills_nil hk.2⟩
  | @createsSkill u dto categoryId todo skills hskills =>
      obtain ⟨htx, done, hdone, hsees⟩ := hk
      have hconfined : skills.Confined me fun s => s.masterId = u := by
        obtain ⟨-, ⟨-, rfl⟩ | ⟨-, rfl⟩⟩ := Table.insertUnless_cases hskills
        · exact Table.confined_insert htx.skills rfl
        · exact htx.skills
      exact ⟨⟨htx.holds, htx.profiles, hconfined, htx.serviceAreas⟩, done ++ [categoryId],
        by rw [hdone, List.append_assoc]; rfl, hsees.create hskills⟩
  | @findsAreas u dto =>
      obtain ⟨htx, done, hdone, hsees⟩ := hk
      rw [List.append_nil] at hdone
      obtain rfl := hdone
      exact ⟨htx, hsees, fun i hi => hi⟩
  | deletesArea hareas =>
      obtain ⟨htx, hsees, htodo⟩ := hk
      refine ⟨⟨htx.holds, htx.profiles, htx.skills, ?_⟩, ⟨hsees.nodup, hsees.mem_iff⟩,
        fun j hj => ?_⟩
      · exact Table.confined_updateRow htx.serviceAreas hareas (by simp [areaOf]) (by simp)
      · obtain ⟨hold, hne⟩ := Table.mem_snapshot_deleteRow hareas hj
        exact (List.mem_cons.mp (htodo j hold)).resolve_left hne
  | deletedAreas =>
      obtain ⟨htx, hsees, htodo⟩ := hk
      exact ⟨htx, hsees, [], rfl, Table.visible_eq_nil (List.eq_nil_iff_forall_not_mem.mpr
        fun i hi => List.not_mem_nil (htodo i hi))⟩
  | @createsArea u dto a todo =>
      obtain ⟨htx, hsees, done, hdone, hareas⟩ := hk
      refine ⟨⟨htx.holds, htx.profiles, htx.skills, Table.confined_insert htx.serviceAreas rfl⟩,
        ⟨hsees.nodup, hsees.mem_iff⟩, done ++ [a], by rw [hdone, List.append_assoc]; rfl, ?_⟩
      show (db.serviceAreas.insert me (areaRow u a)).visible me (areaOf u) = _
      rw [Table.visible_insert, hareas]
      simp [areaOf, areaRow]
  | commits => exact ⟨Table.idle_commit, Table.idle_commit, Table.idle_commit⟩

/-! ### The commit -/

@[simp] theorem lastGiven_append {β : Type} (field : MasterProfileUpdate → Option β)
    (edits : List MasterProfileUpdate) (e : MasterProfileUpdate) (first : Option β) :
    lastGiven field (edits ++ [e]) first = (field e).or (lastGiven field edits first) := by
  cases hfield : field e <;> simp [lastGiven, hfield]

/-- One more edit gives what it gives, and leaves the rest. -/
theorem LastGiven.edit {first profile : Option Profile} {edits : List MasterProfileUpdate}
    (h : LastGiven crypto first edits profile) (iv : ℕ) (userId : UserId)
    (e : MasterProfileUpdate) :
    LastGiven crypto first (edits ++ [e]) (some (upsertedRow crypto iv userId e profile)) := by
  obtain ⟨encrypt, hencrypt, hpinfl⟩ := h.pinfl
  refine ⟨?_, ?_, ?_⟩
  · rw [lastGiven_append, ← h.avatarUrl]
    cases profile with
    | none => exact (Option.or_none).symm
    | some row => rfl
  · rw [lastGiven_append, ← h.bio]
    cases profile with
    | none => exact (Option.or_none).symm
    | some row => rfl
  · cases hgiven : e.givenPinfl with
    | none =>
        refine ⟨encrypt, hencrypt, ?_⟩
        rw [lastGiven_append, ← hpinfl]
        cases profile <;> simp [upsertedRow, created, updated, hgiven]
    | some p =>
        refine ⟨fun p => crypto.encrypt p iv, fun p => ⟨iv, rfl⟩, ?_⟩
        rw [lastGiven_append]
        cases profile <;> simp [upsertedRow, created, updated, hgiven]

theorem editsOf_commitEdit :
    (db.commitEdit me userId dto).editsOf u =
      db.editsOf u ++ if userId = u then [dto] else [] := by
  by_cases hu : userId = u <;> simp [Db.editsOf, Db.commitEdit, hu]

/-- **The commit of an edit** makes it the last, and replaces what it is to replace. -/
theorem Settled.commit (h : Settled crypto before db)
    (htx : InTransaction crypto db me userId dto) (hsees : SeesSkills db me userId dto.skills)
    (hareas : db.serviceAreas.visible me (areaOf userId) =
      dto.serviceAreas.map (areaRow userId)) :
    Settled crypto before (db.commitEdit me userId dto) := by
  have hstep : Db.Evolves me db (db.commitEdit me userId dto) := ⟨.commit, .commit, .commit⟩
  have hunique := hstep.profiles.uniqueKey rfl h.unique
  obtain ⟨i, iv, hheld⟩ := htx.holds
  obtain ⟨row, hrow⟩ : ∃ row, upsertedRow crypto iv userId dto (db.profileOf userId) = row :=
    ⟨_, rfl⟩
  have huser : row.userId = userId := hrow ▸ (htx.profiles i _ hheld).1 _ rfl
  have hcommitted : (db.commitEdit me userId dto).profiles.committed i = some row :=
    hrow ▸ Table.view_of_holds hheld
  have hprofile : (db.commitEdit me userId dto).profileOf userId = some row :=
    huser ▸ profileOf_eq_some hunique hcommitted
  have hother : ∀ v, userId ≠ v → (db.commitEdit me userId dto).editsOf v = db.editsOf v ∧
      (db.commitEdit me userId dto).profileOf v = db.profileOf v := fun v hv =>
    ⟨by rw [editsOf_commitEdit, if_neg hv, List.append_nil], hstep.profileOf_eq (htx.apart hv)⟩
  have hself : (db.commitEdit me userId dto).editsOf userId = db.editsOf userId ++ [dto] := by
    rw [editsOf_commitEdit, if_pos rfl]
  refine ⟨hunique, fun v => ?_, fun v e he => ?_⟩
  · by_cases hv : userId = v
    · subst hv
      rw [hself, hprofile, ← hrow]
      exact (h.lastGiven userId).edit iv userId dto
    · rw [(hother v hv).1, (hother v hv).2]
      exact h.lastGiven v
  · by_cases hv : userId = v
    · subst hv
      rw [hself, List.getLast?_concat] at he
      obtain rfl := Option.some.inj he
      refine ⟨⟨row, hprofile, ?_⟩, hsees.nodup, hsees.mem_iff, List.Perm.of_eq hareas⟩
      rw [← hrow]
      cases db.profileOf userId <;> exact ⟨rfl, rfl, rfl⟩
    · rw [(hother v hv).1] at he
      obtain ⟨-, hskills, hareas'⟩ := hstep.rows_eq (htx.apart hv)
      obtain ⟨hrow', hnodup, hmem, hperm⟩ := h.replaced v e he
      exact ⟨by rwa [(hother v hv).2], by rwa [hskills], by rwa [hskills], by rwa [hareas']⟩

/-- A statement that commits no edit changes nothing that is committed. -/
theorem Settled.congr (h : Settled crypto before db)
    (hunique : db'.profiles.UniqueKey Profile.userId) (hedits : db'.edits = db.edits)
    (hprofiles : ∀ p, db'.profiles.rows p = db.profiles.rows p)
    (hskills : ∀ p, db'.skills.rows p = db.skills.rows p)
    (hareas : ∀ p, db'.serviceAreas.rows p = db.serviceAreas.rows p) :
    Settled crypto before db' := by
  have heditsOf : ∀ u, db'.editsOf u = db.editsOf u := fun u => by
    rw [Db.editsOf, Db.editsOf, hedits]
  have hprofileOf : ∀ u, db'.profileOf u = db.profileOf u := fun u => by
    rw [Db.profileOf, Db.profileOf, hprofiles]
  refine ⟨hunique, fun u => ?_, fun u e he => ?_⟩
  · rw [heditsOf, hprofileOf]
    exact h.lastGiven u
  · rw [heditsOf] at he
    obtain ⟨hrow, hnodup, hmem, hperm⟩ := h.replaced u e he
    exact ⟨by rwa [hprofileOf], by rwa [hskills], by rwa [hskills], by rwa [hareas]⟩

/-- **What a statement does to the committed state.** -/
theorem Stmt.settled (h : Stmt crypto me x db k o) (hk : k.Asserts crypto db me)
    (hdb : Settled crypto before db) : Settled crypto before o.store := by
  cases h with
  | fails =>
      refine hdb.congr ?_ rfl (fun _ => rfl) (fun _ => rfl) fun _ => rfl
      exact Table.Evolves.rollback.uniqueKey rfl hdb.unique
  | upserts hprofiles =>
      exact hdb.congr (inTransaction_upsert hk hdb.unique hprofiles).1 rfl
        (fun _ => Table.rows_upsert hprofiles) (fun _ => rfl) fun _ => rfl
  | deletesSkill hskills =>
      exact hdb.congr hdb.unique rfl (fun _ => rfl) (fun _ => Table.rows_updateRow hskills)
        fun _ => rfl
  | createsSkill hskills =>
      refine hdb.congr hdb.unique rfl (fun _ => rfl) (fun p => ?_) fun _ => rfl
      obtain ⟨-, ⟨-, rfl⟩ | ⟨-, rfl⟩⟩ := Table.insertUnless_cases hskills
      · exact Table.rows_insert
      · rfl
  | deletesArea hareas =>
      exact hdb.congr hdb.unique rfl (fun _ => rfl) (fun _ => rfl)
        fun _ => Table.rows_updateRow hareas
  | createsArea =>
      exact hdb.congr hdb.unique rfl (fun _ => rfl) (fun _ => rfl) fun _ => Table.rows_insert
  | commits =>
      obtain ⟨htx, hsees, done, hdone, hareas⟩ := hk
      rw [List.append_nil] at hdone
      obtain rfl := hdone
      exact hdb.commit htx hsees hareas
  | refused | checks | findsSkills | deletedSkills | findsAreas | deletedAreas | returns =>
      exact hdb

end Step

/-! ### Whole runs -/

/-- The committed states are settled, and every call has come as far as it says. -/
def editing (crypto : FieldCrypto) (before : UserId → Option Profile) :
    Roster (profileEdits crypto) fun _ _ _ _ => True where
  G db := Settled crypto before db
  L db i call := match call with
    | none => db.Idle i
    | some k => k.Asserts crypto db i
  start db i k hentry _ hidle := by
    obtain ⟨u, dto, pc⟩ := k
    cases pc with
    | start => exact hidle
    | _ => simp [profileEdits, Call.isStart] at hentry
  own i x k db o _ hstep hdb hk := by
    have h := step_cases hstep
    refine ⟨h.settled hk hdb, h.asserts hdb.unique hk, ?_⟩
    cases h <;> rfl
  others i x k db o j call _ hstep hne hdb hk hL := by
    have h := step_cases hstep
    cases call with
    | none => exact Db.Idle.evolves hL h.evolves (Ne.symm hne)
    | some k' =>
        refine Call.Asserts.evolves hL h.evolves (Ne.symm hne) fun htx' => ?_
        rcases hk.idle_or with hidle | htx
        · exact hidle.apart
        · exact htx.apart (htx.ne hdb.unique htx' (Ne.symm hne))

/-- **Edits replace one another.** In every committed state the profile of a master, the skills
and the service areas are those of the last committed edit, and a column that it leaves out has
the last value that was given. -/
theorem edits_replace {crypto : FieldCrypto} {db : Db} {c' : Config Db Call}
    {ts : List (Transition Db Call Input)} (hrun : (profileEdits crypto).Run ⟨db, []⟩ ts c')
    (hidle : ∀ tx, db.Idle tx) (hunique : ∀ userId, (db.profiles.rows (ofUser userId)).length ≤ 1)
    (hlog : db.edits = []) (userId : UserId) (e : MasterProfileUpdate)
    (hlast : (c'.store.editsOf userId).getLast? = some e) :
    Replaced c'.store userId e ∧
      LastGiven crypto (db.profileOf userId) (c'.store.editsOf userId)
        (c'.store.profileOf userId) := by
  have hcommitted : ∀ i row, db.profiles.IsVersion i row → db.profiles.committed i = some row := by
    rintro i row (hrow | ⟨tx, hheld⟩)
    · exact hrow
    · exact absurd hheld ((hidle tx).profiles i _)
  have hkey : db.profiles.UniqueKey Profile.userId := fun i j a b ha hb huser =>
    Table.length_rows_le_one_iff.mp (hunique a.userId) i j a b (hcommitted i a ha)
      (by simp [ofUser]) (hcommitted j b hb) (by simp [ofUser, huser])
  have hfirst : Settled crypto db.profileOf db := by
    refine ⟨hkey, fun u => ?_, fun u e he => ?_⟩
    · rw [Db.editsOf, hlog]
      exact ⟨rfl, rfl, fun p => crypto.encrypt p 0, fun p => ⟨0, rfl⟩, rfl⟩
    · rw [Db.editsOf, hlog] at he
      cases he
  have hend := ((editing crypto db.profileOf).holds_run hrun (fun _ _ _ _ _ _ _ => trivial)
    ⟨hfirst, fun i => hidle i⟩).1.1
  exact ⟨hend.replaced userId e hlast, hend.lastGiven userId⟩

/-- Two active categories, and nobody has a profile. -/
def noProfiles : Db where
  categories := List.replicate 2 { basePriceMin := 100000, basePriceMax := 200000, active := true }
  profiles := Table.ofList []
  skills := Table.ofList []
  serviceAreas := Table.ofList []

theorem idle_noProfiles (tx : ℕ) : noProfiles.Idle tx where
  profiles _ _ hheld := by cases hheld
  skills _ _ hheld := by cases hheld
  serviceAreas _ _ hheld := by cases hheld

/-- An edit with a bio. -/
def withBio : MasterProfileUpdate :=
  { fullName := "Usta", experienceYears := 3, bio := some "Santexnik", skills := [0]
    serviceAreas := [⟨"Chilonzor", 41, 69, 5000⟩] }

/-- An edit without one, with a skill given twice and a centre of seven decimals. -/
def withoutBio : MasterProfileUpdate :=
  { fullName := "Usta", experienceYears := 4, skills := [1, 1]
    serviceAreas := [⟨"Yunusobod", 413111111 / 10000000, 69, 7000⟩] }

/-- Both edits are sent at once. The one with the bio locks the profile first. -/
def editedTwice : List (Event Call Input) :=
  [.start ⟨0, withBio, .start⟩, .start ⟨0, withoutBio, .start⟩, .run 1 {}] ++
    List.replicate 10 (.run 0 {}) ++ List.replicate 12 (.run 1 {})

/-- Any cipher: no PINFL is given. -/
def noCipher : FieldCrypto := ⟨fun plain _ => plain⟩

theorem replaced_editedTwice :
    Replaced ((profileEdits noCipher).after ⟨noProfiles, []⟩ editedTwice).store 0 withoutBio :=
  (edits_replace ((profileEdits noCipher).run_trace ⟨noProfiles, []⟩ editedTwice) idle_noProfiles
    (fun _ => Nat.zero_le 1) rfl 0 withoutBio (by decide +kernel)).1

/-- The bio of the first edit is still there after the second, and the centre is rounded. -/
theorem not_ofOneEdit_editedTwice :
    (¬ ∀ (crypto : FieldCrypto) (db : Db) (c' : Config Db Call)
      (ts : List (Transition Db Call Input)) (userId : UserId) (e : MasterProfileUpdate),
      (profileEdits crypto).Run ⟨db, []⟩ ts c' → (∀ tx, db.Idle tx) →
      (∀ userId, (db.profiles.rows (ofUser userId)).length ≤ 1) → db.edits = [] →
      (c'.store.editsOf userId).getLast? = some e →
        (c'.store.profileOf userId).map Profile.bio = some e.bio) ∧
    ¬ ∀ (crypto : FieldCrypto) (db : Db) (c' : Config Db Call)
      (ts : List (Transition Db Call Input)) (userId : UserId) (e : MasterProfileUpdate),
      (profileEdits crypto).Run ⟨db, []⟩ ts c' → (∀ tx, db.Idle tx) →
      (∀ userId, (db.profiles.rows (ofUser userId)).length ≤ 1) → db.edits = [] →
      (c'.store.editsOf userId).getLast? = some e →
        ((c'.store.serviceAreas.rows (areaOf userId)).map ServiceArea.centerLat).Perm
          (e.serviceAreas.map ServiceAreaInput.centerLat) := by
  have hrun := (profileEdits noCipher).run_trace ⟨noProfiles, []⟩ editedTwice
  constructor
  · intro h
    have hbio := h noCipher noProfiles _ _ 0 withoutBio hrun idle_noProfiles
      (fun _ => Nat.zero_le 1) rfl (by decide +kernel)
    exact absurd hbio (by decide +kernel)
  · intro h
    have hareas := h noCipher noProfiles _ _ 0 withoutBio hrun idle_noProfiles
      (fun _ => Nat.zero_le 1) rfl (by decide +kernel)
    exact absurd hareas (by decide +kernel)

end Handly.MasterProfiles
