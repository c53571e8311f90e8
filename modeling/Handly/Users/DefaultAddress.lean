import Handly.Users.Addresses

/-!
# The default address

A transaction that makes an address the default clears the others first. It clears the addresses
that it sees then, and holds them until it commits. What it does not see is an address that
another transaction is inserting: both clear what there is, and both insert a default. So at most
one address of a user is the default exactly as long as no transaction that sets a default
commits beside a default that its clearing statement has not seen.
-/

namespace Handly.Addresses

open Interleaving ReadCommitted

/-- At most one address of each user is committed as the default. -/
def OneDefault (db : Table Address) : Prop :=
  ∀ userId, (db.rows fun a => ofUser userId a && a.isDefault).length ≤ 1

/-- Where the statement commits a default, every other default of the user was seen by the
clearing statement of its transaction. -/
def SeesDefaults (_me : ℕ) (x : Input) (k : Call) (db : Table Address) : Prop :=
  match k.pc with
  | .written seen target => x.fail = true ∨ k.op.setsDefault = false ∨
      ∀ i a, db.committed i = some a → a.userId = k.op.userId → a.isDefault = true →
        i ∈ seen ∨ i = target
  | _ => True

instance (me : ℕ) (x : Input) (k : Call) (db : Table Address) :
    Decidable (SeesDefaults me x k db) := by
  unfold SeesDefaults
  split
  · rename_i seen target hpc
    refine decidable_of_iff (x.fail = true ∨ k.op.setsDefault = false ∨
      ∀ i < db.size, ∀ a ∈ db.committed i, a.userId = k.op.userId → a.isDefault = true →
        i ∈ seen ∨ i = target) (or_congr_right (or_congr_right ?_))
    exact ⟨fun h i a ha => h i (Table.lt_size_of_committed ha) a ha, fun h i _ a ha => h i a ha⟩
  · exact instDecidableTrue

/-- What a transaction has done that has taken the addresses `seen`, has yet to clear `todo`, and
has written the address `target`. -/
structure Progress (db : Table Address) (me : ℕ) (op : Op) (seen todo : List AddressId)
    (target : Option AddressId) : Prop where
  about : ∀ i ∈ seen, db.About Address.userId i op.userId
  taken : ∀ i ∈ todo, i ∈ seen
  confined : db.Confined me fun a => a.userId = op.userId
  covered : ∀ i ∈ seen, i ∈ todo ∨ (∃ version, db.Holds me i version) ∨ db.Gone i
  cleared : ∀ i version, db.Holds me i version → target ≠ some i →
    i ∈ seen ∧ ∀ a ∈ version, a.isDefault = false
  written : ∀ i ∈ target, ∃ version, db.Holds me i version ∧
    (∀ a ∈ version, a.isDefault = op.setsDefault) ∧ (op.setsDefault = true → version.isSome)

/-- What a call has done. -/
def Call.Asserts (db : Table Address) (me : ℕ) (k : Call) : Prop :=
  match k.pc with
  | .clearing seen todo => Progress db me k.op seen todo none
  | .cleared seen => Progress db me k.op seen [] none
  | .written seen target => Progress db me k.op seen [] (some target)
  | _ => db.Idle me

/-- The address that the call was given by its id, once it was checked, is the user's own. -/
def Call.OwnsTarget (db : Table Address) (k : Call) : Prop :=
  match k.op with
  | .createAddress _ _ => True
  | .setDefaultAddress userId id | .deleteAddress userId id =>
      k.isStart = true ∨ k.isFinished = true ∨ db.About Address.userId id userId

section Step

variable {me other : ℕ} {x : Input} {k : Call} {db db' : Table Address}
  {o : Outcome (Table Address) Call} {op : Op} {seen todo : List AddressId}
  {target : Option AddressId}

/-- A statement goes one step on the table, and lets no address change its user. -/
theorem Stmt.evolves (h : Stmt me x db k o) : db.Evolves Address.userId me o.store := by
  cases h with
  | fails | missing => exact .rollback
  | refused | found | clears | skips | cleared => exact .same
  | deletes hfree hview => exact .write hfree hview (by simp)
  | clearsOne hrow => exact Table.evolves_updateRow hrow (by simp)
  | inserts => exact .insert
  | sets hfree hview => exact .write hfree hview (by simp)
  | commits => exact .commit

/-- The statements of others do not interfere. -/
theorem Progress.evolves (h : Progress db other op seen todo target)
    (hstep : db.Evolves Address.userId me db') (hne : other ≠ me) :
    Progress db' other op seen todo target where
  about i hi := hstep.about (h.about i hi)
  taken := h.taken
  confined := hstep.confined_other hne h.confined
  covered i hi := by
    rcases h.covered i hi with htodo | ⟨version, hheld⟩ | hgone
    · exact Or.inl htodo
    · exact Or.inr (Or.inl ⟨version, (hstep.holds_other hne).mpr hheld⟩)
    · exact Or.inr (Or.inr (hstep.gone hgone))
  cleared i version hheld := h.cleared i version ((hstep.holds_other hne).mp hheld)
  written i hi := by
    obtain ⟨version, hheld, hdefault⟩ := h.written i hi
    exact ⟨version, (hstep.holds_other hne).mpr hheld, hdefault⟩

/-- The clearing statement has taken the addresses, and has cleared none. -/
theorem progress_snapshot (hidle : db.Idle me) (hkeyed : db.Keyed Address.userId) :
    Progress db me op (db.snapshot me (ofUser op.userId)) (db.snapshot me (ofUser op.userId))
      none where
  about i hi := by
    obtain ⟨a, ha, huser⟩ := Table.mem_snapshot.mp hi
    rw [hidle.view] at ha
    have hown : a.userId = op.userId := by simpa [ofUser] using huser
    exact hown ▸ hkeyed.about ha
  taken _ hi := hi
  confined i version hheld := absurd hheld (hidle i version)
  covered i hi := Or.inl hi
  cleared i version hheld := absurd hheld (hidle i version)
  written i hi := by cases hi

/-- There was nothing to clear. -/
theorem progress_nothing (hidle : db.Idle me) : Progress db me op [] [] none where
  about i hi := by cases hi
  taken i hi := hi
  confined i version hheld := absurd hheld (hidle i version)
  covered i hi := by cases hi
  cleared i version hheld := absurd hheld (hidle i version)
  written i hi := by cases hi

/-- The clearing statement writes one address, or finds it gone. -/
theorem Progress.clearOne {id : AddressId} (h : Progress db me op seen (id :: todo) none)
    (hrow : db.updateRow me (ofUser op.userId) (fun a => some { a with isDefault := false }) id =
      some db') : Progress db' me op seen todo none := by
  have hstep : db.Evolves Address.userId me db' := Table.evolves_updateRow hrow (by simp)
  have hid : id ∈ seen := h.taken id List.mem_cons_self
  have htaken : ∀ i ∈ todo, i ∈ seen := fun i hi => h.taken i (List.mem_cons_of_mem id hi)
  obtain ⟨hfree, ⟨a, hview, huser, rfl⟩ | ⟨hnone, hsame⟩⟩ := Table.updateRow_cases hrow
  · have hlt := Table.lt_size_of_view hview
    refine ⟨fun i hi => hstep.about (h.about i hi), htaken, ?_, fun i hi => ?_,
      fun i version hheld _ => ?_, by simp⟩
    · refine Table.confined_write h.confined hlt ?_ fun b hb => ?_
      · simpa [ofUser] using huser
      · exact (h.about id hid).2 b (Or.inl hb)
    · by_cases hii : i = id
      · exact Or.inr (Or.inl ⟨_, (Table.holds_write hlt).mpr
          (by rw [if_pos hii]; exact ⟨rfl, rfl⟩)⟩)
      · rcases h.covered i hi with htodo | ⟨version, hheld⟩ | hgone
        · exact Or.inl ((List.mem_cons.mp htodo).resolve_left hii)
        · refine Or.inr (Or.inl ⟨version, (Table.holds_write hlt).mpr ?_⟩)
          rwa [if_neg hii]
        · exact Or.inr (Or.inr (hstep.gone hgone))
    · rw [Table.holds_write hlt] at hheld
      split at hheld
      · rename_i hii
        obtain ⟨-, rfl⟩ := hheld
        exact ⟨hii ▸ hid, by simp⟩
      · exact h.cleared i version hheld (by simp)
  · -- The address was the user's when it was taken, so it is gone.
    have hview : db.view me id = none := by
      cases hview : db.view me id with
      | none => rfl
      | some a =>
          have huser := (h.about id hid).2 a (Table.isVersion_of_view hview)
          simpa [ofUser, huser] using hnone a hview
    rw [hsame]
    refine ⟨h.about, htaken, h.confined, fun i hi => ?_, h.cleared, h.written⟩
    rcases h.covered i hi with htodo | hrest
    · rcases List.mem_cons.mp htodo with rfl | htodo
      · refine Or.inr ?_
        rcases Table.holds_or_not db me i with hheld | hnot
        · exact Or.inl hheld
        · exact Or.inr (Table.gone_of_free (h.about i hi).1 hfree hnot hview)
      · exact Or.inl htodo
    · exact Or.inr hrest

/-- The transaction writes the address that it is about. -/
theorem Progress.writeTarget {id : AddressId} {a : Address} {version : Option Address}
    (h : Progress db me op seen [] none) (hview : db.view me id = some a)
    (habout : db.About Address.userId id op.userId) (hfree : db.Free me id)
    (huser : ∀ b ∈ version, b.userId = a.userId)
    (hdefault : ∀ b ∈ version, b.isDefault = op.setsDefault)
    (hsome : op.setsDefault = true → version.isSome) :
    Progress (db.write me id version) me op seen [] (some id) := by
  have hlt := Table.lt_size_of_view hview
  have hstep : db.Evolves Address.userId me (db.write me id version) := .write hfree hview huser
  have ha : a.userId = op.userId := habout.2 a (Table.isVersion_of_view hview)
  refine ⟨fun i hi => hstep.about (h.about i hi), h.taken, ?_, fun i hi => ?_,
    fun i version' hheld hne => ?_, fun i hi => ?_⟩
  · refine Table.confined_write h.confined hlt (fun b hb => (huser b hb).trans ha) fun b hb => ?_
    exact habout.2 b (Or.inl hb)
  · by_cases hii : i = id
    · exact Or.inr (Or.inl ⟨_, (Table.holds_write hlt).mpr (by rw [if_pos hii]; exact ⟨rfl, rfl⟩)⟩)
    · rcases h.covered i hi with htodo | ⟨version', hheld⟩ | hgone
      · cases htodo
      · refine Or.inr (Or.inl ⟨version', (Table.holds_write hlt).mpr ?_⟩)
        rwa [if_neg hii]
      · exact Or.inr (Or.inr (hstep.gone hgone))
  · have hii : i ≠ id := fun hii => hne (by rw [hii])
    rw [Table.holds_write hlt, if_neg hii] at hheld
    exact h.cleared i version' hheld (by simp)
  · obtain rfl := Option.some.inj hi
    exact ⟨version, (Table.holds_write hlt).mpr (by rw [if_pos rfl]; exact ⟨rfl, rfl⟩), hdefault,
      hsome⟩

/-- The transaction inserts the address. -/
theorem Progress.insertTarget {a : Address} (h : Progress db me op seen [] none)
    (huser : a.userId = op.userId) (hdefault : a.isDefault = op.setsDefault) :
    Progress (db.insert me a) me op seen [] (some db.size) := by
  have hstep : db.Evolves Address.userId me (db.insert me a) := .insert
  refine ⟨fun i hi => hstep.about (h.about i hi), h.taken,
    Table.confined_insert h.confined huser, fun i hi => ?_, fun i version hheld hne => ?_,
    fun i hi => ?_⟩
  · rcases h.covered i hi with htodo | ⟨version, hheld⟩ | hgone
    · cases htodo
    · refine Or.inr (Or.inl ⟨version, Table.holds_insert.mpr ?_⟩)
      rwa [if_neg hheld.lt_size.ne]
    · exact Or.inr (Or.inr (hstep.gone hgone))
  · have hi : i ≠ db.size := fun hi => hne (by rw [hi])
    rw [Table.holds_insert, if_neg hi] at hheld
    exact h.cleared i version hheld (by simp)
  · obtain rfl := Option.some.inj hi
    exact ⟨some a, Table.holds_insert.mpr (by rw [if_pos rfl]; exact ⟨rfl, rfl⟩),
      by simpa using hdefault, fun _ => rfl⟩

/-- The call keeps to an address that is the user's own. -/
theorem Call.OwnsTarget.evolves (h : k.OwnsTarget db) (hstep : db.Evolves Address.userId me db') :
    k.OwnsTarget db' := by
  obtain ⟨op, pc⟩ := k
  cases op with
  | createAddress userId dto => trivial
  | setDefaultAddress userId id | deleteAddress userId id =>
      rcases h with hstart | hfinished | habout
      · exact Or.inl hstart
      · exact Or.inr (Or.inl hfinished)
      · exact Or.inr (Or.inr (hstep.about habout))

/-- The address is the user's own as long as the call works on it. -/
theorem Call.OwnsTarget.about {pc : Pc} {id : AddressId} (h : Call.OwnsTarget db ⟨op, pc⟩)
    (hop : op = .setDefaultAddress op.userId id ∨ op = .deleteAddress op.userId id)
    (hstart : Call.isStart ⟨op, pc⟩ = false) (hfinished : Call.isFinished ⟨op, pc⟩ = false) :
    db.About Address.userId id op.userId := by
  rcases hop with hop | hop
  all_goals
    rw [hop] at h
    rcases h with h | h | habout
    · exact absurd (hstart.symm.trans h) (by simp)
    · exact absurd (hfinished.symm.trans h) (by simp)
    · exact habout

theorem Call.OwnsTarget.goto {pc pc' : Pc} (h : Call.OwnsTarget db ⟨op, pc⟩)
    (hstart : Call.isStart ⟨op, pc⟩ = false) (hfinished : Call.isFinished ⟨op, pc⟩ = false) :
    Call.OwnsTarget db ⟨op, pc'⟩ := by
  cases op with
  | createAddress userId dto => trivial
  | setDefaultAddress userId id => exact Or.inr (Or.inr (h.about (Or.inl rfl) hstart hfinished))
  | deleteAddress userId id => exact Or.inr (Or.inr (h.about (Or.inr rfl) hstart hfinished))

/-- Of a call that has finished nothing is asked. -/
theorem Call.ownsTarget_of_finished (h : k.isFinished = true) : k.OwnsTarget db := by
  obtain ⟨op, pc⟩ := k
  cases op with
  | createAddress userId dto => trivial
  | setDefaultAddress userId id | deleteAddress userId id => exact Or.inr (Or.inl h)

/-- **What a statement does for its own call.** -/
theorem Stmt.asserts (h : Stmt me x db k o) (hfinished : ¬ k.isFinished = true)
    (hkeyed : db.Keyed Address.userId) (hk : k.Asserts db me) (howns : k.OwnsTarget db) :
    o.call.Asserts o.store me ∧ o.call.OwnsTarget o.store := by
  have howns' := howns.evolves h.evolves
  cases h with
  | fails => exact ⟨Table.idle_rollback, Call.ownsTarget_of_finished rfl⟩
  | refused hpc =>
      refine ⟨?_, Call.ownsTarget_of_finished rfl⟩
      rcases hpc with rfl | rfl <;> exact hk
  | @found op id address hop hrow huser =>
      refine ⟨hk, ?_⟩
      have habout : db.About Address.userId id op.userId := huser ▸ hkeyed.about hrow
      rcases hop with hop | hop <;> rw [hop] <;> exact Or.inr (Or.inr habout)
  | @clears op pc hpc hsets =>
      rcases hpc with ⟨rfl, dto, hop⟩ | ⟨rfl, id, hop⟩
      · exact ⟨progress_snapshot hk hkeyed, by rw [hop]; trivial⟩
      · exact ⟨progress_snapshot hk hkeyed, howns'.goto rfl rfl⟩
  | skips => exact ⟨progress_nothing hk, trivial⟩
  | @deletes userId id address hfree hview =>
      refine ⟨?_, howns'.goto rfl rfl⟩
      have habout := howns.about (Or.inr rfl) rfl rfl
      have hnothing : Progress db me (.deleteAddress userId id) [] [] none := progress_nothing hk
      exact hnothing.writeTarget hview habout hfree (by simp) (by simp) (by simp [Op.setsDefault])
  | clearsOne hrow => exact ⟨hk.clearOne hrow, howns'.goto rfl rfl⟩
  | cleared => exact ⟨hk, howns'.goto rfl rfl⟩
  | @inserts userId dto seen => exact ⟨hk.insertTarget rfl rfl, trivial⟩
  | @sets userId id seen address hfree hview =>
      refine ⟨?_, howns'.goto rfl rfl⟩
      have habout := howns.about (Or.inl rfl) rfl rfl
      exact hk.writeTarget hview habout hfree (by simp) (by simp [Op.setsDefault]) (by simp)
  | missing => exact ⟨Table.idle_rollback, Call.ownsTarget_of_finished rfl⟩
  | commits => exact ⟨Table.idle_commit, Call.ownsTarget_of_finished rfl⟩

/-- What the statements of others leave to a call. -/
theorem Call.Asserts.evolves (h : k.Asserts db other)
    (hstep : db.Evolves Address.userId me db') (hne : other ≠ me) : k.Asserts db' other := by
  obtain ⟨op, pc⟩ := k
  cases pc with
  | clearing | cleared | written => exact Progress.evolves h hstep hne
  | start | checked | returned | threw => exact hstep.idle_other hne h

end Step

/-- No address changes its user, and every call has done what it is to have done. -/
def progress : Roster addresses fun _ _ _ _ => True where
  G db := db.Keyed Address.userId
  L db i call := match call with
    | none => db.Idle i
    | some k => k.Asserts db i ∧ k.OwnsTarget db
  start db i k hentry _ hidle := by
    obtain ⟨op, pc⟩ := k
    cases pc with
    | start =>
        refine ⟨hidle, ?_⟩
        cases op with
        | createAddress userId dto => trivial
        | setDefaultAddress userId id | deleteAddress userId id => exact Or.inl rfl
    | _ => simp [addresses, Call.isStart] at hentry
  own i x k db o _ hstep hkeyed hL := by
    obtain ⟨hfinished, h, -⟩ := step_cases hstep
    refine ⟨h.evolves.keyed hkeyed, h.asserts hfinished hkeyed hL.1 hL.2, ?_⟩
    cases h <;> rfl
  others i x k db o j call _ hstep hne _ _ hL := by
    obtain ⟨-, h, -⟩ := step_cases hstep
    cases call with
    | none => exact h.evolves.idle_other (Ne.symm hne) hL
    | some k' => exact ⟨hL.1.evolves h.evolves (Ne.symm hne), hL.2.evolves h.evolves⟩

/-! ### One default -/

theorem oneDefault_iff {db : Table Address} :
    OneDefault db ↔ ∀ i j a b, db.committed i = some a → db.committed j = some b →
      a.userId = b.userId → a.isDefault = true → b.isDefault = true → i = j := by
  simp only [OneDefault, Table.length_rows_le_one_iff, ofUser, Bool.and_eq_true,
    decide_eq_true_eq]
  constructor
  · intro h i j a b ha hb huser hda hdb
    exact h a.userId i j a b ha ⟨rfl, hda⟩ hb ⟨huser.symm, hdb⟩
  · rintro h userId i j a b ha ⟨hua, hda⟩ hb ⟨hub, hdb⟩
    exact h i j a b ha hb (hua.trans hub.symm) hda hdb

section Exact

variable {me : ℕ} {x : Input} {k : Call} {db : Table Address} {o : Outcome (Table Address) Call}
  {op : Op} {seen : List AddressId} {target : AddressId}

/-- A default after the commit is the one that was set, or was committed before. -/
theorem Progress.default_cases (h : Progress db me op seen [] (some target)) {i : AddressId}
    {a : Address} (hview : db.view me i = some a) (hdefault : a.isDefault = true) :
    (i = target ∧ op.setsDefault = true) ∨
      ((∀ version, ¬ db.Holds me i version) ∧ db.committed i = some a) := by
  rcases Table.holds_or_not db me i with ⟨version, hheld⟩ | hnot
  · rw [Table.view_of_holds hheld] at hview
    by_cases hi : i = target
    · obtain ⟨version', hheld', hset, -⟩ := h.written target rfl
      obtain ⟨-, rfl⟩ := (hi ▸ hheld).unique hheld'
      exact Or.inl ⟨hi, by rw [← hset a hview, hdefault]⟩
    · have hcleared := (h.cleared i version hheld fun ht => hi (Option.some.inj ht).symm).2 a hview
      rw [hdefault] at hcleared
      cases hcleared
  · exact Or.inr ⟨hnot, by rw [← Table.view_of_not_holds hnot, hview]⟩

/-- **The commit of a transaction** keeps one default exactly if the transaction set none or has
seen every other default of its user. -/
theorem Progress.oneDefault_commit_iff (h : Progress db me op seen [] (some target))
    (h0 : OneDefault db) :
    OneDefault (db.commit me) ↔ op.setsDefault = false ∨
      ∀ i a, db.committed i = some a → a.userId = op.userId → a.isDefault = true →
        i ∈ seen ∨ i = target := by
  rw [oneDefault_iff] at h0
  rw [oneDefault_iff, Table.commit_committed]
  constructor
  · intro hone
    cases hsets : op.setsDefault with
    | false => exact Or.inl rfl
    | true =>
        refine Or.inr fun i a ha huser hdefault => ?_
        by_contra hnot
        obtain ⟨hseen, htarget⟩ := not_or.mp hnot
        -- The address was not seen, so the transaction has not written it.
        have hfree : ∀ version, ¬ db.Holds me i version := fun version hheld =>
          hseen (h.cleared i version hheld fun ht => htarget (Option.some.inj ht).symm).1
        obtain ⟨version, hheld, hset, hsome⟩ := h.written target rfl
        obtain ⟨b, rfl⟩ := Option.isSome_iff_exists.mp (hsome hsets)
        have hb : b.userId = op.userId := (h.confined target _ hheld).1 b rfl
        refine htarget (hone i target a b ?_ (Table.view_of_holds hheld) (huser.trans hb.symm)
          hdefault ((hset b rfl).trans hsets))
        rw [Table.view_of_not_holds hfree, ha]
  · intro hsees i j a b ha hb huser hda hdb
    rcases hsees with hsets | hseen
    · rcases h.default_cases ha hda with ⟨-, hset⟩ | ⟨-, hai⟩
      · rw [hsets] at hset
        cases hset
      · rcases h.default_cases hb hdb with ⟨-, hset⟩ | ⟨-, hbj⟩
        · rw [hsets] at hset
          cases hset
        · exact h0 i j a b hai hbj huser hda hdb
    · -- Of the user of the transaction only the address that it set is left.
      have htarget : ∀ i a, db.view me i = some a → a.userId = op.userId → a.isDefault = true →
          i = target := by
        intro i a ha huser hdefault
        rcases h.default_cases ha hdefault with ⟨hi, -⟩ | ⟨hnot, hcommitted⟩
        · exact hi
        · rcases hseen i a hcommitted huser hdefault with hi | hi
          · rcases h.covered i hi with htodo | ⟨version, hheld⟩ | hgone
            · cases htodo
            · exact absurd hheld (hnot version)
            · rw [hgone.2.1] at hcommitted
              cases hcommitted
          · exact hi
      by_cases hown : a.userId = op.userId
      · rw [htarget i a ha hown hda, htarget j b hb (huser.symm.trans hown) hdb]
      · have hcommitted : ∀ i a, db.view me i = some a → a.userId ≠ op.userId →
            db.committed i = some a := by
          intro i a ha hne
          rcases Table.holds_or_not db me i with ⟨version, hheld⟩ | hnot
          · rw [Table.view_of_holds hheld] at ha
            exact absurd ((h.confined i version hheld).1 a ha) hne
          · rw [← Table.view_of_not_holds hnot, ha]
        exact h0 i j a b (hcommitted i a ha hown) (hcommitted j b hb (huser ▸ hown)) huser hda hdb

/-- **When a statement keeps one default.** -/
theorem Stmt.oneDefault_iff (h : Stmt me x db k o)
    (hfails : x.fail = true → o = k.goto (db.rollback me) (.threw .infrastructure))
    (hk : k.Asserts db me) (h0 : OneDefault db) :
    OneDefault o.store ↔ SeesDefaults me x k db := by
  obtain ⟨op, pc⟩ := k
  cases hx : x.fail with
  | true =>
      rw [hfails hx]
      refine iff_of_true h0 ?_
      cases pc with
      | written seen target => exact Or.inl hx
      | _ => trivial
  | false =>
      cases h with
      | fails hfail =>
          rw [hx] at hfail
          cases hfail
      | refused hpc =>
          refine iff_of_true h0 ?_
          rcases hpc with rfl | rfl <;> trivial
      | clears hpc =>
          refine iff_of_true h0 ?_
          rcases hpc with ⟨rfl, -⟩ | ⟨rfl, -⟩ <;> trivial
      | clearsOne hrow =>
          refine iff_of_true ?_ trivial
          obtain ⟨-, ⟨a, -, -, hwrite⟩ | ⟨-, hsame⟩⟩ := Table.updateRow_cases hrow
          · rw [hwrite]
            exact h0
          · rw [hsame]
            exact h0
      | inserts =>
          refine iff_of_true (fun userId => ?_) trivial
          rw [Table.rows_insert]
          exact h0 userId
      | found | skips | deletes | cleared | sets | missing => exact iff_of_true h0 trivial
      | commits =>
          rw [hk.oneDefault_commit_iff h0, SeesDefaults]
          simp [hx]

end Exact

/-! ### Whole runs -/

/-- **When every user has at most one default in every committed state**: exactly if every
transaction that commits a default has seen every other default of its user. -/
theorem oneDefault_run_iff {db : Table Address} {c' : Config (Table Address) Call}
    {ts : List (Transition (Table Address) Call Input)}
    (hrun : addresses.Run ⟨db, []⟩ ts c') (hidle : ∀ i, db.held i = none) (h0 : OneDefault db) :
    (∀ t ∈ ts, OneDefault t.post.store) ↔ ∀ t ∈ ts, t.Satisfies SeesDefaults := by
  have hnobody : ∀ tx, db.Idle tx := fun tx i version hheld => by
    rw [Table.Holds, hidle] at hheld
    cases hheld
  have hall := (progress.holds_run hrun (fun _ _ _ _ _ _ _ => trivial)
    ⟨Table.keyed_of_free hnobody, fun i => hnobody i⟩).2
  refine hrun.invariant_iff (fun c => OneDefault c.store) _ h0 fun t ht hone => ?_
  rcases (hrun.fires t ht).cases with ⟨k, he, -, hpost⟩ | ⟨i, x, k, o, he, hi, hstep, hpost⟩
  · rw [hpost]
    exact iff_of_true hone (Transition.satisfies_start he)
  · obtain ⟨-, h, hfails⟩ := step_cases hstep
    have hL := (hall t ht).1.2 i
    rw [hi] at hL
    rw [hpost, Transition.satisfies_iff he hi]
    exact h.oneDefault_iff hfails hL.1 hone

/-- Call number `i` is started and runs its first `n` statements. -/
def runCall (i n : ℕ) (op : Op) : List (Event Call Input) :=
  .start ⟨op, .start⟩ :: List.replicate n (.run i {})

/-- An address that is to be the default. -/
def home : AddressCreate :=
  { label := "Uy", addressText := "Toshkent", latitude := 41, longitude := 69, isDefault := true }

/-- A user adds a default address, then another, and then goes back to the first. -/
def oneByOne : List (Event Call Input) :=
  runCall 0 4 (.createAddress 0 home) ++ runCall 1 5 (.createAddress 0 home) ++
    runCall 2 7 (.setDefaultAddress 0 0)

theorem oneDefault_oneByOne :
    OneDefault (addresses.after ⟨Table.ofList [], []⟩ oneByOne).store := by
  have hnone : OneDefault (Table.ofList []) := fun _ => Nat.zero_le 1
  have hrun := addresses.run_trace ⟨Table.ofList [], []⟩ oneByOne
  exact hrun.last (I := fun c => OneDefault c.store) hnone
    ((oneDefault_run_iff hrun (fun _ => rfl) hnone).mpr (by decide +kernel))

/-- The user adds two default addresses at once: each transaction inserts its address before the
other commits. -/
def atOnce : List (Event Call Input) :=
  runCall 0 3 (.createAddress 0 home) ++ runCall 1 3 (.createAddress 0 home) ++
    [.run 0 {}, .run 1 {}]

/-- Both addresses are the default. -/
theorem not_oneDefault_atOnce :
    ¬ ∀ (db : Table Address) (c' : Config (Table Address) Call)
      (ts : List (Transition (Table Address) Call Input)), addresses.Run ⟨db, []⟩ ts c' →
      (∀ i, db.held i = none) → OneDefault db → OneDefault c'.store := by
  intro h
  have hone := h (Table.ofList []) _ _ (addresses.run_trace _ atOnce) (fun _ => rfl)
    (fun _ => Nat.zero_le 1)
  exact absurd (hone 0) (by decide +kernel)

end Handly.Addresses
