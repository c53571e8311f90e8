import Handly.Verifications.Statements

/-!
# The status of a master and his latest request

`submit` writes under the lock of the profile row. `decide` claims the request first and needs
the same lock before it can commit. So a submit that holds the lock sees committed decisions
only, and the profile agrees with the request that was created last in every committed state.
-/

namespace Handly.Verifications

open Interleaving

/-- The status of the request of the master that was created last, UNVERIFIED without one. -/
def latestStatus (db : Db) (m : UserId) : VerificationStatus :=
  ((getMyLatest db m).map fun r => r.2.status).getD .unverified

/-- At most one request of the master is PENDING, and his profile has the status of the latest
one. -/
structure StatusIsLatest (db : Db) (m : UserId) : Prop where
  onePending : ∀ (id id' : VerificationId) (v v' : Verification),
    db.verifications[id]? = some v → db.verifications[id']? = some v' → v.masterId = m →
    v'.masterId = m → v.status = .pending → v'.status = .pending → id = id'
  status : ∀ p ∈ db.masters, p.userId = m → p.verificationStatus = latestStatus db m

/-- The profile of the master is VERIFIED. -/
def Db.Verified (db : Db) (m : UserId) : Prop :=
  ∃ p ∈ db.masters, p.userId = m ∧ p.verificationStatus = .verified

/-- The master has the same requests in both states. -/
def SameRequests (m : UserId) (db db' : Db) : Prop :=
  ∀ (id : VerificationId) (v : Verification), v.masterId = m →
    (db'.verifications[id]? = some v ↔ db.verifications[id]? = some v)

/-- The profile of the master is the same in both states. -/
def SameProfile (m : UserId) (db db' : Db) : Prop :=
  ∀ p : MasterProfile, p.userId = m → (p ∈ db'.masters ↔ p ∈ db.masters)

/-! ### The invariant -/

/-- A pending request of the master is his latest one. -/
structure Synced (m : UserId) (db : Db) : Prop where
  last : ∀ (id : VerificationId) (v : Verification), db.verifications[id]? = some v →
    v.masterId = m → v.status = .pending → ∀ (id' : VerificationId) (v' : Verification),
    db.verifications[id']? = some v' → v'.masterId = m → id' ≤ id
  status : ∀ p ∈ db.masters, p.userId = m → p.verificationStatus = latestStatus db m

/-- What a submit of the master knows, all of it under the lock of his profile row. -/
def Call.Submits (m : UserId) (db : Db) (me : ℕ) (k : Call) : Prop :=
  match k.pc, k.op with
  | .locked, .submit masterId _ =>
      masterId = m → (db.findMaster m).isSome → db.profileLock m = some me
  | .unverified, .submit masterId _ => masterId = m → db.profileLock m = some me ∧
      ∀ p ∈ db.masters, p.userId = m → p.verificationStatus ≠ .verified
  | .vacant, .submit masterId _ => masterId = m → db.profileLock m = some me ∧
      (∀ p ∈ db.masters, p.userId = m → p.verificationStatus ≠ .verified) ∧
      ∀ (id : VerificationId) (v : Verification), db.verifications[id]? = some v →
        v.masterId = m → v.status ≠ .pending
  | _, _ => True

/-- The call's next statement commits a write that concerns the master. -/
def Call.Writes (m : UserId) (k : Call) : Prop :=
  match k.pc, k.op with
  | .vacant, .submit masterId _ => masterId = m
  | .synced record _, .decide _ _ _ _ => record.masterId = m
  | _, _ => False

section Statements

variable {me : ℕ} {x : Input} {k : Call} {db : Db} {o : Outcome Db Call} {m : UserId}

theorem getMyLatest_eq_some {id : VerificationId} {v : Verification} :
    getMyLatest db m = some (id, v) ↔ db.verifications[id]? = some v ∧ v.masterId = m ∧
      ∀ (id' : ℕ) (v' : Verification), db.verifications[id']? = some v' → v'.masterId = m →
        id' ≤ id := by
  simp [getMyLatest, Table.findLastRow_eq_some_iff]

theorem latestStatus_eq {id : VerificationId} {v : Verification}
    (hrow : db.verifications[id]? = some v) (hm : v.masterId = m)
    (hlast : ∀ (id' : ℕ) (v' : Verification), db.verifications[id']? = some v' →
      v'.masterId = m → id' ≤ id) : latestStatus db m = v.status := by
  rw [latestStatus, getMyLatest_eq_some.mpr ⟨hrow, hm, hlast⟩]
  rfl

theorem latestStatus_eq_of_same {db' : Db} (h : SameRequests m db db') :
    latestStatus db' m = latestStatus db m := by
  have hlatest : getMyLatest db' m = getMyLatest db m := by
    cases hfound : getMyLatest db m with
    | some r =>
        obtain ⟨id, v⟩ := r
        obtain ⟨hrow, hm, hlast⟩ := getMyLatest_eq_some.mp hfound
        refine getMyLatest_eq_some.mpr ⟨(h id v hm).mpr hrow, hm, fun id' v' hrow' hm' => ?_⟩
        exact hlast id' v' ((h id' v' hm').mp hrow') hm'
    | none =>
        refine Table.findLastRow_eq_none_iff.mpr fun v hv => ?_
        obtain ⟨id, hrow⟩ := List.getElem?_of_mem hv
        by_contra hm
        have hm : v.masterId = m := by simpa using hm
        have hnone := Table.findLastRow_eq_none_iff.mp hfound v
          (List.mem_of_getElem? ((h id v hm).mp hrow))
        simp [hm] at hnone
  rw [latestStatus, latestStatus, hlatest]

/-- A profile that has the latest status keeps it when neither changes. -/
theorem Synced.of_same {db' : Db} (h : Synced m db) (hrequests : SameRequests m db db')
    (hprofile : SameProfile m db db') : Synced m db' := by
  refine ⟨fun id v hrow hm hst id' v' hrow' hm' => ?_, ?_⟩
  · exact h.last id v ((hrequests id v hm).mp hrow) hm hst id' v'
      ((hrequests id' v' hm').mp hrow') hm'
  · rw [latestStatus_eq_of_same hrequests]
    exact fun p hp hm => h.status p ((hprofile p hm).mp hp) hm

theorem setVerificationStatus_same {masterId : UserId} {st : VerificationStatus}
    (hne : masterId ≠ m) : SameProfile m db (db.setVerificationStatus masterId st) := by
  intro p hm
  rw [Db.setVerificationStatus_masters, List.mem_map]
  constructor
  · intro hp
    obtain ⟨p₀, hmem, rfl⟩ := hp
    split at hm
    · rename_i h
      exact absurd (h.symm.trans hm) hne
    · rename_i h
      rwa [if_neg h]
  · intro hp
    exact ⟨p, hp, if_neg fun h => hne (h.symm.trans hm)⟩

theorem setVerificationStatus_findMaster {masterId : UserId} {st : VerificationStatus}
    (h : ((db.setVerificationStatus masterId st).findMaster m).isSome) :
    (db.findMaster m).isSome := by
  obtain ⟨p, hp, hm⟩ := List.find?_isSome.mp h
  obtain ⟨p₀, hp₀, rfl⟩ := List.mem_map.mp hp
  refine List.find?_isSome.mpr ⟨p₀, hp₀, ?_⟩
  split at hm <;> exact hm

theorem Stmt.findMaster_isSome (h : Stmt me x db k o) (hfound : (o.store.findMaster m).isSome) :
    (db.findMaster m).isSome := by
  cases h with
  | refused _ hdb => rcases hdb with rfl | rfl <;> exact hfound
  | create | commit => exact setVerificationStatus_findMaster hfound
  | _ => exact hfound

theorem createVerification_same {row : Verification} (hne : row.masterId ≠ m) :
    SameRequests m db (db.createVerification row) := by
  intro id v hm
  constructor
  · intro hrow
    rcases Table.of_append hrow with hold | ⟨-, rfl⟩
    · exact hold
    · exact absurd hm hne
  · exact fun hrow => Table.append_of_row hrow row

theorem updateVerification_same {id : VerificationId} {row : Verification}
    {f : Verification → Verification} (hrow : db.verifications[id]? = some row)
    (hne : row.masterId ≠ m) (hf : (f row).masterId = row.masterId) :
    SameRequests m db (db.updateVerification id f) := by
  intro id' v hm
  constructor
  · intro hv
    obtain ⟨a, ha, ⟨rfl, rfl⟩ | ⟨-, rfl⟩⟩ := Table.of_modify hv
    · obtain rfl := Option.some.inj (ha.symm.trans hrow)
      exact absurd (hf.symm.trans hm) hne
    · exact ha
  · intro hv
    have hid : id ≠ id' := by
      intro hid
      subst hid
      obtain rfl := Option.some.inj (hv.symm.trans hrow)
      exact hne hm
    simpa [hid] using Table.modify_of_row hv id (f := f)

/-- What is not written about the master stays. -/
theorem Stmt.same (h : Stmt me x db k o) (hk : k.Claims db me) (hw : ¬ k.Writes m) :
    SameRequests m db o.store ∧ SameProfile m db o.store := by
  cases h with
  | refused _ hdb =>
      rcases hdb with rfl | rfl <;> exact ⟨fun _ _ _ => Iff.rfl, fun _ _ => Iff.rfl⟩
  | create => exact ⟨createVerification_same hw, setVerificationStatus_same hw⟩
  | commit =>
      obtain ⟨-, -, row, hrow, hmaster, -⟩ := hk
      exact ⟨updateVerification_same hrow (hmaster.trans_ne hw) rfl, setVerificationStatus_same hw⟩
  | _ => exact ⟨fun _ _ _ => Iff.rfl, fun _ _ => Iff.rfl⟩

/-- Who writes about the master holds the lock of his profile. -/
theorem Call.Writes.profileLock (hw : k.Writes m) (hk : k.Claims db me) (hs : k.Submits m db me) :
    db.profileLock m = some me := by
  obtain ⟨op, pc⟩ := k
  cases op with
  | submit masterId note =>
      cases pc with
      | vacant => exact (hs hw).1
      | _ => exact hw.elim
  | decide id adminId approve note =>
      cases pc with
      | synced record decidedAt => exact hw ▸ hk.2.1
      | _ => exact hw.elim

theorem setVerificationStatus_status {st : VerificationStatus} :
    ∀ p ∈ (db.setVerificationStatus m st).masters, p.userId = m → p.verificationStatus = st := by
  intro p hp hm
  obtain ⟨p₀, -, rfl⟩ := List.mem_map.mp hp
  split at hm
  · rename_i h
    rw [if_pos h]
  · rename_i h
    exact absurd hm h

/-- A request that the master submits while none of his is pending is the latest. -/
theorem synced_create {note : Option String}
    (hnone : ∀ (id : VerificationId) (v : Verification), db.verifications[id]? = some v →
      v.masterId = m → v.status ≠ .pending) :
    Synced m (((db.createVerification (verificationOf m note)).setVerificationStatus m
      .pending).unlock me) := by
  have hmax : ∀ (id : ℕ) (v : Verification),
      (db.verifications ++ [verificationOf m note])[id]? = some v → v.masterId = m →
      id ≤ db.verifications.length := by
    intro id v hrow _
    have hlt := (List.getElem?_eq_some_iff.mp hrow).1
    simp only [List.length_append, List.length_singleton] at hlt
    omega
  have hnew : (db.verifications ++ [verificationOf m note])[db.verifications.length]? =
      some (verificationOf m note) := by simp
  refine ⟨fun id v hrow hm hst id' v' hrow' hm' => ?_, fun p hp hm => ?_⟩
  · rcases Table.of_append hrow with hold | ⟨rfl, -⟩
    · exact absurd hst (hnone id v hold hm)
    · exact hmax id' v' hrow' hm'
  · have hlatest : latestStatus (((db.createVerification
        (verificationOf m note)).setVerificationStatus m .pending).unlock me) m = .pending :=
      latestStatus_eq (v := verificationOf m note) hnew rfl hmax
    exact (setVerificationStatus_status p hp hm).trans hlatest.symm

/-- A decision on a pending request, which is the latest, settles the status. -/
theorem synced_commit {id : VerificationId} {adminId : UserId} {approve : Bool}
    {note : Option String} {record row : Verification} {decidedAt : Time} (hG : Synced m db)
    (hrow : db.verifications[id]? = some row) (hm : row.masterId = m)
    (hpending : row.status = .pending) :
    Synced m (((db.updateVerification id (decideData adminId approve note record
      decidedAt)).setVerificationStatus m (newStatus approve)).unlock me) := by
  have hmax : ∀ (id' : ℕ) (v : Verification),
      (db.verifications.modify id (decideData adminId approve note record decidedAt))[id']? =
        some v → v.masterId = m → id' ≤ id := by
    intro id' v hv hm'
    obtain ⟨a, ha, ⟨rfl, rfl⟩ | ⟨-, rfl⟩⟩ := Table.of_modify hv
    · exact Nat.le_refl _
    · exact hG.last id row hrow hm hpending id' v ha hm'
  have hdecided := Table.modify_of_row hrow id
    (f := decideData adminId approve note record decidedAt)
  rw [if_pos rfl] at hdecided
  refine ⟨fun id₁ v hv hm₁ hst => ?_, fun p hp hmp => ?_⟩
  · -- No request of the master is pending any more.
    obtain ⟨a, ha, ⟨rfl, rfl⟩ | ⟨hne, rfl⟩⟩ := Table.of_modify hv
    · simp only [decideData, newStatus] at hst
      split at hst <;> simp at hst
    · have hle := hG.last id row hrow hm hpending id₁ v ha hm₁
      have hge := hG.last id₁ v ha hm₁ hst id row hrow hm
      exact absurd (Nat.le_antisymm hge hle) hne
  · have hlatest : latestStatus (((db.updateVerification id (decideData adminId approve note
        record decidedAt)).setVerificationStatus m (newStatus approve)).unlock me) m =
        newStatus approve :=
      latestStatus_eq (v := decideData adminId approve note record decidedAt row) hdecided hm hmax
    exact (setVerificationStatus_status p hp hmp).trans hlatest.symm

theorem Stmt.synced (h : Stmt me x db k o) (hG : Synced m db) (hk : k.Claims db me)
    (hs : k.Submits m db me) : Synced m o.store := by
  by_cases hw : k.Writes m
  · cases h with
    | fails => exact hG.of_same (fun _ _ _ => Iff.rfl) (fun _ _ => Iff.rfl)
    | refused _ hdb =>
        rcases hdb with rfl | rfl <;>
          exact hG.of_same (fun _ _ _ => Iff.rfl) (fun _ _ => Iff.rfl)
    | @create masterId note =>
        obtain rfl : masterId = m := hw
        exact synced_create (hs rfl).2.2
    | @commit id adminId approve note record decidedAt =>
        obtain rfl : record.masterId = m := hw
        obtain ⟨-, -, row, hrow, hmaster, hpending⟩ := hk
        exact synced_commit hG hrow hmaster hpending
    | _ => exact hw.elim
  · obtain ⟨hrequests, hprofile⟩ := h.same hk hw
    exact hG.of_same hrequests hprofile

/-- What a submit knows after its statement. -/
theorem Stmt.submits (h : Stmt me x db k o) (hG : Synced m db) (hs : k.Submits m db me) :
    o.call.Submits m o.store me := by
  cases h with
  | @lockProfile masterId note hfree =>
      intro hm hfound
      subst hm
      simp [show (db.findMaster masterId).isSome from hfound]
  | @readProfile masterId note master hmaster hst =>
      intro hm
      subst hm
      obtain ⟨hmem, huser⟩ := findMaster_eq_some hmaster
      refine ⟨hs rfl (by simp [hmaster]), fun p hp hm => ?_⟩
      rw [hG.status p hp hm, ← hG.status master hmem huser]
      exact hst
  | readPending hnone =>
      intro hm
      obtain ⟨hlock, hst⟩ := hs hm
      subst hm
      exact ⟨hlock, hst, fun id v hrow hmaster => hnone v (List.mem_of_getElem? hrow) hmaster⟩
  | _ => trivial

/-- A statement of another call keeps what a submit knows: the lock of the profile shields all
that concerns the master. -/
theorem Stmt.submits_other (h : Stmt me x db k o) (hk : k.Claims db me) (hs : k.Submits m db me)
    {other : ℕ} {k' : Call} (hne : other ≠ me) (hs' : k'.Submits m db other) :
    k'.Submits m o.store other := by
  obtain ⟨hprofile, -⟩ := h.locks_other hne
  have hsame : db.profileLock m = some other → SameRequests m db o.store ∧
      SameProfile m db o.store := by
    intro hlock
    refine h.same hk fun hw => hne ?_
    exact Option.some.inj (hlock.symm.trans (hw.profileLock hk hs))
  obtain ⟨op, pc⟩ := k'
  cases op with
  | submit masterId note =>
      cases pc with
      | locked =>
          intro hm hfound
          exact hprofile m (hs' hm (h.findMaster_isSome hfound))
      | unverified =>
          intro hm
          obtain ⟨hlock, hst⟩ := hs' hm
          exact ⟨hprofile m hlock, fun p hp hpm => hst p (((hsame hlock).2 p hpm).mp hp) hpm⟩
      | vacant =>
          intro hm
          obtain ⟨hlock, hst, hnone⟩ := hs' hm
          obtain ⟨hrequests, hprofiles⟩ := hsame hlock
          exact ⟨hprofile m hlock, fun p hp hpm => hst p ((hprofiles p hpm).mp hp) hpm,
            fun id v hv hvm => hnone id v ((hrequests id v hvm).mp hv) hvm⟩
      | _ => trivial
  | decide id adminId approve note => cases pc <;> trivial

/-- Nothing is written about a master who is VERIFIED. -/
theorem Stmt.same_of_verified (h : Stmt me x db k o) (hG : Synced m db) (hk : k.Claims db me)
    (hs : k.Submits m db me) (hverified : db.Verified m) :
    SameRequests m db o.store ∧ SameProfile m db o.store := by
  by_cases hw : k.Writes m
  · obtain ⟨p, hp, hm, hst⟩ := hverified
    cases h with
    | fails => exact ⟨fun _ _ _ => Iff.rfl, fun _ _ => Iff.rfl⟩
    | refused _ hdb =>
        rcases hdb with rfl | rfl <;> exact ⟨fun _ _ _ => Iff.rfl, fun _ _ => Iff.rfl⟩
    | create => exact absurd hst ((hs hw).2.1 p hp hm)
    | @commit id adminId approve note record decidedAt =>
        -- The request is pending, so the profile of its master is PENDING.
        obtain rfl : record.masterId = m := hw
        obtain ⟨-, -, row, hrow, hmaster, hpending⟩ := hk
        have hlatest : latestStatus db record.masterId = row.status :=
          latestStatus_eq hrow hmaster fun id' v' => hG.last id row hrow hmaster hpending id' v'
        rw [hG.status p hp hm, hlatest, hpending] at hst
        exact VerificationStatus.noConfusion hst
    | _ => exact hw.elim
  · exact h.same hk hw

end Statements

/-! ### Runs -/

theorem Synced.statusIsLatest {m : UserId} {db : Db} (h : Synced m db) : StatusIsLatest db m := by
  refine ⟨fun id id' v v' hrow hrow' hm hm' hst hst' => ?_, h.status⟩
  have hle := h.last id v hrow hm hst id' v' hrow' hm'
  have hge := h.last id' v' hrow' hm' hst' id v hrow hm
  exact Nat.le_antisymm hge hle

/-- What is known of the master, over a run. -/
def knowsOutline (m : UserId) : Outline verification fun t => t.Satisfies fun _ _ _ _ => True :=
  .ofSteps verification _ (Synced m) (fun db me k => k.Claims db me ∧ k.Submits m db me)
    (by
      intro db me k hentry _
      obtain ⟨op, pc⟩ := k
      cases pc with
      | start => cases op <;> exact ⟨trivial, trivial⟩
      | _ => simp [verification, Call.isStart] at hentry)
    (by
      intro me x k db o _ hstep hG hL
      obtain ⟨-, h⟩ := step_cases hstep
      obtain ⟨hk, hs⟩ := hL
      exact ⟨h.synced hG hk hs, ⟨h.claims hk, h.submits hG hs⟩, h.spawned_eq_nil⟩)
    (by
      intro me x k db o other k' _ hstep hne _ hL hL'
      obtain ⟨-, h⟩ := step_cases hstep
      obtain ⟨hk, hs⟩ := hL
      obtain ⟨hk', hs'⟩ := hL'
      exact ⟨h.claims_other hk (Ne.symm hne) hk', h.submits_other hk hs (Ne.symm hne) hs'⟩)

/-- The master is VERIFIED, with these requests and this profile. -/
structure Frozen (m : UserId) (db db' : Db) : Prop where
  verified : db'.Verified m
  requests : SameRequests m db db'
  profile : SameProfile m db db'

theorem Frozen.of_same {m : UserId} {db db' db'' : Db} (h : Frozen m db db')
    (hrequests : SameRequests m db' db'') (hprofile : SameProfile m db' db'') :
    Frozen m db db'' := by
  obtain ⟨p, hp, hm, hst⟩ := h.verified
  exact ⟨⟨p, (hprofile p hm).mpr hp, hm, hst⟩,
    fun id v hv => (hrequests id v hv).trans (h.requests id v hv),
    fun q hq => (hprofile q hq).trans (h.profile q hq)⟩

section Run

variable {m : UserId} {c c' : Config Db Call} {ts : List (Transition Db Call Input)}

theorem holds_of_run {db : Db} (hrun : verification.Run ⟨db, []⟩ ts c') (hsynced : Synced m db) :
    (knowsOutline m).Holds c' ∧
      ∀ t ∈ ts, (knowsOutline m).Holds t.pre ∧ (knowsOutline m).Holds t.post := by
  refine (knowsOutline m).holds_run hrun (fun _ _ _ _ _ _ _ => trivial) ⟨hsynced, ?_⟩
  intro i k hk
  simp at hk

theorem frozen_of_run (hrun : verification.Run c ts c')
    (hholds : ∀ t ∈ ts, (knowsOutline m).Holds t.pre) (hverified : c.store.Verified m) :
    Frozen m c.store c'.store := by
  refine (hrun.invariant (fun d => Frozen m c.store d.store)
    (fun t => (knowsOutline m).Holds t.pre) hholds ?_ ?_).1
  · exact ⟨hverified, fun _ _ _ => Iff.rfl, fun _ _ => Iff.rfl⟩
  · intro t ht hknows hfrozen
    rcases stmt_of_fires ht with ⟨k, -, -, hpost⟩ | ⟨i, x, k, o, -, hi, -, h, hpost⟩
    · rwa [hpost]
    · obtain ⟨hG, hL⟩ := hknows
      obtain ⟨hk, hs⟩ := hL i k hi
      obtain ⟨hrequests, hprofile⟩ := h.same_of_verified hG hk hs hfrozen.verified
      rw [hpost]
      exact hfrozen.of_same hrequests hprofile

/-- **The status is that of the latest request.** From an UNVERIFIED profile without requests,
in every interleaving of `submit` and `decide`: in every committed state at most one request
of the master is PENDING and his profile has the status of the latest one, and after a state
in which he is VERIFIED neither changes. -/
theorem latest_of_run {db : Db} (hrun : verification.Run ⟨db, []⟩ ts c')
    (hnone : ∀ v ∈ db.verifications, v.masterId ≠ m)
    (hunverified : ∀ p ∈ db.masters, p.userId = m → p.verificationStatus = .unverified) :
    StatusIsLatest c'.store m ∧
      ∀ t ∈ ts, t.pre.store.Verified m →
        c'.store.Verified m ∧ SameRequests m t.pre.store c'.store := by
  have hsynced : Synced m db := by
    have hlatest : getMyLatest db m = none :=
      Table.findLastRow_eq_none_iff.mpr fun v hv => by simpa using hnone v hv
    refine ⟨fun id v hrow hm => absurd hm (hnone v (List.mem_of_getElem? hrow)), ?_⟩
    intro p hp hm
    rw [hunverified p hp hm, latestStatus, hlatest]
    rfl
  obtain ⟨hend, hall⟩ := holds_of_run hrun hsynced
  refine ⟨hend.1.statusIsLatest, fun t ht hverified => ?_⟩
  obtain ⟨after, hsub, hafter⟩ := hrun.suffix ht
  have hfrozen := frozen_of_run hafter (fun t' ht' => (hall t' (hsub t' ht')).1) hverified
  exact ⟨hfrozen.verified, hfrozen.requests⟩

end Run

/-- Master 0 without a request. -/
def newMaster : Db where
  masters := [⟨0, .unverified, 0, 0, 0, false⟩]

/-- Two submits race, the one that waits is refused, and the request is approved. -/
def submitTogether : List (Event Call Input) :=
  [.start ⟨.submit 0 none, .start⟩, .start ⟨.submit 0 none, .start⟩, .run 0 {}, .run 0 {},
    .run 0 {}, .run 0 {}, .run 1 {}, .run 1 {}, .run 1 {},
    .start ⟨.decide 0 9 true none, .start⟩, .run 2 {}, .run 2 {}, .run 2 {}, .run 2 {}, .run 2 {}]

theorem latest_submitTogether :
    StatusIsLatest (verification.after ⟨newMaster, []⟩ submitTogether).store 0 ∧
      ∀ t ∈ verification.trace ⟨newMaster, []⟩ submitTogether, t.pre.store.Verified 0 →
        (verification.after ⟨newMaster, []⟩ submitTogether).store.Verified 0 ∧
          SameRequests 0 t.pre.store (verification.after ⟨newMaster, []⟩ submitTogether).store :=
  latest_of_run (verification.run_trace _ _) (by decide) (by decide)

end Handly.Verifications
