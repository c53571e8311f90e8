import Handly.Orders.Knowledge

/-!
# Masters have profiles

`Order.masterId` and `OrderDispatch.masterId` refer to a `MasterProfile`, and profiles
are not deleted. So `recomputeTrustTier`, the one followup that can throw by itself,
does not throw for the master of an order or of a dispatch.
-/

namespace Handly

open Interleaving

/-- The keys of the table of profiles. -/
def Db.masterIds (db : Db) : List UserId := db.masters.map MasterProfile.userId

/-- The foreign keys that refer to a profile. -/
structure Db.MastersExist (db : Db) : Prop where
  offers : ∀ f ∈ db.offers, f.masterId ∈ db.masterIds
  orders : ∀ job ∈ db.jobs, ∀ m ∈ job.masterId, m ∈ db.masterIds

/-- The masters whose trust tier these followups recompute have a profile. -/
def Db.CanRecompute (db : Db) (todo : List Followup) : Prop :=
  ∀ m, Followup.recomputeTrustTier m ∈ todo → m ∈ db.masterIds

/-- The same of the master whom a call is about to make an offer to, and of the followups
that it has yet to run. -/
def Call.MastersExist (k : Call) (db : Db) : Prop :=
  match k.pc, k.op with
  | .cascadeCreate _ _ _ _ picked, _ => picked.masterId ∈ db.masterIds
  | .guarded order, .lifecycle l => db.CanRecompute (l.spec.followups order)
  | .after todo _, _ => db.CanRecompute todo
  | _, _ => True

section Masters

variable {env : Env} {me : ℕ} {x : Input} {k : Call} {db : Db} {o : Outcome Db Call}

theorem updateMaster_masterIds {id : UserId} {f : MasterProfile → MasterProfile}
    (hf : ∀ m, (f m).userId = m.userId) : (db.updateMaster id f).masterIds = db.masterIds := by
  rw [Db.masterIds, Db.updateMaster_masters, List.map_map]
  refine List.map_congr_left fun m _ => ?_
  show (if m.userId = id then f m else m).userId = m.userId
  split
  · exact hf m
  · rfl

/-! ### Followups -/

/-- A followup throws only when it recomputes the trust tier of a user without a
profile. -/
theorem Followup.run_ne_error {f : Followup} {now : Time} {e : ApiError}
    (h : ∀ m, f = .recomputeTrustTier m → m ∈ db.masterIds) : f.run db now ≠ .error e := by
  cases f with
  | recomputeTrustTier m =>
      obtain ⟨profile, hmem, hid⟩ := List.mem_map.mp (h m rfl)
      have hsome : (db.findMaster m).isSome :=
        List.find?_isSome.mpr ⟨profile, hmem, by simpa using hid⟩
      obtain ⟨profile, hfound⟩ := Option.isSome_iff_exists.mp hsome
      simp [Followup.run, Handly.recomputeTrustTier, hfound]
  | notify | createPenalty | toOfferDto => simp [Followup.run]

theorem Followup.run_masterIds {f : Followup} {now : Time} {db' : Db}
    (h : f.run db now = .ok db') : db'.masterIds = db.masterIds := by
  cases f with
  | recomputeTrustTier m =>
      simp only [Followup.run, Handly.recomputeTrustTier] at h
      split at h
      · simp at h
      · rw [← Except.ok.inj h]
        exact updateMaster_masterIds fun _ => rfl
  | notify | createPenalty | toOfferDto =>
      obtain rfl := Except.ok.inj h
      rfl

/-- The followups of a guarded transition recompute at most the tier of the order's
master. -/
theorem Lifecycle.recomputes {l : Lifecycle} {order : Order} {m : UserId}
    (howns : l.spec.owner.Owns order)
    (hm : Followup.recomputeTrustTier m ∈ l.spec.followups order) : order.masterId = some m := by
  cases l with
  | confirmCompletion customerId orderId =>
      simp only [Lifecycle.spec] at hm
      split at hm
      · simp at hm
      · rename_i masterId hmaster
        obtain rfl : m = masterId := by simpa using hm
        exact hmaster
  | cancelByMaster masterId orderId reason =>
      obtain rfl : m = masterId := by simpa [Lifecycle.spec, recordEvent] using hm
      exact howns
  | cancel | startEnRoute | startService | completeService => simp [Lifecycle.spec] at hm

/-! ### One statement -/

/-- No statement adds or removes a profile. -/
theorem Stmt.masterIds (h : Stmt env me x db k o) : o.store.masterIds = db.masterIds := by
  cases h with
  | updateDraft =>
      unfold updateDraftWrite
      split <;> rfl
  | lifecycle =>
      unfold GuardedTransition.write GuardedTransition.credit
      split
      · rfl
      · exact updateMaster_masterIds fun _ => rfl
  | followup hf => exact Followup.run_masterIds hf
  | accept => simp [Db.masterIds, acceptWrite]
  | fails | reads | createDraft | diagnose | submit | acceptLock | acceptRollback | decline
  | expiry | cascadeInsert | cascadeEnqueue | failSearchUpdate | failSearchRecord => rfl

theorem Reads.mastersExist {op : Op} {pc pc' : Pc} (h : Reads env x db op pc pc')
    (hdb : db.MastersExist) (hk : Call.MastersExist ⟨op, pc⟩ db) :
    Call.MastersExist ⟨op, pc'⟩ db := by
  cases h with
  | @guarded op order hguard =>
      cases op with
      | lifecycle l =>
          obtain ⟨hrow, howns, -⟩ := GuardedTransition.guard_eq_ok (Option.some.inj hguard)
          intro m hm
          have hjob := List.mem_of_getElem? (Db.jobs_of_order hrow)
          exact hdb.orders order.job hjob m (Lifecycle.recomputes howns hm)
      | _ => trivial
  | @expiryFull dispatchId orderId full hrow =>
      -- The late response of the dispatch's own master.
      intro m hm
      obtain rfl : m = full.masterId := by
        simpa [expiryFollowups, recordEvent] using hm
      exact hdb.offers full.offer (List.mem_map_of_mem (List.mem_of_getElem? hrow))
  | cascadePicks hpicked =>
      obtain ⟨profile, hmem, hid, -⟩ := eligible_of_mem hpicked
      show _ ∈ db.masters.map _
      rw [← hid]
      exact List.mem_map_of_mem hmem
  | _ => trivial

/-- What a statement writes refers to profiles. -/
theorem Stmt.db_mastersExist (h : Stmt env me x db k o) (hdb : db.MastersExist)
    (hk : k.MastersExist db) (hknows : k.Knows db me) : o.store.MastersExist := by
  constructor
  · intro f hf
    rw [h.masterIds]
    rcases h.offers with hsame | ⟨_, _, _, _, picked, hpc, hnew⟩
    · exact hdb.offers f (hsame ▸ hf)
    · rw [hnew] at hf
      rcases List.mem_append.mp hf with hold | hadded
      · exact hdb.offers f hold
      · obtain rfl := List.mem_singleton.mp hadded
        simpa [Call.MastersExist, hpc] using hk
  · intro job' hmem m hm
    rw [h.masterIds]
    obtain ⟨id, hjob'⟩ := List.mem_iff_getElem?.mp hmem
    rcases h.jobs.job_after hjob' with hkept | ⟨-, rfl⟩ | ⟨w, job, hw, -, hjob, -, rfl⟩
    · exact hdb.orders job' (List.mem_of_getElem? hkept) m hm
    · simp [Job.draft] at hm
    · have hold : m ∈ job.masterId → m ∈ db.masterIds :=
        hdb.orders job (List.mem_of_getElem? hjob) m
      cases hw with
      | accept =>
          -- The order gets the master of the dispatch.
          obtain ⟨⟨hmaster, hoffer⟩, -⟩ := hknows
          obtain rfl : _ = m := Option.some.inj hm
          have := hdb.offers _ (List.mem_of_getElem? hoffer)
          rwa [OrderDispatch.offer, hmaster] at this
      | _ => exact hold (by simpa [JobWrite.apply] using hm)

/-- A statement leaves its call with masters that have profiles. -/
theorem Stmt.call_mastersExist (h : Stmt env me x db k o) (hdb : db.MastersExist)
    (hk : k.MastersExist db) : o.call.MastersExist o.store := by
  have hids := h.masterIds
  have hcan : ∀ {todo : List Followup}, db.CanRecompute todo → o.store.CanRecompute todo := by
    intro todo htodo m hm
    rw [hids]
    exact htodo m hm
  cases h with
  | reads hr => exact hr.mastersExist hdb hk
  | lifecycle => exact hcan hk
  | @followup op f todo next db' hf => exact hcan fun m hm => hk m (List.mem_cons_of_mem f hm)
  | cascadeEnqueue => exact hcan fun m hm => by simp [offerFollowups] at hm
  | failSearchRecord => exact hcan fun m hm => by simp [failSearchFollowups] at hm
  | _ => trivial

/-- A statement does not disturb what other calls refer to. -/
theorem Stmt.mastersExist_other (h : Stmt env me x db k o) {k' : Call}
    (hk' : k'.MastersExist db) : k'.MastersExist o.store := by
  unfold Call.MastersExist Db.CanRecompute at hk' ⊢
  rw [h.masterIds]
  exact hk'

end Masters

/-! ### Whole runs -/

/-- The tables and the calls refer to profiles that exist. -/
def profiles (env : Env) : Outline (orders env) (fun _ => True) where
  G db := db.MastersExist
  L db me k := k.Knows db me ∧ k.MastersExist db
  start t i k hC he hentry _ := by
    refine ⟨(knowledge env).start t i k hC he hentry trivial, ?_⟩
    obtain ⟨op, pc⟩ := k
    cases pc <;> trivial
  own t me x k o hC he hk hstep hpost hG hL := by
    obtain ⟨hknows, hexist⟩ := hL
    obtain ⟨-, h, -⟩ := step_cases hstep
    obtain ⟨-, hknows', hspawn⟩ :=
      (knowledge env).own t me x k o hC he hk hstep hpost trivial hknows
    refine ⟨h.db_mastersExist hG hexist hknows, ⟨hknows', h.call_mastersExist hG hexist⟩,
      fun j k' hk' => ⟨hspawn j k' hk', ?_⟩⟩
    obtain ⟨op, pc⟩ := k'
    obtain rfl : pc = .start := h.spawned_start _ hk'
    trivial
  others t me x k o j k' _ he hk hstep hk' hne _ hL hL' := by
    obtain ⟨hknows, -⟩ := hL
    obtain ⟨hknows', hexist'⟩ := hL'
    obtain ⟨-, h, -⟩ := step_cases hstep
    exact ⟨h.knows_other hknows (Ne.symm hne) hknows', h.mastersExist_other hexist'⟩

/-- In a run from tables whose foreign keys hold, the calls refer to profiles that
exist. -/
theorem mastersExist_of_run {env : Env} {db : Db} {c' : Config Db Call}
    {ts : List (Transition Db Call Input)} (hrun : (orders env).Run ⟨db, []⟩ ts c')
    (hdb : db.MastersExist) :
    ∀ t ∈ ts, ∀ (i : ℕ) (k : Call), t.pre.calls[i]? = some k → k.MastersExist t.pre.store := by
  obtain ⟨-, hall⟩ := (profiles env).holds_run hrun (fun _ _ => trivial)
    ⟨hdb, fun i k hk => by simp at hk⟩
  intro t ht i k hk
  exact ((hall t ht).1.2 i k hk).2

end Handly
