import Handly.Orders.Knowledge

/-!
# One job for each master

A master is chosen for an offer only while free, but nothing checks this again
when the offer is accepted, and offers of several orders may be open for the same
master. Only the commit of `acceptOffer` gives a master a job, so the masters hold
at most one job each exactly as long as every such commit finds its master free.
-/

namespace Handly

open Interleaving

/-- The master is assigned to the order, and the order is in an active status. -/
def Db.HasJob (db : Db) (masterId : UserId) (orderId : OrderId) : Prop :=
  ∃ job, db.jobs[orderId]? = some job ∧ job.masterId = some masterId ∧ job.status.Active

/-- Every master has at most one job, and `getCurrentJob` returns it. -/
def OneJobEach (db : Db) : Prop :=
  ∀ masterId orderId, db.HasJob masterId orderId →
    (∀ orderId', db.HasJob masterId orderId' → orderId' = orderId) ∧
      getCurrentJob db masterId = some orderId

/-- If the statement of a transition commits an `acceptOffer`, then its master has no
job at that moment. -/
def AcceptsWhenFree (t : Transition Db Call Input) : Prop :=
  t.Satisfies fun _ x k db => x.fail = false → ∀ dispatchId masterId dispatch order,
    k = ⟨.acceptOffer dispatchId masterId, .accepting dispatch order⟩ → db.isBusy masterId = false

/-! ### Jobs of one state -/

section State

variable {db : Db} {masterId : UserId}

theorem hasJob_iff {orderId : OrderId} :
    db.HasJob masterId orderId ↔
      ∃ order, db.orders[orderId]? = some order ∧ order.masterId = some masterId ∧
        order.status.Active := by
  simp [Db.HasJob, Db.jobs_getElem?, Order.job]

theorem isBusy_iff : db.isBusy masterId = true ↔ ∃ orderId, db.HasJob masterId orderId := by
  simp only [Db.isBusy, List.any_eq_true, decide_eq_true_eq, hasJob_iff]
  constructor
  · intro hbusy
    obtain ⟨order, hmem, hjob⟩ := hbusy
    obtain ⟨orderId, hrow⟩ := List.mem_iff_getElem?.mp hmem
    exact ⟨orderId, order, hrow, hjob⟩
  · intro hbusy
    obtain ⟨orderId, order, hrow, hjob⟩ := hbusy
    exact ⟨order, List.mem_of_getElem? hrow, hjob⟩

/-- `getCurrentJob` finds a job of a master that has one. -/
theorem getCurrentJob_isSome {orderId : OrderId} (h : db.HasJob masterId orderId) :
    ∃ orderId', getCurrentJob db masterId = some orderId' ∧ db.HasJob masterId orderId' := by
  obtain ⟨order, hrow, hm, hactive⟩ := hasJob_iff.mp h
  have hfound : (getCurrentJob db masterId).isSome := by
    rw [getCurrentJob, List.findIdx?_isSome, List.any_eq_true]
    exact ⟨order, List.mem_of_getElem? hrow, decide_eq_true ⟨hm, hactive⟩⟩
  obtain ⟨orderId', hfirst⟩ := Option.isSome_iff_exists.mp hfound
  refine ⟨orderId', hfirst, ?_⟩
  obtain ⟨hlt, hp, -⟩ := List.findIdx?_eq_some_iff_getElem.mp hfirst
  exact hasJob_iff.mpr ⟨_, List.getElem?_eq_getElem hlt, of_decide_eq_true hp⟩

/-- It is enough that no master has two jobs. -/
theorem oneJobEach_iff_unique :
    OneJobEach db ↔ ∀ masterId orderId orderId', db.HasJob masterId orderId →
      db.HasJob masterId orderId' → orderId = orderId' := by
  constructor
  · intro h masterId orderId orderId' hjob hjob'
    exact (h masterId orderId' hjob').1 orderId hjob
  · intro h masterId orderId hjob
    refine ⟨fun orderId' hjob' => h masterId orderId' orderId hjob' hjob, ?_⟩
    obtain ⟨first, hfirst, hjob'⟩ := getCurrentJob_isSome hjob
    rw [hfirst, h masterId first orderId hjob' hjob]

/-- Masters without jobs. -/
theorem oneJobEach_of_idle (h : ∀ job ∈ db.jobs, ¬ job.status.Active) : OneJobEach db := by
  intro masterId orderId hjob
  obtain ⟨job, hjob, -, hactive⟩ := hjob
  exact absurd hactive (h job (List.mem_of_getElem? hjob))

end State

/-! ### One statement -/

section Step

variable {env : Env} {me : ℕ} {x : Input} {k : Call} {db : Db} {o : Outcome Db Call}

/-- Only `acceptOffer` writes ASSIGNED; every other write of an active status finds
the order active. -/
theorem active_of_write (hk : k.Knows db me) {w : JobWrite} {job : Job} (hw : k.Writes w)
    (hmatched : ∀ s ∈ w.whereStatus, job.status = s) (hactive : w.status.Active) :
    (w.masterId = none ∧ job.status.Active) ∨
      ∃ dispatchId masterId dispatch order,
        k = ⟨.acceptOffer dispatchId masterId, .accepting dispatch order⟩ ∧
        w.orderId = dispatch.orderId ∧ w.masterId = some masterId := by
  cases hw with
  | updateDraft => exact absurd hactive not_active_draft
  | diagnose => exact absurd hactive not_active_priced
  | submit => exact absurd hactive not_active_searching
  | @lifecycle l order =>
      have hsnapshot : job.status = order.status := hmatched _ rfl
      have htarget : l.spec.target ≠ .assigned := by cases l <;> simp [Lifecycle.spec]
      exact Or.inl ⟨rfl, hsnapshot ▸ active_of_canTransition hk hactive htarget⟩
  | accept => exact Or.inr ⟨_, _, _, _, rfl, rfl, rfl⟩
  | failSearch => exact absurd hactive not_active_expired

/-- A job after a statement is a job from before it, or the call has committed an
`acceptOffer`. -/
theorem hasJob_after (h : Stmt env me x db k o) (hk : k.Knows db me) {masterId : UserId}
    {orderId : OrderId} (hjob : o.store.HasJob masterId orderId) :
    db.HasJob masterId orderId ∨
      ∃ dispatchId dispatch order,
        k = ⟨.acceptOffer dispatchId masterId, .accepting dispatch order⟩ ∧
        dispatch.orderId = orderId := by
  obtain ⟨job', hjob', hm, hactive⟩ := hjob
  rcases h.jobs.job_after hjob' with hkept | ⟨-, rfl⟩ | ⟨w, job, hw, rfl, hjob, hmatched, rfl⟩
  · exact Or.inl ⟨job', hkept, hm, hactive⟩
  · exact absurd hactive (by decide)
  · rcases active_of_write hk hw hmatched hactive with
      ⟨hnone, hactive'⟩ | ⟨d, m, dispatch, order, rfl, hid, hsome⟩
    · exact Or.inl ⟨job, hjob, by simpa [JobWrite.apply, hnone] using hm, hactive'⟩
    · obtain rfl : m = masterId := by simpa [JobWrite.apply, hsome] using hm
      exact Or.inr ⟨d, dispatch, order, rfl, hid.symm⟩

/-- The commit of an `acceptOffer` gives its master the order, which nobody had, and
takes no job away. -/
theorem hasJob_accept {dispatchId : DispatchId} {masterId : UserId} {dispatch : OrderDispatch}
    {order : Order}
    (h : Stmt env me x db ⟨.acceptOffer dispatchId masterId, .accepting dispatch order⟩ o)
    (hk : Call.Knows db me ⟨.acceptOffer dispatchId masterId, .accepting dispatch order⟩)
    (hfail : x.fail = false) :
    o.store.HasJob masterId dispatch.orderId ∧
      ∀ m id, db.HasJob m id → id ≠ dispatch.orderId ∧ o.store.HasJob m id := by
  obtain ⟨-, -, hrow, hsearching⟩ := hk
  have hfound := Db.jobs_of_order hrow
  have hlt := (List.getElem?_eq_some_iff.mp hfound).1
  have hjobs : o.store.jobs =
      db.jobs.set dispatch.orderId ⟨.assigned, some masterId, order.finalAmount⟩ := by
    rw [h.accept_eq hfail]
    exact acceptWrite_jobs hrow
  constructor
  · refine ⟨⟨.assigned, some masterId, order.finalAmount⟩, ?_, rfl, active_assigned⟩
    rw [hjobs, List.getElem?_set_self hlt]
  · intro m id hjob
    obtain ⟨job, hjob, hm, hactive⟩ := hjob
    have hne : id ≠ dispatch.orderId := by
      intro heq
      obtain rfl := heq
      obtain rfl := Option.some.inj (hjob.symm.trans hfound)
      exact not_active_searching (hsearching ▸ hactive)
    refine ⟨hne, job, ?_, hm, hactive⟩
    rw [hjobs, List.getElem?_set_ne hne.symm]
    exact hjob

/-- A statement leaves every master with at most one job if and only if it is not the
commit of an `acceptOffer` by a busy master. -/
theorem oneJobEach_step (h : Stmt env me x db k o) (hk : k.Knows db me)
    (hfails : x.fail = true → o = k.goto (db.unlock me) (.threw .infrastructure))
    (hone : OneJobEach db) :
    OneJobEach o.store ↔ (x.fail = false → ∀ dispatchId masterId dispatch order,
      k = ⟨.acceptOffer dispatchId masterId, .accepting dispatch order⟩ →
      db.isBusy masterId = false) := by
  rw [oneJobEach_iff_unique] at hone ⊢
  constructor
  · -- A busy master who commits has two jobs.
    intro hone' hfail dispatchId masterId dispatch order heq
    obtain rfl := heq
    rw [← Bool.not_eq_true, isBusy_iff]
    intro hbusy
    obtain ⟨orderId, hjob⟩ := hbusy
    obtain ⟨hnew, hold⟩ := hasJob_accept h hk hfail
    obtain ⟨hne, hjob'⟩ := hold masterId orderId hjob
    exact hne (hone' masterId orderId dispatch.orderId hjob' hnew)
  · intro hfree masterId orderId orderId' hjob hjob'
    cases hx : x.fail with
    | true =>
        rw [hfails hx] at hjob hjob'
        exact hone masterId orderId orderId' hjob hjob'
    | false =>
        -- A job that is new belongs to a master who had none.
        have hnone : ∀ {dispatchId dispatch order},
            k = ⟨.acceptOffer dispatchId masterId, .accepting dispatch order⟩ →
            ∀ id, ¬ db.HasJob masterId id := by
          intro dispatchId dispatch order hke id hid
          have hbusy := isBusy_iff.mpr ⟨id, hid⟩
          rw [hfree hx _ _ _ _ hke] at hbusy
          exact absurd hbusy (by simp)
        rcases hasJob_after h hk hjob with hold | ⟨d, dispatch, order, hke, rfl⟩ <;>
          rcases hasJob_after h hk hjob' with hold' | ⟨d', dispatch', order', hke', rfl⟩
        · exact hone masterId orderId orderId' hold hold'
        · exact absurd hold (hnone hke' _)
        · exact absurd hold' (hnone hke _)
        · cases hke.symm.trans hke'
          rfl

end Step

/-! ### Whole runs -/

section Run

variable {env : Env} {db : Db} {c' : Config Db Call} {ts : List (Transition Db Call Input)}

theorem oneJobEach_fires {t : Transition Db Call Input} (ht : (orders env).Fires t)
    (hknows : ∀ (i : ℕ) (k : Call), t.pre.calls[i]? = some k → k.Knows t.pre.store i)
    (hone : OneJobEach t.pre.store) : OneJobEach t.post.store ↔ AcceptsWhenFree t := by
  rcases stmt_of_fires ht with ⟨k, he, -, hpost⟩ | ⟨i, x, k, o, he, hi, -, h, hfails, hpost⟩
  · rw [hpost]
    exact iff_of_true hone (Transition.satisfies_start he)
  · rw [hpost, AcceptsWhenFree, Transition.satisfies_iff he hi]
    exact oneJobEach_step h (hknows i k hi) hfails hone

/-- **No master ever holds two jobs if and only if every `acceptOffer` is committed
while its master has none.** -/
theorem oneJobEach_iff (hrun : (orders env).Run ⟨db, []⟩ ts c') (h0 : OneJobEach db) :
    (∀ t ∈ ts, OneJobEach t.post.store) ↔ ∀ t ∈ ts, AcceptsWhenFree t := by
  have hknows := (knows_of_run hrun).2
  exact hrun.invariant_iff (fun c => OneJobEach c.store) AcceptsWhenFree h0 fun t ht =>
    oneJobEach_fires (hrun.fires t ht) (hknows t ht)

end Run

/-! ### Two offers of one master -/

/-- Two quoted orders of customer 0, and one master, who is online and in range. -/
def twoQuoted : Db :=
  let order : Order :=
    { customerId := 0, categoryId := some 0, description := "", status := .priced
      serviceTier := .emergency, latitude := some 0, longitude := some 0
      complexity := some .simple }
  { users := [⟨.active, .customer⟩, ⟨.active, .master⟩]
    masters := [{ userId := 1, verificationStatus := .verified, trustTier := 0, ratingAvg := 5
                  jobsDone := 0, isOnline := true }]
    categories := [{ basePriceMin := 100000, basePriceMax := 200000, active := true }]
    skills := [⟨1, 0⟩]
    serviceAreas := [⟨1, (0, 0), 5000⟩]
    orders := [order, order] }

/-- Both orders are submitted and offered to the master, who accepts both offers. -/
def acceptBoth : List (Event Call Input) :=
  [.start ⟨.submit 0 0, .start⟩, .run 0 {}, .run 0 {}, .run 1 {}, .run 1 {}, .run 1 {}, .run 1 {},
    .start ⟨.submit 0 1, .start⟩, .run 2 {}, .run 2 {}, .run 3 {}, .run 3 {}, .run 3 {}, .run 3 {},
    .start ⟨.acceptOffer 0 1, .start⟩, .run 4 {}, .run 4 {}, .run 4 {}, .run 4 {}, .run 4 {},
    .start ⟨.acceptOffer 1 1, .start⟩, .run 5 {}, .run 5 {}, .run 5 {}, .run 5 {}, .run 5 {}]

theorem oneJobEach_twoQuoted : OneJobEach twoQuoted :=
  oneJobEach_of_idle (by decide)

theorem oneJobEach_iff_acceptBoth :
    (∀ t ∈ (orders .flat).trace ⟨twoQuoted, []⟩ acceptBoth, OneJobEach t.post.store) ↔
      ∀ t ∈ (orders .flat).trace ⟨twoQuoted, []⟩ acceptBoth, AcceptsWhenFree t :=
  oneJobEach_iff ((orders .flat).run_trace _ _) oneJobEach_twoQuoted

/-- The master ends up with both orders. -/
theorem not_oneJobEach_always :
    ¬ ∀ (env : Env) (db : Db) (ts : List (Transition Db Call Input)) (c' : Config Db Call),
      (orders env).Run ⟨db, []⟩ ts c' → OneJobEach db → ∀ t ∈ ts, OneJobEach t.post.store := by
  intro h
  have hrun := (orders .flat).run_trace ⟨twoQuoted, []⟩ acceptBoth
  have hone := hrun.last (I := fun c => OneJobEach c.store) oneJobEach_twoQuoted
    (h .flat twoQuoted _ _ hrun oneJobEach_twoQuoted)
  have hjobs : ((orders .flat).after ⟨twoQuoted, []⟩ acceptBoth).store.jobs =
      [⟨.assigned, some 1, none⟩, ⟨.assigned, some 1, none⟩] := by
    decide +kernel
  have h0 : ((orders .flat).after ⟨twoQuoted, []⟩ acceptBoth).store.HasJob 1 0 :=
    ⟨_, by rw [hjobs]; rfl, rfl, active_assigned⟩
  have h1 : ((orders .flat).after ⟨twoQuoted, []⟩ acceptBoth).store.HasJob 1 1 :=
    ⟨_, by rw [hjobs]; rfl, rfl, active_assigned⟩
  exact absurd ((hone 1 0 h0).1 1 h1) (by decide)

end Handly
