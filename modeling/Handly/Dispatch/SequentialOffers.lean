import Handly.Orders.TransitionTable
import Handly.Dispatch.OpenOffers

/-!
# One offer at a time

An order is offered to one master after the other. What makes the offers sequential
is a right that is never duplicated: an editable order may be submitted, a submitted
order has one cascade in flight or one OFFERED dispatch, and whoever claims that
dispatch runs the next cascade. `share` counts these rights for one order. The holder
of the only right is the only one to insert, so the rank it has counted is the next.
-/

namespace Handly

open Interleaving

/-- The ranks of an order's dispatches, in the order of their creation. -/
def Db.ranks (db : Db) (orderId : OrderId) : List ℕ :=
  (db.offers.filter fun f => f.orderId = orderId).map Offer.rankInCascade

/-- At most one dispatch of the order is OFFERED, and the ranks are 1, 2, …, n. -/
def Sequential (db : Db) (orderId : OrderId) : Prop :=
  db.openOffers orderId ≤ 1 ∧ ∃ n, db.ranks orderId = List.range' 1 n

/-- The calls that trigger a cascade or end one. `startDispatch` and `cascadeNext` are
not called from outside: they run as part of these. -/
def Op.IsTrigger : Op → Prop
  | .submit _ _ | .declineOffer _ _ | .handleOfferExpiry _ | .acceptOffer _ _ | .lifecycle _ => True
  | _ => False

def TriggersOnly (t : Transition Db Call Input) : Prop := ∀ k, t.event = .start k → k.op.IsTrigger

theorem triggersOnly_of_mem_trace {env : Env} {c : Config Db Call} {es : List (Event Call Input)}
    (h : ∀ k, .start k ∈ es → k.op.IsTrigger) : ∀ t ∈ (orders env).trace c es, TriggersOnly t :=
  fun _ ht k he => h k (he ▸ (orders env).event_mem_of_mem_trace ht)

/-! ### The rights -/

/-- The right to submit. -/
def Db.submittable (db : Db) (orderId : OrderId) : ℕ :=
  if ∃ job, db.jobs[orderId]? = some job ∧ job.status.Editable then 1 else 0

/-- The rights that the tables hold. -/
def Db.share (orderId : OrderId) (db : Db) : ℕ := db.submittable orderId + db.openOffers orderId

/-- The right that a call holds. -/
def Call.share (orderId : OrderId) (k : Call) : ℕ := if k.cascades = some orderId then 1 else 0

section Step

variable {env : Env} {me : ℕ} {x : Input} {k : Call} {db : Db} {o : Outcome Db Call}
  {orderId : OrderId}

variable (orderId) in
/-- Only editing calls make an order editable. -/
theorem submittable_le (h : JobEffect me db k o.store)
    (hop : k.op.IsTrigger ∨ ∃ id, k.op = .startDispatch id) :
    o.store.submittable orderId ≤ db.submittable orderId := by
  have himp : (∃ job, o.store.jobs[orderId]? = some job ∧ job.status.Editable) →
      ∃ job, db.jobs[orderId]? = some job ∧ job.status.Editable := by
    intro hsubmittable
    obtain ⟨job', hjob', heditable⟩ := hsubmittable
    rcases h.job_after hjob' with hkept | ⟨⟨_, _, hcreate⟩, -⟩ | ⟨w, job, hw, -, hjob, -, rfl⟩
    · exact ⟨job', hkept, heditable⟩
    · simp [hcreate, Op.IsTrigger] at hop
    · cases hw with
      | updateDraft | diagnose => simp [Op.IsTrigger] at hop
      | @lifecycle l order =>
          have hnot : ¬ l.spec.target.Editable := by
            cases l <;> simp [Lifecycle.spec, editable_iff]
          exact absurd heditable hnot
      | submit | accept | failSearch =>
          exact absurd heditable (by simp [JobWrite.apply, editable_iff])
  unfold Db.submittable
  split
  · rename_i hafter
    rw [if_pos (himp hafter)]
  · exact Nat.zero_le _

variable (orderId) in
/-- An offer is opened by the call that runs the cascade, and whoever claims one runs
the next cascade. -/
theorem openOffers_step (h : Stmt env me x db k o) (hk : k.Knows db me) :
    o.store.openOffers orderId + o.call.share orderId ≤
      db.openOffers orderId + k.share orderId := by
  have hshare : ∀ k' : Call, k'.share orderId ≤ 1 := by
    intro k'
    unfold Call.share
    split <;> simp
  cases h.openOffers orderId hk with
  | kept hnext hcount =>
      refine Nat.add_le_add (Nat.le_of_eq hcount) ?_
      unfold Call.share
      split
      · rename_i hsome
        rw [if_pos (hnext hsome)]
      · exact Nat.zero_le _
  | claimed hnext hcount =>
      have := hshare o.call
      omega
  | offered hpoint hunique hnext hcount =>
      have hmine : k.share orderId = 1 := by simp [Call.share, Call.cascades, hpoint]
      have hdone : o.call.share orderId = 0 := by simp [Call.share, hnext]
      omega
  | accepted hcommit hown hnext hstatus hcount =>
      have hdone : o.call.share orderId = 0 := by simp [Call.share, hnext]
      omega

/-- A cascade is started by the call that submits, and an order is submitted once. -/
theorem submittable_step (h : Stmt env me x db k o)
    (hop : k.op.IsTrigger ∨ ∃ id, k.op = .startDispatch id)
    (hfinds : k.FindsEditable db) :
    o.store.submittable orderId + (o.spawned.map (Call.share orderId)).sum ≤
      db.submittable orderId := by
  have hsub := submittable_le orderId h.jobs hop
  by_cases hspawn : o.spawned = []
  · simpa [hspawn] using hsub
  · cases h with
    | @submit customerId submitted order row hrow hlock =>
        have hshare : Call.share orderId ⟨.startDispatch submitted, .start⟩ =
          if submitted = orderId then 1 else 0 := by simp [Call.share, Call.cascades]
        simp only [List.map_cons, List.map_nil, List.sum_cons, List.sum_nil, hshare] at hsub ⊢
        by_cases hid : submitted = orderId
        · -- The order was PRICED and is SEARCHING: the right to submit is used up.
          subst hid
          have hpriced : row.status = .priced := by
            exact hfinds row.status (by simp [Db.statusOf, hrow])
          have hbefore : db.submittable submitted = 1 := by
            rw [Db.submittable, if_pos]
            exact ⟨row.job, Db.jobs_of_order hrow, by simp [Order.job, hpriced, editable_iff]⟩
          have hafter :
              (submitWrite db me x.now customerId submitted order).submittable submitted = 0 := by
            rw [Db.submittable, if_neg]
            intro hsubmittable
            obtain ⟨job, hjob, heditable⟩ := hsubmittable
            have hlt := (List.getElem?_eq_some_iff.mp (Db.jobs_of_order hrow)).1
            rw [submitWrite_jobs hrow, List.getElem?_set_self hlt] at hjob
            obtain rfl := Option.some.inj hjob
            exact absurd heditable (by simp [editable_iff])
          rw [hafter, hbefore, if_pos rfl]
          exact le_rfl
        · simpa [hid] using hsub
    | _ => simp at hspawn

/-- **No statement duplicates a right.** -/
theorem share_step (h : Stmt env me x db k o) (hk : k.Knows db me)
    (hfails : x.fail = true → o = k.goto (db.unlock me) (.threw .infrastructure))
    (hop : k.op.IsTrigger ∨ ∃ id, k.op = .startDispatch id)
    (hfinds : x.fail = false → k.FindsEditable db) :
    o.store.share orderId + o.call.share orderId + (o.spawned.map (Call.share orderId)).sum ≤
      db.share orderId + k.share orderId := by
  have hopen := openOffers_step orderId h hk
  have hsubmit : o.store.submittable orderId + (o.spawned.map (Call.share orderId)).sum ≤
      db.submittable orderId := by
    cases hx : x.fail with
    | true =>
        rw [hfails hx]
        exact le_rfl
    | false => exact submittable_step h hop (hfinds hx)
  simp only [Db.share]
  omega

/-! ### Ranks -/

/-- A call that is about to insert a dispatch of the order has counted all there
are. -/
def Call.RankKnown (orderId : OrderId) (db : Db) (k : Call) : Prop :=
  match k.pc with
  | .cascadeQuery id _ _ _ rankSoFar | .cascadeCreate id _ _ rankSoFar _ =>
      id = orderId → rankSoFar = (db.ranks orderId).length
  | _ => True

theorem countDispatches_eq_length : db.countDispatches orderId = (db.ranks orderId).length := by
  rw [Db.countDispatches, List.countP_eq_length_filter, Db.ranks, Db.offers, List.filter_map,
    List.length_map, List.length_map]
  rfl

variable (orderId) in
/-- Only the insert of this order's cascade changes its ranks. -/
theorem ranks_step (h : Stmt env me x db k o) :
    o.store.ranks orderId = db.ranks orderId ∨
      ∃ attempt order rankSoFar picked,
        k.pc = .cascadeCreate orderId attempt order rankSoFar picked ∧
        o.store.ranks orderId = db.ranks orderId ++ [rankSoFar + 1] := by
  rcases h.offers with he | ⟨id, attempt, order, rankSoFar, picked, hpc, he⟩
  · exact Or.inl (by rw [Db.ranks, he]; rfl)
  · by_cases hid : id = orderId
    · subst hid
      exact Or.inr ⟨attempt, order, rankSoFar, picked, hpc, by simp [Db.ranks, he]⟩
    · exact Or.inl (by simp [Db.ranks, he, hid])

/-- The ranks 1, 2, …, n grow by the next one. -/
theorem ranks_consecutive_step (h : Stmt env me x db k o) (hk : k.RankKnown orderId db)
    (hranks : ∃ n, db.ranks orderId = List.range' 1 n) :
    ∃ n, o.store.ranks orderId = List.range' 1 n := by
  obtain ⟨n, hn⟩ := hranks
  rcases ranks_step orderId h with he | ⟨attempt, order, rankSoFar, picked, hpc, he⟩
  · exact ⟨n, he.trans hn⟩
  · have hrank : rankSoFar = n := by
      simp only [Call.RankKnown, hpc] at hk
      rw [hk trivial, hn, List.length_range']
    refine ⟨n + 1, ?_⟩
    rw [he, hn, hrank, List.range'_concat]
    simp [add_comm]

theorem rankKnown_own (h : Stmt env me x db k o) (hk : k.RankKnown orderId db) :
    o.call.RankKnown orderId o.store := by
  cases h with
  | reads hr =>
      cases hr with
      | cascadeCounts => exact fun hid => by rw [hid, countDispatches_eq_length]
      | cascadePicks => exact hk
      | _ => trivial
  | _ => trivial

/-- Two calls that are about to insert would hold two rights. -/
theorem rankKnown_other (h : Stmt env me x db k o) {k' : Call}
    (hone : k.share orderId + k'.share orderId ≤ 1) (hk' : k'.RankKnown orderId db) :
    k'.RankKnown orderId o.store := by
  rcases ranks_step orderId h with he | ⟨attempt, order, rankSoFar, picked, hpc, -⟩
  · unfold Call.RankKnown at hk' ⊢
    rw [he]
    exact hk'
  · have hmine : k.share orderId = 1 := by simp [Call.share, Call.cascades, hpc]
    have hother : k'.share orderId = 0 := by omega
    unfold Call.RankKnown
    split
    · rename_i hpc'
      intro hid
      simp [Call.share, Call.cascades, hpc', hid] at hother
    · rename_i hpc'
      intro hid
      simp [Call.share, Call.cascades, hpc', hid] at hother
    · trivial

end Step

/-! ### Whole runs -/

/-- While the rights to an order are at most one, its ranks stay consecutive. -/
def consecutive (env : Env) (orderId : OrderId) :
    Outline (orders env) fun t => potential (Db.share orderId) (Call.share orderId) t.pre ≤ 1 where
  G db := ∃ n, db.ranks orderId = List.range' 1 n
  L db _ k := k.RankKnown orderId db
  start t me k _ _ hentry _ := by
    obtain ⟨op, pc⟩ := k
    cases pc <;> trivial
  own t me x k o _ he hk hstep hpost hG hknown := by
    obtain ⟨-, h, -⟩ := step_cases hstep
    refine ⟨ranks_consecutive_step h hknown hG, rankKnown_own h hknown, fun j k' hk' => ?_⟩
    obtain ⟨op, pc⟩ := k'
    obtain rfl : pc = .start := h.spawned_start _ hk'
    trivial
  others t me x k o j k' hC he hk hstep hk' hne hG hknown hknown' := by
    obtain ⟨-, h, -⟩ := step_cases hstep
    have htwo := add_le_potential (f := Db.share orderId) (g := Call.share orderId) hk hk' hne
    exact rankKnown_other h (by omega) hknown'

/-- The calls of such a run. -/
def triggered (env : Env) : Outline (orders env) TriggersOnly where
  G _ := True
  L _ _ k := k.op.IsTrigger ∨ ∃ id, k.op = .startDispatch id
  start _ _ k hC he _ _ := Or.inl (hC k he)
  own t me x k o _ he hk hstep hpost _ hop := by
    obtain ⟨-, h, -⟩ := step_cases hstep
    rw [h.op_eq]
    refine ⟨trivial, hop, fun j k' hk' => Or.inr ?_⟩
    cases h with
    | @submit customerId orderId =>
        obtain rfl := List.mem_singleton.mp hk'
        exact ⟨orderId, rfl⟩
    | _ => simp at hk'
  others t me x k o j k' _ he hk hstep hk' hne _ _ hop := hop

section Run

variable {env : Env} {db : Db} {c' : Config Db Call} {ts : List (Transition Db Call Input)}

/-- There is never more than one right for an order. -/
theorem share_run (hrun : (orders env).Run ⟨db, []⟩ ts c') (hstarts : ∀ t ∈ ts, TriggersOnly t)
    (hfinds : ∀ t ∈ ts, WriteFindsEditable t) (hnew : db.dispatches = []) (orderId : OrderId) :
    ∀ t ∈ ts, potential (Db.share orderId) (Call.share orderId) t.pre ≤ 1 ∧
      potential (Db.share orderId) (Call.share orderId) t.post ≤ 1 := by
  have hknows := (knows_of_run hrun).2
  obtain ⟨-, htriggered⟩ := (triggered env).holds_run hrun hstarts
    ⟨trivial, fun i k hk => by simp at hk⟩
  refine (potential_run_le (C := fun t => t ∈ ts) (Db.share orderId) (Call.share orderId) ?_ ?_ hrun
    (fun _ ht => ht) ?_).2
  · intro t k hts he hentry
    have hop := hstarts t hts k he
    obtain ⟨op, pc⟩ := k
    cases pc with
    | start => cases op <;> first | rfl | exact hop.elim
    | _ => simp [orders, Call.isStart] at hentry
  · intro t i x k o ht hts he hk hstep
    obtain ⟨-, h, hfails⟩ := step_cases hstep
    exact share_step h (hknows t hts i k hk) hfails ((htriggered t hts).1.2 i k hk)
      ((Transition.satisfies_iff he hk).mp (hfinds t hts))
  · simp only [potential, Db.share, Db.submittable, Db.openOffers, hnew]
    split <;> simp

/-- **Offers are sequential** as long as every submit finds its order PRICED. -/
theorem sequential_of_run (hrun : (orders env).Run ⟨db, []⟩ ts c')
    (hstarts : ∀ t ∈ ts, TriggersOnly t) (hfinds : ∀ t ∈ ts, WriteFindsEditable t)
    (hnew : db.dispatches = []) : ∀ t ∈ ts, ∀ orderId, Sequential t.post.store orderId := by
  intro t ht orderId
  have hshare := share_run hrun hstarts hfinds hnew orderId
  obtain ⟨-, hranks⟩ := (consecutive env orderId).holds_run hrun (fun t ht => (hshare t ht).1)
    ⟨⟨0, by simp [Db.ranks, Db.offers, hnew]⟩, fun i k hk => by simp at hk⟩
  refine ⟨?_, (hranks t ht).2.1⟩
  calc t.post.store.openOffers orderId ≤ Db.share orderId t.post.store := Nat.le_add_left _ _
    _ ≤ potential (Db.share orderId) (Call.share orderId) t.post := Nat.le_add_right _ _
    _ ≤ 1 := (hshare t ht).2

end Run

/-! ### A double-tapped submit -/

/-- A quoted order of customer 0, and two masters, who are online and in range. -/
def quotedForTwo : Db where
  users := [⟨.active, .customer⟩, ⟨.active, .master⟩, ⟨.active, .master⟩]
  masters :=
    [{ userId := 1, verificationStatus := .verified, trustTier := 0, ratingAvg := 5, jobsDone := 0
       isOnline := true },
     { userId := 2, verificationStatus := .verified, trustTier := 0, ratingAvg := 5, jobsDone := 0
       isOnline := true }]
  categories := [{ basePriceMin := 100000, basePriceMax := 200000, active := true }]
  skills := [⟨1, 0⟩, ⟨2, 0⟩]
  serviceAreas := [⟨1, (0, 0), 5000⟩, ⟨2, (0, 0), 5000⟩]
  orders :=
    [{ customerId := 0, categoryId := some 0, description := "", status := .priced
       serviceTier := .emergency, latitude := some 0, longitude := some 0
       complexity := some .simple }]

theorem sequential_quotedForTwo : Sequential quotedForTwo 0 := ⟨by decide, 0, rfl⟩

/-- One submit, whose cascade makes the first offer. -/
def submitOnce : List (Event Call Input) :=
  [.start ⟨.submit 0 0, .start⟩, .run 0 {}, .run 0 {}, .run 1 {}, .run 1 {}, .run 1 {}, .run 1 {}]

theorem sequential_submitOnce :
    Sequential ((orders .flat).after ⟨quotedForTwo, []⟩ submitOnce).store 0 := by
  have hrun := (orders .flat).run_trace ⟨quotedForTwo, []⟩ submitOnce
  exact hrun.last (I := fun c => Sequential c.store 0) sequential_quotedForTwo fun t ht =>
    sequential_of_run hrun (triggersOnly_of_mem_trace (by simp [submitOnce, Op.IsTrigger]))
      (by decide +kernel) rfl t ht 0

/-- Both submits read the order PRICED, and both cascades make an offer. -/
def submitTwice : List (Event Call Input) :=
  [.start ⟨.submit 0 0, .start⟩, .start ⟨.submit 0 0, .start⟩, .run 0 {}, .run 1 {}, .run 0 {},
    .run 1 {}, .run 2 {}, .run 2 {}, .run 2 {}, .run 3 {}, .run 3 {}, .run 3 { random := 1 },
    .run 2 {}, .run 3 {}]

/-- Two dispatches are OFFERED, both of rank 1. -/
theorem not_sequential_always :
    ¬ ∀ (env : Env) (db : Db) (ts : List (Transition Db Call Input)) (c' : Config Db Call),
      (orders env).Run ⟨db, []⟩ ts c' → (∀ t ∈ ts, TriggersOnly t) → db.dispatches = [] →
      ∀ t ∈ ts, ∀ orderId, Sequential t.post.store orderId := by
  intro h
  have hrun := (orders .flat).run_trace ⟨quotedForTwo, []⟩ submitTwice
  have hseq := hrun.last (I := fun c => Sequential c.store 0) sequential_quotedForTwo fun t ht =>
    h .flat quotedForTwo _ _ hrun
      (triggersOnly_of_mem_trace (by simp [submitTwice, Op.IsTrigger])) rfl t ht 0
  have htwo : ((orders .flat).after ⟨quotedForTwo, []⟩ submitTwice).store.openOffers 0 = 2 := by
    decide +kernel
  have hone := hseq.1
  rw [htwo] at hone
  exact absurd hone (by decide)

end Handly
