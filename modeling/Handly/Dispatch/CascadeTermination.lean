import Handly.Dispatch.SequentialOffers
import Handly.Orders.Profiles

/-!
# Every cascade comes to an end

`cascadeNext` calls itself with the same arguments when another cascade has offered the order
to the picked master in the meantime. The query never yields a master who has been offered
the order, so each such retry uses up one of the masters who had not been, and the one
escalation to the expanded radius comes on top. When the call returns, it has made one offer,
has handed over to `failSearch`, or had nothing to do.
-/

namespace Handly

open Interleaving

/-! ### What a cascade does -/

/-- The masters who have not been offered the order. -/
def Db.undispatched (db : Db) (orderId : OrderId) : ℕ :=
  db.masterIds.countP fun m => !alreadyOffered db orderId m

/-- What a call of `cascadeNext` can do. -/
inductive CascadeDeed
  /-- It inserts the dispatch `dispatchId` of the master. -/
  | offers (masterId : UserId) (dispatchId : DispatchId)
  /-- It puts the expiry job of this dispatch into the queue. -/
  | enqueues (dispatchId : DispatchId)
  /-- It calls `failSearch`. -/
  | failsSearch (reason : String)
  /-- It returns because the order is missing or not SEARCHING. -/
  | stops
  deriving DecidableEq

/-- What the statement between these two points of a call does. -/
def Pc.deed (pc pc' : Pc) : Option CascadeDeed :=
  match pc, pc' with
  | .cascadeCreate _ _ _ _ picked, .cascadeEnqueue _ _ _ dispatchId =>
      some (.offers picked.masterId dispatchId)
  | .cascadeEnqueue _ _ _ dispatchId, .after _ _ => some (.enqueues dispatchId)
  | .start, .failSearch _ reason | .cascade _ _, .failSearch _ reason
  | .cascadeQuery _ _ _ _ _, .failSearch _ reason => some (.failsSearch reason)
  | .start, .returned | .cascade _ _, .returned => some .stops
  | _, _ => none

/-- What the call `i` does in the transition. -/
def cascadeDeed (i : ℕ) (t : Transition Db Call Input) : Option CascadeDeed :=
  if t.IsBy i then
    t.caller.bind fun k => t.callerAfter.bind fun k' => k.pc.deed k'.pc
  else none

/-- `cascadeNext` is entered next. -/
def Pc.isCascade (pc : Pc) : Bool := pc matches .cascade _ _

/-- The call `i` calls `cascadeNext` again. -/
def recurses (i : ℕ) (t : Transition Db Call Input) : Bool :=
  decide (t.IsBy i) && t.callerAfter.any fun k => k.pc.isCascade

/-- What a deed means for the store, when the call that does it stands at `pc` and its clock
shows `now`. -/
def CascadeDeed.Happens (env : Env) (orderId : OrderId) (now : Time) (pc : Pc) (s s' : Db) :
    CascadeDeed → Prop
  | .offers masterId dispatchId => alreadyOffered s orderId masterId = false ∧
      dispatchId = s.dispatches.length ∧ ∃ row, s' = s.createDispatch row ∧
        row.orderId = orderId ∧ row.masterId = masterId ∧ row.status = .offered
  | .enqueues dispatchId => s'.dispatches = s.dispatches ∧ ∃ order picked,
      pc = .cascadeEnqueue orderId order picked dispatchId ∧
        s'.queue = s.queue ++
          [{ dispatchId, runAt := now + offerTtlSeconds env order.serviceTier * 1000 }]
  | .failsSearch reason => s' = s ∧
      ((reason = "missing category or location" ∧ s.statusOf orderId = some .searching ∧
          ∀ order ∈ s.orders[orderId]?, order.categoryId = none ∨ order.location = none) ∨
        (reason = "pool exhausted after radius expansion" ∧ ∃ order categoryId rankSoFar,
          pc = .cascadeQuery orderId .two order categoryId rankSoFar ∧
            cascadeCandidates env s now orderId .two order categoryId = []))
  | .stops => s' = s ∧ s.statusOf orderId ≠ some .searching

/-- The deeds of a call that has returned: an offer with its expiry job, a handover to
`failSearch`, or none because there was nothing to do. -/
inductive Definite : List CascadeDeed → Prop
  | offered (masterId : UserId) (dispatchId : DispatchId) :
      Definite [.offers masterId dispatchId, .enqueues dispatchId]
  | failed (reason : String) : Definite [.failsSearch reason]
  | stopped : Definite [.stops]

/-- The call `i`, which enters `cascadeNext` when `undispatched` masters have not been offered
the order, comes to a definite end in these transitions and after them. -/
structure CascadeEnds (env : Env) (orderId : OrderId) (undispatched i : ℕ)
    (ts : List (Transition Db Call Input)) (c' : Config Db Call) : Prop where
  recursions : ts.countP (recurses i) ≤ undispatched + 1
  /-- It has finished after at most this many statements. -/
  statements : ts.countP (fun t => t.IsBy i) ≤ 4 * (undispatched + 1) + 8
  unfinished : ∀ k, c'.calls[i]? = some k → ¬ k.Finished →
    ts.countP (fun t => t.IsBy i) < 4 * (undispatched + 1) + 8
  /-- It waits for nothing but the lock of the order row. -/
  proceeds : ∀ k x, c'.calls[i]? = some k → ¬ k.Finished → step env i x k c'.store = none →
    (c'.store.orderLock orderId).isSome
  /-- What it does is what the deeds say. -/
  happens : ∀ t ∈ ts, ∀ deed, cascadeDeed i t = some deed → ∃ x k,
    t.event = .run i x ∧ t.pre.calls[i]? = some k ∧
      deed.Happens env orderId x.now k.pc t.pre.store t.post.store
  /-- Nothing else that it does inserts a dispatch or a job. -/
  quiet : ∀ t ∈ ts, t.IsBy i →
    ((∀ m d, cascadeDeed i t ≠ some (.offers m d)) →
      t.post.store.dispatches = t.pre.store.dispatches) ∧
    ((∀ d, cascadeDeed i t ≠ some (.enqueues d)) → t.post.store.queue = t.pre.store.queue)
  definite : ∀ op, c'.calls[i]? = some ⟨op, .returned⟩ → Definite (ts.filterMap (cascadeDeed i))

/-! ### What is left to do -/

/-- The escalations left. -/
def Attempt.escalations : Attempt → ℕ
  | .one => 1
  | .two => 0

/-- The masters other than `picked` who have not been offered the order. -/
def Db.undispatchedBut (db : Db) (orderId : OrderId) (picked : UserId) : ℕ :=
  db.masterIds.countP fun m => m ≠ picked && !alreadyOffered db orderId m

/-- How often the call can still call itself. -/
def Call.recursionsLeft (k : Call) (db : Db) : ℕ :=
  match k.pc, k.op with
  | .start, .startDispatch orderId => db.undispatched orderId + 1
  | .start, .cascadeNext orderId attempt | .cascade orderId attempt, _
  | .cascadeCount orderId attempt _ _, _ | .cascadeQuery orderId attempt _ _ _, _ =>
      db.undispatched orderId + attempt.escalations
  | .cascadeCreate orderId attempt _ _ picked, _ =>
      db.undispatchedBut orderId picked.masterId + 1 + attempt.escalations
  | _, _ => 0

/-- The statements from here to the end, without those of further recursions. -/
def Pc.depth : Pc → ℕ
  | .start | .cascade _ _ => 8
  | .cascadeCount _ _ _ _ => 7
  | .cascadeQuery _ _ _ _ _ => 6
  | .cascadeCreate _ _ _ _ _ | .failSearch _ _ => 5
  | .cascadeEnqueue _ _ _ _ | .failSearchWrite _ _ _ => 4
  | .failSearchHistory _ _ _ => 3
  | .after todo _ => todo.length + 1
  | _ => 0

/-- How many statements the call can still run. -/
def Call.statementsLeft (k : Call) (db : Db) : ℕ := 4 * k.recursionsLeft db + k.pc.depth

/-- The call is in `cascadeNext` for the order, or past it. -/
def Call.InCascade (orderId : OrderId) (k : Call) : Prop :=
  match k.pc, k.op with
  | .start, .startDispatch id | .start, .cascadeNext id _ => id = orderId
  | .cascade id _, _ | .cascadeCount id _ _ _, _ | .cascadeQuery id _ _ _ _, _
  | .cascadeCreate id _ _ _ _, _ | .cascadeEnqueue id _ _ _, _ | .failSearch id _, _
  | .failSearchWrite id _ _, _ | .failSearchHistory id _ _, _ => id = orderId
  | .after _ none, _ | .returned, _ | .threw _, _ => True
  | _, _ => False

section Statements

variable {env : Env} {me : ℕ} {x : Input} {k : Call} {db : Db} {o : Outcome Db Call}
  {orderId : OrderId}

theorem alreadyOffered_eq_offers (db : Db) (orderId : OrderId) (masterId : UserId) :
    alreadyOffered db orderId masterId =
      db.offers.any fun f => f.orderId = orderId ∧ f.masterId = masterId := by
  rw [Db.offers, List.any_map]
  rfl

/-- No offer is taken back. -/
theorem Stmt.alreadyOffered_stays (h : Stmt env me x db k o) {masterId : UserId}
    (hoffered : alreadyOffered db orderId masterId = true) :
    alreadyOffered o.store orderId masterId = true := by
  rw [alreadyOffered_eq_offers] at hoffered ⊢
  rcases h.offers with he | ⟨_, _, _, _, _, -, he⟩
  · rw [he]
    exact hoffered
  · rw [he, List.any_append, hoffered, Bool.true_or]

variable (orderId) in
/-- Whoever is counted after a statement was counted before it. -/
theorem Stmt.countP_undispatched_le (h : Stmt env me x db k o) (p : UserId → Bool) :
    (o.store.masterIds.countP fun m => p m && !alreadyOffered o.store orderId m) ≤
      db.masterIds.countP fun m => p m && !alreadyOffered db orderId m := by
  rw [h.masterIds]
  refine List.countP_mono_left fun m _ hm => ?_
  obtain ⟨hp, hfree⟩ := Bool.and_eq_true_iff.mp hm
  rw [hp, Bool.true_and]
  cases hoffered : alreadyOffered db orderId m with
  | false => rfl
  | true => simp [h.alreadyOffered_stays hoffered] at hfree

theorem Stmt.undispatched_le (h : Stmt env me x db k o) :
    o.store.undispatched orderId ≤ db.undispatched orderId := by
  simpa [Db.undispatched] using h.countP_undispatched_le orderId fun _ => true

/-- A statement of another call takes nothing from what a call has left at most. -/
theorem Stmt.recursionsLeft_other (h : Stmt env me x db k o) (k' : Call) :
    k'.recursionsLeft o.store ≤ k'.recursionsLeft db := by
  unfold Call.recursionsLeft
  split
  · exact Nat.add_le_add_right h.undispatched_le _
  · exact Nat.add_le_add_right h.undispatched_le _
  · exact Nat.add_le_add_right h.undispatched_le _
  · exact Nat.add_le_add_right h.undispatched_le _
  · exact Nat.add_le_add_right h.undispatched_le _
  · exact Nat.add_le_add_right (Nat.add_le_add_right (h.countP_undispatched_le _ _) _) _
  · exact le_rfl

/-- The picked master has not been offered the order, and is one of those counted. -/
theorem undispatchedBut_lt {now : Time} {attempt : Attempt} {order : Order}
    {categoryId : CategoryId} {picked : EligibleCandidate}
    (h : picked ∈ cascadeCandidates env db now orderId attempt order categoryId) :
    db.undispatchedBut orderId picked.masterId + 1 ≤ db.undispatched orderId := by
  obtain ⟨m, hm, hid, helig⟩ := eligible_of_mem h
  have hfree : alreadyOffered db orderId picked.masterId = false := by
    simp only [masterEligible, Bool.and_eq_true, Bool.not_eq_true'] at helig
    rw [← hid]
    exact helig.1.1.2
  have hmem : picked.masterId ∈ db.masterIds := hid ▸ List.mem_map_of_mem hm
  have hsplit := List.countP_eq_countP_filter_add db.masterIds
    (fun m => !alreadyOffered db orderId m) fun m => decide (m ≠ picked.masterId)
  simp only [List.countP_filter] at hsplit
  rw [Db.undispatched, hsplit]
  refine Nat.add_le_add (le_of_eq ?_) (List.countP_pos_iff.mpr ⟨_, hmem, by simp [hfree]⟩)
  refine List.countP_congr fun m _ => ?_
  rw [Bool.and_comm]

/-- Once the picked master has been offered the order, it is not counted any more. -/
theorem undispatched_of_alreadyOffered {masterId : UserId}
    (h : alreadyOffered db orderId masterId = true) :
    db.undispatched orderId ≤ db.undispatchedBut orderId masterId := by
  refine List.countP_mono_left fun m _ hm => ?_
  have hne : m ≠ masterId := by
    rintro rfl
    simp [h] at hm
  simpa [hne] using hm

/-! ### One statement of the call -/

variable (db) in
/-- What a call that enters `cascadeNext` has left. -/
theorem EntersCascade.left {op : Op} {pc : Pc} {attempt : Attempt}
    (h : EntersCascade op pc orderId attempt) :
    Call.recursionsLeft ⟨op, pc⟩ db = db.undispatched orderId + attempt.escalations ∧
      pc.depth = 8 ∧ Call.InCascade orderId ⟨op, pc⟩ := by
  cases h <;> exact ⟨rfl, rfl, rfl⟩

/-- The order that a call in `cascadeNext` is about. -/
theorem EntersCascade.eq_of_inCascade {op : Op} {pc : Pc} {id : OrderId} {attempt : Attempt}
    (h : EntersCascade op pc id attempt) (hk : Call.InCascade orderId ⟨op, pc⟩) :
    id = orderId := by
  cases h <;> exact hk

theorem Reads.inCascade {op : Op} {pc pc' : Pc} (h : Reads env x db op pc pc')
    (hk : Call.InCascade orderId ⟨op, pc⟩) : Call.InCascade orderId ⟨op, pc'⟩ := by
  cases h with
  | @refused op | @guarded op => cases op <;> trivial
  | cascadeMissing henter | cascadeReads henter => exact henter.eq_of_inCascade hk
  | failSearchReads henter =>
      cases henter with
      | cascade => exact hk
      | direct => exact hk.elim
  | cascadeCounts | cascadePicks | cascadeExpands | cascadeExhausted | cascadeRetries => exact hk
  | _ => trivial

theorem Stmt.inCascade (h : Stmt env me x db k o) (hk : k.InCascade orderId) :
    o.call.InCascade orderId := by
  cases h with
  | reads hr => exact hr.inCascade hk
  | @followup op f todo next =>
      cases next with
      | none => trivial
      | some id => exact hk.elim
  | cascadeInsert | failSearchUpdate => exact hk
  | _ => trivial

/-- Entering `cascadeNext` again is paid for, and so is every statement. -/
theorem Reads.left {op : Op} {pc pc' : Pc} (h : Reads env x db op pc pc')
    (hk : Call.InCascade orderId ⟨op, pc⟩) :
    pc'.isCascade.toNat + Call.recursionsLeft ⟨op, pc'⟩ db ≤ Call.recursionsLeft ⟨op, pc⟩ db ∧
      1 + Call.statementsLeft ⟨op, pc'⟩ db ≤ Call.statementsLeft ⟨op, pc⟩ db := by
  cases h with
  | cascadeStops henter | cascadeMissing henter | cascadeReads henter =>
      obtain ⟨hleft, hdepth, -⟩ := henter.left db
      rw [Call.statementsLeft, Call.statementsLeft, hleft, hdepth]
      simp only [Call.recursionsLeft, Pc.depth, Pc.isCascade, Bool.toNat_false]
      omega
  | cascadeCounts =>
      simp only [Call.statementsLeft, Call.recursionsLeft, Pc.depth, Pc.isCascade, Bool.toNat_false]
      omega
  | cascadePicks hpicked =>
      have hlt := undispatchedBut_lt hpicked
      simp only [Call.statementsLeft, Call.recursionsLeft, Pc.depth, Pc.isCascade, Bool.toNat_false]
      omega
  | cascadeExpands =>
      simp only [Call.statementsLeft, Call.recursionsLeft, Pc.depth, Attempt.escalations,
        Pc.isCascade, Bool.toNat_true]
      omega
  | cascadeExhausted =>
      simp only [Call.statementsLeft, Call.recursionsLeft, Pc.depth, Pc.isCascade, Bool.toNat_false]
      omega
  | cascadeRetries hoffered =>
      have hle := undispatched_of_alreadyOffered hoffered
      simp only [Call.statementsLeft, Call.recursionsLeft, Pc.depth, Pc.isCascade, Bool.toNat_true]
      omega
  | failSearchStops henter | failSearchReads henter =>
      cases henter with
      | cascade => simp [Call.statementsLeft, Call.recursionsLeft, Pc.depth, Pc.isCascade]
      | direct => exact hk.elim
  | @refused op _ hguard | @guarded op _ hguard =>
      cases op <;> first | exact hk.elim | simp [Op.guard] at hguard
  | _ =>
      first
        | exact hk.elim
        | simp [Call.statementsLeft, Call.recursionsLeft, Pc.depth, Pc.isCascade]

theorem Stmt.left (h : Stmt env me x db k o) (hk : k.InCascade orderId) (hfin : ¬ k.Finished) :
    o.call.pc.isCascade.toNat + o.call.recursionsLeft o.store ≤ k.recursionsLeft db ∧
      1 + o.call.statementsLeft o.store ≤ k.statementsLeft db := by
  cases h with
  | reads hr => exact hr.left hk
  | @fails op pc =>
      refine ⟨by simp [Call.recursionsLeft, Pc.isCascade], ?_⟩
      cases pc with
      | returned | threw => exact absurd trivial hfin
      | start | cascade | cascadeCount | cascadeQuery | cascadeCreate | cascadeEnqueue | after
      | failSearch | failSearchWrite | failSearchHistory =>
          simp only [Call.statementsLeft, Call.recursionsLeft, Pc.depth]
          omega
      | _ => exact hk.elim
  | followup =>
      simp only [Call.statementsLeft, Call.recursionsLeft, Pc.depth, Pc.isCascade,
        Bool.toNat_false, List.length_cons]
      omega
  | acceptRollback hpc => rcases hpc with rfl | ⟨order, rfl⟩ <;> exact hk.elim
  | cascadeInsert | cascadeEnqueue | failSearchUpdate | failSearchRecord =>
      simp [Call.statementsLeft, Call.recursionsLeft, Pc.depth, Pc.isCascade, offerFollowups,
        failSearchFollowups]
  | _ => exact hk.elim

/-! ### Deeds -/

/-- What a call has done by the time it stands here. -/
def Pc.DeedsAre (deeds : List CascadeDeed) : Pc → Prop
  | .cascadeEnqueue _ _ picked dispatchId => deeds = [.offers picked.masterId dispatchId]
  | .failSearch _ _ | .failSearchWrite _ _ _ | .failSearchHistory _ _ _ =>
      ∃ reason, deeds = [.failsSearch reason]
  | .after _ _ => (∃ masterId dispatchId,
      deeds = [.offers masterId dispatchId, .enqueues dispatchId]) ∨
      ∃ reason, deeds = [.failsSearch reason]
  | .returned => Definite deeds
  | .threw _ => True
  | _ => deeds = []

theorem Reads.deeds {op : Op} {pc pc' : Pc} (h : Reads env x db op pc pc')
    (hk : Call.InCascade orderId ⟨op, pc⟩) {deeds : List CascadeDeed} (hdeeds : pc.DeedsAre deeds) :
    pc'.DeedsAre (deeds ++ (pc.deed pc').toList) := by
  cases h with
  | cascadeStops henter =>
      cases henter <;> (obtain rfl : deeds = [] := hdeeds; exact Definite.stopped)
  | cascadeMissing henter =>
      cases henter <;> (obtain rfl : deeds = [] := hdeeds; exact ⟨_, rfl⟩)
  | cascadeReads henter =>
      cases henter <;> (obtain rfl : deeds = [] := hdeeds; rfl)
  | cascadeCounts | cascadePicks | cascadeExpands | cascadeRetries =>
      obtain rfl : deeds = [] := hdeeds
      rfl
  | cascadeExhausted =>
      obtain rfl : deeds = [] := hdeeds
      exact ⟨_, rfl⟩
  | failSearchStops henter | failSearchReads henter =>
      cases henter with
      | direct => exact hk.elim
      | cascade =>
          obtain ⟨reason, rfl⟩ := hdeeds
          first | exact ⟨_, rfl⟩ | exact Definite.failed reason
  | failSearchLost =>
      obtain ⟨reason, rfl⟩ := hdeeds
      exact Definite.failed reason
  | done =>
      rcases hdeeds with ⟨masterId, dispatchId, rfl⟩ | ⟨reason, rfl⟩
      · exact Definite.offered masterId dispatchId
      · exact Definite.failed reason
  | followupThrows | refused => trivial
  | @guarded op _ hguard =>
      cases op <;> first | exact hk.elim | simp [Op.guard] at hguard
  | _ => exact hk.elim

theorem Stmt.deeds (h : Stmt env me x db k o) (hk : k.InCascade orderId)
    {deeds : List CascadeDeed} (hdeeds : k.pc.DeedsAre deeds) :
    o.call.pc.DeedsAre (deeds ++ (k.pc.deed o.call.pc).toList) := by
  cases h with
  | reads hr => exact hr.deeds hk hdeeds
  | fails | acceptRollback => trivial
  | followup =>
      rcases hdeeds with ⟨masterId, dispatchId, rfl⟩ | ⟨reason, rfl⟩
      · exact Or.inl ⟨masterId, dispatchId, rfl⟩
      · exact Or.inr ⟨reason, rfl⟩
  | cascadeInsert =>
      obtain rfl : deeds = [] := hdeeds
      rfl
  | cascadeEnqueue =>
      obtain rfl : deeds = [_] := hdeeds
      exact Or.inl ⟨_, _, rfl⟩
  | failSearchUpdate =>
      obtain ⟨reason, rfl⟩ := hdeeds
      exact ⟨reason, rfl⟩
  | failSearchRecord =>
      obtain ⟨reason, rfl⟩ := hdeeds
      exact Or.inr ⟨reason, rfl⟩
  | _ => exact hk.elim

/-- A deed happens in the statement that is said to do it. -/
theorem Stmt.happens (h : Stmt env me x db k o) (hk : k.InCascade orderId) {deed : CascadeDeed}
    (hdeed : k.pc.deed o.call.pc = some deed) :
    deed.Happens env orderId x.now k.pc db o.store := by
  cases h with
  | fails =>
      rename_i op pc _ _
      cases pc <;> simp [Pc.deed] at hdeed
  | acceptRollback hpc => rcases hpc with rfl | ⟨order, rfl⟩ <;> exact hk.elim
  | reads hr =>
      cases hr with
      | cascadeStops henter hne =>
          obtain rfl := henter.eq_of_inCascade hk
          cases henter <;> (obtain rfl := Option.some.inj hdeed; exact ⟨rfl, hne⟩)
      | cascadeMissing henter hs hlacks =>
          obtain rfl := henter.eq_of_inCascade hk
          cases henter <;>
            (obtain rfl := Option.some.inj hdeed; exact ⟨rfl, Or.inl ⟨rfl, hs, hlacks⟩⟩)
      | cascadeReads henter => cases henter <;> simp [Pc.deed] at hdeed
      | cascadeExhausted hnone =>
          obtain rfl : _ = orderId := hk
          obtain rfl := Option.some.inj hdeed
          exact ⟨rfl, Or.inr ⟨rfl, _, _, _, rfl, hnone⟩⟩
      | failSearchStops henter | failSearchReads henter =>
          cases henter with
          | direct => exact hk.elim
          | cascade => simp [Pc.deed] at hdeed
      | _ => first | exact hk.elim | simp [Pc.deed] at hdeed
  | @cascadeInsert op id attempt order rankSoFar picked hfree =>
      obtain rfl : id = orderId := hk
      obtain rfl := Option.some.inj hdeed
      exact ⟨hfree, rfl, _, rfl, rfl, rfl, rfl⟩
  | cascadeEnqueue =>
      obtain rfl : _ = orderId := hk
      obtain rfl := Option.some.inj hdeed
      exact ⟨rfl, _, _, rfl, rfl⟩
  | followup | failSearchUpdate | failSearchRecord => simp [Pc.deed] at hdeed
  | _ => exact hk.elim

/-- A followup puts nothing into the queue. -/
theorem Followup.run_queue {f : Followup} {now : Time} {db' : Db} (h : f.run db now = .ok db') :
    db'.queue = db.queue := by
  cases f with
  | recomputeTrustTier masterId =>
      simp only [Followup.run, Handly.recomputeTrustTier] at h
      split at h
      · simp at h
      · obtain rfl := Except.ok.inj h
        rfl
  | notify | createPenalty | toOfferDto =>
      obtain rfl := Except.ok.inj h
      rfl

/-- Nothing else inserts a dispatch or a job. -/
theorem Stmt.quiet (h : Stmt env me x db k o) (hk : k.InCascade orderId) :
    ((∀ m d, k.pc.deed o.call.pc ≠ some (.offers m d)) → o.store.dispatches = db.dispatches) ∧
      ((∀ d, k.pc.deed o.call.pc ≠ some (.enqueues d)) → o.store.queue = db.queue) := by
  cases h with
  | cascadeInsert => exact ⟨fun hnot => absurd rfl (hnot _ _), fun _ => rfl⟩
  | cascadeEnqueue => exact ⟨fun _ => rfl, fun hnot => absurd rfl (hnot _)⟩
  | followup hf => exact ⟨fun _ => (Followup.run_frame hf).2.1, fun _ => Followup.run_queue hf⟩
  | fails | reads | acceptRollback | failSearchUpdate | failSearchRecord =>
      exact ⟨fun _ => rfl, fun _ => rfl⟩
  | _ => exact hk.elim

/-- A call in `cascadeNext` waits for nothing but the lock of the order row. -/
theorem proceeds_of_inCascade (hk : k.InCascade orderId) (hfin : ¬ k.Finished)
    (hnone : step env me x k db = none) : (db.orderLock orderId).isSome = true := by
  obtain ⟨op, pc⟩ := k
  rw [step, if_neg hfin] at hnone
  split at hnone
  · simp at hnone
  · cases pc with
    | start => cases op <;> first | exact hk.elim | simp [proceed, begin] at hnone
    | after todo next =>
        cases next with
        | some id => cases todo <;> exact hk.elim
        | none =>
            cases todo with
            | nil => simp [proceed] at hnone
            | cons f todo =>
                simp only [proceed] at hnone
                split at hnone <;> simp at hnone
    | cascadeQuery id attempt order categoryId rankSoFar =>
        simp only [proceed] at hnone
        split at hnone
        · simp at hnone
        · split at hnone <;> simp at hnone
    | cascadeCreate id attempt order rankSoFar picked =>
        simp only [proceed] at hnone
        split at hnone <;> simp at hnone
    | failSearchWrite id reason order =>
        obtain rfl : id = orderId := hk
        simp only [proceed, updateIfStatus] at hnone
        split at hnone
        · split at hnone
          · assumption
          · simp at hnone
        · simp at hnone
    | cascade | cascadeCount | cascadeEnqueue | failSearch | failSearchHistory =>
        simp [proceed] at hnone
    | returned | threw => exact absurd trivial hfin
    | _ => exact hk.elim

end Statements

/-! ### Whole runs -/

section Run

variable {env : Env} {c c' : Config Db Call} {ts : List (Transition Db Call Input)}
  {t : Transition Db Call Input} {i : ℕ} {orderId : OrderId}

/-- What a transition does to a call in `cascadeNext`: it is left as it is while another call
runs, or it runs its own statement. -/
theorem inCascade_fires (ht : (orders env).Fires t) {k : Call} (hk : t.pre.calls[i]? = some k) :
    (t.post.calls[i]? = some k ∧ ¬ t.IsBy i ∧
        (∀ k' : Call, k'.recursionsLeft t.post.store ≤ k'.recursionsLeft t.pre.store)) ∨
      ∃ x o, t.event = .run i x ∧ ¬ k.Finished ∧ Stmt env i x t.pre.store k o ∧
        t.post.calls[i]? = some o.call ∧ t.post.store = o.store := by
  have hlt := (List.getElem?_eq_some_iff.mp hk).1
  rcases stmt_of_fires ht with ⟨k', he, -, hpost⟩ | ⟨j, x, k', o, he, hj, hfin, h, -, hpost⟩
  · refine Or.inl ⟨?_, fun hby => ?_, fun k' => ?_⟩
    · rw [hpost, List.getElem?_append_left hlt]
      exact hk
    · obtain ⟨x, hx⟩ := hby
      simp [he] at hx
    · rw [hpost]
  · have hlt' := (List.getElem?_eq_some_iff.mp hj).1
    by_cases hij : i = j
    · subst hij
      obtain rfl := Option.some.inj (hj.symm.trans hk)
      refine Or.inr ⟨x, o, he, hfin, h, ?_, by rw [hpost]⟩
      rw [hpost, Machine.getElem?_set_append hlt', if_pos rfl]
    · refine Or.inl ⟨?_, fun hby => ?_, fun k' => ?_⟩
      · rw [hpost, Machine.getElem?_set_append hlt', if_neg hij, if_pos hlt]
        exact hk
      · obtain ⟨y, hy⟩ := hby
        exact hij (Event.run.inj (hy.symm.trans he)).1
      · rw [hpost]
        exact h.recursionsLeft_other k'

/-- The call stays in `cascadeNext`, or past it. -/
theorem inCascade_of_run (hrun : (orders env).Run c ts c') {k : Call} (hk : c.calls[i]? = some k)
    (hin : k.InCascade orderId) :
    (∃ k', c'.calls[i]? = some k' ∧ k'.InCascade orderId) ∧
      ∀ t ∈ ts, ∃ k', t.pre.calls[i]? = some k' ∧ k'.InCascade orderId := by
  have hinv := hrun.always (fun c => ∃ k', c.calls[i]? = some k' ∧ k'.InCascade orderId)
    ⟨k, hk, hin⟩ fun t ht hI => by
      obtain ⟨k', hk', hin'⟩ := hI
      rcases inCascade_fires ht hk' with ⟨hk'', -, -⟩ | ⟨x, o, -, -, h, hk'', -⟩
      · exact ⟨k', hk'', hin'⟩
      · exact ⟨o.call, hk'', h.inCascade hin'⟩
  exact ⟨hinv.1, fun t ht => (hinv.2 t ht).1⟩

/-- What the call `i` has left in a configuration. -/
def leftOf (f : Call → Db → ℕ) (i : ℕ) (c : Config Db Call) : ℕ :=
  (c.calls[i]?.map fun k => f k c.store).getD 0

theorem leftOf_eq {f : Call → Db → ℕ} {k : Call} (hk : c.calls[i]? = some k) :
    leftOf f i c = f k c.store := by
  simp [leftOf, hk]

/-- A transition takes what it uses from what is left. -/
theorem leftOf_fires (ht : (orders env).Fires t) {k : Call} (hk : t.pre.calls[i]? = some k)
    (hin : k.InCascade orderId) :
    (if recurses i t then 1 else 0) + leftOf Call.recursionsLeft i t.post ≤
        leftOf Call.recursionsLeft i t.pre ∧
      (if decide (t.IsBy i) then 1 else 0) + leftOf Call.statementsLeft i t.post ≤
        leftOf Call.statementsLeft i t.pre := by
  rcases inCascade_fires ht hk with ⟨hk', hby, hleft⟩ | ⟨x, o, he, hfin, h, hk', hstore⟩
  · rw [leftOf_eq hk, leftOf_eq hk, leftOf_eq hk', leftOf_eq hk']
    have hle := hleft k
    simp only [recurses, hby, decide_false, Bool.false_and, Bool.false_eq_true, if_false,
      Call.statementsLeft]
    omega
  · obtain ⟨hrec, hstmt⟩ := h.left hin hfin
    have hby : t.IsBy i := ⟨x, he⟩
    have hafter : t.callerAfter = some o.call := by
      simp only [Transition.callerAfter, he, hk']
    rw [leftOf_eq hk, leftOf_eq hk, leftOf_eq hk', leftOf_eq hk', hstore]
    refine ⟨?_, by simpa [hby] using hstmt⟩
    simpa [recurses, hby, hafter, Bool.toNat, Bool.cond_eq_ite] using hrec

/-- The deeds so far are those of the point where the call stands. -/
theorem deeds_of_run (hrun : (orders env).Run c ts c') {k : Call} (hk : c.calls[i]? = some k)
    (hin : k.InCascade orderId) (hnone : k.pc.DeedsAre []) {k' : Call}
    (hk' : c'.calls[i]? = some k') : k'.pc.DeedsAre (ts.filterMap (cascadeDeed i)) := by
  induction hrun generalizing k' with
  | nil =>
      obtain rfl := Option.some.inj (hk.symm.trans hk')
      exact hnone
  | snoc t hrun hpre hfire ih =>
      obtain ⟨k₁, hk₁, hin₁⟩ := (inCascade_of_run hrun hk hin).1
      have hdeeds := ih hk₁
      rw [← hpre] at hk₁
      rw [List.filterMap_append]
      rcases inCascade_fires hfire hk₁ with ⟨hkeep, hby, -⟩ | ⟨x, o, he, -, h, hown, -⟩
      · obtain rfl := Option.some.inj (hkeep.symm.trans hk')
        simpa [cascadeDeed, hby] using hdeeds
      · obtain rfl := Option.some.inj (hown.symm.trans hk')
        have hby : t.IsBy i := ⟨x, he⟩
        have hafter : t.callerAfter = some o.call := by
          simp only [Transition.callerAfter, he, hown]
        have hnext := h.deeds hin₁ hdeeds
        cases hdeed : k₁.pc.deed o.call.pc <;>
          simpa [cascadeDeed, hby, Transition.caller_eq he hk₁, hafter, hdeed] using hnext

/-- A deed of the call happens in the transition that is said to do it, and nothing else
inserts a dispatch or a job. -/
theorem happens_fires (ht : (orders env).Fires t) {k : Call} (hk : t.pre.calls[i]? = some k)
    (hin : k.InCascade orderId) :
    (∀ deed, cascadeDeed i t = some deed → ∃ x k', t.event = .run i x ∧
        t.pre.calls[i]? = some k' ∧
          deed.Happens env orderId x.now k'.pc t.pre.store t.post.store) ∧
      (t.IsBy i →
        ((∀ m d, cascadeDeed i t ≠ some (.offers m d)) →
          t.post.store.dispatches = t.pre.store.dispatches) ∧
        ((∀ d, cascadeDeed i t ≠ some (.enqueues d)) →
          t.post.store.queue = t.pre.store.queue)) := by
  rcases inCascade_fires ht hk with ⟨-, hby, -⟩ | ⟨x, o, he, -, h, hown, hstore⟩
  · exact ⟨fun deed hdeed => by simp [cascadeDeed, hby] at hdeed, fun h => absurd h hby⟩
  · have hby : t.IsBy i := ⟨x, he⟩
    have hafter : t.callerAfter = some o.call := by
      simp only [Transition.callerAfter, he, hown]
    have hdeed : cascadeDeed i t = k.pc.deed o.call.pc := by
      simp [cascadeDeed, hby, Transition.caller_eq he hk, hafter]
    rw [hdeed, hstore]
    exact ⟨fun deed hdeed => ⟨x, k, he, hk, h.happens hin hdeed⟩, fun _ => h.quiet hin⟩

/-- A call that has not finished has a statement left. -/
theorem statementsLeft_pos (db : Db) {k : Call} (hin : k.InCascade orderId)
    (hfin : ¬ k.Finished) : 0 < k.statementsLeft db := by
  obtain ⟨op, pc⟩ := k
  refine Nat.add_pos_right _ ?_
  cases pc with
  | returned | threw => exact absurd trivial hfin
  | start | cascade | cascadeCount | cascadeQuery | cascadeCreate | cascadeEnqueue | after
  | failSearch | failSearchWrite | failSearchHistory => simp [Pc.depth]
  | _ => exact hin.elim

/-- **Every cascade comes to an end**, and to a definite one. -/
theorem cascadeEnds_of_run (hrun : (orders env).Run c ts c') {k : Call} {attempt : Attempt}
    (hk : c.calls[i]? = some k) (henters : EntersCascade k.op k.pc orderId attempt) :
    CascadeEnds env orderId (c.store.undispatched orderId) i ts c' := by
  obtain ⟨hleft, hdepth, hin⟩ := henters.left c.store
  obtain ⟨⟨k', hk', hin'⟩, hall⟩ := inCascade_of_run hrun hk hin
  have hesc : attempt.escalations ≤ 1 := by cases attempt <;> decide
  have hrecursions := hrun.countP_add_le (leftOf Call.recursionsLeft i) (recurses i)
    fun t ht hfire => by
      obtain ⟨k₁, hk₁, hin₁⟩ := hall t ht
      exact (leftOf_fires hfire hk₁ hin₁).1
  have hstatements := hrun.countP_add_le (leftOf Call.statementsLeft i)
    (fun t => decide (t.IsBy i)) fun t ht hfire => by
      obtain ⟨k₁, hk₁, hin₁⟩ := hall t ht
      exact (leftOf_fires hfire hk₁ hin₁).2
  rw [leftOf_eq hk, hleft] at hrecursions
  rw [leftOf_eq hk, Call.statementsLeft, hleft, hdepth, leftOf_eq hk'] at hstatements
  have hnone : k.pc.DeedsAre [] := by
    obtain ⟨op, pc⟩ := k
    cases henters <;> rfl
  refine ⟨by omega, by omega, fun k₁ hk₁ hfin => ?_, fun k₁ x hk₁ hfin => ?_,
    fun t ht => ?_, fun t ht => ?_, fun op hop => ?_⟩
  · obtain rfl := Option.some.inj (hk'.symm.trans hk₁)
    have hpos := statementsLeft_pos c'.store hin' hfin
    omega
  · obtain rfl := Option.some.inj (hk'.symm.trans hk₁)
    exact proceeds_of_inCascade hin' hfin
  · obtain ⟨k₁, hk₁, hin₁⟩ := hall t ht
    exact (happens_fires (hrun.fires t ht) hk₁ hin₁).1
  · obtain ⟨k₁, hk₁, hin₁⟩ := hall t ht
    exact (happens_fires (hrun.fires t ht) hk₁ hin₁).2
  · exact deeds_of_run hrun hk hin hnone hop

end Run

/-! ### Two cascades for one order -/

/-- The order of `quotedForTwo`, SEARCHING. -/
def searchingForTwo : Db :=
  { quotedForTwo with
    orders := quotedForTwo.orders.map fun row => { row with status := .searching } }

/-- Two cascades pick the same master. The second one to insert tries again, and the other
master gets its offer. -/
def cascadeTwice : List (Event Call Input) :=
  [.run 0 {}, .run 0 {}, .run 0 {}, .run 1 {}, .run 1 {}, .run 1 {}, .run 0 {}] ++
    List.replicate 9 (.run 1 {})

/-- The two calls at their beginning. -/
def bothCascade : Config Db Call :=
  ⟨searchingForTwo, [⟨.startDispatch 0, .start⟩, ⟨.cascadeNext 0 .one, .start⟩]⟩

theorem cascadeEnds_cascadeTwice :
    CascadeEnds .flat 0 2 1 ((orders .flat).trace bothCascade cascadeTwice)
      ((orders .flat).after bothCascade cascadeTwice) :=
  cascadeEnds_of_run ((orders .flat).run_trace bothCascade cascadeTwice) rfl .cascadeNext

/-- The retry happens, and the call has returned. -/
example :
    let ts := (orders .flat).trace bothCascade cascadeTwice
    ts.countP (recurses 1) = 1 ∧
      ts.filterMap (cascadeDeed 1) = [.offers 2 1, .enqueues 1] := by
  decide +kernel

end Handly
