import Handly.Dispatch.OpenOffers
import Handly.Orders.Profiles

/-!
# Retries of the cascade

`handleOfferExpiry` and `declineOffer` claim the dispatch first and cascade last. If a
step in between fails, the queue runs the expiry job again and the master sends the
decline again, but the dispatch is claimed, so the second attempt returns without
cascading. A search therefore goes on exactly as long as no step fails in the one call
that goes on with it.
-/

namespace Handly

open Interleaving

/-- The order that the call is bound to offer to a master or to stop searching for. -/
def Call.continues (k : Call) : Option OrderId :=
  match k.pc with
  | .failSearch orderId _ | .failSearchWrite orderId _ _ => some orderId
  | _ => k.cascades

/-- An offer of the order is open, or a call in flight goes on with it. -/
def GoesOn (c : Config Db Call) (orderId : OrderId) : Prop :=
  0 < c.store.openOffers orderId ∨
    ∃ (i : ℕ) (k : Call), c.calls[i]? = some k ∧ k.continues = some orderId

/-- The same without the call number `i`. -/
def GoesOnWithout (c : Config Db Call) (i : ℕ) (orderId : OrderId) : Prop :=
  0 < c.store.openOffers orderId ∨
    ∃ (j : ℕ) (k : Call), j ≠ i ∧ c.calls[j]? = some k ∧ k.continues = some orderId

/-- No SEARCHING order is left with nothing that goes on with it. -/
def SearchGoesOn (c : Config Db Call) : Prop :=
  ∀ orderId, c.store.statusOf orderId = some .searching → GoesOn c orderId

/-- The cascade has survived so far. -/
structure CascadeSurvives (c : Config Db Call) : Prop where
  goesOn : SearchGoesOn c
  /-- Once every attempt has ended, a SEARCHING order has an OFFERED dispatch. -/
  settled : (∀ k ∈ c.calls, k.Finished) → ∀ orderId, c.store.statusOf orderId = some .searching →
    ∃ d ∈ c.store.dispatches, d.orderId = orderId ∧ d.status = .offered

/-- If the step of a transition fails, its call is not the only thing that goes on with a
SEARCHING order. -/
def DropsNone (t : Transition Db Call Input) : Prop :=
  ∀ i x k orderId, t.event = .run i x → x.fail = true → t.pre.calls[i]? = some k →
    k.continues = some orderId → t.pre.store.statusOf orderId = some .searching →
    GoesOnWithout t.pre i orderId

/-- A finished call goes on with nothing. -/
theorem Call.Finished.continues_eq_none {k : Call} (h : k.Finished) : k.continues = none := by
  obtain ⟨op, pc⟩ := k
  cases pc with
  | returned | threw => rfl
  | _ => exact h.elim

/-- It is enough that every search goes on. -/
theorem cascadeSurvives_iff {c : Config Db Call} : CascadeSurvives c ↔ SearchGoesOn c := by
  refine ⟨CascadeSurvives.goesOn, fun h => ⟨h, fun hfinished orderId hs => ?_⟩⟩
  rcases h orderId hs with hopen | ⟨i, k, hk, hcont⟩
  · exact openOffers_pos_iff.mp hopen
  · have hnone := (hfinished k (List.mem_of_getElem? hk)).continues_eq_none
    simp [hnone] at hcont

/-! ### One statement -/

section Step

variable {env : Env} {me : ℕ} {x : Input} {k : Call} {db : Db} {o : Outcome Db Call}
  {orderId : OrderId}

theorem continues_of_cascades (h : k.cascades = some orderId) : k.continues = some orderId := by
  obtain ⟨op, pc⟩ := k
  cases pc with
  | failSearch | failSearchWrite => simp [Call.cascades] at h
  | _ => exact h

/-- A read of a call that goes on with a SEARCHING order. -/
theorem Reads.continues {op : Op} {pc pc' : Pc} (h : Reads env x db op pc pc')
    (hk : Call.Knows db me ⟨op, pc⟩) (hexist : Call.MastersExist ⟨op, pc⟩ db)
    (hcont : Call.continues ⟨op, pc⟩ = some orderId)
    (hs : db.statusOf orderId = some .searching) : Call.continues ⟨op, pc'⟩ = some orderId := by
  cases h with
  | @expiryMissing dispatchId id hnone =>
      obtain ⟨f, hf, -⟩ := hk
      simp [Db.offers, hnone] at hf
  | @expiryFull dispatchId id full hrow =>
      obtain ⟨f, hf, rfl⟩ := hk
      obtain rfl : full.offer = f := by simpa [Db.offers, hrow] using hf
      exact hcont
  | @followupThrows _ f todo next e hf =>
      -- The master has a profile, so the followup does not throw.
      cases next with
      | none => simp [Call.continues, Call.cascades] at hcont
      | some id =>
          exact absurd hf (Followup.run_ne_error fun m hm => hexist m (by simp [hm]))
  | cascadeStops henter hne =>
      cases henter <;> (obtain rfl := Option.some.inj hcont; exact absurd hs hne)
  | cascadeMissing henter | cascadeReads henter => cases henter <;> exact hcont
  | failSearchStops henter hne =>
      cases henter with
      | cascade =>
          obtain rfl := Option.some.inj hcont
          exact absurd hs hne
      | direct => simp [Call.continues, Call.cascades] at hcont
  | failSearchReads henter =>
      cases henter with
      | cascade => exact hcont
      | direct => simp [Call.continues, Call.cascades] at hcont
  | @failSearchLost _ _ _ order hne =>
      have hsearching : order.status = .searching := hk
      obtain rfl := Option.some.inj hcont
      rw [hsearching] at hne
      exact absurd hs hne
  | cascades | cascadeCounts | cascadePicks | cascadeExpands | cascadeExhausted | cascadeRetries =>
      exact hcont
  | @refused op | @guarded op => cases op <;> simp_all [Call.continues, Call.cascades, Op.guard]
  | _ => simp [Call.continues, Call.cascades] at hcont

/-- A call that goes on with an order does so until it has made an offer or the order is
no longer SEARCHING. -/
theorem Stmt.continues (h : Stmt env me x db k o) (hfail : x.fail = false) (hk : k.Knows db me)
    (hexist : k.MastersExist db) (hcont : k.continues = some orderId)
    (hs : o.store.statusOf orderId = some .searching) :
    o.call.continues = some orderId ∨ 0 < o.store.openOffers orderId := by
  cases h with
  | fails hx => simp [hx] at hfail
  | reads hr => exact Or.inl (hr.continues hk hexist hcont hs)
  | @followup op f todo next db' hf =>
      refine Or.inl ?_
      cases next <;> exact hcont
  | @cascadeInsert op id attempt order rankSoFar picked hnew =>
      obtain rfl : id = orderId := Option.some.inj hcont
      refine Or.inr (openOffers_pos_iff.mpr ?_)
      exact ⟨offerOf env x.now id order rankSoFar picked, by simp, rfl, rfl⟩
  | @failSearchUpdate op id reason order row hrow =>
      obtain rfl : id = orderId := Option.some.inj hcont
      simp [Db.statusOf, Handly.failSearchUpdate, hrow] at hs
  | acceptRollback hpc =>
      rcases hpc with rfl | ⟨order, rfl⟩ <;> simp [Call.continues, Call.cascades] at hcont
  | _ => simp [Call.continues, Call.cascades] at hcont

/-- Only a submit makes an order SEARCHING, and it starts the dispatch. -/
theorem Stmt.enters_searching (h : Stmt env me x db k o)
    (hs : db.statusOf orderId ≠ some .searching)
    (hs' : o.store.statusOf orderId = some .searching) :
    o.spawned = [⟨.startDispatch orderId, .start⟩] := by
  rw [Db.statusOf_eq_jobs] at hs hs'
  obtain ⟨job', hjob', hstatus⟩ := Option.map_eq_some_iff.mp hs'
  rcases h.jobs.job_after hjob' with hkept | ⟨-, rfl⟩ | ⟨w, job, hw, rfl, -, -, rfl⟩
  · exact absurd (by rw [hkept, Option.map_some, hstatus]) hs
  · simp [Job.draft] at hstatus
  · have hsearching : w.status = .searching := hstatus
    cases hw with
    | submit =>
        cases h with
        | submit => rfl
        | fails => exact absurd hs' hs
        | reads => exact absurd hs' hs
    | @lifecycle l order => cases l <;> simp [Lifecycle.spec] at hsearching
    | _ => simp at hsearching

/-- An order with an open offer that stays SEARCHING has one after the statement, or the
call that ran goes on with it. -/
theorem Stmt.open_or_continues (h : Stmt env me x db k o) (hk : k.Knows db me)
    (hs : o.store.statusOf orderId = some .searching) (hopen : 0 < db.openOffers orderId) :
    o.call.continues = some orderId ∨ 0 < o.store.openOffers orderId := by
  cases h.openOffers orderId hk with
  | kept _ hcount => exact Or.inr (by rwa [hcount])
  | claimed hnext _ => exact Or.inl (continues_of_cascades hnext)
  | offered _ _ _ hcount => exact Or.inr (by omega)
  | accepted _ _ _ hstatus _ =>
      rw [hstatus] at hs
      simp at hs

end Step

/-! ### One transition -/

section Transitions

variable {env : Env} {t : Transition Db Call Input} {i : ℕ} {x : Input} {k : Call}
  {o : Outcome Db Call} {orderId : OrderId}

theorem goesOn_cases {c : Config Db Call} (hi : c.calls[i]? = some k) (h : GoesOn c orderId) :
    GoesOnWithout c i orderId ∨ k.continues = some orderId := by
  rcases h with hopen | ⟨j, k', hj, hcont⟩
  · exact Or.inl (Or.inl hopen)
  · by_cases hji : j = i
    · subst hji
      obtain rfl := Option.some.inj (hi.symm.trans hj)
      exact Or.inr hcont
    · exact Or.inl (Or.inr ⟨j, k', hji, hj, hcont⟩)

variable (orderId) in
/-- A failing step leaves the tables as they are, and its call goes on with nothing. -/
theorem goesOn_failed (hi : t.pre.calls[i]? = some k)
    (hpost : t.post =
      ⟨t.pre.store.unlock i, t.pre.calls.set i ⟨k.op, .threw .infrastructure⟩ ++ []⟩) :
    GoesOn t.post orderId ↔ GoesOnWithout t.pre i orderId := by
  have hlt := (List.getElem?_eq_some_iff.mp hi).1
  rw [hpost]
  constructor
  · intro hon
    obtain hopen | ⟨j, k', hj, hcont⟩ := hon
    · exact Or.inl hopen
    · rw [Machine.getElem?_set_append hlt] at hj
      split at hj
      · obtain rfl := Option.some.inj hj
        simp [Call.continues, Call.cascades] at hcont
      · rename_i hji
        exact Or.inr ⟨j, k', hji, by simpa using (by simpa using hj : _ ∧ _).2, hcont⟩
  · intro hon
    obtain hopen | ⟨j, k', hji, hj, hcont⟩ := hon
    · exact Or.inl hopen
    · refine Or.inr ⟨j, k', ?_, hcont⟩
      rw [Machine.getElem?_set_append hlt, if_neg hji,
        if_pos (List.getElem?_eq_some_iff.mp hj).1]
      exact hj

/-- A statement that does not fail leaves no SEARCHING order behind. -/
theorem goesOn_statement (h : Stmt env i x t.pre.store k o) (hfail : x.fail = false)
    (hi : t.pre.calls[i]? = some k) (hk : k.Knows t.pre.store i)
    (hexist : k.MastersExist t.pre.store)
    (hpost : t.post = ⟨o.store, t.pre.calls.set i o.call ++ o.spawned⟩)
    (hon : SearchGoesOn t.pre) (hs : o.store.statusOf orderId = some .searching) :
    GoesOn t.post orderId := by
  have hlt := (List.getElem?_eq_some_iff.mp hi).1
  rw [hpost]
  by_cases hpre : t.pre.store.statusOf orderId = some .searching
  · have hmine : o.call.continues = some orderId ∨ 0 < o.store.openOffers orderId →
        GoesOn ⟨o.store, t.pre.calls.set i o.call ++ o.spawned⟩ orderId := by
      intro hmine
      obtain hcont | hopen := hmine
      · refine Or.inr ⟨i, o.call, ?_, hcont⟩
        rw [Machine.getElem?_set_append hlt, if_pos rfl]
      · exact Or.inl hopen
    rcases goesOn_cases hi (hon orderId hpre) with (hopen | ⟨j, k', hji, hj, hcont⟩) | hcont
    · exact hmine (h.open_or_continues hk hs hopen)
    · refine Or.inr ⟨j, k', ?_, hcont⟩
      rw [Machine.getElem?_set_append hlt, if_neg hji,
        if_pos (List.getElem?_eq_some_iff.mp hj).1]
      exact hj
    · exact hmine (h.continues hfail hk hexist hcont hs)
  · -- The order has just been submitted.
    refine Or.inr ⟨t.pre.calls.length, ⟨.startDispatch orderId, .start⟩, ?_, rfl⟩
    rw [Machine.getElem?_set_append hlt, if_neg hlt.ne', if_neg (lt_irrefl _),
      h.enters_searching hpre hs]
    simp

/-- **One step keeps every search going if and only if it drops none.** -/
theorem searchGoesOn_fires (ht : (orders env).Fires t)
    (hknows : ∀ (i : ℕ) (k : Call), t.pre.calls[i]? = some k → k.Knows t.pre.store i)
    (hexist : ∀ (i : ℕ) (k : Call), t.pre.calls[i]? = some k → k.MastersExist t.pre.store)
    (hon : SearchGoesOn t.pre) : SearchGoesOn t.post ↔ DropsNone t := by
  rcases stmt_of_fires ht with ⟨k, he, -, hpost⟩ | ⟨i, x, k, o, he, hi, -, h, hfails, hpost⟩
  · refine iff_of_true ?_ fun i x k' orderId he' => by simp [he] at he'
    intro orderId hs
    rw [hpost] at hs ⊢
    rcases hon orderId hs with hopen | ⟨j, k', hj, hcont⟩
    · exact Or.inl hopen
    · refine Or.inr ⟨j, k', ?_, hcont⟩
      rw [List.getElem?_append_left (List.getElem?_eq_some_iff.mp hj).1]
      exact hj
  · cases hx : x.fail with
    | true =>
        have hpost' := hpost
        rw [hfails hx] at hpost'
        have hiff := fun orderId => goesOn_failed orderId hi hpost'
        have hstatus : ∀ orderId,
            t.post.store.statusOf orderId = t.pre.store.statusOf orderId := by
          intro orderId
          rw [hpost']
          rfl
        constructor
        · intro hon' i' x' k' orderId he' _ hi' _ hs
          obtain ⟨rfl, rfl⟩ := Event.run.inj (he.symm.trans he')
          exact (hiff orderId).mp (hon' orderId ((hstatus orderId).trans hs))
        · intro hdrops orderId hs
          rw [hstatus] at hs
          refine (hiff orderId).mpr ?_
          rcases goesOn_cases hi (hon orderId hs) with hwithout | hcont
          · exact hwithout
          · exact hdrops i x k orderId he hx hi hcont hs
    | false =>
        refine iff_of_true ?_ ?_
        · intro orderId hs
          rw [hpost] at hs
          exact goesOn_statement h hx hi (hknows i k hi) (hexist i k hi) hpost hon hs
        · intro i' x' k' orderId he' hx'
          obtain ⟨rfl, rfl⟩ := Event.run.inj (he.symm.trans he')
          simp [hx] at hx'

end Transitions

/-! ### Whole runs -/

section Run

variable {env : Env} {db : Db} {c' : Config Db Call} {ts : List (Transition Db Call Input)}

/-- **The cascade survives in every state if and only if no failing step drops a
search.** -/
theorem cascadeSurvives_run_iff (hrun : (orders env).Run ⟨db, []⟩ ts c')
    (h0 : CascadeSurvives ⟨db, []⟩) (hmasters : db.MastersExist) :
    (∀ t ∈ ts, CascadeSurvives t.post) ↔ ∀ t ∈ ts, DropsNone t := by
  have hknows := (knows_of_run hrun).2
  have hexist := mastersExist_of_run hrun hmasters
  simp only [cascadeSurvives_iff] at h0 ⊢
  exact hrun.invariant_iff SearchGoesOn DropsNone h0 fun t ht =>
    searchGoesOn_fires (hrun.fires t ht) (hknows t ht) (hexist t ht)

end Run

/-! ### A retried expiry -/

/-- The expiry job claims the dispatch and fails on the notification. The queue runs it
again. -/
def retryExpiry : List (Event Call Input) :=
  [.start ⟨.handleOfferExpiry 0, .start⟩, .run 0 {}, .run 0 {}, .run 0 { fail := true },
    .start ⟨.handleOfferExpiry 0, .start⟩, .run 1 {}]

theorem cascadeSurvives_oneOffer : CascadeSurvives ⟨oneOffer, []⟩ := by
  refine cascadeSurvives_iff.mpr fun orderId hs => Or.inl (openOffers_pos_iff.mpr ?_)
  obtain ⟨order, horder, -⟩ := Db.statusOf_eq_some.mp hs
  obtain rfl : orderId = 0 := by
    have hlt := (List.getElem?_eq_some_iff.mp horder).1
    exact Nat.lt_one_iff.mp hlt
  exact ⟨_, List.mem_singleton.mpr rfl, rfl, rfl⟩

theorem mastersExist_oneOffer : oneOffer.MastersExist := ⟨by decide, by decide⟩

theorem cascadeSurvives_run_iff_retryExpiry :
    (∀ t ∈ (orders .flat).trace ⟨oneOffer, []⟩ retryExpiry, CascadeSurvives t.post) ↔
      ∀ t ∈ (orders .flat).trace ⟨oneOffer, []⟩ retryExpiry, DropsNone t :=
  cascadeSurvives_run_iff ((orders .flat).run_trace _ _) cascadeSurvives_oneOffer
    mastersExist_oneOffer

/-- The second attempt returns normally, the order is SEARCHING, and it has no OFFERED
dispatch. -/
theorem not_cascadeSurvives_always :
    ¬ ∀ (env : Env) (db : Db) (ts : List (Transition Db Call Input)) (c' : Config Db Call)
      (dispatchId : DispatchId) (orderId : OrderId),
      (orders env).Run ⟨db, []⟩ ts c' → CascadeSurvives ⟨db, []⟩ → db.MastersExist →
      (∀ t ∈ ts, ∀ k, t.event = .start k → k.op = .handleOfferExpiry dispatchId) →
      c'.store.offers[dispatchId]?.map Offer.orderId = some orderId →
      (∀ k ∈ c'.calls, k.Finished) → c'.calls.getLast?.any Call.isReturned = true →
      c'.store.statusOf orderId ≠ some .searching ∨ 0 < c'.store.openOffers orderId := by
  intro h
  have hafter := h .flat oneOffer _ ((orders .flat).after ⟨oneOffer, []⟩ retryExpiry) 0 0
    ((orders .flat).run_trace _ retryExpiry) cascadeSurvives_oneOffer mastersExist_oneOffer ?_
    (by decide +kernel) (by decide +kernel) (by decide +kernel)
  · have hstatus : ((orders .flat).after ⟨oneOffer, []⟩ retryExpiry).store.statusOf 0 =
        some .searching := by
      decide +kernel
    have hopen : ((orders .flat).after ⟨oneOffer, []⟩ retryExpiry).store.openOffers 0 = 0 := by
      decide +kernel
    rw [hopen] at hafter
    rcases hafter with hnot | hpos
    · exact hnot hstatus
    · exact absurd hpos (lt_irrefl 0)
  · intro t ht k he
    have hstart := (orders .flat).event_mem_of_mem_trace ht
    rw [he] at hstart
    obtain rfl : k = ⟨.handleOfferExpiry 0, .start⟩ := by simpa [retryExpiry] using hstart
    rfl

end Handly
