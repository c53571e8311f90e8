import Handly.Subscriptions.SubscriptionsService

/-!
# A started trial is not lost

The expiry of a trial is decided when the row is read and written in a later statement
that checks nothing. If the trial is restarted in between, the late write ends the new
trial. Two upgrades that overlap can replace a trial by one that ends a little earlier.
Where neither happens, a trial keeps running to its end, and every status read until then
says Premium.
-/

namespace Handly.Subscriptions

open Interleaving

/-- The trial of the row has started and is not over. -/
def Running (row : MasterSubscription) (now : Time) : Prop :=
  row.plan = .premium ∧ row.status = .trial ∧ ∃ endsAt, row.trialEndsAt = some endsAt ∧ now ≤ endsAt

/-- The statement is not a late write: an expiry does not hit a running trial, and an
upsert does not replace a running trial by one that ends earlier. -/
def Timely (k : Call) (db : Db) : Prop :=
  match k.pc with
  | .expiring _ => ∀ row, db.findSubscription k.op.masterId = some row → ¬ Running row db.clock
  | .upserting endsAt => ∀ row, db.findSubscription k.op.masterId = some row →
      Running row db.clock → ∀ endsAt', row.trialEndsAt = some endsAt' → endsAt' ≤ endsAt
  | _ => True

/-- A transition writes nothing late. -/
def WritesInTime (t : Transition Db Call Input) : Prop :=
  t.Satisfies fun _ x k db => x.fail = false → Timely k (db.tick x.elapsed)

/-- In this transition, an upgrade of the master returns with a trial that ends at `endsAt`. -/
def Upgrades (i : ℕ) (masterId : UserId) (endsAt : Time) (t : Transition Db Call Input) : Prop :=
  t.IsBy i ∧ ∃ dto readAt, dto.trialEndsAt = some endsAt ∧
    t.post.calls[i]? = some ⟨.upgradeToPremium masterId, .returned dto readAt⟩

/-- Every status of the master that was asked for after the transition and read before
`endsAt` says Premium. -/
def TrialKept (masterId : UserId) (endsAt : Time) (t : Transition Db Call Input)
    (c : Config Db Call) : Prop :=
  ∀ (j : ℕ) (dto : MasterSubscriptionDto) (readAt : Time), t.post.calls.length ≤ j →
    c.calls[j]? = some ⟨.getStatus masterId, .returned dto readAt⟩ → readAt < endsAt →
      dto.isPremiumActive = true

/-! ### Statements on the table -/

section Table

variable {db : Db} {masterId : UserId}

theorem findSubscription_update (db : Db) (m masterId : UserId)
    (data : MasterSubscription → MasterSubscription)
    (hdata : ∀ row, (data row).masterId = row.masterId) :
    (db.updateSubscription m data).findSubscription masterId =
      if m = masterId then (db.findSubscription masterId).map data
      else db.findSubscription masterId := by
  simp only [Db.findSubscription, Db.updateSubscription, List.find?_map]
  have hcomp : ((fun s : MasterSubscription => decide (s.masterId = masterId)) ∘
      fun s => if s.masterId = m then data s else s) =
      fun s => decide (s.masterId = masterId) := by
    funext s
    by_cases hs : s.masterId = m <;> simp [hs, hdata]
  rw [hcomp]
  cases hfind : db.subscriptions.find? fun s => decide (s.masterId = masterId) with
  | none => simp
  | some row =>
      have hrow : row.masterId = masterId := by simpa using List.find?_some hfind
      by_cases hm : m = masterId
      · simp [hm, hrow]
      · simp [hm, hrow, Ne.symm hm]

theorem findSubscription_create (row : MasterSubscription)
    (hnone : db.findSubscription row.masterId = none) (masterId : UserId) :
    (db.createSubscription row).findSubscription masterId =
      if row.masterId = masterId then some row else db.findSubscription masterId := by
  simp only [Db.findSubscription, Db.createSubscription, List.find?_append] at hnone ⊢
  by_cases hm : row.masterId = masterId
  · subst hm
    simp [hnone]
  · simp [hm]

end Table

/-! ### The trial that has been started -/

section Trial

variable {masterId : UserId} {endsAt : Time}

/-- Until `endsAt`, the row of the master is a trial that lasts at least until then. -/
def Secured (masterId : UserId) (endsAt : Time) (db : Db) : Prop :=
  db.clock < endsAt → ∃ row endsAt', db.findSubscription masterId = some row ∧
    row.plan = .premium ∧ row.status = .trial ∧ row.trialEndsAt = some endsAt' ∧ endsAt ≤ endsAt'

/-- What a call that was started afterwards has seen. -/
def Call.Saw (masterId : UserId) (endsAt : Time) (k : Call) : Prop :=
  k.op.masterId = masterId → match k.pc with
    | .expiring readAt => endsAt ≤ readAt
    | .returned dto readAt => readAt < endsAt → dto.isPremiumActive = true
    | _ => True

theorem Secured.tick {db : Db} (h : Secured masterId endsAt db) (elapsed : ℕ) :
    Secured masterId endsAt (db.tick elapsed) := by
  intro hlt
  have hle : db.clock < endsAt := by
    simp only [Db.tick] at hlt
    exact lt_of_le_of_lt (le_add_of_nonneg_right (Int.natCast_nonneg elapsed)) hlt
  exact h hle

/-- A trial that is secured is running. -/
theorem Secured.running {db : Db} (h : Secured masterId endsAt db) (hlt : db.clock < endsAt)
    {row : MasterSubscription} (hrow : db.findSubscription masterId = some row) :
    Running row db.clock ∧ lapsed row db.clock = false ∧ (toDto row).isPremiumActive = true := by
  obtain ⟨row', endsAt', hrow', hplan, hstatus, hends, hle⟩ := h hlt
  obtain rfl := Option.some.inj (hrow.symm.trans hrow')
  have hnow : db.clock ≤ endsAt' := hlt.le.trans hle
  refine ⟨⟨hplan, hstatus, endsAt', hends, hnow⟩, ?_, ?_⟩
  · simp [lapsed, hends, hnow]
  · simp [toDto, hplan, hstatus]

/-- A timely statement keeps the trial secured. -/
theorem Stmt.secured {db : Db} {k : Call} {o : Outcome Db Call} (h : Stmt db k o)
    (htimely : Timely k db) (hG : Secured masterId endsAt db) :
    Secured masterId endsAt o.store := by
  cases h with
  | throws | free | reports | findsLapsed | admits => exact hG
  | @expires m readAt row hrow | @expiresFirst m readAt row hrow =>
      intro hlt
      by_cases hm : m = masterId
      · subst hm
        exact absurd (hG.running hlt hrow).1 (htimely row hrow)
      · have hfind := findSubscription_update db m masterId expire fun _ => rfl
        obtain ⟨row', hrest⟩ := hG hlt
        exact ⟨row', by rwa [hfind, if_neg hm]⟩
  | @restarts op endsAt' row hrow =>
      intro hlt
      have hfind :=
        findSubscription_update db op.masterId masterId (startTrial endsAt') fun _ => rfl
      by_cases hm : op.masterId = masterId
      · subst hm
        obtain ⟨row', endsAt₀, hrow', -, -, hends, hle⟩ := hG hlt
        obtain rfl := Option.some.inj (hrow.symm.trans hrow')
        have hkeeps := htimely row hrow (hG.running hlt hrow).1 endsAt₀ hends
        rw [if_pos rfl, hrow] at hfind
        exact ⟨_, endsAt', hfind, rfl, rfl, rfl, hle.trans hkeeps⟩
      · obtain ⟨row', hrest⟩ := hG hlt
        exact ⟨row', by rwa [hfind, if_neg hm]⟩
  | @starts op endsAt' hnone =>
      intro hlt
      obtain ⟨row, endsAt₀, hrow, hrest⟩ := hG hlt
      have hfind := findSubscription_create (newTrial op.masterId endsAt') hnone masterId
      have hm : ¬ (newTrial op.masterId endsAt').masterId = masterId := by
        intro hm
        obtain rfl : op.masterId = masterId := hm
        simp [hnone] at hrow
      exact ⟨row, endsAt₀, by rwa [hfind, if_neg hm], hrest⟩

/-- A call that reads while the trial is secured sees a Premium master. -/
theorem Stmt.saw {db : Db} {k : Call} {o : Outcome Db Call} (h : Stmt db k o)
    (hG : Secured masterId endsAt db) (hsaw : k.Saw masterId endsAt) :
    o.call.Saw masterId endsAt := by
  cases h with
  | throws | admits | expiresFirst => exact fun _ => trivial
  | @free m hnone =>
      rintro rfl hlt
      obtain ⟨row, -, hrow, -⟩ := hG hlt
      simp [Op.masterId, hnone] at hrow
  | @reports m row hrow =>
      rintro rfl hlt
      exact (hG.running hlt hrow).2.2
  | @findsLapsed op row hrow hlapsed =>
      rintro rfl
      by_contra hlt
      rw [(hG.running (not_le.mp hlt) hrow).2.1] at hlapsed
      exact Bool.false_ne_true hlapsed
  | @expires m readAt row hrow =>
      intro hm hlt
      exact absurd hlt (not_lt.mpr (hsaw hm))
  | restarts | starts =>
      intro _ _
      simp [toDto, startTrial, newTrial]

/-- While nothing is written late, the trial stays secured, and the calls that were started
after it see it. -/
def trialOutline (masterId : UserId) (endsAt : Time) (n : ℕ) : Outline subscribing WritesInTime :=
  .ofSteps subscribing _ (Secured masterId endsAt)
    (fun _ i k => n ≤ i → k.Saw masterId endsAt)
    (fun _ _ k hentry _ _ _ => by
      obtain ⟨op, pc⟩ := k
      cases pc <;> simp_all [subscribing, Call.isStart])
    (fun i x k s o hC hstep hG hsaw => by
      obtain ⟨hstmt, hfail⟩ := @step_cases i x k s o hstep
      refine ⟨?_, fun hi => hstmt.saw (hG.tick _) (hsaw hi), hstmt.spawned_eq_nil⟩
      cases hx : x.fail with
      | true => exact hfail hx ▸ hG.tick _
      | false => exact hstmt.secured (hC hx) (hG.tick _))
    (fun _ _ _ _ _ _ _ _ _ _ _ _ hsaw => hsaw)

end Trial

/-! ### Whole runs -/

/-- The transition in which an upgrade returns leaves its trial in the table. -/
theorem Upgrades.secured {i : ℕ} {masterId : UserId} {endsAt : Time}
    {t : Transition Db Call Input} (h : Upgrades i masterId endsAt t)
    (hfire : subscribing.Fires t) : Secured masterId endsAt t.post.store := by
  obtain ⟨⟨x, he⟩, dto, readAt, hends, hcall⟩ := h
  obtain ⟨k, o, hk, hstep, hpost, hself⟩ := hfire.of_event he
  have ho : o.call = ⟨.upgradeToPremium masterId, .returned dto readAt⟩ :=
    Option.some.inj (hself.symm.trans hcall)
  rw [hpost]
  intro _
  -- Of the statements after which an upgrade has returned, each has written its trial.
  cases (@step_cases i x k _ o hstep).1 with
  | throws | free | reports | findsLapsed | admits | expires | expiresFirst => simp at ho
  | @restarts op endsAt' row hrow =>
      obtain ⟨rfl, rfl, rfl⟩ : op = .upgradeToPremium masterId ∧ _ ∧ _ := by simpa using ho
      obtain rfl : endsAt' = endsAt := Option.some.inj hends
      have hfind := findSubscription_update (t.pre.store.tick x.elapsed) masterId masterId
        (startTrial endsAt') fun _ => rfl
      have hread : (t.pre.store.tick x.elapsed).findSubscription masterId = some row := hrow
      rw [if_pos rfl, hread] at hfind
      exact ⟨_, endsAt', hfind, rfl, rfl, rfl, le_rfl⟩
  | @starts op endsAt' hnone =>
      obtain ⟨rfl, rfl, rfl⟩ : op = .upgradeToPremium masterId ∧ _ ∧ _ := by simpa using ho
      obtain rfl : endsAt' = endsAt := Option.some.inj hends
      have hfind := findSubscription_create (newTrial masterId endsAt') hnone masterId
      exact ⟨_, endsAt', hfind.trans (if_pos rfl), rfl, rfl, rfl, le_rfl⟩

/-- **A started trial is not lost** while nothing is written late. -/
theorem trialKept_of_run {c c' : Config Db Call} {before after : List (Transition Db Call Input)}
    {t : Transition Db Call Input} {i : ℕ} {masterId : UserId} {endsAt : Time}
    (hrun : subscribing.Run c (before ++ t :: after) c') (hupgrade : Upgrades i masterId endsAt t)
    (htimely : ∀ t' ∈ after, WritesInTime t') : TrialKept masterId endsAt t c' := by
  have hfire := hrun.fires t (by simp)
  have hafter := hrun.of_append_cons.2
  have hstart : (trialOutline masterId endsAt t.post.calls.length).Holds t.post := by
    refine ⟨hupgrade.secured hfire, fun j k hk hj => ?_⟩
    exact absurd (List.getElem?_eq_some_iff.mp hk).1 (not_lt.mpr hj)
  obtain ⟨-, hcalls⟩ := ((trialOutline masterId endsAt t.post.calls.length).holds_run hafter htimely
    hstart).1
  intro j dto readAt hj hk hlt
  exact hcalls j _ hk hj rfl hlt

/-- A call that has not begun writes nothing. -/
theorem writesInTime_of_isStart {t : Transition Db Call Input}
    (h : t.caller.all Call.isStart = true) : WritesInTime t := by
  intro i x k he hk _
  rw [Transition.caller_eq he hk] at h
  obtain ⟨op, pc⟩ := k
  cases pc with
  | start => trivial
  | _ => simp [Call.isStart] at h

/-- A trial that is over is read twice, by a status request and by an upgrade that then
starts a new one. Call 2 is the upgrade; its upsert is next. -/
def untilRestart (late : Bool) : List (Event Call Input) :=
  [.start ⟨.upgradeToPremium 0, .start⟩, .run 0 {}, .run 0 {},
    .start ⟨.getStatus 0, .start⟩, .run 1 { elapsed := 15 * 86400000 },
    .start ⟨.upgradeToPremium 0, .start⟩, .run 2 {}, .run 2 {}] ++
  if late then [] else [.run 1 {}]

/-- Afterwards the status is asked for again. -/
def afterRestart (late : Bool) : List (Event Call Input) :=
  (if late then [.run 1 {}] else []) ++ [.start ⟨.getStatus 0, .start⟩, .run 3 {}]

/-- A verified master without a subscription. -/
def oneMaster : Db := { masters := [⟨0, .verified, 0, 5, 0, true⟩] }

/-- The transition in which call 2 returns. -/
def restartAt (late : Bool) : Transition Db Call Input :=
  ⟨subscribing.after ⟨oneMaster, []⟩ (untilRestart late), .run 2 {},
    subscribing.after (subscribing.after ⟨oneMaster, []⟩ (untilRestart late)) [.run 2 {}]⟩

theorem upgrades_restartAt (late : Bool) : Upgrades 2 0 (29 * 86400000) (restartAt late) := by
  refine ⟨⟨{}, rfl⟩, toDto (newTrial 0 (29 * 86400000)), 15 * 86400000, rfl, ?_⟩
  cases late <;> rfl

/-- The old expiry is written before the new trial starts. -/
theorem trialKept_expiredBefore :
    TrialKept 0 (29 * 86400000) (restartAt false)
      (subscribing.after (restartAt false).post (afterRestart false)) := by
  have hbegins : ∀ t ∈ subscribing.trace (restartAt false).post (afterRestart false),
      t.caller.all Call.isStart = true := by
    decide +kernel
  exact trialKept_of_run (subscribing.run_around ⟨oneMaster, []⟩ (untilRestart false)
    (by decide +kernel) (afterRestart false)) (upgrades_restartAt false)
    fun t ht => writesInTime_of_isStart (hbegins t ht)

/-- The old expiry is written after the new trial has started. -/
theorem not_trialKept_always :
    ¬ ∀ (db : Db) (c' : Config Db Call) (before after : List (Transition Db Call Input))
        (t : Transition Db Call Input) (i : ℕ) (masterId : UserId) (endsAt : Time),
      subscribing.Run ⟨db, []⟩ (before ++ t :: after) c' → Upgrades i masterId endsAt t →
        TrialKept masterId endsAt t c' := by
  intro h
  have hkept := h oneMaster _ _ _ (restartAt true) 2 0 (29 * 86400000)
    (subscribing.run_around ⟨oneMaster, []⟩ (untilRestart true) (by decide +kernel)
      (afterRestart true)) (upgrades_restartAt true)
  have hpremium := hkept 3 (toDto (expire (newTrial 0 (29 * 86400000)))) (15 * 86400000)
    (by decide +kernel) rfl (by decide)
  exact absurd hpremium (by decide)

end Handly.Subscriptions
