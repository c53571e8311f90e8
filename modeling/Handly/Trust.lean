import Handly.Orders.Calls

/-!
# Penalties and the trust tier

`penalty-rules.ts`, `penalties.service.ts`, `trust-config.ts` and
`trust.service.ts`: what a penalty-worthy event records, and how the trust tier
is recomputed from the current tables.
-/

namespace Handly

/-- `PENALTY_RULES` -/
def penaltyRule : PenaltyEventType → PenaltySeverity × ℕ
  | .cancellation => (.moderate, 10)
  | .noShow => (.severe, 20)
  | .lateResponse => (.minor, 3)
  | .poorQuality => (.moderate, 8)
  | .customerComplaint => (.minor, 5)

/-- `eventLabel` -/
def eventLabel : PenaltyEventType → String
  | .cancellation => "Buyurtmani bekor qilish"
  | .noShow => "Kelmaslik"
  | .lateResponse => "Kech javob berish"
  | .poorQuality => "Sifat pastligi"
  | .customerComplaint => "Mijoz shikoyati"

/-- `PenaltiesService.recordEvent`: the record, the trust tier, the notification,
in this order. -/
def recordEvent (masterId : UserId) (eventType : PenaltyEventType) (orderId : OrderId)
    (note : Option String) : List Followup :=
  let label := eventLabel eventType
  let points := toString (penaltyRule eventType).2
  [ .createPenalty masterId eventType orderId note,
    .recomputeTrustTier masterId,
    .notify { userId := masterId, type := .penaltyIssued, title := "Jarima qayd etildi",
              body := s!"{label} uchun {points} ball jarima yozildi.", orderId := none } ]

def jobsDoneCap : ℕ := 50
def penaltyLookbackDays : ℤ := 90
def maxPenaltyDeduction : ℕ := 20

/-- `scoreToTier` over `TRUST_TIER_THRESHOLDS`. -/
def scoreToTier (score : ℤ) : ℕ := ([40, 60, 80].filter fun t : ℤ => t ≤ score).length

/-- The counts that `computeTrustScore` reads. -/
structure TrustCounts where
  cancelled : ℕ
  closed : ℕ
  accepted : ℕ
  declinedOrExpired : ℕ
  activePenaltyPoints : ℕ

/-- The score formula of `computeTrustScore`. -/
def trustScore (c : TrustCounts) (jobsDone : ℕ) (ratingAvg : ℚ) (verified : Bool) : ℤ :=
  let cancellationDenominator := c.cancelled + c.closed
  let cancellationRate : ℚ :=
    if 0 < cancellationDenominator then c.cancelled / cancellationDenominator else 0
  let responseDenominator := c.accepted + c.declinedOrExpired
  let responseRate : ℚ :=
    if 0 < responseDenominator then c.accepted / responseDenominator else 1
  let jobsDoneFactor : ℚ := (min jobsDone jobsDoneCap : ℕ) / jobsDoneCap
  let ratingFactor : ℚ := ratingAvg / 5
  let verificationFactor : ℚ := if verified then 1 else 0
  let rawScore := jobsDoneFactor * 30 + ratingFactor * 25 + responseRate * 15 +
    (1 - cancellationRate) * 15 + verificationFactor * 15
  let penaltyDeduction : ℚ := (min maxPenaltyDeduction c.activePenaltyPoints : ℕ)
  max 0 (min 100 (mathRound (rawScore - penaltyDeduction)))

/-- The counts of a master at an instant. -/
def trustCounts (db : Db) (now : Time) (masterId : UserId) : TrustCounts where
  cancelled := db.orders.countP fun o =>
    o.masterId = some masterId ∧ o.status = .cancelledByMaster
  closed := db.orders.countP fun o => o.masterId = some masterId ∧ o.status = .closed
  accepted := db.dispatches.countP fun d => d.masterId = masterId ∧ d.status = .accepted
  declinedOrExpired := db.dispatches.countP fun d =>
    d.masterId = masterId ∧ (d.status = .declined ∨ d.status = .expired)
  activePenaltyPoints := ((db.penalties.filter fun p =>
    p.masterId = masterId ∧ now - penaltyLookbackDays * msPerDay ≤ p.createdAt).map
      PenaltyRecord.points).sum

/-- `recomputeTrustTier` -/
def recomputeTrustTier (db : Db) (now : Time) (masterId : UserId) : Except ApiError Db :=
  match db.findMaster masterId with
  | none => .error (.notFound "Usta profili topilmadi")
  | some m =>
      let score := trustScore (trustCounts db now masterId) m.jobsDone m.ratingAvg
        (m.verificationStatus = .verified)
      .ok (db.updateMaster masterId fun m => { m with trustTier := scoreToTier score })

/-- One awaited write after the effect of a call. What `recomputeTrustTier` reads and writes is
one step. -/
def Followup.run (db : Db) (now : Time) : Followup → Except ApiError Db
  | .notify n => .ok (db.createNotification n)
  | .createPenalty masterId eventType orderId note =>
      .ok (db.createPenalty
        { masterId, eventType, severity := (penaltyRule eventType).1,
          points := (penaltyRule eventType).2, orderId := some orderId, note, createdAt := now })
  | .recomputeTrustTier masterId => Handly.recomputeTrustTier db now masterId
  | .toOfferDto _ => .ok db

/-- A followup touches no order, dispatch, history row or lock. -/
theorem Followup.run_frame {f : Followup} {db db' : Db} {now : Time} (h : f.run db now = .ok db') :
    db'.orders = db.orders ∧ db'.dispatches = db.dispatches ∧ db'.history = db.history ∧
      db'.statusWrites = db.statusWrites ∧ db'.orderLock = db.orderLock := by
  cases f with
  | recomputeTrustTier masterId =>
      simp only [Followup.run, Handly.recomputeTrustTier] at h
      split at h
      · simp at h
      · obtain rfl := Except.ok.inj h
        exact ⟨rfl, rfl, rfl, rfl, rfl⟩
  | notify | createPenalty | toOfferDto =>
      obtain rfl := Except.ok.inj h
      exact ⟨rfl, rfl, rfl, rfl, rfl⟩

/-- A followup leaves the profiles, or writes the trust tier of one. -/
theorem Followup.run_masters {f : Followup} {db db' : Db} {now : Time}
    (h : f.run db now = .ok db') :
    db'.masters = db.masters ∨
      ∃ masterId tier, db'.masters =
        (db.updateMaster masterId fun m => { m with trustTier := tier }).masters := by
  cases f with
  | recomputeTrustTier masterId =>
      simp only [Followup.run, Handly.recomputeTrustTier] at h
      split at h
      · simp at h
      · obtain rfl := Except.ok.inj h
        exact Or.inr ⟨masterId, _, rfl⟩
  | notify | createPenalty | toOfferDto =>
      obtain rfl := Except.ok.inj h
      exact Or.inl rfl

end Handly
