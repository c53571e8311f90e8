import Handly.Schema
import Handly.Dispatch.Scoring
import Mathlib.Data.List.Sort

/-!
# The eligibility query

`dispatch-eligibility.ts`: the one raw SQL query that selects the masters an
order may be offered to. The PostGIS distance between two points is a parameter
(`Env.distance`): `ST_DWithin` compares it with a radius and `ST_Distance`
returns it.
-/

namespace Handly

/-- The part of `AppConfig.env` that dispatch reads, and the PostGIS distance in
metres. -/
structure Env where
  dispatchTopN : ℕ := 5
  dispatchRadiusExpansionFactor : ℚ := 2
  dispatchOfferTtlScheduledSeconds : ℤ := 600
  dispatchOfferTtlPrioritySeconds : ℤ := 120
  dispatchOfferTtlEmergencySeconds : ℤ := 60
  distance : Point → Point → ℚ

/-- An environment in which all points coincide, for examples. -/
def Env.flat : Env := { distance := fun _ _ => 0 }

/-- `SERVICE_AREA_MAX_RADIUS_M` -/
def serviceAreaMaxRadiusM : ℚ := 50000

/-- The cast `::int` of a float: to the nearest integer, halves to even. -/
def castInt (x : ℚ) : ℤ :=
  let f := ⌊x⌋
  if x - f < 1 / 2 then f
  else if 1 / 2 < x - f then f + 1
  else if f % 2 = 0 then f else f + 1

/-- The smallest of a non-empty list of distances. -/
def nearest : ℤ → List ℤ → ℤ
  | d, [] => d
  | d, d' :: ds => nearest (min d d') ds

structure FindEligibleCandidatesParams where
  orderId : OrderId
  categoryId : CategoryId
  requiredTier : ℕ
  today : ℤ
  radiusMultiplier : ℚ
  limit : ℕ

/-- The column `isPremium`: an active plan, or a trial that ends after `now()`. -/
def isPremiumAt (db : Db) (now : Time) (masterId : UserId) : Bool :=
  match db.subscriptions.find? fun s => s.masterId = masterId with
  | none => false
  | some s =>
      s.plan = .premium ∧ (s.status = .active ∨
        (s.status = .trial ∧ s.trialEndsAt.any (now < ·)))

/-- Does the master hold an order in an active status? -/
def Db.isBusy (db : Db) (masterId : UserId) : Bool :=
  db.orders.any fun o => o.masterId = some masterId ∧ o.status.Active

/-- The `WHERE` conditions on the master that do not mention a service area. -/
def masterEligible (db : Db) (p : FindEligibleCandidatesParams) (m : MasterProfile) : Bool :=
  (db.users[m.userId]?.any fun u => u.status = .active) &&
  (db.skills.any fun s => s.masterId = m.userId ∧ s.categoryId = p.categoryId) &&
  m.verificationStatus = .verified && m.isOnline && p.requiredTier ≤ m.trustTier &&
  !(db.dispatches.any fun d => d.orderId = p.orderId ∧ d.masterId = m.userId) &&
  !db.isBusy m.userId &&
  !(db.availability.any fun a => a.masterId = m.userId ∧ a.day = p.today)

/-- The distances of the master's service areas that reach the location. -/
def inRangeDistances (env : Env) (db : Db) (p : FindEligibleCandidatesParams) (location : Point)
    (masterId : UserId) : List ℤ :=
  db.serviceAreas.filterMap fun sa =>
    let d := env.distance sa.centerPoint location
    if sa.masterId = masterId ∧ d ≤ serviceAreaMaxRadiusM * p.radiusMultiplier ∧
        d ≤ sa.radiusM * p.radiusMultiplier then
      some (castInt d)
    else none

/-- `DISTINCT ON (mp."userId") … ORDER BY mp."userId", "distanceM"`: one row for
each master, with its closest area in range. -/
def candidateOf (env : Env) (db : Db) (now : Time) (p : FindEligibleCandidatesParams)
    (location : Point) (m : MasterProfile) : Option EligibleCandidate :=
  if masterEligible db p m then
    match inRangeDistances env db p location m.userId with
    | [] => none
    | d :: ds =>
        some { masterId := m.userId, distanceM := nearest d ds, ratingAvg := m.ratingAvg,
               jobsDone := m.jobsDone, isPremium := isPremiumAt db now m.userId }
  else none

/-- `findEligibleCandidates` -/
def findEligibleCandidates (env : Env) (db : Db) (now : Time) (p : FindEligibleCandidatesParams) :
    List EligibleCandidate :=
  match db.orders[p.orderId]?.bind Order.location with
  | none => []
  | some location =>
      ((db.masters.filterMap (candidateOf env db now p location)).insertionSort
        fun a b => a.distanceM ≤ b.distanceM).take p.limit

/-- A candidate has a profile that meets every condition of the query. -/
theorem eligible_of_mem {env : Env} {db : Db} {now : Time} {p : FindEligibleCandidatesParams}
    {c : EligibleCandidate} (h : c ∈ findEligibleCandidates env db now p) :
    ∃ m ∈ db.masters, m.userId = c.masterId ∧ masterEligible db p m = true := by
  unfold findEligibleCandidates at h
  split at h
  · simp at h
  · rename_i location _
    have hmem := List.mem_of_mem_take h
    rw [List.mem_insertionSort] at hmem
    obtain ⟨m, hm, hc⟩ := List.mem_filterMap.mp hmem
    refine ⟨m, hm, ?_⟩
    unfold candidateOf at hc
    split at hc
    · rename_i helig
      split at hc
      · simp at hc
      · rw [← Option.some.inj hc]
        exact ⟨rfl, helig⟩
    · simp at hc

end Handly
