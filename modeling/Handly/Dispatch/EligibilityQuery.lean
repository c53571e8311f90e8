import Handly.Dispatch.Eligibility
import Handly.Lib.Sql
import Mathlib.Data.Set.Finite.Lemmas

/-!
# The eligibility query and its specification

`findEligibleCandidates` is one SQL statement. Here it is read clause by clause: the rows
of the join that pass the `WHERE` clause (`eligibilityRows`), `DISTINCT ON` over them, and
the outer `ORDER BY` with its `LIMIT` (`IsAnswer`). Against it stands what the query is for
(`MeetsSpec`): of the masters that qualify, each with its closest service area, the first
few by distance. Rows of equal distance may come in any order.

The query keeps two radii. The constant one is there for the index, and as no service
area is larger than the constant, it removes no candidate.
-/

namespace Handly

open Sql

/-! ### The query -/

/-- The column `isPremium` of one joined row, in three-valued logic. -/
def isPremiumColumn (ms2 : Option MasterSubscription) (now : Time) : Bool :=
  Truth.holds <|
    (compare (fun a b => a = b) (ms2.map MasterSubscription.plan) (some .premium)).and
      ((compare (fun a b => a = b) (ms2.map MasterSubscription.status) (some .active)).or
        ((compare (fun a b => a = b) (ms2.map MasterSubscription.status) (some .trial)).and
          (compare (fun endsAt now => now < endsAt)
            (ms2.bind MasterSubscription.trialEndsAt) (some now))))

/-- `busy.status IN ('ASSIGNED', 'EN_ROUTE', 'IN_PROGRESS', 'COMPLETED')` -/
def busyStatuses : List OrderStatus := [.assigned, .enRoute, .inProgress, .completed]

/-- The `WHERE` clause, for an order whose location is not `NULL`. -/
def whereClause (env : Env) (db : Db) (p : FindEligibleCandidatesParams) (mp : MasterProfile)
    (sa : ServiceArea) (location : Point) : Bool :=
  env.distance sa.centerPoint location ≤ serviceAreaMaxRadiusM * p.radiusMultiplier ∧
  env.distance sa.centerPoint location ≤ sa.radiusM * p.radiusMultiplier ∧
  mp.verificationStatus = .verified ∧ mp.isOnline = true ∧ p.requiredTier ≤ mp.trustTier ∧
  mp.userId ∉ (db.dispatches.filter fun od => od.orderId = p.orderId).map OrderDispatch.masterId ∧
  (∀ busy ∈ db.orders, ¬ (busy.masterId = some mp.userId ∧ busy.status ∈ busyStatuses)) ∧
  (∀ av ∈ db.availability, ¬ (av.masterId = mp.userId ∧ av.day = p.today))

/-- The `WHERE` clause and the `SELECT` list on one row of the join. -/
def selectRow (env : Env) (db : Db) (now : Time) (p : FindEligibleCandidatesParams)
    (mp : MasterProfile) (sa : ServiceArea) (ms2 : Option MasterSubscription) (o : Order) :
    Option EligibleCandidate :=
  match o.location with
  | none => none
  | some location =>
      if whereClause env db p mp sa location then
        some { masterId := mp.userId
               distanceM := castInt (env.distance sa.centerPoint location)
               ratingAvg := mp.ratingAvg, jobsDone := mp.jobsDone
               isPremium := isPremiumColumn ms2 now }
      else none

/-- The rows of the inner `SELECT` before `DISTINCT ON`: one for every way to join a
profile with its user, its skill in the category, one of its service areas, its
subscription and the order. -/
def eligibilityRows (env : Env) (db : Db) (now : Time) (p : FindEligibleCandidatesParams) :
    List EligibleCandidate :=
  db.masters.flatMap fun mp =>
    (db.users[mp.userId]?.toList.filter fun u => u.status = .active).flatMap fun _ =>
      (db.skills.filter fun ms =>
          ms.masterId = mp.userId ∧ ms.categoryId = p.categoryId).flatMap fun _ =>
        (db.serviceAreas.filter fun sa => sa.masterId = mp.userId).flatMap fun sa =>
          (leftJoin (db.subscriptions.filter fun ms2 =>
              ms2.masterId = mp.userId)).flatMap fun ms2 =>
            db.orders[p.orderId]?.toList.filterMap (selectRow env db now p mp sa ms2)

/-- An answer that the database may give to the query. -/
def IsAnswer (env : Env) (db : Db) (now : Time) (p : FindEligibleCandidatesParams)
    (answer : List EligibleCandidate) : Prop :=
  ∃ candidates sorted,
    DistinctOn EligibleCandidate.masterId EligibleCandidate.distanceM
      (eligibilityRows env db now p) candidates ∧
    OrderBy (fun a b => a.distanceM ≤ b.distanceM) candidates sorted ∧
    answer = sorted.take p.limit

/-! ### The specification -/

/-- The conditions on the master that do not mention a service area. -/
structure Qualifies (db : Db) (p : FindEligibleCandidatesParams) (m : MasterProfile) : Prop where
  skilled : ∃ s ∈ db.skills, s.masterId = m.userId ∧ s.categoryId = p.categoryId
  active : ∃ u, db.users[m.userId]? = some u ∧ u.status = .active
  verified : m.verificationStatus = .verified
  online : m.isOnline = true
  tier : p.requiredTier ≤ m.trustTier
  notOffered : ∀ d ∈ db.dispatches, d.orderId = p.orderId → d.masterId ≠ m.userId
  notBusy : ∀ o ∈ db.orders, o.masterId = some m.userId → ¬ o.status.Active
  available : ∀ a ∈ db.availability, a.masterId = m.userId → a.day ≠ p.today

/-- The service area belongs to the master and reaches the location. -/
def Reaches (env : Env) (p : FindEligibleCandidatesParams) (location : Point) (m : MasterProfile)
    (sa : ServiceArea) : Prop :=
  sa.masterId = m.userId ∧ env.distance sa.centerPoint location ≤ sa.radiusM * p.radiusMultiplier

/-- The candidate that a qualified master is: at the smallest distance over the service
areas that reach the location. -/
structure IsCandidate (env : Env) (db : Db) (now : Time) (p : FindEligibleCandidatesParams)
    (location : Point) (m : MasterProfile) (c : EligibleCandidate) : Prop where
  mem : m ∈ db.masters
  qualifies : Qualifies db p m
  masterId : c.masterId = m.userId
  ratingAvg : c.ratingAvg = m.ratingAvg
  jobsDone : c.jobsDone = m.jobsDone
  isPremium : c.isPremium = isPremiumAt db now m.userId
  closest : ∃ sa ∈ db.serviceAreas, Reaches env p location m sa ∧
    (∀ sa' ∈ db.serviceAreas, Reaches env p location m sa' →
      env.distance sa.centerPoint location ≤ env.distance sa'.centerPoint location) ∧
    c.distanceM = castInt (env.distance sa.centerPoint location)

/-- The first `limit` of all candidates, each master once, by increasing distance. -/
def MeetsSpec (env : Env) (db : Db) (now : Time) (p : FindEligibleCandidatesParams)
    (location : Point) (answer : List EligibleCandidate) : Prop :=
  ∃ all : List EligibleCandidate,
    (∀ c, c ∈ all ↔ ∃ m, IsCandidate env db now p location m c) ∧
    (all.map EligibleCandidate.masterId).Nodup ∧
    all.Pairwise (fun a b => a.distanceM ≤ b.distanceM) ∧ answer = all.take p.limit

/-- The unique keys of the schema that the query joins on. -/
structure KeysUnique (db : Db) : Prop where
  masters : (db.masters.map MasterProfile.userId).Nodup
  subscriptions : (db.subscriptions.map MasterSubscription.masterId).Nodup

/-- The bound that `updateMasterProfile` enforces on a service area. -/
def RadiiBounded (db : Db) : Prop :=
  ∀ sa ∈ db.serviceAreas, 500 ≤ sa.radiusM ∧ sa.radiusM ≤ 50000

/-! ### The rows of the join -/

section Rows

variable {env : Env} {db : Db} {now : Time} {p : FindEligibleCandidatesParams} {location : Point}
  {m : MasterProfile} {sa : ServiceArea} {c : EligibleCandidate}

/-- The three-valued condition on the subscription row, if there is one. -/
theorem isPremiumColumn_find (db : Db) (now : Time) (masterId : UserId) :
    isPremiumColumn (db.subscriptions.find? fun s => s.masterId = masterId) now =
      isPremiumAt db now masterId := by
  unfold isPremiumColumn isPremiumAt
  cases db.subscriptions.find? fun s => decide (s.masterId = masterId) with
  | none => simp
  | some s => simp

/-- The row that joins a master with one of its service areas. -/
def rowOf (env : Env) (db : Db) (now : Time) (location : Point) (m : MasterProfile)
    (sa : ServiceArea) : EligibleCandidate :=
  { masterId := m.userId, distanceM := castInt (env.distance sa.centerPoint location)
    ratingAvg := m.ratingAvg, jobsDone := m.jobsDone, isPremium := isPremiumAt db now m.userId }

theorem selectRow_eq_some {ms2 : Option MasterSubscription} {o : Order} :
    selectRow env db now p m sa ms2 o = some c ↔ ∃ location, o.location = some location ∧
      whereClause env db p m sa location = true ∧
      { masterId := m.userId, distanceM := castInt (env.distance sa.centerPoint location)
        ratingAvg := m.ratingAvg, jobsDone := m.jobsDone
        isPremium := isPremiumColumn ms2 now } = c := by
  unfold selectRow
  cases o.location with
  | none => simp
  | some location => simp [Option.ite_none_right_eq_some]

/-- The rows of the join, read off its clauses. -/
theorem mem_eligibilityRows (hkeys : KeysUnique db)
    (horder : db.orders[p.orderId]?.bind Order.location = some location) :
    c ∈ eligibilityRows env db now p ↔ ∃ m ∈ db.masters, Qualifies db p m ∧
      ∃ sa ∈ db.serviceAreas, Reaches env p location m sa ∧
        env.distance sa.centerPoint location ≤ serviceAreaMaxRadiusM * p.radiusMultiplier ∧
        c = rowOf env db now location m sa := by
  obtain ⟨o, ho, hlocation⟩ := Option.bind_eq_some_iff.mp horder
  simp only [eligibilityRows, List.mem_flatMap, List.mem_filter, List.mem_filterMap,
    Option.mem_toList, leftJoin_filter hkeys.subscriptions, List.mem_singleton, exists_eq_left, ho,
    Option.some.injEq, exists_eq_left', selectRow_eq_some, hlocation, isPremiumColumn_find,
    whereClause, decide_eq_true_eq]
  constructor
  · intro h
    obtain ⟨m, hm, u, hu, s, hs, sa, hsa, hwhere, rfl⟩ := h
    obtain ⟨hpre, hradius, hverified, honline, htier, hnew, hfree, hday⟩ := hwhere
    refine ⟨m, hm, ⟨⟨s, hs.1, hs.2⟩, ⟨u, hu⟩, hverified, honline, htier, fun d hd hid hmaster => ?_,
      fun o' ho' hmaster hactive => hfree o' ho' ⟨hmaster, hactive⟩,
      fun a ha hmaster hday' => hday a ha ⟨hmaster, hday'⟩⟩, sa, hsa.1, ⟨hsa.2, hradius⟩, hpre, rfl⟩
    refine hnew (List.mem_map.mpr ⟨d, List.mem_filter.mpr ⟨hd, ?_⟩, hmaster⟩)
    simpa using hid
  · intro h
    obtain ⟨m, hm, hq, sa, hsa, hreach, hpre, rfl⟩ := h
    obtain ⟨s, hs, hskill⟩ := hq.skilled
    obtain ⟨u, hu⟩ := hq.active
    refine ⟨m, hm, u, hu, s, ⟨hs, hskill⟩, sa, ⟨hsa, hreach.1⟩,
      ⟨hpre, hreach.2, hq.verified, hq.online, hq.tier, fun hmem => ?_,
        fun o' ho' hbusy => hq.notBusy o' ho' hbusy.1 hbusy.2,
        fun a ha hbusy => hq.available a ha hbusy.1 hbusy.2⟩, rfl⟩
    obtain ⟨d, hd, hmaster⟩ := List.mem_map.mp hmem
    rw [List.mem_filter, decide_eq_true_iff] at hd
    exact hq.notOffered d hd.1 hd.2 hmaster

/-- The constant radius removes no service area that reaches the location. -/
theorem Reaches.prefilter (hradii : RadiiBounded db) (hmult : 0 < p.radiusMultiplier)
    (hsa : sa ∈ db.serviceAreas) (h : Reaches env p location m sa) :
    env.distance sa.centerPoint location ≤ serviceAreaMaxRadiusM * p.radiusMultiplier := by
  have hradius : (sa.radiusM : ℚ) ≤ 50000 := by exact_mod_cast (hradii sa hsa).2
  exact h.2.trans (mul_le_mul_of_nonneg_right hradius hmult.le)

end Rows

/-! ### Candidates -/

theorem castInt_floor (x : ℚ) : ⌊x⌋ ≤ castInt x ∧ castInt x ≤ ⌊x⌋ + 1 := by
  unfold castInt
  dsimp only
  split
  · omega
  · split
    · omega
    · split <;> omega

/-- The cast is monotone, so the smallest distance has the smallest number of metres. -/
theorem castInt_mono {x y : ℚ} (h : x ≤ y) : castInt x ≤ castInt y := by
  rcases (Int.floor_mono h).lt_or_eq with hlt | heq
  · have hx := (castInt_floor x).2
    have hy := (castInt_floor y).1
    omega
  · -- In one unit interval, the fractions compare as the numbers do.
    have hfract : x - (⌊y⌋ : ℚ) ≤ y - ⌊y⌋ := sub_le_sub_right h _
    unfold castInt
    simp only [heq]
    split_ifs <;> first | omega | linarith

section Candidates

variable {env : Env} {db : Db} {now : Time} {p : FindEligibleCandidatesParams} {location : Point}
  {m m' : MasterProfile} {c c' : EligibleCandidate}

/-- The row of a candidate with its closest service area is the candidate. -/
theorem IsCandidate.eq_rowOf (h : IsCandidate env db now p location m c) {sa : ServiceArea}
    (hdistance : c.distanceM = castInt (env.distance sa.centerPoint location)) :
    c = rowOf env db now location m sa := by
  cases c
  simp only [rowOf, EligibleCandidate.mk.injEq]
  exact ⟨h.masterId, hdistance, h.ratingAvg, h.jobsDone, h.isPremium⟩

/-- A master is a candidate in one way only. -/
theorem IsCandidate.unique (h : IsCandidate env db now p location m c)
    (h' : IsCandidate env db now p location m c') : c = c' := by
  obtain ⟨sa, hsa, hreach, hleast, hdistance⟩ := h.closest
  obtain ⟨sa', hsa', hreach', hleast', hdistance'⟩ := h'.closest
  have heq : env.distance sa'.centerPoint location = env.distance sa.centerPoint location :=
    le_antisymm (hleast' sa hsa hreach) (hleast sa' hsa' hreach')
  rw [h.eq_rowOf hdistance, h'.eq_rowOf (heq ▸ hdistance')]

/-- Some service area that reaches the location is the closest one that does. -/
theorem exists_closest {sa : ServiceArea} (hsa : sa ∈ db.serviceAreas)
    (hreach : Reaches env p location m sa) :
    ∃ sa₀ ∈ db.serviceAreas, Reaches env p location m sa₀ ∧
      ∀ sa' ∈ db.serviceAreas, Reaches env p location m sa' →
        env.distance sa₀.centerPoint location ≤ env.distance sa'.centerPoint location := by
  have hfinite : {sa | sa ∈ db.serviceAreas ∧ Reaches env p location m sa}.Finite :=
    (List.finite_toSet db.serviceAreas).subset fun _ h => h.1
  obtain ⟨sa₀, hsa₀, hleast⟩ := Set.exists_min_image _
    (fun sa => env.distance sa.centerPoint location) hfinite ⟨sa, hsa, hreach⟩
  exact ⟨sa₀, hsa₀.1, hsa₀.2, fun sa' hsa' hreach' => hleast sa' ⟨hsa', hreach'⟩⟩

/-! ### The answers meet the specification -/

/-- What `DISTINCT ON` keeps are the candidates. -/
theorem mem_distinctOn_iff {candidates : List EligibleCandidate} (hkeys : KeysUnique db)
    (hradii : RadiiBounded db) (hmult : 0 < p.radiusMultiplier)
    (horder : db.orders[p.orderId]?.bind Order.location = some location)
    (h : Closest EligibleCandidate.masterId EligibleCandidate.distanceM
      (eligibilityRows env db now p) candidates) (c : EligibleCandidate) :
    c ∈ candidates ↔ ∃ m, IsCandidate env db now p location m c := by
  have hrows := fun c => @mem_eligibilityRows env db now p location c hkeys horder
  constructor
  · intro hc
    obtain ⟨m, hm, hq, sa, hsa, hreach, -, rfl⟩ := (hrows c).mp (h.subset c hc)
    obtain ⟨sa₀, hsa₀, hreach₀, hleast⟩ := exists_closest hsa hreach
    refine ⟨m, hm, hq, rfl, rfl, rfl, rfl, sa₀, hsa₀, hreach₀, hleast, ?_⟩
    have hrow₀ := (hrows (rowOf env db now location m sa₀)).mpr
      ⟨m, hm, hq, sa₀, hsa₀, hreach₀, hreach₀.prefilter hradii hmult hsa₀, rfl⟩
    exact le_antisymm (h.least _ hc _ hrow₀ rfl) (castInt_mono (hleast sa hsa hreach))
  · intro hc
    obtain ⟨m, hcand⟩ := hc
    obtain ⟨sa, hsa, hreach, hleast, hdistance⟩ := hcand.closest
    have hrow : c ∈ eligibilityRows env db now p := (hrows c).mpr
      ⟨m, hcand.mem, hcand.qualifies, sa, hsa, hreach, hreach.prefilter hradii hmult hsa,
        hcand.eq_rowOf hdistance⟩
    obtain ⟨c', hc', hkey⟩ := h.total c hrow
    obtain ⟨m', hm', hq', sa', hsa', hreach', -, rfl⟩ := (hrows c').mp (h.subset c' hc')
    obtain rfl : m' = m :=
      List.inj_on_of_nodup_map hkeys.masters hm' hcand.mem (hkey.trans hcand.masterId)
    -- The kept row of the master is no farther, and no row of the master is closer.
    have hle : castInt (env.distance sa'.centerPoint location) ≤ c.distanceM :=
      h.least _ hc' c hrow hkey.symm
    have hge := castInt_mono (hleast sa' hsa' hreach')
    have hdistance' : c.distanceM = castInt (env.distance sa'.centerPoint location) := by omega
    rwa [hcand.eq_rowOf hdistance']

/-- Whatever the ties, an answer to the query meets the specification. -/
theorem IsAnswer.meetsSpec {answer : List EligibleCandidate} (hkeys : KeysUnique db)
    (hradii : RadiiBounded db) (hmult : 0 < p.radiusMultiplier)
    (horder : db.orders[p.orderId]?.bind Order.location = some location)
    (h : IsAnswer env db now p answer) : MeetsSpec env db now p location answer := by
  obtain ⟨candidates, sorted, hdistinct, ⟨hperm, hsorted⟩, rfl⟩ := h
  have hclosest := hdistinct.closest
  refine ⟨sorted, fun c => ?_, ?_, hsorted, rfl⟩
  · rw [hperm.mem_iff]
    exact mem_distinctOn_iff hkeys hradii hmult horder hclosest c
  · exact (hperm.map _).nodup_iff.mpr hclosest.nodup

/-! ### The model of the query is an answer -/

theorem masterEligible_eq_true : masterEligible db p m = true ↔ Qualifies db p m := by
  simp only [masterEligible, Db.isBusy, Bool.and_eq_true, Bool.not_eq_true', List.any_eq_true,
    List.any_eq_false, decide_eq_true_eq, Option.any_eq_true]
  constructor
  · intro h
    obtain ⟨⟨⟨⟨⟨⟨⟨hactive, hskilled⟩, hverified⟩, honline⟩, htier⟩, hnew⟩, hfree⟩, hday⟩ := h
    exact ⟨hskilled, hactive, hverified, honline, htier,
      fun d hd hid hmaster => hnew d hd ⟨hid, hmaster⟩,
      fun o ho hmaster hst => hfree o ho ⟨hmaster, hst⟩,
      fun a ha hmaster hd => hday a ha ⟨hmaster, hd⟩⟩
  · intro h
    exact ⟨⟨⟨⟨⟨⟨⟨h.active, h.skilled⟩, h.verified⟩, h.online⟩, h.tier⟩,
      fun d hd hboth => h.notOffered d hd hboth.1 hboth.2⟩,
      fun o ho hboth => h.notBusy o ho hboth.1 hboth.2⟩,
      fun a ha hboth => h.available a ha hboth.1 hboth.2⟩

theorem mem_inRangeDistances (hradii : RadiiBounded db) (hmult : 0 < p.radiusMultiplier) {d : ℤ} :
    d ∈ inRangeDistances env db p location m.userId ↔ ∃ sa ∈ db.serviceAreas,
      Reaches env p location m sa ∧ d = castInt (env.distance sa.centerPoint location) := by
  simp only [inRangeDistances, List.mem_filterMap, Option.ite_none_right_eq_some, Option.some.injEq]
  constructor
  · intro h
    obtain ⟨sa, hsa, ⟨hmaster, -, hradius⟩, rfl⟩ := h
    exact ⟨sa, hsa, ⟨hmaster, hradius⟩, rfl⟩
  · intro h
    obtain ⟨sa, hsa, hreach, rfl⟩ := h
    exact ⟨sa, hsa, ⟨hreach.1, hreach.prefilter hradii hmult hsa, hreach.2⟩, rfl⟩

/-- `nearest` is one of the distances and none is smaller. -/
theorem nearest_spec (d : ℤ) (ds : List ℤ) :
    nearest d ds ∈ d :: ds ∧ ∀ d' ∈ d :: ds, nearest d ds ≤ d' := by
  induction ds generalizing d with
  | nil => simp [nearest]
  | cons d' ds ih =>
      obtain ⟨hmem, hle⟩ := ih (min d d')
      rw [nearest]
      have hmin := hle (min d d') List.mem_cons_self
      refine ⟨?_, fun x hx => ?_⟩
      · rcases List.mem_cons.mp hmem with h | h
        · rw [h]
          rcases min_choice d d' with h' | h' <;> simp [h']
        · exact List.mem_cons_of_mem _ (List.mem_cons_of_mem _ h)
      · rcases List.mem_cons.mp hx with rfl | hx
        · omega
        · rcases List.mem_cons.mp hx with rfl | hx
          · omega
          · exact hle x (List.mem_cons_of_mem _ hx)

theorem candidateOf_eq_some (hradii : RadiiBounded db) (hmult : 0 < p.radiusMultiplier)
    (hm : m ∈ db.masters) :
    candidateOf env db now p location m = some c ↔ IsCandidate env db now p location m c := by
  have hsound : ∀ c, candidateOf env db now p location m = some c →
      IsCandidate env db now p location m c := by
    intro c h
    unfold candidateOf at h
    split at h
    · rename_i helig
      split at h
      · simp at h
      · rename_i d ds hds
        obtain rfl := Option.some.inj h
        obtain ⟨hmem, hle⟩ := nearest_spec d ds
        rw [← hds] at hmem hle
        obtain ⟨sa, hsa, hreach, hd⟩ := (mem_inRangeDistances hradii hmult).mp hmem
        obtain ⟨sa₀, hsa₀, hreach₀, hleast⟩ := exists_closest hsa hreach
        refine ⟨hm, masterEligible_eq_true.mp helig, rfl, rfl, rfl, rfl, sa₀, hsa₀, hreach₀,
          hleast, ?_⟩
        show nearest d ds = _
        refine le_antisymm (hle _ ((mem_inRangeDistances hradii hmult).mpr
          ⟨sa₀, hsa₀, hreach₀, rfl⟩)) ?_
        rw [hd]
        exact castInt_mono (hleast sa hsa hreach)
    · simp at h
  refine ⟨hsound c, fun h => ?_⟩
  obtain ⟨sa, hsa, hreach, -, -⟩ := h.closest
  have hmem : castInt (env.distance sa.centerPoint location) ∈
      inRangeDistances env db p location m.userId :=
    (mem_inRangeDistances hradii hmult).mpr ⟨sa, hsa, hreach, rfl⟩
  have hsome : ∃ c', candidateOf env db now p location m = some c' := by
    rw [candidateOf, if_pos (masterEligible_eq_true.mpr h.qualifies)]
    split
    · rename_i hnil
      simp [hnil] at hmem
    · exact ⟨_, rfl⟩
  obtain ⟨c', hc'⟩ := hsome
  rwa [h.unique (hsound c' hc')]

theorem candidateOf_masterId (h : candidateOf env db now p location m = some c) :
    c.masterId = m.userId := by
  unfold candidateOf at h
  split at h
  · split at h
    · simp at h
    · rw [← Option.some.inj h]
  · simp at h

/-- The candidates that the model collects, each master once. -/
theorem nodup_filterMap_candidateOf (hkeys : KeysUnique db) :
    ((db.masters.filterMap (candidateOf env db now p location)).map
      EligibleCandidate.masterId).Nodup := by
  rw [List.Nodup, List.pairwise_map, List.pairwise_filterMap]
  refine (List.pairwise_map.mp hkeys.masters).imp fun hne c hc c' hc' => ?_
  rwa [candidateOf_masterId hc, candidateOf_masterId hc']

/-- `findEligibleCandidates` is one of the answers that the database may give. -/
theorem isAnswer_findEligibleCandidates (hkeys : KeysUnique db) (hradii : RadiiBounded db)
    (hmult : 0 < p.radiusMultiplier)
    (horder : db.orders[p.orderId]?.bind Order.location = some location) :
    IsAnswer env db now p (findEligibleCandidates env db now p) := by
  obtain ⟨candidates, hdistinct⟩ := exists_distinctOn EligibleCandidate.masterId
    EligibleCandidate.distanceM (eligibilityRows env db now p)
  have hmem := mem_distinctOn_iff hkeys hradii hmult horder hdistinct.closest
  have hperm : (db.masters.filterMap (candidateOf env db now p location)).Perm candidates := by
    refine (List.perm_ext_iff_of_nodup
      (nodup_filterMap_candidateOf hkeys).of_map
      hdistinct.closest.nodup.of_map).mpr fun c => ?_
    rw [hmem, List.mem_filterMap]
    constructor
    · intro h
      obtain ⟨m, hm, hc⟩ := h
      exact ⟨m, (candidateOf_eq_some hradii hmult hm).mp hc⟩
    · intro h
      obtain ⟨m, hc⟩ := h
      exact ⟨m, hc.mem, (candidateOf_eq_some hradii hmult hc.mem).mpr hc⟩
  have htotal : Std.Total fun a b : EligibleCandidate => a.distanceM ≤ b.distanceM :=
    ⟨fun a b => le_total a.distanceM b.distanceM⟩
  have htrans : IsTrans EligibleCandidate fun a b => a.distanceM ≤ b.distanceM :=
    ⟨fun _ _ _ hab hbc => le_trans hab hbc⟩
  refine ⟨candidates, _, hdistinct,
    ⟨(List.perm_insertionSort _ _).trans hperm, List.pairwise_insertionSort _ _⟩, ?_⟩
  rw [findEligibleCandidates, horder]

end Candidates

/-- **The eligibility query means its specification**: every answer meets it, and the
model of the query computes an answer. -/
theorem eligibility_meetsSpec {env : Env} {db : Db} {now : Time}
    {p : FindEligibleCandidatesParams} {location : Point} (hkeys : KeysUnique db)
    (hradii : RadiiBounded db) (hmult : 0 < p.radiusMultiplier)
    (horder : db.orders[p.orderId]?.bind Order.location = some location) :
    (∀ answer, IsAnswer env db now p answer → MeetsSpec env db now p location answer) ∧
      IsAnswer env db now p (findEligibleCandidates env db now p) :=
  ⟨fun _ h => h.meetsSpec hkeys hradii hmult horder,
    isAnswer_findEligibleCandidates hkeys hradii hmult horder⟩

/-- Distances along a meridian, with 111 km to the degree. -/
def Env.meridian : Env := { distance := fun a b => |a.1 - b.1| * 111000 }

/-- Four masters around an order. Two areas of master 0 reach it, those of masters 2 and 3 do as
well, the one of master 1 does not. -/
def fourMasters : Db where
  users := List.replicate 4 ⟨.active, .master⟩
  masters := (List.range 4).map fun i => ⟨i, .verified, 0, 5, 0, true⟩
  skills := (List.range 4).map fun i => ⟨i, 0⟩
  serviceAreas := [⟨0, (412 / 10, 69), 30000⟩, ⟨0, (4103 / 100, 69), 5000⟩,
    ⟨1, (414 / 10, 69), 500⟩, ⟨2, (4101 / 100, 69), 2000⟩, ⟨3, (411 / 10, 69), 50000⟩]
  orders := [{ customerId := 4, categoryId := some 0, description := "", latitude := some 41
               longitude := some 69 }]

/-- The two nearest are answered, each with its closest area. -/
theorem eligibility_meetsSpec_fourMasters :
    (findEligibleCandidates .meridian fourMasters 0 ⟨0, 0, 0, 0, 1, 2⟩).map
        (fun c => (c.masterId, c.distanceM)) = [(2, 1110), (0, 3330)] ∧
      MeetsSpec .meridian fourMasters 0 ⟨0, 0, 0, 0, 1, 2⟩ (41, 69)
        (findEligibleCandidates .meridian fourMasters 0 ⟨0, 0, 0, 0, 1, 2⟩) := by
  have hkeys : KeysUnique fourMasters := ⟨by decide, by decide⟩
  have hradii : RadiiBounded fourMasters := by
    unfold RadiiBounded
    decide
  have hboth := @eligibility_meetsSpec .meridian fourMasters 0 ⟨0, 0, 0, 0, 1, 2⟩ (41, 69) hkeys
    hradii (by norm_num) rfl
  exact ⟨by decide +kernel, hboth.1 _ hboth.2⟩

end Handly
