import Handly.Auth.Suspension
import Handly.Lib.Composition

/-!
# What the audit trail tells

`suspend` and `restore` read the user, update its status in a later statement and then write
an audit row. The row takes the status before from the first read and the status after from
the text of the method. So it tells what the update did exactly if the update finds the status
that was read and, in a `restore`, leaves the user ACTIVE.
-/

namespace Handly.Auth

open Interleaving

/-- A `suspend` or a `restore` of the user. -/
def Op.isSanctionOf (u : UserId) : Op → Bool
  | .suspend targetId _ _ | .restore targetId _ => targetId = u
  | _ => false

/-- Calls of `suspend` and `restore` on one user. -/
def sanctions (env : Env) (u : UserId) : Machine Db Call Input :=
  (accounts env).restrict fun k => k.op.isSanctionOf u

/-- The audit row for the update that the transition runs. -/
def updateRow (t : Transition Db Call Input) : Option AuditEntry :=
  match t.caller, t.callerAfter with
  | some ⟨_, .writingStatus _⟩, some ⟨_, .auditing entry⟩ => some entry
  | _, _ => none

/-- In this transition the call `i` runs its update, for which its audit row is `entry`. -/
def UpdatesWith (i : ℕ) (entry : AuditEntry) (t : Transition Db Call Input) : Prop :=
  t.IsBy i ∧ updateRow t = some entry

/-- In these transitions the call `i` writes the audit row `entry`. -/
def WritesRow (ts : List (Transition Db Call Input)) (i : ℕ) (entry : AuditEntry) : Prop :=
  ∃ t ∈ ts, t.IsBy i ∧ t.post.store.auditLog = t.pre.store.auditLog ++ [entry]

/-- The statuses that the audit rows lead through, if each takes up where the one before it
ends. -/
def replay (status : UserStatus) : List AuditEntry → Option (List UserStatus)
  | [] => some []
  | entry :: rest =>
      if entry.before = status then (replay entry.after rest).map (entry.after :: ·) else none

/-- The statuses that the updates of the transitions leave. -/
def statusSequence (u : UserId) (ts : List (Transition Db Call Input)) : List UserStatus :=
  ts.filterMap fun t => (updateRow t).bind fun _ => t.post.store.statusOf u

/-- The audit rows tell what happened to the user, whose status was `status`. -/
structure TrailTells (u : UserId) (status : UserStatus) (ts : List (Transition Db Call Input)) :
    Prop where
  /-- Each row that is written is about an update of its call. -/
  ofUpdate : ∀ i entry, WritesRow ts i entry → ∃ t ∈ ts, UpdatesWith i entry t
  /-- It has the status before that update and the one after it. -/
  statuses : ∀ t ∈ ts, ∀ i entry, UpdatesWith i entry t → WritesRow ts i entry →
    t.pre.store.statusOf u = some entry.before ∧ t.post.store.statusOf u = some entry.after
  /-- Once the rows of all updates are written, they replay in the order of the updates. -/
  replays : (∀ t ∈ ts, ∀ i entry, UpdatesWith i entry t → WritesRow ts i entry) →
    replay status (ts.filterMap updateRow) = some (statusSequence u ts)

/-- The update finds the status that the call has read, and in a `restore` it leaves the user
ACTIVE. -/
def FindsWhatItRead (_me : ℕ) (_x : Input) (k : Call) (db : Db) : Prop :=
  match k.op, k.pc with
  | .suspend u _ _, .writingStatus target => db.statusOf u = some target.status
  | .restore u _, .writingStatus target =>
      db.statusOf u = some target.status ∧ (target.status = .suspended ∨ target.status = .active)
  | _, _ => True

instance (me : ℕ) (x : Input) (k : Call) (db : Db) : Decidable (FindsWhatItRead me x k db) :=
  decidable_of_bool
    (match k.op, k.pc with
      | .suspend u _ _, .writingStatus target => decide (db.statusOf u = some target.status)
      | .restore u _, .writingStatus target =>
          decide (db.statusOf u = some target.status ∧
            (target.status = .suspended ∨ target.status = .active))
      | _, _ => true)
    (by unfold FindsWhatItRead; split <;> simp only [decide_eq_true_iff])

/-- The call suspends or restores the user, and stands where such a call can stand. -/
def Call.Sanctions (u : UserId) (k : Call) : Prop :=
  k.op.isSanctionOf u = true ∧
    match k.pc with
    | .start | .writingStatus _ | .auditing _ | .detailing | .returned | .threw _ => True
    | _ => False

section Statements

variable {env : Env} {i : ℕ} {x : Input} {k : Call} {s : Db} {o : Outcome Db Call} {u : UserId}

theorem Stmt.sanctions (h : Stmt env i x s k o) (hk : k.Sanctions u) : o.call.Sanctions u := by
  obtain ⟨hop, hpc⟩ := hk
  refine ⟨h.op_eq ▸ hop, ?_⟩
  cases h with
  | reads hr =>
      cases hr with
      | codeRead hverifies => cases hverifies <;> simp [Op.isSanctionOf] at hop
      | _ => trivial
  | aside ha => cases ha <;> trivial
  | _ => trivial

/-- **What a statement of such a call can be**: the update of the status, the write of the audit
row, or one that does neither. -/
theorem Stmt.sanction_cases (h : Stmt env i x s k o) (hk : k.Sanctions u) :
    (o.store.statusOf u = s.statusOf u ∧ o.store.auditLog = s.auditLog ∧
        ∀ entry, o.call.pc ≠ .auditing entry) ∨
    (∃ entry, k.pc = .auditing entry ∧ o.store = s.record entry ∧
        ∀ entry', o.call.pc ≠ .auditing entry') ∨
    (∃ target entry, k.pc = .writingStatus target ∧ o.call.pc = .auditing entry ∧
        o.store.auditLog = s.auditLog) := by
  obtain ⟨hop, hpc⟩ := hk
  cases h with
  | fails => exact Or.inl ⟨rfl, rfl, by simp⟩
  | reads hr =>
      refine Or.inl ⟨rfl, rfl, ?_⟩
      cases hr with
      | limited => exact hpc.elim
      | uncleared => exact hpc.elim
      | _ => simp
  | @aside op pc db' pc' ha =>
      cases ha with
      | @audit _ entry => exact Or.inr (Or.inl ⟨entry, rfl, rfl, by simp⟩)
      | _ => exact hpc.elim
  | suspend | restore | suspendNoop | restoreNoop => exact Or.inr (Or.inr ⟨_, _, rfl, rfl, rfl⟩)
  | _ => exact hpc.elim

/-- The row that an update leads to has the statuses around it exactly if the update finds
what was read. -/
theorem Stmt.row_iff (h : Stmt env i x s k o) (hop : k.op.isSanctionOf u = true)
    {target : User} {entry : AuditEntry} {row : User} (hpc : k.pc = .writingStatus target)
    (hentry : o.call.pc = .auditing entry) (hrow : s.users[u]? = some row) :
    s.statusOf u = some entry.before ∧ o.store.statusOf u = some entry.after ↔
      FindsWhatItRead i x k s := by
  have hstatus : s.statusOf u = some row.status := by simp [Db.statusOf, hrow]
  cases h with
  | fails => simp at hentry
  | reads hr =>
      obtain rfl : _ = Pc.writingStatus target := hpc
      cases hr
  | aside ha =>
      obtain rfl : _ = Pc.writingStatus target := hpc
      cases ha
  | @suspend targetId adminId reason target' row' hx hrow' hne =>
      obtain rfl : targetId = u := by simpa [Op.isSanctionOf] using hop
      obtain rfl := Pc.auditing.inj hentry
      have hafter : (s.updateUser targetId fun v => { v with status := .suspended }).statusOf
          targetId = some .suspended := by
        simp [Db.statusOf, hrow]
      simp [FindsWhatItRead, suspendEntry, hafter]
  | @suspendNoop targetId adminId reason target' hsus =>
      obtain rfl : targetId = u := by simpa [Op.isSanctionOf] using hop
      obtain rfl := Pc.auditing.inj hentry
      simp [FindsWhatItRead, suspendEntry, hstatus, hsus row hrow]
  | @restore targetId adminId target' row' hx hrow' hsus =>
      obtain rfl : targetId = u := by simpa [Op.isSanctionOf] using hop
      obtain rfl := Pc.auditing.inj hentry
      obtain rfl := Option.some.inj (hrow.symm.trans hrow')
      have hafter : (s.updateUser targetId fun v => { v with status := .active }).statusOf
          targetId = some .active := by
        simp [Db.statusOf, hrow]
      simp only [FindsWhatItRead, restoreEntry, hafter, hstatus, hsus]
      constructor
      · intro hboth
        exact ⟨hboth.1, Or.inl (Option.some.inj hboth.1).symm⟩
      · intro hboth
        exact ⟨hboth.1, trivial⟩
  | @restoreNoop targetId adminId target' hne =>
      obtain rfl : targetId = u := by simpa [Op.isSanctionOf] using hop
      obtain rfl := Pc.auditing.inj hentry
      simp only [FindsWhatItRead, restoreEntry, hstatus]
      constructor
      · intro hboth
        obtain ⟨hbefore, hafter⟩ := hboth
        exact ⟨hbefore, Or.inr ((Option.some.inj hbefore).symm.trans (Option.some.inj hafter))⟩
      · intro hboth
        obtain ⟨hbefore, hsus | hactive⟩ := hboth
        · exact absurd ((Option.some.inj hbefore).trans hsus) (hne row hrow)
        · exact ⟨hbefore, hbefore.trans (congrArg some hactive)⟩
  | _ => simp at hentry

end Statements

/-- The user stays, and its calls stay calls of `suspend` and `restore`. -/
def sanctioning (env : Env) (u : UserId) :
    Outline (sanctions env u) fun t => t.Satisfies fun _ _ _ _ => True :=
  .ofSteps (sanctions env u) _ (fun db => ∃ row, db.users[u]? = some row)
    (fun _ _ k => k.Sanctions u)
    (by
      intro db me k hentry _
      obtain ⟨hstart, hop⟩ := Bool.and_eq_true_iff.mp hentry
      obtain ⟨op, pc⟩ := k
      cases pc with
      | start => exact ⟨hop, trivial⟩
      | _ => simp [accounts, Call.isStart] at hstart)
    (by
      intro me x k db o _ hstep huser hk
      have h : Stmt env me x db k o := step_cases hstep
      obtain ⟨row, hrow⟩ := huser
      obtain ⟨row', hrow', -⟩ := h.user_stays hrow
      exact ⟨⟨row', hrow'⟩, h.sanctions hk, h.spawned_eq_nil⟩)
    (by
      intro me x k db o other k' _ _ _ _ _ hk'
      exact hk')

section Run

variable {env : Env} {db : Db} {u : UserId} {status : UserStatus} {c' : Config Db Call}
  {ts : List (Transition Db Call Input)} {t : Transition Db Call Input}

/-- The user exists, and every call suspends or restores it. -/
def Sanctioned (u : UserId) (c : Config Db Call) : Prop :=
  (∃ row, c.store.users[u]? = some row) ∧ ∀ (i : ℕ) (k : Call), c.calls[i]? = some k → k.Sanctions u

/-- The call that a transition runs, and its operation. -/
theorem sanction_of_fires (ht : (sanctions env u).Fires t) :
    (∃ k : Call, t.event = .start k ∧ k.Sanctions u ∧ t.post = ⟨t.pre.store, t.pre.calls ++ [k]⟩) ∨
    (∃ i x k o, t.event = .run i x ∧ t.pre.calls[i]? = some k ∧
        Stmt env i x t.pre.store k o ∧ t.post = ⟨o.store, t.pre.calls.set i o.call⟩) := by
  obtain ⟨hfire, hop⟩ := Machine.restrict_fires ht
  rcases stmt_of_fires hfire with ⟨k, he, hstart, hpost⟩ | hrun
  · refine Or.inl ⟨k, he, ⟨hop k he, ?_⟩, hpost⟩
    rw [hstart]
    trivial
  · exact Or.inr hrun

theorem sanctioned_of_run (hrun : (sanctions env u).Run ⟨db, []⟩ ts c')
    (hs : db.statusOf u = some status) :
    Sanctioned u c' ∧ ∀ t ∈ ts, Sanctioned u t.pre ∧ Sanctioned u t.post := by
  obtain ⟨row, hrow, -⟩ := Db.statusOf_eq_some.mp hs
  exact (sanctioning env u).holds_run hrun (fun _ _ _ _ _ _ _ => trivial) ⟨⟨row, hrow⟩, by simp⟩

theorem updateRow_start {k : Call} (he : t.event = .start k) : updateRow t = none := by
  simp [updateRow, Transition.caller, he]

theorem updateRow_eq_some {entry : AuditEntry} :
    updateRow t = some entry ↔ ∃ (k k' : Call) (target : User), t.caller = some k ∧
      t.callerAfter = some k' ∧ k.pc = .writingStatus target ∧ k'.pc = .auditing entry := by
  unfold updateRow
  split
  · rename_i op target op' entry' hcaller hafter
    simp [hcaller, hafter]
  · rename_i hnone
    refine ⟨fun h => by simp at h, fun h => ?_⟩
    obtain ⟨⟨op, pc⟩, ⟨op', pc'⟩, target, hcaller, hafter, rfl, rfl⟩ := h
    exact absurd hafter (hnone op target op' entry hcaller)

/-- A transition that runs no update leaves the status. -/
theorem statusOf_of_updateRow_none (ht : (sanctions env u).Fires t) (hI : Sanctioned u t.pre)
    (hnone : updateRow t = none) : t.post.store.statusOf u = t.pre.store.statusOf u := by
  rcases sanction_of_fires ht with ⟨k, he, hk, hpost⟩ | ⟨i, x, k, o, he, hk, h, hpost⟩
  · rw [hpost]
  · rcases h.sanction_cases (hI.2 i k hk) with
      ⟨hstatus, -⟩ | ⟨entry, -, hstore, -⟩ | ⟨target, entry, hpc, hpc', -⟩
    · rw [hpost]
      exact hstatus
    · rw [hpost]
      simp only [hstore]
      rfl
    · have hsome : updateRow t = some entry := updateRow_eq_some.mpr
        ⟨k, o.call, target, Transition.caller_eq he hk, Transition.callerAfter_eq he hk hpost,
          hpc, hpc'⟩
      simp [hnone] at hsome

/-- A transition that runs an update, with the statuses around it. -/
theorem statuses_iff_of_updateRow (ht : (sanctions env u).Fires t) (hI : Sanctioned u t.pre)
    {entry : AuditEntry} (hrow : updateRow t = some entry) :
    t.pre.store.statusOf u = some entry.before ∧ t.post.store.statusOf u = some entry.after ↔
      t.Satisfies FindsWhatItRead := by
  rcases sanction_of_fires ht with ⟨k, he, hk, hpost⟩ | ⟨i, x, k, o, he, hk, h, hpost⟩
  · simp [updateRow_start he] at hrow
  · obtain ⟨k₁, k₂, target, hcaller, hafter, hpc, hpc'⟩ := updateRow_eq_some.mp hrow
    obtain rfl := Option.some.inj ((Transition.caller_eq he hk).symm.trans hcaller)
    obtain rfl := Option.some.inj ((Transition.callerAfter_eq he hk hpost).symm.trans hafter)
    obtain ⟨row, huser⟩ := hI.1
    rw [Transition.satisfies_iff he hk, hpost]
    exact h.row_iff (hI.2 i k hk).1 hpc hpc' huser

/-- A call that is about to write its row has run the update that the row is about. -/
theorem updated_of_auditing (hrun : (sanctions env u).Run ⟨db, []⟩ ts c')
    (hs : db.statusOf u = some status) {i : ℕ} {k : Call} {entry : AuditEntry}
    (hk : c'.calls[i]? = some k) (hpc : k.pc = .auditing entry) :
    ∃ t ∈ ts, UpdatesWith i entry t := by
  generalize hc : (⟨db, []⟩ : Config Db Call) = c at hrun
  induction hrun generalizing k with
  | nil =>
      subst hc
      simp at hk
  | @snoc _ ts t hrun hpre hfire ih =>
      subst hc
      have hearlier : ∀ {k : Call}, t.pre.calls[i]? = some k → k.pc = .auditing entry →
          ∃ t' ∈ ts ++ [t], UpdatesWith i entry t' := by
        intro k hk hpc
        obtain ⟨t', ht', hupdate⟩ := ih (hpre ▸ hk) hpc
        exact ⟨t', List.mem_append_left _ ht', hupdate⟩
      have hI : Sanctioned u t.pre := hpre ▸ (sanctioned_of_run hrun hs).1
      rcases sanction_of_fires hfire with
        ⟨k', he, hk', hpost⟩ | ⟨j, x, k', o, he, hk', h, hpost⟩
      · rw [hpost] at hk
        rcases Table.of_append hk with hold | ⟨-, rfl⟩
        · exact hearlier hold hpc
        · obtain ⟨hfires, -⟩ := Machine.restrict_fires hfire
          rcases stmt_of_fires hfires with ⟨k₀, he₀, hstart, -⟩ | ⟨j, x, k₀, o, he₀, -⟩
          · obtain rfl := Event.start.inj (he.symm.trans he₀)
            simp [hstart] at hpc
          · simp [he] at he₀
      · by_cases hij : j = i
        · subst hij
          have hcall := hk
          rw [hpost, List.getElem?_set_self (List.getElem?_eq_some_iff.mp hk').1] at hcall
          obtain rfl := Option.some.inj hcall
          rcases h.sanction_cases (hI.2 j k' hk') with
            ⟨-, -, hnot⟩ | ⟨-, -, -, hnot⟩ | ⟨target, entry', hpc₁, hpc₂, -⟩
          · exact absurd hpc (hnot entry)
          · exact absurd hpc (hnot entry)
          · exact ⟨t, by simp, ⟨x, he⟩, updateRow_eq_some.mpr ⟨k', o.call, target,
              Transition.caller_eq he hk', Transition.callerAfter_eq he hk' hpost, hpc₁, hpc⟩⟩
        · rw [hpost, List.getElem?_set_ne hij] at hk
          exact hearlier hk hpc

/-- A row that is written is about an update of its call. -/
theorem updated_of_writesRow (hrun : (sanctions env u).Run ⟨db, []⟩ ts c')
    (hs : db.statusOf u = some status) {i : ℕ} {entry : AuditEntry}
    (hwrites : WritesRow ts i entry) : ∃ t ∈ ts, UpdatesWith i entry t := by
  obtain ⟨t, ht, ⟨x, he⟩, hlog⟩ := hwrites
  have hfire := hrun.fires t ht
  have hI := ((sanctioned_of_run hrun hs).2 t ht).1
  obtain ⟨before, after, rfl, hbefore, -⟩ := hrun.split t ht
  obtain ⟨k, o, hk, h, hpost, -⟩ := stmt_of_event (Machine.restrict_fires hfire).1 he
  rw [hpost] at hlog
  rcases h.sanction_cases (hI.2 i k hk) with
    ⟨-, hsame, -⟩ | ⟨entry', hpc, hstore, -⟩ | ⟨-, -, -, -, hsame⟩
  · simp [hsame] at hlog
  · obtain rfl : entry' = entry := by simpa [hstore] using hlog
    obtain ⟨t', ht', hupdate⟩ := updated_of_auditing hbefore hs hk hpc
    exact ⟨t', List.mem_append_left _ ht', hupdate⟩
  · simp [hsame] at hlog

/-! ### Replaying -/

/-- One more row replays if it takes up where the others end. -/
theorem replay_append {rows : List AuditEntry} {path : List UserStatus} {entry : AuditEntry}
    (h : replay status rows = some path) (hnext : entry.before = path.getLastD status) :
    replay status (rows ++ [entry]) = some (path ++ [entry.after]) := by
  induction rows generalizing status path with
  | nil =>
      obtain rfl : [] = path := Option.some.inj h
      simp only [List.getLastD_nil] at hnext
      simp [replay, hnext]
  | cons row rows ih =>
      simp only [replay] at h
      split at h
      · rename_i hbefore
        obtain ⟨rest, hrest, rfl⟩ := Option.map_eq_some_iff.mp h
        rw [List.getLastD_cons] at hnext
        simp [replay, hbefore, ih hrest hnext]
      · simp at h

/-- Where every update has the statuses of its row, the rows replay to what happened. -/
theorem replay_of_run (hrun : (sanctions env u).Run ⟨db, []⟩ ts c')
    (hs : db.statusOf u = some status)
    (hrows : ∀ t ∈ ts, ∀ entry, updateRow t = some entry →
      t.pre.store.statusOf u = some entry.before ∧ t.post.store.statusOf u = some entry.after) :
    replay status (ts.filterMap updateRow) = some (statusSequence u ts) ∧
      c'.store.statusOf u = some ((statusSequence u ts).getLastD status) := by
  generalize hc : (⟨db, []⟩ : Config Db Call) = c at hrun
  induction hrun with
  | nil =>
      subst hc
      exact ⟨rfl, hs⟩
  | @snoc _ ts t hrun hpre hfire ih =>
      subst hc
      obtain ⟨hreplay, hlast⟩ := ih fun t' ht' => hrows t' (List.mem_append_left _ ht')
      have hI : Sanctioned u t.pre := hpre ▸ (sanctioned_of_run hrun hs).1
      cases hrow : updateRow t with
      | none =>
          have hsame := statusOf_of_updateRow_none hfire hI hrow
          rw [hpre, hlast] at hsame
          simpa [statusSequence, hrow, hsame] using hreplay
      | some entry =>
          obtain ⟨hbefore, hafter⟩ := hrows t (by simp) entry hrow
          rw [hpre, hlast] at hbefore
          have hnext := replay_append hreplay (Option.some.inj hbefore).symm
          simpa [statusSequence, hrow, hafter] using hnext

/-- **When the audit trail tells what happened**: exactly if every update whose row is written
finds the status that the call has read and, in a `restore`, leaves the user ACTIVE. -/
theorem trailTells_iff (hrun : (sanctions env u).Run ⟨db, []⟩ ts c')
    (hs : db.statusOf u = some status) :
    TrailTells u status ts ↔ ∀ t ∈ ts, ∀ i entry, UpdatesWith i entry t →
      WritesRow ts i entry → t.Satisfies FindsWhatItRead := by
  have hiff : ∀ t ∈ ts, ∀ i entry, UpdatesWith i entry t →
      (t.pre.store.statusOf u = some entry.before ∧ t.post.store.statusOf u = some entry.after ↔
        t.Satisfies FindsWhatItRead) := fun t ht i entry hupdate =>
    statuses_iff_of_updateRow (hrun.fires t ht) ((sanctioned_of_run hrun hs).2 t ht).1 hupdate.2
  constructor
  · intro htells t ht i entry hupdate hwrites
    exact (hiff t ht i entry hupdate).mp (htells.statuses t ht i entry hupdate hwrites)
  · intro hfinds
    have hstatuses : ∀ t ∈ ts, ∀ i entry, UpdatesWith i entry t → WritesRow ts i entry →
        t.pre.store.statusOf u = some entry.before ∧
          t.post.store.statusOf u = some entry.after := fun t ht i entry hupdate hwrites =>
      (hiff t ht i entry hupdate).mpr (hfinds t ht i entry hupdate hwrites)
    refine ⟨fun i entry => updated_of_writesRow hrun hs, hstatuses, fun hall => ?_⟩
    refine (replay_of_run hrun hs fun t ht entry hrow => ?_).1
    obtain ⟨k, k', target, hcaller, -⟩ := updateRow_eq_some.mp hrow
    cases he : t.event with
    | start k => simp [Transition.caller, he] at hcaller
    | run i x => exact hstatuses t ht i entry ⟨⟨x, he⟩, hrow⟩ (hall t ht i entry ⟨⟨x, he⟩, hrow⟩)

end Run

/-- One user with this status. -/
def userWith (status : UserStatus) : Db :=
  { users := [{ phone := "p", passwordHash := "", role := .customer, status, referralCode := "r"
                locale := .uz }] }

/-- The admin number 9 suspends the user and restores it. -/
def suspendThenRestore : List (Event Call Input) :=
  play 0 4 (.suspend 0 9 "") {} ++ play 1 4 (.restore 0 9) {}

/-- An ACTIVE user is suspended and restored. -/
theorem trailTells_suspendThenRestore :
    TrailTells 0 .active ((sanctions plainHashes 0).trace ⟨userWith .active, []⟩
      suspendThenRestore) := by
  have hfinds : ∀ t ∈ (sanctions plainHashes 0).trace ⟨userWith .active, []⟩ suspendThenRestore,
      t.Satisfies FindsWhatItRead := by
    decide +kernel
  exact (trailTells_iff ((sanctions plainHashes 0).run_trace _ _) rfl).mpr
    fun t ht _ _ _ _ => hfinds t ht

/-- A PENDING user is restored: the update is next. -/
def restoringPending : Config Db Call :=
  (sanctions plainHashes 0).after ⟨userWith .pending, []⟩ (play 0 1 (.restore 0 9) {})

/-- It changes nothing, and the row says that the user is ACTIVE. -/
theorem not_trailTells_always :
    ¬ ∀ (env : Env) (db : Db) (u : UserId) (status : UserStatus) (c' : Config Db Call)
        (ts : List (Transition Db Call Input)), (sanctions env u).Run ⟨db, []⟩ ts c' →
        db.statusOf u = some status → TrailTells u status ts := by
  intro h
  have htells := h plainHashes (userWith .pending) 0 .pending _ _
    ((sanctions plainHashes 0).run_around ⟨userWith .pending, []⟩ (play 0 1 (.restore 0 9) {})
      (e := .run 0 {}) (by decide +kernel) [.run 0 {}]) rfl
  have hafter := (htells.statuses
    ⟨restoringPending, .run 0 {}, (sanctions plainHashes 0).after restoringPending [.run 0 {}]⟩
    (List.mem_append_right _ List.mem_cons_self) 0
    { actorId := 9, action := .userRestore, entityId := 0, before := .pending, after := .active
      reason := none, noop := true }
    ⟨⟨{}, rfl⟩, rfl⟩
    ⟨_, List.mem_append_right _ (List.mem_cons_of_mem _ List.mem_cons_self), ⟨{}, rfl⟩, rfl⟩).2
  exact absurd hafter (by decide +kernel)

end Handly.Auth
