import Handly.Lib.Composition
import Handly.Media.Statements

/-!
# Completion evidence

Media and orders change side by side. `addMedia` and `addJobMedia` check the status of the order
when they read it, `deleteMedia` checks only whose order it is. So what the master has uploaded,
and what the customer submitted, stays exactly while no delete and no late insert of the customer
finds the order past its draft.

Once an order has left its draft no lifecycle write brings it back. An edit that read the order
before it was submitted does.
-/

namespace Handly.Media

open Interleaving

/-! ### Both services over one store -/

inductive Component
  | orders | media
  deriving DecidableEq

abbrev Component.Call : Component → Type
  | .orders => Handly.Call
  | .media => Media.Call

abbrev Component.Input : Component → Type
  | .orders => Handly.Input
  | .media => Media.Input

/-- A call of either, and an input. -/
abbrev AnyCall := Σ c : Component, c.Call
abbrev AnyInput := Σ c : Component, c.Input

def component (oenv : Handly.Env) (env : Env) : ∀ c : Component, Machine Db c.Call c.Input
  | .orders => (orders oenv).onPart Db.toDb fun part db => { db with toDb := part }
  | .media => media env

/-- The machine of the order service with its media. -/
def service (oenv : Handly.Env) (env : Env) : Machine Db AnyCall AnyInput :=
  .sigma (component oenv env)

/-! ### What is promised -/

/-- The order has left DRAFT and PRICED. -/
def HasLeft (db : Handly.Db) (orderId : OrderId) : Prop := ∃ s ∈ db.statusOf orderId, ¬ s.Editable

instance (db : Handly.Db) (orderId : OrderId) : Decidable (HasLeft db orderId) :=
  inferInstanceAs (Decidable (∃ s ∈ db.statusOf orderId, _))

/-- The media of an order, with their ids. -/
def Db.mediaSet (db : Db) (orderId : OrderId) : Set (MediaId × OrderMedia) :=
  { p | db.media[p.1]? = some (some p.2) ∧ p.2.orderId = orderId }

/-- The evidence of the master, with its ids. -/
def Db.evidence (db : Db) : Set (MediaId × OrderMedia) :=
  { p | db.media[p.1]? = some (some p.2) ∧ p.2.uploadedByRole = .master }

/-- The call is one of the customer's. -/
def ByCustomer : AnyCall → Prop
  | ⟨.orders, k⟩ =>
      match k.op with
      | .createDraft _ _ | .updateDraft _ _ _ | .diagnose _ _ | .submit _ _
      | .lifecycle (.cancel _ _) | .lifecycle (.confirmCompletion _ _) => True
      | _ => False
  | ⟨.media, k⟩ =>
      match k.op with
      | .addMedia _ _ _ | .deleteMedia _ _ _ => True
      | .addJobMedia _ _ _ => False

/-- From where an order has left its draft, no call of the customer changes its media, and the
evidence only grows. -/
structure EvidenceSurvives (ts : List (Transition Db AnyCall AnyInput)) : Prop where
  frozen : ∀ before t after, ts = before ++ t :: after →
    ∀ orderId, HasLeft t.pre.store.toDb orderId →
      ∀ t' ∈ t :: after, (∃ k ∈ t'.caller, ByCustomer k) →
        t'.post.store.mediaSet orderId = t'.pre.store.mediaSet orderId
  kept : ∀ t ∈ ts, t.pre.store.evidence ⊆ t.post.store.evidence

/-! ### When it holds -/

/-- The write of an edit does not take an order back that has left its draft. -/
def EditsInTime (k : Handly.Call) (db : Handly.Db) : Prop :=
  match k.pc, k.op with
  | .guarded order, .updateDraft _ orderId dto =>
      invalidatesQuote order dto = true → ¬ HasLeft db orderId
  | .quoted _ _ _ _, .diagnose _ orderId => ¬ HasLeft db orderId
  | _, _ => True

/-- A medium that the customer adds or deletes is of an order that has not left its draft. -/
def Call.ChangesInTime (k : Call) (db : Db) : Prop :=
  match k.pc, k.op with
  | .stored _ _, .addMedia _ orderId _ => ¬ HasLeft db.toDb orderId
  | .found _, .deleteMedia _ orderId mediaId =>
      db.media[mediaId]?.join.isSome → ¬ HasLeft db.toDb orderId
  | _, _ => True

/-- What the statement writes, unless it fails, is written in time. -/
def WritesInTime (_me : ℕ) (x : AnyInput) (k : AnyCall) (db : Db) : Prop :=
  match x, k with
  | ⟨.orders, x⟩, ⟨.orders, k⟩ => x.fail = false → EditsInTime k db.toDb
  | ⟨.media, x⟩, ⟨.media, k⟩ => x.fail = false → k.ChangesInTime db
  | _, _ => True

instance (k : Handly.Call) (db : Handly.Db) : Decidable (EditsInTime k db) :=
  decidable_of_bool
    (match k.pc, k.op with
      | .guarded order, .updateDraft _ orderId dto =>
          decide (invalidatesQuote order dto = true → ¬ HasLeft db orderId)
      | .quoted _ _ _ _, .diagnose _ orderId => decide (¬ HasLeft db orderId)
      | _, _ => true)
    (by unfold EditsInTime; split <;> simp only [decide_eq_true_iff])

instance (k : Call) (db : Db) : Decidable (k.ChangesInTime db) :=
  decidable_of_bool
    (match k.pc, k.op with
      | .stored _ _, .addMedia _ orderId _ => decide (¬ HasLeft db.toDb orderId)
      | .found _, .deleteMedia _ orderId mediaId =>
          decide (db.media[mediaId]?.join.isSome → ¬ HasLeft db.toDb orderId)
      | _, _ => true)
    (by unfold Call.ChangesInTime; split <;> simp only [decide_eq_true_iff])

instance (me : ℕ) (x : AnyInput) (k : AnyCall) (db : Db) : Decidable (WritesInTime me x k db) :=
  decidable_of_bool
    (match x, k with
      | ⟨.orders, x⟩, ⟨.orders, k⟩ => decide (x.fail = false → EditsInTime k db.toDb)
      | ⟨.media, x⟩, ⟨.media, k⟩ => decide (x.fail = false → k.ChangesInTime db)
      | _, _ => true)
    (by unfold WritesInTime; split <;> simp only [decide_eq_true_iff])

/-- There is evidence only of orders that have left their draft. -/
def Db.EvidenceInPlace (db : Db) : Prop :=
  ∀ p ∈ db.evidence, HasLeft db.toDb p.2.orderId

/-- What a call on the media knows: a checked `addJobMedia` that the order has left its draft,
a `deleteMedia` the row that it deletes. -/
def Call.Knows (db : Db) (k : Call) : Prop :=
  match k.pc, k.op with
  | .checked _ _, .addJobMedia _ orderId _ | .stored _ _, .addJobMedia _ orderId _ =>
      HasLeft db.toDb orderId
  | .found media, .deleteMedia _ orderId mediaId =>
      media.orderId = orderId ∧ ∃ row, db.media[mediaId]? = some row ∧ ∀ m ∈ row, m = media
  | _, _ => True

/-- The same of either kind of call. -/
def Known (db : Db) : AnyCall → Prop
  | ⟨.orders, _⟩ => True
  | ⟨.media, k⟩ => k.Knows db

section Orders

variable {oenv : Handly.Env} {me : ℕ} {x : Handly.Input} {k : Handly.Call} {db : Handly.Db}
  {o : Outcome Handly.Db Handly.Call} {orderId : OrderId}

theorem target_not_editable (l : Lifecycle) : ¬ l.spec.target.Editable := by
  cases l <;> simp [Lifecycle.spec, OrderStatus.Editable, editableStatuses]

/-- Only an edit writes a status of the draft. -/
theorem writes_not_editable {w : JobWrite} (hw : k.Writes w) (hC : EditsInTime k db) :
    ¬ w.status.Editable ∨ ¬ HasLeft db w.orderId := by
  cases hw with
  | updateDraft hinv => exact Or.inr (hC hinv)
  | diagnose => exact Or.inr hC
  | @lifecycle l => exact Or.inl (target_not_editable l)
  | submit | accept | failSearch => exact Or.inl (by simp [OrderStatus.Editable, editableStatuses])

/-- An order that has left its draft stays past it. -/
theorem HasLeft.of_orders (h : Handly.Stmt oenv me x db k o)
    (hfails : x.fail = true → o = k.goto (db.unlock me) (.threw .infrastructure))
    (hC : x.fail = false → EditsInTime k db) (hleft : HasLeft db orderId) :
    HasLeft o.store orderId := by
  obtain ⟨s, hs, hne⟩ := hleft
  cases hx : x.fail with
  | true =>
      rw [hfails hx]
      exact ⟨s, hs, hne⟩
  | false =>
      rcases h.jobs.statusOf_before hs with hkept | ⟨w, job, hw, rfl, -, -, -, hst⟩
      · exact ⟨s, hkept, hne⟩
      · refine ⟨w.status, hst, ?_⟩
        exact (writes_not_editable hw (hC hx)).resolve_right (not_not_intro ⟨s, hs, hne⟩)

end Orders

section Media

variable {x : Input} {k : Call} {db : Db} {o : Outcome Db Call} {orderId : OrderId}

theorem Call.Knows.of_orders {db' : Db} (hk : k.Knows db)
    (hleft : ∀ orderId, HasLeft db.toDb orderId → HasLeft db'.toDb orderId)
    (hmedia : db'.media = db.media) : k.Knows db' := by
  obtain ⟨op, pc⟩ := k
  cases pc with
  | checked | stored =>
      cases op with
      | addJobMedia masterId orderId file => exact hleft orderId hk
      | _ => trivial
  | found media =>
      cases op with
      | deleteMedia customerId orderId mediaId =>
          show _ ∧ ∃ row, db'.media[mediaId]? = some row ∧ _
          rw [hmedia]
          exact hk
      | _ => trivial
  | _ => trivial

/-- A call on the media establishes what it knows next. -/
theorem Stmt.knows (h : Stmt x db k o) (hk : k.Knows db) : o.call.Knows o.store := by
  cases h with
  | addJobMediaChecked hrow _ hst =>
      refine ⟨_, Db.statusOf_eq_some.mpr ⟨_, hrow, rfl⟩, ?_⟩
      rcases hst with hst | hst <;> rw [hst] <;> decide
  | found hrow horder =>
      exact ⟨horder, _, hrow, fun m hm => (Option.some.inj hm).symm⟩
  | @stored op => cases op <;> exact hk
  | _ => trivial

/-- A row after a statement: an old one, or the one that the call inserts. -/
theorem Stmt.media_after (h : Stmt x db k o) {id : MediaId} {row : OrderMedia}
    (hrow : o.store.media[id]? = some (some row)) :
    db.media[id]? = some (some row) ∨
      ∃ orderId file kind objectKey, k.pc = .stored kind objectKey ∧ id = db.media.length ∧
        ((∃ customerId, k.op = .addMedia customerId orderId file ∧
            row = mediaOf orderId .customer file kind objectKey) ∨
          ∃ masterId, k.op = .addJobMedia masterId orderId file ∧
            row = mediaOf orderId .master file kind objectKey) := by
  cases h with
  | @addMedia customerId orderId file kind objectKey =>
      rcases Table.of_append hrow with hold | ⟨hid, hnew⟩
      · exact Or.inl hold
      · exact Or.inr ⟨orderId, file, kind, objectKey, rfl, hid,
          Or.inl ⟨customerId, rfl, Option.some.inj hnew⟩⟩
  | @addJobMedia masterId orderId file kind objectKey =>
      rcases Table.of_append hrow with hold | ⟨hid, hnew⟩
      · exact Or.inl hold
      · exact Or.inr ⟨orderId, file, kind, objectKey, rfl, hid,
          Or.inr ⟨masterId, rfl, Option.some.inj hnew⟩⟩
  | @deleteMedia customerId orderId mediaId media old hold =>
      rw [Db.deleteMedia_media, List.getElem?_set] at hrow
      split at hrow
      · split at hrow <;> simp at hrow
      · exact Or.inl hrow
  | _ => exact Or.inl hrow

/-- A row stays, a deleted one included, unless the call deletes it. -/
theorem Stmt.media_before (h : Stmt x db k o) {id : MediaId} {row : Option OrderMedia}
    (hrow : db.media[id]? = some row) :
    o.store.media[id]? = some row ∨
      (o.store.media[id]? = some none ∧
        ∃ media customerId orderId, k = ⟨.deleteMedia customerId orderId id, .found media⟩) := by
  cases h with
  | addMedia | addJobMedia => exact Or.inl (Table.append_of_row hrow _)
  | @deleteMedia customerId orderId mediaId media =>
      by_cases hid : mediaId = id
      · subst hid
        have hlt := (List.getElem?_eq_some_iff.mp hrow).1
        exact Or.inr ⟨List.getElem?_set_self hlt, media, customerId, orderId, rfl⟩
      · rw [Db.deleteMedia_media, List.getElem?_set_ne hid]
        exact Or.inl hrow
  | _ => exact Or.inl hrow

/-- A statement does not disturb what another call knows. -/
theorem Stmt.knows_other (h : Stmt x db k o) {k' : Call} (hk' : k'.Knows db) :
    k'.Knows o.store := by
  obtain ⟨op, pc⟩ := k'
  cases pc with
  | checked | stored =>
      cases op with
      | addJobMedia =>
          show HasLeft o.store.toDb _
          rw [h.toDb_eq]
          exact hk'
      | _ => trivial
  | found media =>
      cases op with
      | deleteMedia customerId orderId mediaId =>
          obtain ⟨horder, row, hrow, hread⟩ := hk'
          rcases h.media_before hrow with hkept | ⟨hgone, -⟩
          · exact ⟨horder, row, hkept, hread⟩
          · exact ⟨horder, none, hgone, by simp⟩
      | _ => trivial
  | _ => trivial

/-- A medium of an order that has left its draft stays. -/
theorem Stmt.media_stays (h : Stmt x db k o) (hk : k.Knows db) (hC : k.ChangesInTime db)
    {id : MediaId} {row : OrderMedia} (hrow : db.media[id]? = some (some row))
    (hleft : HasLeft db.toDb row.orderId) : o.store.media[id]? = some (some row) := by
  rcases h.media_before hrow with hkept | ⟨-, media, customerId, orderId, rfl⟩
  · exact hkept
  · obtain ⟨rfl, row', hrow', hread⟩ := hk
    obtain rfl := Option.some.inj (hrow.symm.trans hrow')
    obtain rfl := hread row rfl
    exact absurd hleft (hC (by simp [hrow]))

/-- Such an order gets no new medium from its customer. -/
theorem Stmt.media_old (h : Stmt x db k o) (hC : k.ChangesInTime db)
    (hcustomer : ByCustomer ⟨.media, k⟩) {id : MediaId} {row : OrderMedia}
    (hrow : o.store.media[id]? = some (some row)) (hleft : HasLeft db.toDb row.orderId) :
    db.media[id]? = some (some row) := by
  obtain ⟨op, pc⟩ := k
  rcases h.media_after hrow with hold | ⟨orderId, file, kind, objectKey, rfl, -, hnew⟩
  · exact hold
  · rcases hnew with ⟨customerId, rfl, rfl⟩ | ⟨masterId, rfl, -⟩
    · exact absurd hleft hC
    · exact hcustomer.elim

/-- New evidence is of an order that has left its draft. -/
theorem Stmt.inPlace (h : Stmt x db k o) (hk : k.Knows db) (hG : db.EvidenceInPlace) :
    o.store.EvidenceInPlace := by
  intro p hp
  obtain ⟨hrow, hmaster⟩ := hp
  obtain ⟨op, pc⟩ := k
  rw [h.toDb_eq]
  rcases h.media_after hrow with hold | ⟨orderId, file, kind, objectKey, rfl, -, hnew⟩
  · exact hG p ⟨hold, hmaster⟩
  · rcases hnew with ⟨customerId, rfl, heq⟩ | ⟨masterId, rfl, heq⟩
    · simp [heq, mediaOf] at hmaster
    · rw [heq]
      exact hk

end Media

/-! ### A whole run -/

section Run

variable {oenv : Handly.Env} {env : Env} {db : Db} {c c' : Config Db AnyCall}
  {ts : List (Transition Db AnyCall AnyInput)} {t : Transition Db AnyCall AnyInput}

/-- A statement of the order service over the larger store. -/
theorem orders_cases {i : ℕ} {x : Handly.Input} {k : Handly.Call} {o : Outcome Db Handly.Call}
    (h : (component oenv env .orders).step i x k db = some o) :
    ∃ o', Handly.Stmt oenv i x db.toDb k o' ∧
      (x.fail = true → o' = k.goto (db.unlock i) (.threw .infrastructure)) ∧
      o = ⟨{ db with toDb := o'.store }, o'.call, o'.spawned⟩ := by
  obtain ⟨o', ho', rfl⟩ := Machine.onPart_step h
  obtain ⟨-, hstmt, hfails⟩ := Handly.step_cases ho'
  exact ⟨o', hstmt, hfails, rfl⟩

theorem media_cases {i : ℕ} {x : Input} {k : Call} {o : Outcome Db Call}
    (h : (component oenv env .media).step i x k db = some o) :
    Stmt x db k o ∧ (x.fail = true → o = k.goto db (.threw .infrastructure)) :=
  step_cases (show step env i x k db = some o from h)

/-- No statement written in time takes an order back. -/
theorem hasLeft_step {i : ℕ} {cp : Component} {x : cp.Input} {k : cp.Call} {o : Outcome Db cp.Call}
    (h : (component oenv env cp).step i x k db = some o) (hC : WritesInTime i ⟨cp, x⟩ ⟨cp, k⟩ db)
    {orderId : OrderId} (hleft : HasLeft db.toDb orderId) : HasLeft o.store.toDb orderId := by
  cases cp with
  | orders =>
      obtain ⟨o', hstmt, hfails, rfl⟩ := orders_cases h
      exact hleft.of_orders hstmt hfails hC
  | media =>
      rw [(media_cases h).1.toDb_eq]
      exact hleft

/-- The outline of a run whose writes are in time. -/
def inPlace (oenv : Handly.Env) (env : Env) :
    Outline (service oenv env) fun t => t.Satisfies WritesInTime :=
  .sigma (component oenv env) _ Db.EvidenceInPlace (fun db _ k => Known db k)
    (by
      intro s i cp k hentry hG
      cases cp with
      | orders => trivial
      | media =>
          obtain ⟨op, pc⟩ := k
          cases pc <;> trivial)
    (by
      intro t i cp x k o hC he hk hstep hpost hG hL
      cases cp with
      | orders =>
          obtain ⟨o', hstmt, -, rfl⟩ := orders_cases hstep
          refine ⟨fun p hp => hasLeft_step hstep (hC _ _ _ he hk) (hG p hp), trivial, ?_⟩
          intro k' hk'
          simp [component, Machine.onPart, orders, Handly.Call.isStart, hstmt.spawned_start k' hk']
      | media =>
          have hstmt := (media_cases hstep).1
          exact ⟨hstmt.inPlace hL hG, hstmt.knows hL, by simp [hstmt.spawned_eq_nil]⟩)
    (by
      intro t i cp x k o j cp' k' hC he hk hstep hk' hne hG hL hL'
      cases cp' with
      | orders => trivial
      | media =>
          cases cp with
          | orders =>
              have hleft := fun orderId (hleft : HasLeft _ orderId) =>
                hasLeft_step hstep (hC _ _ _ he hk) hleft
              obtain ⟨o', -, -, rfl⟩ := orders_cases hstep
              exact hL'.of_orders hleft rfl
          | media => exact (media_cases hstep).1.knows_other hL')

/-- From where an order has left its draft, it stays past it. -/
theorem hasLeft_of_run (hrun : (service oenv env).Run c ts c')
    (hC : ∀ t ∈ ts, t.Satisfies WritesInTime) {orderId : OrderId}
    (hleft : HasLeft c.store.toDb orderId) : ∀ t ∈ ts, HasLeft t.pre.store.toDb orderId := by
  have hstays := (hrun.invariant (fun c => HasLeft c.store.toDb orderId)
    (fun t => t.Satisfies WritesInTime) hC hleft ?_).2
  · exact fun t ht => (hstays t ht).1
  · intro t ht hCt hI
    rcases Machine.sigma_fires ht with
      ⟨cp, k, -, -, hpost⟩ | ⟨i, cp, x, k, o, he, hk, hstep, hpost⟩
    · rw [hpost]
      exact hI
    · rw [hpost]
      exact hasLeft_step hstep (hCt _ _ _ he hk) hI

/-- The media of an order that has left its draft, in one transition. -/
theorem media_fires (ht : (service oenv env).Fires t) (hC : t.Satisfies WritesInTime)
    (hI : (inPlace oenv env).Holds t.pre) {p : MediaId × OrderMedia}
    (hleft : HasLeft t.pre.store.toDb p.2.orderId) :
    (t.pre.store.media[p.1]? = some (some p.2) → t.post.store.media[p.1]? = some (some p.2)) ∧
      ((∃ k ∈ t.caller, ByCustomer k) → t.post.store.media[p.1]? = some (some p.2) →
        t.pre.store.media[p.1]? = some (some p.2)) := by
  rcases Machine.sigma_fires ht with ⟨cp, k, -, -, hpost⟩ | ⟨i, cp, x, k, o, he, hk, hstep, hpost⟩
  · rw [hpost]
    exact ⟨id, fun _ => id⟩
  · rw [hpost]
    cases cp with
    | orders =>
        obtain ⟨o', -, -, rfl⟩ := orders_cases hstep
        exact ⟨id, fun _ => id⟩
    | media =>
        obtain ⟨hstmt, hfails⟩ := media_cases hstep
        cases hx : x.fail with
        | true =>
            rw [hfails hx]
            exact ⟨id, fun _ => id⟩
        | false =>
            have hchanges : Call.ChangesInTime k t.pre.store := hC _ _ _ he hk hx
            refine ⟨fun hrow => hstmt.media_stays (hI.2 i _ hk) hchanges hrow hleft, ?_⟩
            intro hcustomer hrow
            obtain ⟨k', hk', hby⟩ := hcustomer
            obtain rfl := Option.some.inj ((Transition.caller_eq he hk).symm.trans hk')
            exact hstmt.media_old hchanges hby hrow hleft

/-- **The evidence survives** a run in which no edit takes an order back, and no medium is added
or deleted by the customer, once the order has left its draft. -/
theorem evidenceSurvives_of_run (hrun : (service oenv env).Run ⟨db, []⟩ ts c')
    (hdb : db.EvidenceInPlace) (hC : ∀ t ∈ ts, t.Satisfies WritesInTime) :
    EvidenceSurvives ts := by
  have hholds := ((inPlace oenv env).holds_run hrun hC ⟨hdb, by simp⟩).2
  refine ⟨fun before t after hts orderId hleft t' ht' hcustomer => ?_, fun t ht p hp => ?_⟩
  · rw [hts] at hrun hC hholds
    have hmem : t' ∈ before ++ t :: after := List.mem_append_right _ ht'
    have hafter : (service oenv env).Run t.pre (t :: after) c' :=
      (hrun.fires t (by simp)).run.append hrun.of_append_cons.2
    have hleft' := hasLeft_of_run hafter
      (fun t'' h => hC t'' (List.mem_append_right _ h)) hleft t' ht'
    ext p
    have hmedia := fun (horder : p.2.orderId = orderId) =>
      media_fires (p := p) (hrun.fires t' hmem) (hC t' hmem) (hholds t' hmem).1 (horder ▸ hleft')
    constructor
    · intro hp
      exact ⟨(hmedia hp.2).2 hcustomer hp.1, hp.2⟩
    · intro hp
      exact ⟨(hmedia hp.2).1 hp.1, hp.2⟩
  · have hleft := (hholds t ht).1.1 p hp
    exact ⟨(media_fires (hrun.fires t ht) (hC t ht) (hholds t ht).1 hleft).1 hp.1, hp.2⟩

end Run

/-- A call on the media is started as number `i` and runs `n` operations. -/
def play (i n : ℕ) (op : Op) (uuid : String) : List (Event AnyCall AnyInput) :=
  .start ⟨.media, ⟨op, .start⟩⟩ :: List.replicate n (.run i ⟨.media, { uuid }⟩)

/-- A JPEG, as far as its signature tells. -/
def picture : MediaFile := { buffer := [0xff, 0xd8, 0xff], mime := "image/jpeg" }

/-- Customer 0 has a draft, and an order that master 1 is working on. -/
def draftAndJob : Db :=
  { orders := [{ customerId := 0, categoryId := none, description := "" },
      { customerId := 0, categoryId := none, description := "", status := .inProgress,
        masterId := some 1 }] }

theorem draftAndJob_inPlace : draftAndJob.EvidenceInPlace := by
  intro p hp
  simp [Db.evidence, draftAndJob] at hp

theorem evidenceSurvives_draftMedia :
    EvidenceSurvives ((service .flat {}).trace ⟨draftAndJob, []⟩
      (play 0 4 (.addMedia 0 0 picture) "a" ++ play 1 4 (.addJobMedia 1 1 picture) "b" ++
        play 2 4 (.deleteMedia 0 0 0) "")) :=
  evidenceSurvives_of_run ((service .flat {}).run_trace _ _) draftAndJob_inPlace
    (by decide +kernel)

/-- The master has uploaded evidence, and a `deleteMedia` of the customer has read it. -/
def deletingEvidence : List (Event AnyCall AnyInput) :=
  play 0 4 (.addJobMedia 1 1 picture) "a" ++ play 1 1 (.deleteMedia 0 1 0) ""

/-- A delete of the customer removes the evidence of an order in progress. -/
theorem not_evidenceSurvives_always :
    ¬ ∀ (oenv : Handly.Env) (env : Env) (db : Db) (ts : List (Transition Db AnyCall AnyInput))
        (c' : Config Db AnyCall),
      (service oenv env).Run ⟨db, []⟩ ts c' → db.EvidenceInPlace → EvidenceSurvives ts := by
  intro h
  have hsurvives := h .flat {} draftAndJob _ _
    (.snoc ⟨_, .run 1 ⟨.media, {}⟩, _⟩ ((service .flat {}).run_trace _ deletingEvidence) rfl
      ((service .flat {}).fires_after (by decide +kernel)))
    draftAndJob_inPlace
  have hlost := hsurvives.kept _ (List.mem_append_right _ List.mem_cons_self)
  have hevidence : ((0, mediaOf 1 .master picture .photo "a.jpg") : MediaId × OrderMedia) ∈
      ((service .flat {}).after ⟨draftAndJob, []⟩ deletingEvidence).store.evidence :=
    ⟨by decide +kernel, rfl⟩
  exact absurd (hlost hevidence).1 (by decide +kernel)

end Handly.Media
