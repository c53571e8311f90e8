import Handly.Lib.Refinement
import Handly.Orders.Deals
import Handly.Realtime.RealtimeGateway

/-!
# Who learns where the parties are

The gateway beside the services of the orders. `location_private` says for any interleaving who is
sent a location: only a socket whose token was verified for one party of an order, and only the
location of the other party, when the order was found being tracked between them.

The relay sends on what it has found some time before, so the last locations may arrive after the
job is over. `relay_ends_with_job` counts them: no more than were on their way when it ended.
-/

namespace Handly.Realtime

open Interleaving

/-! ### The gateway beside the orders -/

inductive Component
  | orders | gateway
  deriving DecidableEq

abbrev Component.Call : Component → Type
  | .orders => Handly.Call
  | .gateway => Realtime.Call

abbrev Component.Input : Component → Type
  | .orders => Handly.Input
  | .gateway => Realtime.Input

abbrev AnyCall := Σ c : Component, c.Call
abbrev AnyInput := Σ c : Component, c.Input

def component (env : Env) (tokens : Tokens) : ∀ c : Component, Machine Store c.Call c.Input
  | .orders => (orders env).onPart Store.db Store.setDb
  | .gateway => gateway tokens

/-- The machine of both. -/
def tracking (env : Env) (tokens : Tokens) : Machine Store AnyCall AnyInput :=
  .sigma (component env tokens)

/-- An operation of the gateway beside the orders. -/
theorem gateway_cases {env : Env} {tokens : Tokens} {i : ℕ} {x : Input} {k : Call} {s : Store}
    {o : Outcome Store Call} (h : (component env tokens .gateway).step i x k s = some o) :
    Stmt tokens x s k o := @step_cases tokens i x s k o h

/-- A token of the user is verified for the socket in this transition. -/
def Authenticates (tokens : Tokens) (socket : SocketId) (userId : UserId)
    (t : Transition Store AnyCall AnyInput) : Prop :=
  ∃ i x op token, t.event = .run i ⟨.gateway, x⟩ ∧
    t.pre.calls[i]? = some ⟨.gateway, ⟨op, .verifying socket token⟩⟩ ∧
    tokens.verify token x.now = some userId

/-- In the past the order was looked up for the one user, and found tracked between the two. -/
def LookedUp (past : List (Transition Store AnyCall AnyInput)) (orderId : OrderId)
    (userId counterpartId : UserId) : Prop :=
  ∃ t ∈ past, Tracks t.pre.store.db orderId userId counterpartId

/-- In the past a token of the user was verified for the socket. -/
def Known (tokens : Tokens) (past : List (Transition Store AnyCall AnyInput)) (socket : SocketId)
    (userId : UserId) : Prop :=
  ∃ t ∈ past, Authenticates tokens socket userId t

/-- What a call of the gateway holds about the past. -/
def Holds (tokens : Tokens) (past : List (Transition Store AnyCall AnyInput)) : AnyCall → Prop
  | ⟨.orders, _⟩ => True
  | ⟨.gateway, k⟩ =>
      match k.pc with
      | .finding userId _ _ => ∃ socket, Known tokens past socket userId
      | .relaying userId counterpartId event =>
          (∃ socket, Known tokens past socket userId) ∧
            LookedUp past event.orderId userId counterpartId
      | _ => True

/-- Who is connected has been authenticated, and what was delivered was due to its recipient. -/
structure Due (tokens : Tokens) (past : List (Transition Store AnyCall AnyInput))
    (c : Config Store AnyCall) : Prop where
  sockets : ∀ id (s : Socket) userId, c.store.sockets[id]? = some s → s.userId = some userId →
    Known tokens past id userId
  calls : ∀ k ∈ c.calls, Holds tokens past k
  delivered : ∀ d ∈ c.store.delivered, Known tokens past d.socket d.recipient ∧
    (∃ socket, Known tokens past socket d.sender) ∧
    LookedUp past d.event.orderId d.sender d.recipient

section Past

variable {env : Env} {tokens : Tokens} {past : List (Transition Store AnyCall AnyInput)}
  {t : Transition Store AnyCall AnyInput}

theorem LookedUp.snoc {orderId : OrderId} {u v : UserId} (h : LookedUp past orderId u v) :
    LookedUp (past ++ [t]) orderId u v := by
  obtain ⟨t', ht', h⟩ := h
  exact ⟨t', List.mem_append_left _ ht', h⟩

theorem Known.snoc {socket : SocketId} {u : UserId} (h : Known tokens past socket u) :
    Known tokens (past ++ [t]) socket u := by
  obtain ⟨t', ht', h⟩ := h
  exact ⟨t', List.mem_append_left _ ht', h⟩

theorem Holds.snoc {k : AnyCall} (h : Holds tokens past k) : Holds tokens (past ++ [t]) k := by
  obtain ⟨c, k⟩ := k
  cases c with
  | orders => trivial
  | gateway =>
      obtain ⟨op, pc⟩ := k
      cases pc with
      | finding =>
          obtain ⟨socket, hknown⟩ := h
          exact ⟨socket, hknown.snoc⟩
      | relaying =>
          obtain ⟨⟨socket, hknown⟩, hlooked⟩ := h
          exact ⟨⟨socket, hknown.snoc⟩, hlooked.snoc⟩
      | _ => trivial

theorem holds_start {c : Component} {k : c.Call} (h : (component env tokens c).entry k = true) :
    Holds tokens past ⟨c, k⟩ := by
  cases c with
  | orders => trivial
  | gateway =>
      obtain ⟨op, pc⟩ := k
      cases pc with
      | start => trivial
      | _ => simp [component, gateway] at h

/-- A socket after an update was there before, and keeps its user if the update does. -/
theorem of_updateSocket {s : Store} {id : SocketId} {f : Socket → Socket} {j : SocketId}
    {c' : Socket} (h : (s.updateSocket id f).sockets[j]? = some c') :
    ∃ c, s.sockets[j]? = some c ∧ (j = id ∧ c' = f c ∨ c' = c) := by
  obtain ⟨c, hc, ⟨rfl, rfl⟩ | ⟨-, rfl⟩⟩ := Table.of_modify h
  · exact ⟨c, hc, Or.inl ⟨rfl, rfl⟩⟩
  · exact ⟨c', hc, Or.inr rfl⟩

theorem mem_room {s : Store} {userId : UserId} {id : SocketId} (h : id ∈ s.room userId) :
    ∃ c, s.sockets[id]? = some c ∧ c.userId = some userId := by
  have hany := List.of_mem_filter h
  obtain ⟨c, hc, hroom⟩ := (Option.any_eq_true _ _).mp hany
  simp only [Bool.and_eq_true, decide_eq_true_eq] at hroom
  exact ⟨c, hc, hroom.2⟩

/-- What an operation of the gateway does. -/
theorem due_of_stmt {i : ℕ} {x : Input} {k : Call} {o : Outcome Store Call}
    (h : Stmt tokens x t.pre.store k o) (he : t.event = .run i ⟨.gateway, x⟩)
    (hk : t.pre.calls[i]? = some ⟨.gateway, k⟩) (hdue : Due tokens past t.pre)
    (hpost : t.post.store = o.store) :
    (∀ id (s : Socket) userId, t.post.store.sockets[id]? = some s → s.userId = some userId →
        Known tokens (past ++ [t]) id userId) ∧
      Holds tokens (past ++ [t]) ⟨.gateway, o.call⟩ ∧
      ∀ d ∈ t.post.store.delivered, Known tokens (past ++ [t]) d.socket d.recipient ∧
        (∃ socket, Known tokens (past ++ [t]) socket d.sender) ∧
        LookedUp (past ++ [t]) d.event.orderId d.sender d.recipient := by
  obtain ⟨hsockets, hcalls, hdelivered⟩ := hdue
  have hself := hcalls _ (List.mem_of_getElem? hk)
  have hbefore : ∀ id (s : Socket) userId, t.pre.store.sockets[id]? = some s →
      s.userId = some userId → Known tokens (past ++ [t]) id userId :=
    fun id s userId hs hu => (hsockets id s userId hs hu).snoc
  have hold : ∀ d ∈ t.pre.store.delivered, Known tokens (past ++ [t]) d.socket d.recipient ∧
      (∃ socket, Known tokens (past ++ [t]) socket d.sender) ∧
      LookedUp (past ++ [t]) d.event.orderId d.sender d.recipient := by
    intro d hd
    obtain ⟨hrecipient, ⟨socket, hsender⟩, hlooked⟩ := hdelivered d hd
    exact ⟨hrecipient.snoc, ⟨socket, hsender.snoc⟩, hlooked.snoc⟩
  -- An update that leaves the user of a socket alone.
  have hupdate : ∀ {id : SocketId} {f : Socket → Socket}, (∀ c, (f c).userId = c.userId) →
      ∀ j (s : Socket) userId, (t.pre.store.updateSocket id f).sockets[j]? = some s →
        s.userId = some userId → Known tokens (past ++ [t]) j userId := by
    intro id f hf j s userId hs hu
    obtain ⟨c, hc, ⟨-, rfl⟩ | rfl⟩ := of_updateSocket hs
    · exact hbefore j c userId hc ((hf c).symm.trans hu)
    · exact hbefore j s userId hc hu
  rw [hpost]
  cases h with
  | ends hpc =>
      refine ⟨hbefore, ?_, hold⟩
      rcases hpc with rfl | rfl <;> trivial
  | opens hc hpc =>
      refine ⟨fun id s userId hs hu => ?_, ?_, hold⟩
      · rcases Table.of_append hs with hs | ⟨-, rfl⟩
        · exact hbefore id s userId hs hu
        · simp [hc] at hu
      · rcases hpc with rfl | ⟨token, rfl⟩ <;> trivial
  | closes => exact ⟨hupdate fun _ => rfl, trivial, hold⟩
  | joins => exact ⟨hupdate fun _ => rfl, trivial, hold⟩
  | @verifies op socket token userId hverify =>
      have hnow : Known tokens (past ++ [t]) socket userId :=
        ⟨t, by simp, i, x, op, token, he, hk, hverify⟩
      refine ⟨fun j s u hs hu => ?_, trivial, hold⟩
      obtain ⟨c, hc, ⟨rfl, rfl⟩ | rfl⟩ := of_updateSocket hs
      · obtain rfl := Option.some.inj hu
        exact hnow
      · exact hbefore j s u hc hu
  | @parses op userId lat lng socket c hc hu =>
      exact ⟨hbefore, ⟨socket, hbefore socket c userId hc hu⟩, hold⟩
  | finds htracks =>
      obtain ⟨socket, hknown⟩ := hself
      exact ⟨hbefore, ⟨⟨socket, hknown.snoc⟩, t, by simp, htracks⟩, hold⟩
  | @relays op userId counterpartId event =>
      obtain ⟨⟨socket, hknown⟩, hlooked⟩ := hself
      refine ⟨hbefore, trivial, fun d hd => ?_⟩
      rcases List.mem_append.mp hd with hd | hd
      · exact hold d hd
      · obtain ⟨id, hid, rfl⟩ := List.mem_map.mp hd
        obtain ⟨c, hc, hu⟩ := mem_room hid
        exact ⟨hbefore id c counterpartId hc hu, ⟨socket, hknown.snoc⟩, hlooked.snoc⟩

theorem due_step (ht : (tracking env tokens).Fires t) (hdue : Due tokens past t.pre) :
    Due tokens (past ++ [t]) t.post := by
  rcases Machine.sigma_fires ht with ⟨c, k, -, hk, hpost⟩ | ⟨i, c, x, k, o, he, hk, ho, hpost⟩
  · rw [hpost]
    refine ⟨fun id s u hs hu => (hdue.sockets id s u hs hu).snoc, fun k' hk' => ?_, ?_⟩
    · rcases List.mem_append.mp hk' with hk' | hk'
      · exact (hdue.calls k' hk').snoc
      · rw [List.mem_singleton] at hk'
        exact hk' ▸ holds_start hk
    · intro d hd
      obtain ⟨hrecipient, ⟨socket, hsender⟩, hlooked⟩ := hdue.delivered d hd
      exact ⟨hrecipient.snoc, ⟨socket, hsender.snoc⟩, hlooked.snoc⟩
  · have hcalls : ∀ k' ∈ t.post.calls, Holds tokens (past ++ [t]) ⟨c, o.call⟩ →
        (∀ k'' ∈ o.spawned.map (Sigma.mk c), Holds tokens (past ++ [t]) k'') →
        Holds tokens (past ++ [t]) k' := by
      intro k' hk' hown hspawned
      rw [hpost] at hk'
      rcases List.mem_append.mp hk' with hk' | hk'
      · rcases List.mem_or_eq_of_mem_set hk' with hk' | rfl
        · exact (hdue.calls k' hk').snoc
        · exact hown
      · exact hspawned k' hk'
    cases c with
    | orders =>
        obtain ⟨o', -, rfl⟩ := Machine.onPart_step ho
        refine ⟨?_, fun k' hk' => hcalls k' hk' trivial ?_, ?_⟩
        · intro id s u hs hu
          rw [hpost] at hs
          exact (hdue.sockets id s u hs hu).snoc
        · intro k'' hk''
          obtain ⟨k₀, -, rfl⟩ := List.mem_map.mp hk''
          trivial
        · intro d hd
          rw [hpost] at hd
          obtain ⟨hrecipient, ⟨socket, hsender⟩, hlooked⟩ := hdue.delivered d hd
          exact ⟨hrecipient.snoc, ⟨socket, hsender.snoc⟩, hlooked.snoc⟩
    | gateway =>
        have hstmt := gateway_cases ho
        obtain ⟨hsockets, hown, hdelivered⟩ :=
          due_of_stmt hstmt he hk hdue (by rw [hpost])
        refine ⟨hsockets, fun k' hk' => hcalls k' hk' hown ?_, hdelivered⟩
        rw [hstmt.spawned_eq_nil]
        simp

end Past

/-- **Locations are private.** In any run, whatever the orders go through meanwhile, a location
that a socket is sent is that of the other party of an order: the socket's own user was
authenticated for it, so was the sender for one of his, and the order had been found being
tracked between these two. -/
theorem location_private {env : Env} {tokens : Tokens} {db : Handly.Db}
    {c' : Config Store AnyCall} {ts : List (Transition Store AnyCall AnyInput)}
    (hrun : (tracking env tokens).Run ⟨{ db }, []⟩ ts c') :
    ∀ d ∈ c'.store.delivered,
      (∃ t ∈ ts, Authenticates tokens d.socket d.recipient t) ∧
        (∃ socket, ∃ t ∈ ts, Authenticates tokens socket d.sender t) ∧
        ∃ t ∈ ts, Tracks t.pre.store.db d.event.orderId d.sender d.recipient :=
  (hrun.history (Due tokens) ⟨by simp, by simp, by simp⟩ fun _ _ => due_step).delivered

/-- A call is started as number `i` and runs `n` operations. -/
def play (i n : ℕ) (c : Component) (k : c.Call) (x : c.Input) : List (Event AnyCall AnyInput) :=
  .start ⟨c, k⟩ :: List.replicate n (.run i ⟨c, x⟩)

/-- A master is working on the order of a customer. -/
def oneJob : Handly.Db :=
  { oneMaster with
    orders := [{ customerId := 0, categoryId := some 0, description := "", status := .inProgress
                 masterId := some 1, priceMin := some 100000, priceMax := some 200000 }] }

def twoTokens : Tokens where
  verify token _ := if token = "customer" then some 0 else if token = "master" then some 1 else none

/-- Both are connected. The location of the master is looked up, and he completes the work. -/
def completesMeanwhile : List (Event AnyCall AnyInput) :=
  play 0 3 .gateway ⟨.handleConnection (some "customer"), .start⟩ {} ++
    play 1 3 .gateway ⟨.handleConnection (some "master"), .start⟩ {} ++
    play 2 2 .gateway ⟨.handleLocationUpdate 1 ⟨some 41, some 69⟩, .start⟩ {} ++
    play 3 3 .orders ⟨.lifecycle (.completeService 1 0 110000), .start⟩ {}

/-- Only then is it sent. -/
def lastLocation : List (Event AnyCall AnyInput) := [.run 2 ⟨.gateway, {}⟩]

/-- The customer is sent the location of the master. -/
theorem location_private_lastLocation :
    ∃ d ∈ ((tracking .flat twoTokens).after ⟨{ db := oneJob }, []⟩
        (completesMeanwhile ++ lastLocation)).store.delivered,
      (d.recipient = 0 ∧ d.sender = 1) ∧
      ∃ t ∈ (tracking .flat twoTokens).trace ⟨{ db := oneJob }, []⟩
        (completesMeanwhile ++ lastLocation),
        Tracks t.pre.store.db d.event.orderId d.sender d.recipient :=
  have hmem : (⟨0, ⟨0, 41, 69⟩, 1, 0⟩ : Delivery) ∈ ((tracking .flat twoTokens).after
      ⟨{ db := oneJob }, []⟩ (completesMeanwhile ++ lastLocation)).store.delivered := by
    decide +kernel
  ⟨_, hmem, ⟨rfl, rfl⟩,
    (location_private ((tracking .flat twoTokens).run_trace _ _) _ hmem).2.2⟩

/-! ### The end of a job -/

/-- The call sends a location for the order next. -/
def relaysFor (orderId : OrderId) : AnyCall → Bool
  | ⟨.orders, _⟩ => false
  | ⟨.gateway, k⟩ =>
      match k.pc with
      | .relaying _ _ event => event.orderId = orderId
      | _ => false

/-- A location is sent for the order in this transition. -/
def sends (orderId : OrderId) (t : Transition Store AnyCall AnyInput) : Bool :=
  t.caller.any (relaysFor orderId)

/-- A write by id finds its order editable, as in the services alone. -/
def WritesEditable (t : Transition Store AnyCall AnyInput) : Prop :=
  ∀ i x k, t.event = .run i ⟨.orders, x⟩ → t.pre.calls[i]? = some ⟨.orders, k⟩ →
    x.fail = false → Handly.Call.FindsEditable k t.pre.store.db

/-- The same of one statement. -/
def FindsEditable : AnyInput → AnyCall → Store → Prop
  | ⟨.orders, x⟩, ⟨.orders, k⟩, s => x.fail = false → Handly.Call.FindsEditable k s.db
  | _, _, _ => True

instance : ∀ x k s, Decidable (FindsEditable x k s)
  | ⟨.orders, x⟩, ⟨.orders, k⟩, s =>
      inferInstanceAs (Decidable (x.fail = false → Handly.Call.FindsEditable k s.db))
  | ⟨.orders, _⟩, ⟨.gateway, _⟩, _ => isTrue trivial
  | ⟨.gateway, _⟩, ⟨_, _⟩, _ => isTrue trivial

/-- The order is no longer tracked, and never will be again. -/
def Over (s : Store) (orderId : OrderId) : Prop :=
  ∃ order, s.db.orders[orderId]? = some order ∧
    OrderStatus.completed.progress ≤ order.status.progress

/-- What an order call knows. -/
def KnowsOrders (s : Store) (i : ℕ) : AnyCall → Prop
  | ⟨.orders, k⟩ => Handly.Call.Knows s.db i k
  | ⟨.gateway, _⟩ => True

section Runs

variable {env : Env} {tokens : Tokens} {orderId : OrderId}

theorem Over.not_tracks {s : Store} (h : Over s orderId) {u v : UserId} :
    ¬ Tracks s.db orderId u v := by
  rintro ⟨order, horder, hst, -⟩
  obtain ⟨order', horder', hprogress⟩ := h
  obtain rfl := Option.some.inj (horder.symm.trans horder')
  simp only [locationTrackingStatuses, List.mem_cons, List.not_mem_nil, or_false] at hst
  rcases hst with hst | hst | hst <;>
    (rw [hst] at hprogress; exact absurd hprogress (by decide))

theorem over_of_precedes {order order' : Order} (h : order.Precedes order')
    (hover : OrderStatus.completed.progress ≤ order.status.progress) :
    OrderStatus.completed.progress ≤ order'.status.progress := by
  rcases h.2 with hedit | hterms | hlt
  · rw [progress_of_editable hedit] at hover
    exact absurd hover (by decide)
  · have hst : order'.status = order.status := congrArg Prod.fst hterms
    rwa [hst]
  · exact hover.trans hlt.le

/-- What the calls of the orders know, they know beside the gateway. -/
def knowing (env : Env) (tokens : Tokens) : Outline (tracking env tokens) (fun _ => True) :=
  .sigma (component env tokens) _ (fun _ => True) KnowsOrders
    (by
      intro s i c k hentry _
      cases c with
      | gateway => trivial
      | orders =>
          obtain ⟨op, pc⟩ := k
          cases pc with
          | start => trivial
          | _ => simp [component, Machine.onPart, orders, Handly.Call.isStart] at hentry)
    (by
      intro t i c x k o _ he hk hstep _ _ hL
      cases c with
      | orders =>
          obtain ⟨o', ho', rfl⟩ := Machine.onPart_step hstep
          obtain ⟨-, hstmt, -⟩ := Handly.step_cases ho'
          refine ⟨trivial, hstmt.knows hL, fun k' hk' => ?_⟩
          simp [component, Machine.onPart, orders, Handly.Call.isStart, hstmt.spawned_start k' hk']
      | gateway =>
          refine ⟨trivial, trivial, ?_⟩
          rw [(gateway_cases hstep).spawned_eq_nil]
          simp)
    (by
      intro t i c x k o j c' k' _ he hk hstep hk' hne _ hL hL'
      cases c' with
      | gateway => trivial
      | orders =>
          cases c with
          | orders =>
              obtain ⟨o', ho', rfl⟩ := Machine.onPart_step hstep
              exact (Handly.step_cases ho').2.1.knows_other hL hne.symm hL'
          | gateway =>
              show Handly.Call.Knows o.store.db j k'
              rw [(gateway_cases hstep).db_eq]
              exact hL')

variable {c c' : Config Store AnyCall} {ts : List (Transition Store AnyCall AnyInput)}
  {t : Transition Store AnyCall AnyInput}

/-- A job that is over stays over. -/
theorem over_step (ht : (tracking env tokens).Fires t) (hedit : WritesEditable t)
    (hknows : (knowing env tokens).Holds t.pre) (hover : Over t.pre.store orderId) :
    Over t.post.store orderId := by
  rcases Machine.sigma_fires ht with ⟨c, k, -, -, hpost⟩ | ⟨i, c, x, k, o, he, hk, ho, hpost⟩
  · rw [hpost]
    exact hover
  · rw [hpost]
    obtain ⟨order, horder, hprogress⟩ := hover
    cases c with
    | orders =>
        obtain ⟨o', ho', rfl⟩ := Machine.onPart_step ho
        obtain ⟨-, hstmt, hfails⟩ := Handly.step_cases ho'
        obtain ⟨order', horder', hprecedes⟩ :=
          hstmt.precedes (hknows.2 i _ hk) (hedit i x k he hk) hfails horder
        exact ⟨order', horder', over_of_precedes hprecedes hprogress⟩
    | gateway =>
        refine ⟨order, ?_, hprogress⟩
        show o.store.db.orders[orderId]? = some order
        rw [(gateway_cases ho).db_eq]
        exact horder

/-- The relays of a gateway call before and after its operation, when the job is over. -/
theorem relaysFor_le {i : ℕ} {x : Input} {s : Store} {k : Call} {o : Outcome Store Call}
    (h : (component env tokens .gateway).step i x k s = some o) (hover : Over s orderId) :
    relaysFor orderId ⟨.gateway, o.call⟩ = false := by
  cases gateway_cases h with
  | ends hpc => rcases hpc with rfl | rfl <;> rfl
  | opens _ hpc => rcases hpc with rfl | ⟨token, rfl⟩ <;> rfl
  | @finds op u v id lat lng htracks =>
      refine decide_eq_false fun hid => ?_
      obtain rfl : id = orderId := hid
      exact hover.not_tracks htracks
  | _ => rfl

theorem countP_set_append {calls : List AnyCall} {i : ℕ} {k : AnyCall} (hk : calls[i]? = some k)
    (k' : AnyCall) (spawned : List AnyCall) (p : AnyCall → Bool) :
    (calls.set i k' ++ spawned).countP p + (if p k then 1 else 0) =
      calls.countP p + (if p k' then 1 else 0) + spawned.countP p := by
  have hset := @Table.countP_set _ p _ _ _ k' hk
  rw [List.countP_append]
  omega

/-- A location that is sent takes one from those on their way, and none is added. -/
theorem sends_step (ht : (tracking env tokens).Fires t) (hover : Over t.pre.store orderId) :
    (if sends orderId t then 1 else 0) + t.post.calls.countP (relaysFor orderId) ≤
      t.pre.calls.countP (relaysFor orderId) := by
  rcases Machine.sigma_fires ht with ⟨c, k, he, hk, hpost⟩ | ⟨i, c, x, k, o, he, hk, ho, hpost⟩
  · have hnone : relaysFor orderId ⟨c, k⟩ = false := by
      cases c with
      | orders => rfl
      | gateway =>
          obtain ⟨op, pc⟩ := k
          cases pc with
          | start => rfl
          | _ => simp [component, gateway] at hk
    simp [hpost, sends, Transition.caller, he, List.countP_append, hnone]
  · have hcaller : t.caller = some ⟨c, k⟩ := Transition.caller_eq he hk
    have hcount := countP_set_append hk ⟨c, o.call⟩ (o.spawned.map (Sigma.mk c))
      (relaysFor orderId)
    rw [hpost, sends, hcaller, Option.any_some]
    have hafter : relaysFor orderId ⟨c, o.call⟩ = false ∧
        (o.spawned.map (Sigma.mk c)).countP (relaysFor orderId) = 0 := by
      cases c with
      | orders =>
          refine ⟨rfl, ?_⟩
          rw [List.countP_map, List.countP_eq_zero]
          intro k' _ h
          cases h
      | gateway =>
          refine ⟨relaysFor_le ho hover, ?_⟩
          rw [(gateway_cases ho).spawned_eq_nil]
          rfl
    simp only [hafter, Bool.false_eq_true, if_false, Nat.add_zero] at hcount
    dsimp only
    omega

/-- **The relay ends with the job.** Once an order is completed, closed or given up, its parties
are sent no more locations than were on their way. -/
theorem relay_ends_with_job {db : Handly.Db} {before : List (Transition Store AnyCall AnyInput)}
    (hbefore : (tracking env tokens).Run ⟨{ db }, []⟩ before c)
    (hafter : (tracking env tokens).Run c ts c') (hedit : ∀ t ∈ ts, WritesEditable t)
    {order : Order} (horder : c.store.db.orders[orderId]? = some order)
    (hover : order.status ∉ locationTrackingStatuses ∧
      order.status ∉ [.draft, .priced, .searching]) :
    ts.countP (sends orderId) ≤ c.calls.countP (relaysFor orderId) := by
  have hknows := ((knowing env tokens).holds_run hbefore (fun _ _ => trivial) ⟨trivial, by simp⟩).1
  have hprogress : OrderStatus.completed.progress ≤ order.status.progress := by
    revert hover
    cases order.status <;> decide
  have hinv := (hafter.invariant
    (fun d => (knowing env tokens).Holds d ∧ Over d.store orderId) WritesEditable hedit
    ⟨hknows, order, horder, hprogress⟩ fun t ht hC h =>
      ⟨(knowing env tokens).holds_step ht trivial h.1, over_step ht hC h.1 h.2⟩).2
  have hcount := hafter.countP_add_le (fun d => d.calls.countP (relaysFor orderId))
    (sends orderId) fun t ht hfires => sends_step hfires (hinv t ht).1.2
  omega

end Runs

/-- `WritesEditable` is a condition on the statement that a transition runs. -/
theorem writesEditable_iff {t : Transition Store AnyCall AnyInput} :
    WritesEditable t ↔ t.Satisfies fun _ x k s => FindsEditable x k s := by
  constructor
  · intro h i x k he hk
    obtain ⟨c, x⟩ := x
    obtain ⟨c', k⟩ := k
    cases c with
    | gateway => trivial
    | orders =>
        cases c' with
        | gateway => trivial
        | orders => exact h i x k he hk
  · exact fun h i x k he hk => h i ⟨.orders, x⟩ ⟨.orders, k⟩ he hk

instance : DecidablePred WritesEditable := fun _ => decidable_of_iff _ writesEditable_iff.symm

/-- The customer makes another order, which is quoted, and only then the location is sent. -/
def quotesAnother : List (Event AnyCall AnyInput) :=
  play 4 1 .orders ⟨.createDraft 0 { categoryId := some 0, description := "" }, .start⟩ {} ++
    play 5 4 .orders ⟨.diagnose 0 1, .start⟩ {} ++ lastLocation

/-- The location that was on its way arrives after the work is completed and the next order is
quoted. -/
theorem relay_ends_with_job_lastLocation :
    ((((tracking .flat twoTokens).after ⟨{ db := oneJob }, []⟩
          (completesMeanwhile ++ quotesAnother)).store.db.orders.map Order.status =
        [.completed, .priced]) ∧
      ((tracking .flat twoTokens).trace ((tracking .flat twoTokens).after ⟨{ db := oneJob }, []⟩
        completesMeanwhile) quotesAnother).countP (sends 0) = 1) ∧
      ((tracking .flat twoTokens).trace ((tracking .flat twoTokens).after ⟨{ db := oneJob }, []⟩
          completesMeanwhile) quotesAnother).countP (sends 0) ≤
        ((tracking .flat twoTokens).after ⟨{ db := oneJob }, []⟩
          completesMeanwhile).calls.countP (relaysFor 0) := by
  refine ⟨⟨by decide +kernel, by decide +kernel⟩, ?_⟩
  have hcompleted : (((tracking .flat twoTokens).after ⟨{ db := oneJob }, []⟩
      completesMeanwhile).store.db.orders[0]?).map Order.status = some .completed := by
    decide +kernel
  obtain ⟨order, horder, hst⟩ := Option.map_eq_some_iff.mp hcompleted
  exact relay_ends_with_job ((tracking .flat twoTokens).run_trace _ _)
    ((tracking .flat twoTokens).run_trace _ _) (by decide +kernel) horder (by rw [hst]; decide)

end Handly.Realtime
