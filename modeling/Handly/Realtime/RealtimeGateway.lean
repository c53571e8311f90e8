import Handly.Lib.Composition
import Handly.Orders.Knowledge

/-!
# RealtimeGateway

`realtime.gateway.ts`: a socket is connected with an access token and joins the room of its user,
and a location that it sends is relayed to the room of the other party of the order that its user
is busy with. The gateway reads the orders and writes none; locations are kept nowhere.

Each awaited operation is one step. The relay looks up an order and sends on afterwards what it
has found, so the order may have gone on in between. Which of several orders `findFirst` finds is
left to the input. The gauge of the open sockets is left out.
-/

namespace Handly.Realtime

open Interleaving

abbrev SocketId := ℕ

/-- A socket. A closed one keeps its position. -/
structure Socket where
  /-- `client.data.userId` -/
  userId : Option UserId := none
  /-- It is in the room of its user. -/
  joined : Bool := false
  connected : Bool := true
  deriving DecidableEq

/-- `LocationUpdatedEvent` -/
structure LocationUpdated where
  orderId : OrderId
  lat : ℚ
  lng : ℚ
  deriving DecidableEq

/-- An event that was sent to a socket. -/
structure Delivery where
  socket : SocketId
  event : LocationUpdated
  /-- Ghost: whose location it is, and whose room it was sent to. -/
  sender : UserId
  recipient : UserId
  deriving DecidableEq

structure Store where
  db : Handly.Db := {}
  sockets : List Socket := []
  /-- What was sent to the sockets, oldest first. -/
  delivered : List Delivery := []

namespace Store

def setDb (part : Handly.Db) (s : Store) : Store := { s with db := part }

/-- The socket is changed. -/
def updateSocket (s : Store) (id : SocketId) (f : Socket → Socket) : Store :=
  { s with sockets := s.sockets.modify id f }

/-- `client.disconnect`, and what a closed connection leaves. -/
def disconnect (s : Store) (id : SocketId) : Store :=
  s.updateSocket id fun c => { c with joined := false, connected := false }

/-- The sockets in the room of a user. -/
def room (s : Store) (userId : UserId) : List SocketId :=
  (List.range s.sockets.length).filter fun id =>
    s.sockets[id]?.any fun c => c.joined && c.connected && c.userId = some userId

/-- `emitToUser` of a location. -/
def emitToUser (s : Store) (userId sender : UserId) (event : LocationUpdated) : Store :=
  { s with delivered := s.delivered ++ (s.room userId).map fun id => ⟨id, event, sender, userId⟩ }

end Store

/-! ### Calls -/

/-- `LOCATION_TRACKING_STATUSES` -/
def locationTrackingStatuses : List OrderStatus := [.assigned, .enRoute, .inProgress]

/-- What a client sends: `none` for what is missing or no number. -/
structure Body where
  lat : Option ℚ
  lng : Option ℚ
  deriving DecidableEq

/-- `locationUpdateInputSchema` -/
def parseLocation (body : Body) : Option (ℚ × ℚ) :=
  match body.lat, body.lng with
  | some lat, some lng =>
      if -90 ≤ lat ∧ lat ≤ 90 ∧ -180 ≤ lng ∧ lng ≤ 180 then some (lat, lng) else none
  | _, _ => none

/-- `JwtService.verifyAsync`: the user of a token that is valid at the time. -/
structure Tokens where
  verify : String → Time → Option UserId

inductive Op
  | handleConnection (token : Option String)
  | handleDisconnect (socket : SocketId)
  | handleLocationUpdate (socket : SocketId) (body : Body)
  deriving DecidableEq

/-- Where a call stands between two awaited operations. -/
inductive Pc
  /-- Nothing has run yet. -/
  | start
  | verifying (socket : SocketId) (token : String)
  | joining (socket : SocketId)
  /-- The order is looked up next. -/
  | finding (userId : UserId) (lat lng : ℚ)
  /-- The location is sent next to the counterpart. -/
  | relaying (userId counterpartId : UserId) (event : LocationUpdated)
  | returned
  | threw
  deriving DecidableEq

structure Call where
  op : Op
  pc : Pc
  deriving DecidableEq

/-- The call stands at `pc` next. -/
def Call.goto (k : Call) (s : Store) (pc : Pc) : Outcome Store Call := ⟨s, { k with pc }, []⟩

structure Input where
  now : Time := 0
  /-- Which of the matching orders `findFirst` finds. -/
  pick : ℕ := 0
  /-- The awaited operation fails. -/
  fail : Bool := false

/-! ### Steps -/

/-- The `where` of the lookup. -/
def tracked (userId : UserId) (order : Order) : Bool :=
  order.status ∈ locationTrackingStatuses ∧
    (order.customerId = userId ∨ order.masterId = some userId)

/-- The other party of an order. -/
def counterpart (userId : UserId) (order : Order) : Option UserId :=
  if order.customerId = userId then order.masterId else some order.customerId

/-- The lookup, and what it leads to. -/
def find (k : Call) (x : Input) (s : Store) (userId : UserId) (lat lng : ℚ) :
    Outcome Store Call :=
  let found := (List.range s.db.orders.length).filter fun id =>
    s.db.orders[id]?.any (tracked userId)
  match found[x.pick % found.length]? with
  | none => k.goto s .returned
  | some orderId =>
      match s.db.orders[orderId]?.bind (counterpart userId) with
      | none => k.goto s .returned
      | some counterpartId => k.goto s (.relaying userId counterpartId ⟨orderId, lat, lng⟩)

/-- The first operation of a call. -/
def begin (k : Call) (s : Store) : Outcome Store Call :=
  match k.op with
  | .handleConnection token =>
      let id := s.sockets.length
      let s' := { s with sockets := s.sockets ++ [{}] }
      match token.filter fun t => t ≠ "" with
      | none => k.goto (s'.disconnect id) .returned
      | some t => k.goto s' (.verifying id t)
  | .handleDisconnect socket => k.goto (s.disconnect socket) .returned
  | .handleLocationUpdate socket body =>
      match parseLocation body, (s.sockets[socket]?.filter Socket.connected).bind Socket.userId with
      | some (lat, lng), some userId => k.goto s (.finding userId lat lng)
      | _, _ => k.goto s .returned

/-- The next awaited operation of a call. -/
def step (tokens : Tokens) (_me : ℕ) (x : Input) (k : Call) (s : Store) :
    Option (Outcome Store Call) :=
  match k.pc with
  | .start => some (begin k s)
  | .verifying socket token =>
      match tokens.verify token x.now with
      | none => some (k.goto (s.disconnect socket) .returned)
      | some userId =>
          some (k.goto (s.updateSocket socket fun c => { c with userId := some userId })
            (.joining socket))
  | .joining socket =>
      if x.fail then some (k.goto (s.disconnect socket) .returned)
      else some (k.goto (s.updateSocket socket fun c => { c with joined := true }) .returned)
  | .finding userId lat lng =>
      if x.fail then some (k.goto s .threw) else some (find k x s userId lat lng)
  | .relaying userId counterpartId event =>
      some (k.goto (s.emitToUser counterpartId userId event) .returned)
  | .returned | .threw => none

/-- The machine of the gateway. -/
def gateway (tokens : Tokens) : Machine Store Call Input where
  entry k := k.pc matches .start
  step := step tokens

/-! ### What one operation can do -/

/-- The order is being tracked, and these two are its parties. -/
def Tracks (db : Handly.Db) (orderId : OrderId) (userId counterpartId : UserId) : Prop :=
  ∃ order, db.orders[orderId]? = some order ∧ order.status ∈ locationTrackingStatuses ∧
    (order.customerId = userId ∧ order.masterId = some counterpartId ∨
      order.masterId = some userId ∧ order.customerId = counterpartId)

/-- Everything the next operation of a call of the gateway can be. -/
inductive Stmt (tokens : Tokens) (x : Input) (s : Store) : Call → Outcome Store Call → Prop
  | ends {op pc pc'} : pc' = .returned ∨ pc' = .threw →
      Stmt tokens x s ⟨op, pc⟩ ⟨s, ⟨op, pc'⟩, []⟩
  | opens {op pc} {c : Socket} : c.userId = none →
      pc = .returned ∨ (∃ token, pc = .verifying s.sockets.length token) →
      Stmt tokens x s ⟨op, .start⟩
        ⟨{ s with sockets := s.sockets ++ [c] }, ⟨op, pc⟩, []⟩
  | closes {op pc socket} : Stmt tokens x s ⟨op, pc⟩ ⟨s.disconnect socket, ⟨op, .returned⟩, []⟩
  | verifies {op socket token userId} : tokens.verify token x.now = some userId →
      Stmt tokens x s ⟨op, .verifying socket token⟩
        ⟨s.updateSocket socket fun c => { c with userId := some userId },
          ⟨op, .joining socket⟩, []⟩
  | joins {op socket} : Stmt tokens x s ⟨op, .joining socket⟩
      ⟨s.updateSocket socket fun c => { c with joined := true }, ⟨op, .returned⟩, []⟩
  | parses {op userId lat lng} {socket : SocketId} {c : Socket} :
      s.sockets[socket]? = some c → c.userId = some userId →
      Stmt tokens x s ⟨op, .start⟩ ⟨s, ⟨op, .finding userId lat lng⟩, []⟩
  | finds {op userId counterpartId orderId lat lng} :
      Tracks s.db orderId userId counterpartId →
      Stmt tokens x s ⟨op, .finding userId lat lng⟩
        ⟨s, ⟨op, .relaying userId counterpartId ⟨orderId, lat, lng⟩⟩, []⟩
  | relays {op userId counterpartId event} :
      Stmt tokens x s ⟨op, .relaying userId counterpartId event⟩
        ⟨s.emitToUser counterpartId userId event, ⟨op, .returned⟩, []⟩

section Cases

variable {tokens : Tokens} {me : ℕ} {x : Input} {s : Store} {k : Call} {o : Outcome Store Call}

theorem find_cases {op : Op} {userId : UserId} {lat lng : ℚ} :
    Stmt tokens x s ⟨op, .finding userId lat lng⟩
      (find ⟨op, .finding userId lat lng⟩ x s userId lat lng) := by
  simp only [find]
  split
  · exact .ends (Or.inl rfl)
  · rename_i orderId hfound
    split
    · exact .ends (Or.inl rfl)
    · rename_i counterpartId hother
      refine .finds ?_
      obtain ⟨order, horder, hcounterpart⟩ := Option.bind_eq_some_iff.mp hother
      have hmatches := List.of_mem_filter (List.mem_of_getElem? hfound)
      rw [horder, Option.any_some] at hmatches
      simp only [tracked, decide_eq_true_eq] at hmatches
      obtain ⟨hst, hparty⟩ := hmatches
      refine ⟨order, horder, hst, ?_⟩
      unfold counterpart at hcounterpart
      split at hcounterpart
      · rename_i hcustomer
        exact Or.inl ⟨hcustomer, hcounterpart⟩
      · rename_i hcustomer
        exact Or.inr ⟨hparty.resolve_left hcustomer, Option.some.inj hcounterpart⟩

/-- A socket that is closed as soon as it is opened was never known. -/
theorem disconnect_new : ({ s with sockets := s.sockets ++ [{}] } : Store).disconnect
    s.sockets.length =
      { s with sockets := s.sockets ++ [{ joined := false, connected := false }] } := by
  simp only [Store.disconnect, Store.updateSocket]
  rw [List.modify_eq_set_getElem?, List.getElem?_concat_length, Option.map_eq_map, Option.map_some,
    Option.getD_some, List.set_append_right _ _ le_rfl, Nat.sub_self, List.set_cons_zero]

theorem begin_cases {op : Op} : Stmt tokens x s ⟨op, .start⟩ (begin ⟨op, .start⟩ s) := by
  cases op with
  | handleConnection token =>
      simp only [begin]
      split
      · rw [disconnect_new]
        exact .opens rfl (Or.inl rfl)
      · exact .opens rfl (Or.inr ⟨_, rfl⟩)
  | handleDisconnect socket => exact .closes
  | handleLocationUpdate socket body =>
      simp only [begin]
      split
      · rename_i lat lng userId hparse huser
        obtain ⟨c, hc, hid⟩ := Option.bind_eq_some_iff.mp huser
        exact .parses (Option.filter_eq_some_iff.mp hc).1 hid
      · exact .ends (Or.inl rfl)

theorem step_cases (h : step tokens me x k s = some o) : Stmt tokens x s k o := by
  obtain ⟨op, pc⟩ := k
  cases pc with
  | start =>
      rw [← Option.some.inj h]
      exact begin_cases
  | verifying socket token =>
      simp only [step] at h
      split at h
      · rw [← Option.some.inj h]
        exact .closes
      · rename_i userId hverify
        rw [← Option.some.inj h]
        exact .verifies hverify
  | joining socket =>
      simp only [step] at h
      split at h
      · rw [← Option.some.inj h]
        exact .closes
      · rw [← Option.some.inj h]
        exact .joins
  | finding userId lat lng =>
      simp only [step] at h
      split at h
      · rw [← Option.some.inj h]
        exact .ends (Or.inr rfl)
      · rw [← Option.some.inj h]
        exact find_cases
  | relaying userId counterpartId event =>
      rw [← Option.some.inj h]
      exact .relays
  | returned => cases h
  | threw => cases h

theorem Stmt.db_eq (h : Stmt tokens x s k o) : o.store.db = s.db := by
  cases h <;> rfl

theorem Stmt.spawned_eq_nil (h : Stmt tokens x s k o) : o.spawned = [] := by
  cases h <;> rfl

end Cases

end Handly.Realtime
