import Handly.Trust

/-!
# OrdersService

The guards and the writes of `orders.service.ts`, one definition for each block
of code between two awaits. A guard reads the order and refuses with an
`ApiError` or yields the point at which the call continues. A write is one
statement or one transaction.
-/

namespace Handly

/-! ### Reading an order on behalf of a caller -/

/-- `getOwned` -/
def getOwned (db : Db) (customerId : UserId) (orderId : OrderId) : Except ApiError Order :=
  match db.orders[orderId]? with
  | none => .error (.notFound "Buyurtma topilmadi")
  | some order =>
      if order.customerId ≠ customerId then .error (.forbidden "Ruxsat yo'q") else .ok order

/-- `getOwnedByMaster` -/
def getOwnedByMaster (db : Db) (masterId : UserId) (orderId : OrderId) : Except ApiError Order :=
  match db.orders[orderId]? with
  | none => .error (.notFound "Buyurtma topilmadi")
  | some order =>
      if order.masterId ≠ some masterId then .error (.forbidden "Ruxsat yo'q") else .ok order

/-- `assertCategory` -/
def assertCategory (db : Db) (categoryId : CategoryId) : Except ApiError Unit :=
  if db.categories[categoryId]?.any fun c => c.active then .ok ()
  else .error (.badRequest "Xizmat turi noto'g'ri")

/-- `assertSchedulable` -/
def assertSchedulable (now when_ : Time) : Except ApiError Unit :=
  if when_ ≤ now then .error (.badRequest "O'tgan vaqtni tanlab bo'lmaydi")
  else if when_ > now + orderMaxDaysAhead * msPerDay then
    .error (.badRequest "Ko'pi bilan 14 kun oldindan band qilish mumkin")
  else if tashkentMinute when_ ∉ orderTimeSlots then
    .error (.badRequest "Vaqt oralig'i: 09:00, 11:00, 14:00, 16:00")
  else .ok ()

/-! ### createDraft and updateDraft -/

/-- The row that `createDraft` inserts: only the submitted columns differ from
the schema's defaults. -/
def draftOf (customerId : UserId) (dto : OrderCreateInput) : Order :=
  { customerId, categoryId := dto.categoryId, description := dto.description }

/-- The `order.create` of `createDraft`, with its nested history row. -/
def createDraftWrite (db : Db) (now : Time) (customerId : UserId) (dto : OrderCreateInput) : Db :=
  (db.createOrder (draftOf customerId dto)).createHistory
    { orderId := db.orders.length, fromStatus := none, toStatus := .draft,
      actorId := some customerId, note := none, createdAt := now }

/-- The checks of `updateDraft` before its write. -/
def updateDraftGuard (db : Db) (now : Time) (customerId : UserId) (orderId : OrderId)
    (dto : OrderUpdateInput) : Except ApiError Order := do
  let order ← getOwned db customerId orderId
  if order.status ∉ editableStatuses then
    throw (.conflict "Yuborilgan buyurtmani o'zgartirib bo'lmaydi")
  if let some categoryId := dto.categoryId then assertCategory db categoryId
  if let some (some scheduledAt) := dto.scheduledAt then assertSchedulable now scheduledAt
  return order

/-- The columns that `updateDraft` sets from the request. -/
def OrderUpdateInput.apply (dto : OrderUpdateInput) (row : Order) : Order :=
  { row with
    categoryId := dto.categoryId <|> row.categoryId
    description := dto.description.getD row.description
    serviceTier := dto.serviceTier.getD row.serviceTier
    scheduledAt := dto.scheduledAt.getD row.scheduledAt
    addressText := dto.addressText <|> row.addressText
    latitude := dto.latitude <|> row.latitude
    longitude := dto.longitude <|> row.longitude }

/-- `invalidatesQuote`: editing a PRICED order sends it back to DRAFT. The status
is the one that was read. -/
def invalidatesQuote (order : Order) (dto : OrderUpdateInput) : Bool :=
  order.status = .priced &&
    (dto.description.isSome || dto.categoryId.isSome || dto.serviceTier.isSome)

/-- The `order.update` of `updateDraft`. It is conditioned on the id alone. -/
def updateDraftWrite (db : Db) (me : ℕ) (now : Time) (customerId : UserId) (orderId : OrderId)
    (dto : OrderUpdateInput) (order : Order) : Db :=
  if invalidatesQuote order dto then
    (db.setStatus me orderId .draft fun row =>
      { dto.apply row with priceMin := none, priceMax := none }).createHistory
      { orderId, fromStatus := some .priced, toStatus := .draft, actorId := some customerId,
        note := some "edited-after-quote", createdAt := now }
  else db.updateOrder orderId dto.apply

/-! ### diagnose -/

def diagnoseGuard (db : Db) (customerId : UserId) (orderId : OrderId) : Except ApiError Order := do
  let order ← getOwned db customerId orderId
  if !canTransition order.status .priced then
    throw (.conflict "Bu holatda tashxis qo‘yib bo‘lmaydi")
  return order

/-- The category and the quote that `diagnose` derives from the AI's answer. The
customer's own pick wins over the suggestion. -/
def quoteFor (categories : List ServiceCategory) (order : Order) (diagnosis : Diagnosis) :
    Except ApiError (CategoryId × Quote) :=
  match order.categoryId <|> diagnosis.suggestedCategoryId with
  | none => .error (.badRequest "Xizmat turini tanlang — avtomatik aniqlab bo‘lmadi")
  | some categoryId =>
      match categories[categoryId]?.filter fun c => c.active with
      | none => .error (.badRequest "Xizmat turi topilmadi")
      | some c =>
          .ok (categoryId,
            computeQuote c.basePriceMin c.basePriceMax diagnosis.complexity order.serviceTier)

/-- The `order.update` of `diagnose`. It is conditioned on the id alone. -/
def diagnoseWrite (db : Db) (me : ℕ) (now : Time) (customerId : UserId) (orderId : OrderId)
    (order : Order) (diagnosis : Diagnosis) (categoryId : CategoryId) (quote : Quote) : Db :=
  (db.setStatus me orderId .priced fun row =>
    { row with
      categoryId := some categoryId, complexity := some diagnosis.complexity,
      priceMin := some quote.priceMin, priceMax := some quote.priceMax,
      platformFee := quote.platformFee, diagnosedFrom := some order.description }).createHistory
    { orderId, fromStatus := some order.status, toStatus := .priced, actorId := some customerId,
      note := some ("ai:" ++ diagnosis.source), createdAt := now }

/-! ### submit -/

def submitGuard (db : Db) (now : Time) (customerId : UserId) (orderId : OrderId) :
    Except ApiError Order := do
  let order ← getOwned db customerId orderId
  if !canTransition order.status .searching then
    throw (.conflict "Avval narx taklifini oling (tashxis)")
  if (order.addressText.getD "").isEmpty && (order.latitude.isNone || order.longitude.isNone) then
    throw (.badRequest "Manzilni kiriting yoki joylashuvni aniqlang")
  if order.serviceTier = .scheduled then
    match order.scheduledAt with
    | none => throw (.badRequest "Sana va vaqtni tanlang")
    | some scheduledAt => assertSchedulable now scheduledAt
  return order

/-- The `order.update` of `submit`. It is conditioned on the id alone. -/
def submitWrite (db : Db) (me : ℕ) (now : Time) (customerId : UserId) (orderId : OrderId)
    (order : Order) : Db :=
  (db.setStatus me orderId .searching fun row =>
    { row with
      consentAcceptedAt := some now, submittedAt := some now,
      scheduledAt := if order.serviceTier ≠ .scheduled then none else row.scheduledAt }
    ).createHistory
    { orderId, fromStatus := some order.status, toStatus := .searching,
      actorId := some customerId, note := none, createdAt := now }

/-! ### The guarded transitions

`cancel`, `startEnRoute`, `startService`, `completeService`, `confirmCompletion`
and `cancelByMaster` read the order, check `canTransition` on that snapshot, and
then run one transaction: an `updateMany` conditioned on the status that was
read, the history row, and what else the call writes with it. -/

/-- Who must own the order. -/
inductive Owner
  | customer (id : UserId)
  | master (id : UserId)

/-- The parameters of one guarded transition. -/
structure GuardedTransition where
  orderId : OrderId
  owner : Owner
  target : OrderStatus
  /-- Message when `canTransition` refuses. -/
  refused : String
  /-- Message when the guarded update matched no row. -/
  lost : String
  /-- Further checks on the snapshot. -/
  check : Order → Except ApiError Unit := fun _ => .ok ()
  /-- Columns written with the status. -/
  data : Time → Order → Order := fun _ row => row
  actorId : UserId
  note : Option String := none
  /-- The master whose `jobsDone` the same transaction increments. -/
  credits : Order → Option UserId := fun _ => none
  /-- Awaited writes after the transaction. -/
  followups : Order → List Followup := fun _ => []

namespace Lifecycle

/-- The message when `transitionByMaster` loses. -/
def transitionByMasterLost : String := "Bu holatda amalni bajarib bo'lmaydi"

/-- The range check of `completeService`. -/
def finalAmountCheck (finalAmount : ℤ) (order : Order) : Except ApiError Unit :=
  match order.priceMin, order.priceMax with
  | some lo, some hi =>
      if finalAmount < lo ∨ finalAmount > hi then
        .error (.badRequest s!"Yakuniy narx {lo}–{hi} so'm oralig'ida bo'lishi kerak")
      else .ok ()
  | _, _ => .ok ()

/-- Each method as a guarded transition. -/
def spec : Lifecycle → GuardedTransition
  | cancel customerId orderId =>
      { orderId, owner := .customer customerId, target := .cancelledByCustomer
        refused := "Bu buyurtmani bekor qilib bo‘lmaydi"
        lost := "Bu buyurtmani bekor qilib bo‘lmaydi"
        data := fun now row => { row with cancelledAt := some now }
        actorId := customerId }
  | startEnRoute masterId orderId =>
      { orderId, owner := .master masterId, target := .enRoute
        refused := "Bu holatda yo'lga chiqib bo'lmaydi"
        lost := transitionByMasterLost
        actorId := masterId }
  | startService masterId orderId =>
      { orderId, owner := .master masterId, target := .inProgress
        refused := "Bu holatda ishni boshlab bo'lmaydi"
        lost := transitionByMasterLost
        actorId := masterId }
  | completeService masterId orderId finalAmount =>
      { orderId, owner := .master masterId, target := .completed
        refused := "Bu holatda ishni tugallab bo'lmaydi"
        lost := "Bu holatda ishni tugallab bo'lmaydi"
        check := finalAmountCheck finalAmount
        data := fun _ row => { row with finalAmount := some finalAmount }
        actorId := masterId
        followups := fun order =>
          [ .notify { userId := order.customerId, type := .orderCompleted
                      title := "Ish tugallandi"
                      body := "Usta ishni tugallandi deb belgiladi. To'lov va tasdiqlash uchun buyurtmani ko'ring."
                      orderId := some orderId } ] }
  | confirmCompletion customerId orderId =>
      { orderId, owner := .customer customerId, target := .closed
        refused := "Bu buyurtmani hali tasdiqlab bo'lmaydi"
        lost := "Bu buyurtmani hali tasdiqlab bo'lmaydi"
        check := fun order =>
          if order.masterId.isNone then .error (.conflict "Buyurtmaga usta tayinlanmagan")
          else .ok ()
        actorId := customerId
        credits := fun order => order.masterId
        followups := fun order =>
          match order.masterId with
          | none => []
          | some masterId =>
              [ .notify { userId := masterId, type := .orderClosed, title := "Mijoz tasdiqladi"
                          body := "Mijoz ishni qabul qildi va yopdi.", orderId := some orderId },
                .recomputeTrustTier masterId ] }
  | cancelByMaster masterId orderId reason =>
      { orderId, owner := .master masterId, target := .cancelledByMaster
        refused := "Bu holatda buyurtmani bekor qilib bo'lmaydi"
        lost := "Bu holatda buyurtmani bekor qilib bo'lmaydi"
        data := fun now row => { row with cancelledAt := some now }
        actorId := masterId
        note := reason
        followups := fun order =>
          .notify { userId := order.customerId, type := .orderCancelledByMaster
                    title := "Usta bekor qildi"
                    body := "Afsuski, tayinlangan usta buyurtmani bekor qildi. Qo'llab-quvvatlash bilan bog'laning."
                    orderId := some orderId } ::
            recordEvent masterId .cancellation orderId reason }

end Lifecycle

namespace GuardedTransition

/-- The read and the checks before the transaction. -/
def guard (g : GuardedTransition) (db : Db) : Except ApiError Order := do
  let order ← match g.owner with
    | .customer id => getOwned db id g.orderId
    | .master id => getOwnedByMaster db id g.orderId
  if !canTransition order.status g.target then throw (.conflict g.refused)
  g.check order
  return order

/-- `masterProfile.update` with `jobsDone: increment 1`. -/
def credit (g : GuardedTransition) (order : Order) (db : Db) : Db :=
  match g.credits order with
  | none => db
  | some masterId => db.updateMaster masterId fun m => { m with jobsDone := m.jobsDone + 1 }

/-- The transaction, once its `updateMany` has matched the row. `order` is the
snapshot that was read. -/
def write (g : GuardedTransition) (db : Db) (me : ℕ) (now : Time) (order : Order) : Db :=
  g.credit order
    ((db.setStatus me g.orderId g.target (g.data now)).createHistory
      { orderId := g.orderId, fromStatus := some order.status, toStatus := g.target,
        actorId := some g.actorId, note := g.note, createdAt := now })

end GuardedTransition

/-- `getCurrentJob`: the first order of the master in an active status. -/
def getCurrentJob (db : Db) (masterId : UserId) : Option OrderId :=
  db.orders.findIdx? fun o => o.masterId = some masterId ∧ o.status ∈ activeMasterJobStatuses

end Handly
