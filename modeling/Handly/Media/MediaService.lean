import Handly.Lib.Interleaving
import Handly.Orders.OrdersService

/-!
# The media of an order

`addMedia`, `addJobMedia` and `deleteMedia` of `orders.service.ts`, with `saveMediaFile` and
`magic-bytes.ts`. The customer's pictures of the problem and the master's completion evidence
stand in one table, told apart by `uploadedByRole`.

The storage is the list of the keys of its objects. A row that was deleted leaves a gap in the
table, so that the others keep their position, which is their id.
-/

namespace Handly.Media

open Interleaving

abbrev MediaId := ℕ

inductive OrderMediaKind
  | photo | video
  deriving DecidableEq

inductive OrderMediaUploader
  | customer | master
  deriving DecidableEq

structure OrderMedia where
  orderId : OrderId
  kind : OrderMediaKind
  uploadedByRole : OrderMediaUploader := .customer
  objectKey : String
  mime : String
  sizeBytes : ℕ
  deriving DecidableEq

structure Db extends Handly.Db where
  media : List (Option OrderMedia) := []
  /-- The keys of the stored objects. -/
  files : List String := []

namespace Db

/-- The media of an order: `order.media.length`. -/
def countMedia (db : Db) (orderId : OrderId) : ℕ :=
  db.media.countP fun row => row.any fun m => m.orderId = orderId

/-- `order.media.find((m) => m.id === mediaId)` -/
def findMedia (db : Db) (orderId : OrderId) (id : MediaId) : Option OrderMedia :=
  db.media[id]?.join.filter fun m => m.orderId = orderId

/-- `orderMedia.create`: the new row's id is its position. -/
@[simps toDb media files]
def createMedia (db : Db) (row : OrderMedia) : Db := { db with media := db.media ++ [some row] }

/-- `orderMedia.delete` of one row by id. -/
@[simps toDb media files]
def deleteMedia (db : Db) (id : MediaId) : Db := { db with media := db.media.set id none }

/-- `storage.save`, under a new key. -/
@[simps toDb media files]
def saveFile (db : Db) (key : String) : Db := { db with files := db.files ++ [key] }

/-- `storage.delete`: that there is no such object is no error. -/
@[simps toDb media files]
def deleteFile (db : Db) (key : String) : Db :=
  { db with files := db.files.filter fun k => k ≠ key }

end Db

/-- The part of `AppConfig.env` that limits uploads. -/
structure Env where
  orderMaxMedia : ℕ := 5
  uploadMaxPhotoMb : ℚ := 10
  uploadMaxVideoMb : ℚ := 50

/-- An uploaded file: its bytes and the type that the client declares. -/
structure MediaFile where
  buffer : List UInt8
  mime : String

/-! ### Calls -/

/-- A method call with its arguments. -/
inductive Op
  | addMedia (customerId : UserId) (orderId : OrderId) (file : MediaFile)
  | addJobMedia (masterId : UserId) (orderId : OrderId) (file : MediaFile)
  | deleteMedia (customerId : UserId) (orderId : OrderId) (mediaId : MediaId)

/-- Where a call stands between two awaited operations. -/
inductive Pc
  /-- Nothing has run yet. -/
  | start
  /-- The order and the file passed the checks; the file is stored next. -/
  | checked (kind : OrderMediaKind) (ext : String)
  /-- The file is stored; its row is inserted next. -/
  | stored (kind : OrderMediaKind) (objectKey : String)
  /-- `deleteMedia`: the row was read; it is deleted next. -/
  | found (media : OrderMedia)
  /-- `deleteMedia`: the row is gone; the object is deleted next. -/
  | deleted (media : OrderMedia)
  /-- The order is read again for the answer. -/
  | rereading
  /-- The promise is resolved. -/
  | returned
  /-- The promise is rejected. -/
  | threw (e : ApiError)

/-- A call in flight, or a finished one. -/
structure Call where
  op : Op
  pc : Pc

namespace Call

def isStart (k : Call) : Bool := k.pc matches .start

/-- The call has returned or thrown. -/
def isFinished (k : Call) : Bool :=
  match k.pc with
  | .returned | .threw _ => true
  | _ => false

/-- The call stands at `pc` next. -/
def goto (k : Call) (db : Db) (pc : Pc) : Outcome Db Call := ⟨db, { k with pc }, []⟩

/-- A check passes or throws. -/
def check (k : Call) (db : Db) {α : Type} (pc : α → Pc) : Except ApiError α → Outcome Db Call
  | .error e => k.goto db (.threw e)
  | .ok a => k.goto db (pc a)

end Call

/-- What the world outside the database supplies to one operation. -/
structure Input where
  /-- `randomUUID()` -/
  uuid : String := ""
  /-- The awaited operation fails and has no effect. -/
  fail : Bool := false

/-! ### The checks on a file -/

/-- `PHOTO_MIMES`: the type and the extension. -/
def photoMimes : List (String × String) :=
  [("image/jpeg", ".jpg"), ("image/png", ".png"), ("image/webp", ".webp"), ("image/gif", ".gif"),
    ("image/heic", ".heic")]

/-- `VIDEO_MIMES` -/
def videoMimes : List (String × String) :=
  [("video/mp4", ".mp4"), ("video/quicktime", ".mov"), ("video/webm", ".webm")]

def bytesEqual (buffer : List UInt8) (offset : ℕ) (expected : List UInt8) : Bool :=
  offset + expected.length ≤ buffer.length && expected.isPrefixOf (buffer.drop offset)

def isIsoBmff (buffer : List UInt8) : Bool := bytesEqual buffer 4 [0x66, 0x74, 0x79, 0x70]

/-- `SIGNATURES` -/
def signatures : List (String × (List UInt8 → Bool)) :=
  [("image/jpeg", fun b => bytesEqual b 0 [0xff, 0xd8, 0xff]),
    ("image/png", fun b => bytesEqual b 0 [0x89, 0x50, 0x4e, 0x47, 0x0d, 0x0a, 0x1a, 0x0a]),
    ("image/gif", fun b => bytesEqual b 0 [0x47, 0x49, 0x46, 0x38]),
    ("image/webp", fun b => bytesEqual b 0 [0x52, 0x49, 0x46, 0x46] &&
      bytesEqual b 8 [0x57, 0x45, 0x42, 0x50]),
    ("image/heic", isIsoBmff),
    ("video/mp4", isIsoBmff),
    ("video/quicktime", isIsoBmff),
    ("video/webm", fun b => bytesEqual b 0 [0x1a, 0x45, 0xdf, 0xa3])]

def matchesMagicBytes (buffer : List UInt8) (mime : String) : Bool :=
  match signatures.lookup mime with
  | none => true
  | some check => check buffer

/-- The kind and the extension of an accepted type. The type of a multipart file has a slash,
so `in` finds only the own keys of the two tables. -/
def kindOf (mime : String) : Option (OrderMediaKind × String) :=
  match photoMimes.lookup mime, videoMimes.lookup mime with
  | some ext, _ => some (.photo, ext)
  | none, some ext => some (.video, ext)
  | none, none => none

/-- The limit on the size of a file, in megabytes. -/
def Env.maxMb (env : Env) : OrderMediaKind → ℚ
  | .photo => env.uploadMaxPhotoMb
  | .video => env.uploadMaxVideoMb

/-- The checks of `saveMediaFile`. -/
def mediaFileCheck (env : Env) (mediaLength : ℕ) (file : MediaFile) :
    Except ApiError (OrderMediaKind × String) := do
  if mediaLength ≥ env.orderMaxMedia then
    throw (.badRequest s!"Ko'pi bilan {env.orderMaxMedia} ta fayl yuklash mumkin")
  match kindOf file.mime with
  | none =>
      throw (.unsupportedMediaType "Faqat rasm (JPEG/PNG/WebP/HEIC) yoki video (MP4/MOV/WebM)")
  | some (kind, ext) =>
      if !matchesMagicBytes file.buffer file.mime then
        throw (.unsupportedMediaType "Fayl mazmuni e'lon qilingan turga mos kelmadi")
      if file.buffer.length > env.maxMb kind * 1024 * 1024 then
        throw (.payloadTooLarge s!"Fayl juda katta (maksimum {env.maxMb kind} MB)")
      return (kind, ext)

/-! ### The first reads -/

def addMediaGuard (env : Env) (db : Db) (customerId : UserId) (orderId : OrderId)
    (file : MediaFile) : Except ApiError (OrderMediaKind × String) := do
  let order ← getOwned db.toDb customerId orderId
  if order.status ∉ editableStatuses then
    throw (.conflict "Yuborilgan buyurtmaga media qo'shib bo'lmaydi")
  mediaFileCheck env (db.countMedia orderId) file

def addJobMediaGuard (env : Env) (db : Db) (masterId : UserId) (orderId : OrderId)
    (file : MediaFile) : Except ApiError (OrderMediaKind × String) := do
  let order ← getOwnedByMaster db.toDb masterId orderId
  if order.status ≠ .inProgress ∧ order.status ≠ .completed then
    throw (.conflict "Bu holatda dalil-rasm qo'shib bo'lmaydi")
  mediaFileCheck env (db.countMedia orderId) file

/-- `deleteMedia` checks who owns the order, and not its status. -/
def deleteMediaGuard (db : Db) (customerId : UserId) (orderId : OrderId) (mediaId : MediaId) :
    Except ApiError OrderMedia := do
  let _ ← getOwned db.toDb customerId orderId
  match db.findMedia orderId mediaId with
  | none => throw (.notFound "Media topilmadi")
  | some media => return media

/-- The read that ends a call. -/
def Op.reread (db : Db) : Op → Except ApiError Order
  | .addMedia customerId orderId _ | .deleteMedia customerId orderId _ =>
      getOwned db.toDb customerId orderId
  | .addJobMedia masterId orderId _ => getOwnedByMaster db.toDb masterId orderId

/-- The row that `saveMediaFile` inserts. -/
def mediaOf (orderId : OrderId) (uploadedByRole : OrderMediaUploader) (file : MediaFile)
    (kind : OrderMediaKind) (objectKey : String) : OrderMedia :=
  { orderId, kind, uploadedByRole, objectKey, mime := file.mime, sizeBytes := file.buffer.length }

/-! ### Steps -/

/-- The insert of `saveMediaFile`. The order that the row refers to must exist. -/
def insertMedia (k : Call) (db : Db) (row : OrderMedia) : Outcome Db Call :=
  match db.orders[row.orderId]? with
  | none => k.goto db (.threw .infrastructure)
  | some _ => k.goto (db.createMedia row) .rereading

/-- The next operation of a call that has not finished and does not fail. -/
def proceed (env : Env) (x : Input) (k : Call) (db : Db) : Option (Outcome Db Call) :=
  match k.pc, k.op with
  | .start, .addMedia customerId orderId file =>
      some (k.check db (fun p => .checked p.1 p.2) (addMediaGuard env db customerId orderId file))
  | .start, .addJobMedia masterId orderId file =>
      some (k.check db (fun p => .checked p.1 p.2) (addJobMediaGuard env db masterId orderId file))
  | .start, .deleteMedia customerId orderId mediaId =>
      some (k.check db .found (deleteMediaGuard db customerId orderId mediaId))
  | .checked kind ext, .addMedia _ _ _ | .checked kind ext, .addJobMedia _ _ _ =>
      some (k.goto (db.saveFile (x.uuid ++ ext)) (.stored kind (x.uuid ++ ext)))
  | .stored kind objectKey, .addMedia _ orderId file =>
      some (insertMedia k db (mediaOf orderId .customer file kind objectKey))
  | .stored kind objectKey, .addJobMedia _ orderId file =>
      some (insertMedia k db (mediaOf orderId .master file kind objectKey))
  | .found media, .deleteMedia _ _ mediaId =>
      match db.media[mediaId]?.join with
      | none => some (k.goto db (.threw .infrastructure))
      | some _ => some (k.goto (db.deleteMedia mediaId) (.deleted media))
  | .deleted media, .deleteMedia _ _ _ =>
      some (k.goto (db.deleteFile media.objectKey) .rereading)
  | .rereading, op => some (k.check db (fun _ => .returned) (op.reread db))
  | _, _ => none

/-- The next awaited operation of a call. -/
def step (env : Env) (_me : ℕ) (x : Input) (k : Call) (db : Db) : Option (Outcome Db Call) :=
  if k.isFinished then none
  else if x.fail then some (k.goto db (.threw .infrastructure))
  else proceed env x k db

/-- The machine of the three methods. -/
def media (env : Env) : Machine Db Call Input where
  entry := Call.isStart
  step := step env

end Handly.Media
