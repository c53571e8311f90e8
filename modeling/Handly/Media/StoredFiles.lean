import Handly.Media.Evidence

/-!
# The files behind the media

The storage is no part of the database: `saveMediaFile` writes the object before the row, and
`deleteMedia` removes the row before the object. A call can stop in between, and any others run.
What keeps a row from losing its file is that each key is held once: by a row, by an upload whose
row is still to come, or by a delete whose row is gone (`potential (Db.keyed key) (holds key)`).
`randomUUID` gives no key that the storage has.

What the checks of `saveMediaFile` say about a file holds of its row, but for the limit on the
number of files: the media are counted before the file is stored, so uploads that run at the same
time pass it together.
-/

namespace Handly.Media

open Interleaving

/-! ### Uploads -/

/-- The order, the uploader and the file of an upload. -/
def Op.upload : Op → Option (OrderId × OrderMediaUploader × MediaFile)
  | .addMedia _ orderId file => some (orderId, .customer, file)
  | .addJobMedia _ orderId file => some (orderId, .master, file)
  | .deleteMedia _ _ _ => none

/-- The checks of `saveMediaFile` on the file itself. -/
structure Accepted (env : Env) (file : MediaFile) (kind : OrderMediaKind) (ext : String) :
    Prop where
  known : kindOf file.mime = some (kind, ext)
  signature : matchesMagicBytes file.buffer file.mime = true
  size : (file.buffer.length : ℚ) ≤ env.maxMb kind * 1024 * 1024

/-- The call uploads an accepted file, and this is its row. -/
def Op.Uploads (env : Env) (op : Op) (row : OrderMedia) : Prop :=
  ∃ orderId role file kind ext uuid, op.upload = some (orderId, role, file) ∧
    Accepted env file kind ext ∧ row = mediaOf orderId role file kind (uuid ++ ext)

/-- Past the check the file of an upload is accepted, and a delete has read a row that is at most
deleted since. -/
def Call.Stands (env : Env) (db : Db) (k : Call) : Prop :=
  match k.pc with
  | .checked kind ext =>
      ∀ orderId role file, k.op.upload = some (orderId, role, file) → Accepted env file kind ext
  | .stored kind objectKey => ∀ orderId role file, k.op.upload = some (orderId, role, file) →
      ∃ ext uuid, objectKey = uuid ++ ext ∧ Accepted env file kind ext
  | .found media => ∀ customerId orderId mediaId, k.op = .deleteMedia customerId orderId mediaId →
      ∃ row, db.media[mediaId]? = some row ∧ ∀ m ∈ row, m = media
  | _ => True

/-! ### Keys -/

/-- How many rows have this key. -/
def Db.keyed (key : String) (db : Db) : ℕ :=
  db.media.countP fun row => row.any fun m => m.objectKey = key

/-- The call has an object of this key that no row has: its row is not yet inserted, or already
deleted. -/
def Call.holds (key : String) (k : Call) : ℕ :=
  match k.pc with
  | .stored _ objectKey => if objectKey = key then 1 else 0
  | .deleted media => if media.objectKey = key then 1 else 0
  | _ => 0

/-- The same of either kind of call. -/
def holds (key : String) : AnyCall → ℕ
  | ⟨.orders, _⟩ => 0
  | ⟨.media, k⟩ => k.holds key

/-- An upload draws a key that the storage does not have. -/
def DrawsNewKey (_me : ℕ) (x : AnyInput) (k : AnyCall) (db : Db) : Prop :=
  match x, k with
  | ⟨.media, x⟩, ⟨.media, k⟩ =>
      match k.pc with
      | .checked _ ext => x.fail = false → x.uuid ++ ext ∉ db.files
      | _ => True
  | _, _ => True

instance (me : ℕ) (x : AnyInput) (k : AnyCall) (db : Db) : Decidable (DrawsNewKey me x k db) :=
  decidable_of_bool
    (match x, k with
      | ⟨.media, x⟩, ⟨.media, k⟩ =>
          match k.pc with
          | .checked _ ext => decide (x.fail = false → x.uuid ++ ext ∉ db.files)
          | _ => true
      | _, _ => true)
    (by
      unfold DrawsNewKey
      split
      · split <;> simp only [decide_eq_true_iff]
      · simp only [])

section Media

variable {env : Env} {me : ℕ} {x : Input} {k : Call} {db : Db} {o : Outcome Db Call}

/-- What an operation does to the storage and to the holders of a key. -/
inductive FileEffect (db : Db) (k : Call) (o : Outcome Db Call) : Prop
  | keeps : o.store.files = db.files →
      (∀ key, o.store.keyed key + o.call.holds key ≤ db.keyed key + k.holds key) →
      FileEffect db k o
  | saves {new : String} : new ∉ db.files → o.store.files = db.files ++ [new] →
      (∀ key, o.store.keyed key + o.call.holds key ≤
        db.keyed key + k.holds key + if new = key then 1 else 0) →
      FileEffect db k o
  | drops {old : String} : (o.store.files = db.files.filter fun key => key ≠ old) →
      (∀ key, o.store.keyed key + o.call.holds key + (if old = key then 1 else 0) ≤
        db.keyed key + k.holds key) →
      FileEffect db k o

theorem keyed_createMedia {key : String} {row : OrderMedia} :
    (db.createMedia row).keyed key = db.keyed key + if row.objectKey = key then 1 else 0 := by
  rw [Db.keyed, Db.createMedia_media, List.countP_append, List.countP_singleton, Db.keyed]
  simp

theorem keyed_deleteMedia {key : String} {id : MediaId} {row : OrderMedia}
    (hrow : db.media[id]? = some (some row)) :
    (db.deleteMedia id).keyed key + (if row.objectKey = key then 1 else 0) = db.keyed key := by
  have hset := @Table.countP_set _ (fun row => row.any fun m : OrderMedia => m.objectKey = key)
    _ _ _ none hrow
  simpa [Db.keyed, Db.deleteMedia_media] using hset

theorem Stmt.fileEffect (h : Stmt x db k o)
    (hfails : x.fail = true → o = k.goto db (.threw .infrastructure)) (hk : k.Stands env db)
    (hnew : DrawsNewKey me ⟨.media, x⟩ ⟨.media, k⟩ db) : FileEffect db k o := by
  cases h with
  | throws => exact .keeps rfl fun key => Nat.add_le_add_left (Nat.zero_le _) _
  | addMediaChecked | addJobMediaChecked | found | returns =>
      exact .keeps rfl fun key => Nat.le_refl _
  | stored =>
      have hworks : x.fail = false := by
        by_contra hfail
        rw [Bool.not_eq_false] at hfail
        simpa [Call.goto] using congrArg (fun o => o.call.pc) (hfails hfail)
      exact .saves (hnew hworks) rfl fun key => Nat.le_refl _
  | addMedia | addJobMedia =>
      refine .keeps rfl fun key => ?_
      rw [keyed_createMedia]
      exact Nat.le_refl _
  | @deleteMedia customerId orderId mediaId media row hrow =>
      obtain ⟨row', hrow', hread⟩ := hk customerId orderId mediaId rfl
      obtain rfl := Option.some.inj (hrow.symm.trans hrow')
      obtain rfl := hread row rfl
      refine .keeps rfl fun key => ?_
      rw [← keyed_deleteMedia hrow]
      exact Nat.le_refl _
  | deleteFile => exact .drops rfl fun key => Nat.le_refl _

/-! ### What an upload has checked -/

theorem mediaFileCheck_eq_ok {mediaLength : ℕ} {file : MediaFile} {kind : OrderMediaKind}
    {ext : String} (h : mediaFileCheck env mediaLength file = .ok (kind, ext)) :
    mediaLength < env.orderMaxMedia ∧ Accepted env file kind ext := by
  unfold mediaFileCheck at h
  simp only [Checks.check_eq_ok] at h
  obtain ⟨hlength, h⟩ := h
  cases hkind : kindOf file.mime with
  | none => simp [hkind, throw, throwThe, MonadExceptOf.throw] at h
  | some p =>
      obtain ⟨kind', ext'⟩ := p
      simp only [hkind, Checks.check_eq_ok] at h
      obtain ⟨hsignature, hsize, h⟩ := h
      obtain ⟨rfl, rfl⟩ := Prod.mk.inj (Checks.pure_eq_ok.mp h)
      exact ⟨Nat.lt_of_not_le hlength, hkind, by simpa using hsignature, not_lt.mp hsize⟩

theorem addMediaGuard_checks {customerId : UserId} {orderId : OrderId} {file : MediaFile}
    {p : OrderMediaKind × String} (h : addMediaGuard env db customerId orderId file = .ok p) :
    mediaFileCheck env (db.countMedia orderId) file = .ok p := by
  unfold addMediaGuard at h
  obtain ⟨order, -, h⟩ := Checks.bind_eq_ok.mp h
  simp only [Checks.check_eq_ok] at h
  exact h.2

theorem addJobMediaGuard_checks {masterId : UserId} {orderId : OrderId} {file : MediaFile}
    {p : OrderMediaKind × String} (h : addJobMediaGuard env db masterId orderId file = .ok p) :
    mediaFileCheck env (db.countMedia orderId) file = .ok p := by
  unfold addJobMediaGuard at h
  obtain ⟨order, -, h⟩ := Checks.bind_eq_ok.mp h
  simp only [Checks.check_eq_ok] at h
  exact h.2

/-- What a check that passes goes on with. -/
theorem check_checked {op : Op} {guard : Except ApiError (OrderMediaKind × String)}
    {kind : OrderMediaKind} {ext : String} {pc : Pc}
    (h : some (Call.check ⟨op, pc⟩ db (fun p => .checked p.1 p.2) guard) = some o)
    (hpc : o.call.pc = .checked kind ext) : guard = .ok (kind, ext) := by
  rw [← Option.some.inj h] at hpc
  cases guard with
  | error e => simp [Call.check, Call.goto] at hpc
  | ok p =>
      obtain ⟨kind', ext'⟩ := p
      simp only [Call.check, Call.goto, Pc.checked.injEq] at hpc
      rw [hpc.1, hpc.2]

/-- An upload goes on from its first read with an accepted file, and below the limit. -/
theorem accepted_of_step (h : step env me x k db = some o) {kind : OrderMediaKind} {ext : String}
    (hpc : o.call.pc = .checked kind ext) {orderId : OrderId} {role : OrderMediaUploader}
    {file : MediaFile} (hup : k.op.upload = some (orderId, role, file)) :
    db.countMedia orderId < env.orderMaxMedia ∧ Accepted env file kind ext := by
  have hstmt := (step_cases h).1
  unfold step at h
  split at h
  · simp at h
  · split at h
    · rw [← Option.some.inj h] at hpc
      simp [Call.goto] at hpc
    · cases hstmt with
      | addMediaChecked =>
          obtain ⟨rfl, rfl, rfl⟩ : _ ∧ _ ∧ _ := by simpa [Op.upload] using hup
          exact mediaFileCheck_eq_ok (addMediaGuard_checks (check_checked h hpc))
      | addJobMediaChecked =>
          obtain ⟨rfl, rfl, rfl⟩ : _ ∧ _ ∧ _ := by simpa [Op.upload] using hup
          exact mediaFileCheck_eq_ok (addJobMediaGuard_checks (check_checked h hpc))
      | _ => simp at hpc

/-- An operation establishes what its call stands for next. -/
theorem stands_of_step (h : step env me x k db = some o) (hk : k.Stands env db) :
    o.call.Stands env o.store := by
  have hstmt := (step_cases h).1
  cases hstmt with
  | addMediaChecked | addJobMediaChecked =>
      exact fun orderId role file hup => (accepted_of_step h rfl hup).2
  | found hrow =>
      intro customerId orderId mediaId hop
      obtain ⟨rfl, rfl, rfl⟩ := Op.deleteMedia.inj hop
      exact ⟨_, hrow, fun m hm => (Option.some.inj hm).symm⟩
  | stored =>
      exact fun orderId role file hup => ⟨_, _, rfl, hk orderId role file hup⟩
  | throws | addMedia | addJobMedia | deleteMedia | deleteFile | returns => trivial

/-- No operation disturbs what another call stands for. -/
theorem Stmt.stands_other (h : Stmt x db k o) {k' : Call} (hk' : k'.Stands env db) :
    k'.Stands env o.store := by
  obtain ⟨op, pc⟩ := k'
  cases pc with
  | found media =>
      intro customerId orderId mediaId hop
      obtain ⟨row, hrow, hread⟩ := hk' customerId orderId mediaId hop
      rcases h.media_before hrow with hkept | ⟨hgone, -⟩
      · exact ⟨row, hkept, hread⟩
      · exact ⟨none, hgone, by simp⟩
  | _ => exact hk'

end Media

/-! ### A whole run -/

/-- What either kind of call stands for. -/
def Standing (env : Env) (db : Db) : AnyCall → Prop
  | ⟨.orders, _⟩ => True
  | ⟨.media, k⟩ => k.Stands env db

/-- The row is of a file that a call has uploaded. -/
def Uploaded (env : Env) (calls : List AnyCall) (row : OrderMedia) : Prop :=
  ∃ (i : ℕ) (k : Call), calls[i]? = some ⟨.media, k⟩ ∧ k.op.Uploads env row

/-- The storage is in order. -/
structure InOrder (env : Env) (c : Config Db AnyCall) : Prop where
  /-- A key is held once. -/
  once : ∀ key, potential (Db.keyed key) (holds key) c ≤ 1
  /-- What is held is stored. -/
  stored : ∀ key, 0 < potential (Db.keyed key) (holds key) c → key ∈ c.store.files
  /-- Every row was uploaded by a call. -/
  uploaded : ∀ row, some row ∈ c.store.media → Uploaded env c.calls row

section Run

variable {oenv : Handly.Env} {env : Env} {db : Db} {c c' : Config Db AnyCall}
  {ts : List (Transition Db AnyCall AnyInput)} {t : Transition Db AnyCall AnyInput}

/-- The outline of any run. -/
def standing (oenv : Handly.Env) (env : Env) : Outline (service oenv env) fun _ => True :=
  .sigma (component oenv env) _ (fun _ => True) (fun db _ k => Standing env db k)
    (by
      intro s i cp k hentry _
      cases cp with
      | orders => trivial
      | media =>
          obtain ⟨op, pc⟩ := k
          cases pc with
          | start => trivial
          | _ => simp [component, media, Call.isStart] at hentry)
    (by
      intro t i cp x k o _ he hk hstep hpost _ hL
      cases cp with
      | orders =>
          obtain ⟨o', hstmt, -, rfl⟩ := orders_cases hstep
          refine ⟨trivial, trivial, fun k' hk' => ?_⟩
          simp [component, Machine.onPart, orders, Handly.Call.isStart, hstmt.spawned_start k' hk']
      | media =>
          have hstmt := (media_cases hstep).1
          exact ⟨trivial, stands_of_step (show step env i x k t.pre.store = some o from hstep) hL,
            by simp [hstmt.spawned_eq_nil]⟩)
    (by
      intro t i cp x k o j cp' k' _ he hk hstep hk' hne _ hL hL'
      cases cp' with
      | orders => trivial
      | media =>
          cases cp with
          | orders =>
              obtain ⟨o', -, -, rfl⟩ := orders_cases hstep
              obtain ⟨op', pc'⟩ := k'
              cases pc' <;> exact hL'
          | media => exact (media_cases hstep).1.stands_other hL')

theorem Stmt.op_eq {x : Input} {k : Call} {o : Outcome Db Call} (h : Stmt x db k o) :
    o.call.op = k.op := by
  cases h <;> rfl

/-- A row after an operation: an old one, or what the call has uploaded. -/
theorem Stmt.uploaded {x : Input} {k : Call} {o : Outcome Db Call} (h : Stmt x db k o)
    (hk : k.Stands env db) {row : OrderMedia} (hrow : some row ∈ o.store.media) :
    some row ∈ db.media ∨ k.op.Uploads env row := by
  obtain ⟨id, hid⟩ := List.mem_iff_getElem?.mp hrow
  obtain ⟨op, pc⟩ := k
  rcases h.media_after hid with hold | ⟨orderId, file, kind, objectKey, rfl, -, hnew⟩
  · exact Or.inl (List.mem_of_getElem? hold)
  · right
    rcases hnew with ⟨customerId, rfl, rfl⟩ | ⟨masterId, rfl, rfl⟩
    · obtain ⟨ext, uuid, rfl, hacc⟩ := hk orderId .customer file rfl
      exact ⟨orderId, .customer, file, kind, ext, uuid, rfl, hacc, rfl⟩
    · obtain ⟨ext, uuid, rfl, hacc⟩ := hk orderId .master file rfl
      exact ⟨orderId, .master, file, kind, ext, uuid, rfl, hacc, rfl⟩

/-- The holders of a key after an operation of a call. -/
theorem potential_set {i : ℕ} {k k' : AnyCall} {store : Db} {spawned : List AnyCall} {key : String}
    (hk : c.calls[i]? = some k) (hspawned : ∀ k' ∈ spawned, holds key k' = 0) :
    potential (Db.keyed key) (holds key) ⟨store, c.calls.set i k' ++ spawned⟩ +
        (c.store.keyed key + holds key k) =
      potential (Db.keyed key) (holds key) c + (store.keyed key + holds key k') := by
  have hset := sum_map_set (g := holds key) hk k'
  have hnone : (spawned.map (holds key)).sum = 0 := by
    rw [List.sum_eq_zero_iff]
    intro n hn
    obtain ⟨k', hk', rfl⟩ := List.mem_map.mp hn
    exact hspawned k' hk'
  simp only [potential, List.map_append, List.sum_append, hnone]
  omega

/-- The call that has uploaded a row is still there after a transition. -/
theorem uploads_stay (ht : (service oenv env).Fires t) {row : OrderMedia}
    (h : Uploaded env t.pre.calls row) : Uploaded env t.post.calls row := by
  obtain ⟨i, k, hi, hup⟩ := h
  rcases ht.calls_getElem? hi with hsame | ⟨x, o, -, hstep, -, hself⟩
  · exact ⟨i, k, hsame, hup⟩
  · obtain ⟨x', o', rfl, ho', rfl⟩ := Machine.sigma_step hstep
    refine ⟨i, o'.call, hself, ?_⟩
    rw [(media_cases ho').1.op_eq]
    exact hup

theorem inOrder_fires (ht : (service oenv env).Fires t) (hC : t.Satisfies DrawsNewKey)
    (hL : (standing oenv env).Holds t.pre) (h : InOrder env t.pre) : InOrder env t.post := by
  rcases Machine.sigma_fires ht with
    ⟨cp, k, -, hentry, hpost⟩ | ⟨i, cp, x, k, o, he, hk, hstep, hpost⟩
  · have hzero : ∀ key, holds key ⟨cp, k⟩ = 0 := by
      intro key
      cases cp with
      | orders => rfl
      | media =>
          obtain ⟨op, pc⟩ := k
          cases pc with
          | start => rfl
          | _ => simp [component, media, Call.isStart] at hentry
    have hsame : ∀ key, potential (Db.keyed key) (holds key) t.post =
        potential (Db.keyed key) (holds key) t.pre := by
      intro key
      rw [hpost]
      simp [potential, hzero key]
    refine ⟨fun key => hsame key ▸ h.once key, fun key hkey => ?_, fun row hrow => ?_⟩
    · rw [hpost]
      exact h.stored key (hsame key ▸ hkey)
    · rw [hpost] at hrow
      exact uploads_stay ht (h.uploaded row hrow)
  · cases cp with
    | orders =>
        obtain ⟨o', -, -, rfl⟩ := orders_cases hstep
        have hsame : ∀ key, potential (Db.keyed key) (holds key) t.post =
            potential (Db.keyed key) (holds key) t.pre := by
          intro key
          have hset := @potential_set t.pre i _ ⟨.orders, o'.call⟩
            { t.pre.store with toDb := o'.store } (o'.spawned.map fun k => ⟨.orders, k⟩) key hk
            (by simp [holds])
          rw [hpost]
          exact Nat.add_right_cancel hset
        refine ⟨fun key => hsame key ▸ h.once key, fun key hkey => ?_, fun row hrow => ?_⟩
        · rw [hpost]
          exact h.stored key (hsame key ▸ hkey)
        · rw [hpost] at hrow
          exact uploads_stay ht (h.uploaded row hrow)
    | media =>
        obtain ⟨hstmt, hfails⟩ := media_cases hstep
        have hstands : k.Stands env t.pre.store := hL.2 i _ hk
        have hset := fun key => @potential_set t.pre i _ ⟨.media, o.call⟩ o.store
          (o.spawned.map (Sigma.mk .media)) key hk (by simp [hstmt.spawned_eq_nil])
        rw [← hpost] at hset
        have huploaded : ∀ row, some row ∈ t.post.store.media →
            Uploaded env t.post.calls row := by
          intro row hrow
          rw [hpost] at hrow
          rcases hstmt.uploaded hstands hrow with hold | hup
          · exact uploads_stay ht (h.uploaded row hold)
          · refine ⟨i, o.call, Machine.getElem?_of_post hk hpost, ?_⟩
            rw [hstmt.op_eq]
            exact hup
        have hfiles : t.post.store.files = o.store.files := by rw [hpost]
        cases hstmt.fileEffect hfails hstands (hC i _ _ he hk) with
        | keeps hsame hbooks =>
            have hle : ∀ key, potential (Db.keyed key) (holds key) t.post ≤
                potential (Db.keyed key) (holds key) t.pre := by
              intro key
              have hkey : _ ≤ _ := hbooks key
              have hpot := hset key
              simp only [holds] at hpot
              omega
            refine ⟨fun key => (hle key).trans (h.once key), fun key hkey => ?_, huploaded⟩
            rw [hfiles, hsame]
            exact h.stored key (hkey.trans_le (hle key))
        | @saves new hfresh hsaved hbooks =>
            have hnone : potential (Db.keyed new) (holds new) t.pre = 0 :=
              Nat.eq_zero_of_not_pos fun hpos => hfresh (h.stored new hpos)
            have hle : ∀ key, potential (Db.keyed key) (holds key) t.post ≤
                potential (Db.keyed key) (holds key) t.pre + if new = key then 1 else 0 := by
              intro key
              have hkey := hbooks key
              have hpot := hset key
              simp only [holds] at hpot
              omega
            refine ⟨fun key => ?_, fun key hkey => ?_, huploaded⟩
            · have hone := h.once key
              have hkey := hle key
              split at hkey
              · rename_i heq
                subst heq
                omega
              · omega
            · rw [hfiles, hsaved, List.mem_append, List.mem_singleton]
              by_cases heq : new = key
              · exact Or.inr heq.symm
              · have hkey' := hle key
                rw [if_neg heq] at hkey'
                exact Or.inl (h.stored key (hkey.trans_le hkey'))
        | @drops old hdropped hbooks =>
            have hle : ∀ key, potential (Db.keyed key) (holds key) t.post +
                (if old = key then 1 else 0) ≤ potential (Db.keyed key) (holds key) t.pre := by
              intro key
              have hkey := hbooks key
              have hpot := hset key
              simp only [holds] at hpot
              omega
            refine ⟨fun key => ?_, fun key hkey => ?_, huploaded⟩
            · have hone := h.once key
              have hkey := hle key
              omega
            · have hone := h.once key
              have hkey' := hle key
              have hne : key ≠ old := by
                rintro rfl
                rw [if_pos rfl] at hkey'
                omega
              rw [hfiles, hdropped, List.mem_filter]
              refine ⟨h.stored key (by omega), by simpa using hne⟩

/-- **Every medium has its file.** In every run of both services from empty tables, however
uploads, deletes and the operations on the orders interleave and wherever they stop, every row has
its own object in the storage, and is of a file that a call uploaded with a known type, a
signature that fits it and a size within the limit. -/
theorem media_have_files (hrun : (service oenv env).Run ⟨db, []⟩ ts c') (hempty : db.media = [])
    (hC : ∀ t ∈ ts, t.Satisfies DrawsNewKey) :
    ∀ (id : MediaId) (row : OrderMedia), c'.store.media[id]? = some (some row) →
      row.objectKey ∈ c'.store.files ∧
      (∀ (id' : MediaId) (row' : OrderMedia), c'.store.media[id']? = some (some row') →
        row'.objectKey = row.objectKey → id' = id) ∧
      Uploaded env c'.calls row := by
  have hholds := ((standing oenv env).holds_run hrun (fun _ _ => trivial)
    ⟨trivial, by simp⟩).2
  have hstart : InOrder env ⟨db, []⟩ := by
    have hzero : ∀ key, potential (Db.keyed key) (holds key) ⟨db, []⟩ = 0 := by
      intro key
      simp [potential, Db.keyed, hempty]
    exact ⟨fun key => by simp [hzero key], fun key hkey => by simp [hzero key] at hkey,
      by simp [hempty]⟩
  have horder := (hrun.invariant (InOrder env)
    (fun t => t.Satisfies DrawsNewKey ∧ (standing oenv env).Holds t.pre)
    (fun t ht => ⟨hC t ht, (hholds t ht).1⟩) hstart
    fun t ht hCt hI => inOrder_fires ht hCt.1 hCt.2 hI).1
  intro id row hrow
  have hkeyed : 0 < c'.store.keyed row.objectKey :=
    List.countP_pos_iff.mpr ⟨some row, List.mem_of_getElem? hrow, by simp⟩
  refine ⟨horder.stored _ (Nat.lt_of_lt_of_le hkeyed (Nat.le_add_right _ _)), ?_,
    horder.uploaded row (List.mem_of_getElem? hrow)⟩
  intro id' row' hrow' hsame
  by_contra hne
  have hother : (c'.store.media.set id' none)[id]? = some (some row) := by
    rw [List.getElem?_set_ne hne]
    exact hrow
  have hpos : 0 < (c'.store.media.set id' none).countP fun row' =>
      row'.any fun m => m.objectKey = row.objectKey :=
    List.countP_pos_iff.mpr ⟨some row, List.mem_of_getElem? hother, by simp⟩
  have hset := @keyed_deleteMedia _ row.objectKey _ _ hrow'
  rw [if_pos hsame] at hset
  have hone : c'.store.keyed row.objectKey ≤ 1 :=
    (Nat.le_add_right _ _).trans (horder.once row.objectKey)
  simp only [Db.keyed, Db.deleteMedia_media] at hset hone
  omega

end Run

/-- The customer's picture of the draft is uploaded and deleted while the master uploads. -/
def twoUploads : List (Event AnyCall AnyInput) :=
  play 0 4 (.addMedia 0 0 picture) "a" ++ play 1 2 (.addJobMedia 1 1 picture) "b" ++
    play 2 3 (.deleteMedia 0 0 0) "" ++ List.replicate 2 (.run 1 ⟨.media, {}⟩)

theorem media_have_files_twoUploads :
    "b.jpg" ∈ ((service .flat {}).after ⟨draftAndJob, []⟩ twoUploads).store.files :=
  (media_have_files ((service .flat {}).run_trace _ _) rfl (by decide +kernel) 1
    ⟨1, .photo, .master, "b.jpg", "image/jpeg", 3⟩ (by decide +kernel)).1

/-! ### The number of files -/

/-- The call has been let through with a file for this order, whose row is still to come. -/
def Call.uploading (orderId : OrderId) (k : Call) : Bool :=
  match k.pc with
  | .checked _ _ | .stored _ _ => k.op.upload.any fun u => u.1 = orderId
  | _ => false

def uploading (orderId : OrderId) : AnyCall → Bool
  | ⟨.orders, _⟩ => false
  | ⟨.media, k⟩ => k.uploading orderId

section Limit

variable {oenv : Handly.Env} {env : Env} {orderId : OrderId} {n : ℕ} {db : Db}
  {c c' : Config Db AnyCall} {ts : List (Transition Db AnyCall AnyInput)}

theorem countMedia_createMedia {row : OrderMedia} :
    (db.createMedia row).countMedia orderId =
      db.countMedia orderId + if row.orderId = orderId then 1 else 0 := by
  rw [Db.countMedia, Db.createMedia_media, List.countP_append, List.countP_singleton,
    Db.countMedia]
  simp

theorem countMedia_deleteMedia_le {id : MediaId} :
    (db.deleteMedia id).countMedia orderId ≤ db.countMedia orderId := by
  rw [Db.countMedia, Db.deleteMedia_media, Db.countMedia]
  cases hrow : db.media[id]? with
  | none => rw [List.set_eq_of_length_le (List.getElem?_eq_none_iff.mp hrow)]
  | some row =>
      have hset := @Table.countP_set _
        (fun row => row.any fun m : OrderMedia => m.orderId = orderId) _ _ _ none hrow
      simp only [Option.any_none, Bool.false_eq_true, if_false] at hset
      omega

/-- An operation lets an upload through below the limit, or moves one on. -/
theorem uploading_of_step {me : ℕ} {x : Input} {k : Call} {o : Outcome Db Call}
    (h : step env me x k db = some o) :
    (o.store.countMedia orderId = db.countMedia orderId ∧
        db.countMedia orderId < env.orderMaxMedia) ∨
      o.store.countMedia orderId + (if o.call.uploading orderId then 1 else 0) ≤
        db.countMedia orderId + if k.uploading orderId then 1 else 0 := by
  have hstmt := (step_cases h).1
  cases hstmt with
  | @addMediaChecked customerId orderId' file =>
      by_cases hid : orderId' = orderId
      · subst hid
        exact Or.inl ⟨rfl, (accepted_of_step h rfl rfl).1⟩
      · exact Or.inr (by simp [Call.uploading, Op.upload, hid])
  | @addJobMediaChecked masterId orderId' file =>
      by_cases hid : orderId' = orderId
      · subst hid
        exact Or.inl ⟨rfl, (accepted_of_step h rfl rfl).1⟩
      · exact Or.inr (by simp [Call.uploading, Op.upload, hid])
  | throws | found | returns => exact Or.inr (by simp [Call.uploading])
  | stored => exact Or.inr (Nat.le_refl _)
  | addMedia | addJobMedia =>
      refine Or.inr ?_
      rw [countMedia_createMedia]
      simp only [Call.uploading, Op.upload, mediaOf, Option.any_some, decide_eq_true_eq,
        Bool.false_eq_true, if_false, Nat.add_zero]
      exact Nat.le_refl _
  | deleteMedia => exact Or.inr (Nat.add_le_add_right countMedia_deleteMedia_le _)
  | deleteFile => exact Or.inr (Nat.le_refl _)

/-- **The limit on the media of an order** is passed by at most the uploads that run at the same
time. -/
theorem media_within_limit (hrun : (service oenv env).Run c ts c')
    (hstart : c.store.countMedia orderId + c.calls.countP (uploading orderId) ≤
      env.orderMaxMedia - 1 + n)
    (hfew : ∀ t ∈ ts, t.post.calls.countP (uploading orderId) ≤ n) :
    c'.store.countMedia orderId + c'.calls.countP (uploading orderId) ≤
      env.orderMaxMedia - 1 + n := by
  refine (hrun.invariant (fun c => c.store.countMedia orderId +
    c.calls.countP (uploading orderId) ≤ env.orderMaxMedia - 1 + n)
    (fun t => t.post.calls.countP (uploading orderId) ≤ n) hfew hstart ?_).1
  intro t ht hless hI
  rcases Machine.sigma_fires ht with
    ⟨cp, k, -, hentry, hpost⟩ | ⟨i, cp, x, k, o, he, hk, hstep, hpost⟩
  · have hidle : uploading orderId ⟨cp, k⟩ = false := by
      cases cp with
      | orders => rfl
      | media =>
          obtain ⟨op, pc⟩ := k
          cases pc with
          | start => rfl
          | _ => simp [component, media, Call.isStart] at hentry
    rw [hpost, List.countP_append, List.countP_singleton, hidle]
    exact hI
  · have hset := @Table.countP_set _ (uploading orderId) _ _ _ ⟨cp, o.call⟩ hk
    have hcalls : t.post.calls.countP (uploading orderId) =
        (t.pre.calls.set i ⟨cp, o.call⟩).countP (uploading orderId) := by
      have hnone : (o.spawned.map (Sigma.mk cp)).countP (uploading orderId) = 0 := by
        rw [List.countP_eq_zero]
        intro k' hk'
        obtain ⟨k', hk', rfl⟩ := List.mem_map.mp hk'
        cases cp with
        | orders => simp [uploading]
        | media => simp [(media_cases hstep).1.spawned_eq_nil] at hk'
      rw [hpost, List.countP_append, hnone, Nat.add_zero]
    have hstore : t.post.store = o.store := by rw [hpost]
    rw [hcalls] at hless ⊢
    rw [hstore]
    cases cp with
    | orders =>
        obtain ⟨o', -, -, rfl⟩ := orders_cases hstep
        show t.pre.store.countMedia orderId + _ ≤ _
        have hidle : ∀ k, uploading orderId ⟨.orders, k⟩ = false := fun _ => rfl
        rw [hidle, hidle] at hset
        omega
    | media =>
        rcases @uploading_of_step env orderId t.pre.store i x k o hstep with ⟨hsame, hlow⟩ | hle
        · omega
        · have hmoves : o.store.countMedia orderId +
              (if uploading orderId ⟨.media, o.call⟩ then 1 else 0) ≤
                t.pre.store.countMedia orderId +
                  if uploading orderId ⟨.media, k⟩ then 1 else 0 := hle
          omega

end Limit

/-- Two uploads pass the limit of one file before either has its row. -/
def uploadedAtOnce : List (Event AnyCall AnyInput) :=
  play 0 1 (.addMedia 0 0 picture) "" ++ play 1 1 (.addMedia 0 0 picture) "" ++
    List.replicate 3 (.run 0 ⟨.media, { uuid := "a" }⟩) ++
    List.replicate 3 (.run 1 ⟨.media, { uuid := "b" }⟩)

theorem media_within_limit_uploadedAtOnce :
    Db.countMedia ((service .flat { orderMaxMedia := 1 }).after ⟨draftAndJob, []⟩
        uploadedAtOnce).store 0 = 2 ∧
      Db.countMedia ((service .flat { orderMaxMedia := 1 }).after ⟨draftAndJob, []⟩
          uploadedAtOnce).store 0 +
        ((service .flat { orderMaxMedia := 1 }).after ⟨draftAndJob, []⟩
          uploadedAtOnce).calls.countP (uploading 0) ≤ 1 - 1 + 2 :=
  ⟨by decide +kernel,
    media_within_limit ((service .flat { orderMaxMedia := 1 }).run_trace _ _) (by decide)
      (by decide +kernel)⟩

end Handly.Media
