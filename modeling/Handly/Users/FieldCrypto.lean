import Handly.Lib.Base64
import Handly.Users.MasterProfiles

/-!
# FieldCrypto

`field-crypto.ts`: a text is sealed with AES-256-GCM and kept as base64 of the random `iv`, the
tag and the ciphertext. `node:crypto` is a parameter. What is relied on of it is `Lawful`: a tag
has 16 bytes, the ciphertext is as long as the plaintext, and opening checks the tag it is given.
It accepts the lengths of tags that GCM allows, so a payload that is cut off in its tag is not
refused for its length.

`decryptBytes_eq_some` says exactly which payloads are opened to which bytes. `pinfl_readable`
carries it to the profiles: in any run of the edits, what is stored can be read, and is what was
given.
-/

namespace Handly.Crypto

abbrev Bytes := List UInt8

/-- The functions of `node:crypto` and `Buffer` that the class calls. -/
structure NodeCrypto where
  /-- `createHash('sha256')` -/
  sha256 : Bytes → Bytes
  /-- `createCipheriv('aes-256-gcm', key, iv)`: the ciphertext and the tag. -/
  cipher : (key iv plain : Bytes) → Bytes × Bytes
  /-- `createDecipheriv('aes-256-gcm', key, iv)` with `setAuthTag(tag)`. -/
  decipher : (key iv tag enc : Bytes) → Option Bytes
  /-- `toString('utf8')` -/
  text : Bytes → String

/-- `Buffer.from(text, 'utf8')` -/
def utf8 (text : String) : Bytes := text.toByteArray.data.toList

/-- The lengths of a GCM tag. -/
def tagLengths : List ℕ := [4, 8, 12, 13, 14, 15, 16]

/-- What the documentation of `node:crypto` says. -/
structure NodeCrypto.Lawful (node : NodeCrypto) : Prop where
  tag_length : ∀ key iv plain, (node.cipher key iv plain).2.length = 16
  enc_length : ∀ key iv plain, (node.cipher key iv plain).1.length = plain.length
  /-- The text is given out if the tag is of an allowed length and agrees with that of the text. -/
  decipher_iff : ∀ key iv tag enc plain, node.decipher key iv tag enc = some plain ↔
    iv ≠ [] ∧ tag.length ∈ tagLengths ∧ enc = (node.cipher key iv plain).1 ∧
      tag = (node.cipher key iv plain).2.take tag.length
  text_utf8 : ∀ text, node.text (utf8 text) = text

section FieldCrypto

variable (node : NodeCrypto) (secret : String)

/-- `this.key` -/
def key : Bytes := node.sha256 (utf8 secret)

/-- The bytes of a payload. -/
def sealed (iv plain : Bytes) : Bytes :=
  iv ++ (node.cipher (key node secret) iv plain).2 ++ (node.cipher (key node secret) iv plain).1

/-- `encrypt` with the `iv` that it draws. -/
def encrypt (iv : Bytes) (plain : String) : String :=
  Base64.encode (sealed node secret iv (utf8 plain))

/-- The bytes that `decrypt` gets, or it throws. -/
def decryptBytes (payload : String) : Option Bytes :=
  let buf := Base64.decode payload
  let iv := buf.take 12
  let tag := (buf.drop 12).take 16
  let enc := buf.drop 28
  node.decipher (key node secret) iv tag enc

/-- `decrypt` -/
def decrypt (payload : String) : Option String :=
  (decryptBytes node secret payload).map node.text

end FieldCrypto

section Payloads

variable {node : NodeCrypto} {secret : String} {iv plain : Bytes} {payload : String}

/-- A payload that a call of `encrypt` makes is taken apart again. -/
theorem parts_sealed (h : node.Lawful) (hiv : iv.length = 12) :
    (sealed node secret iv plain).take 12 = iv ∧
      ((sealed node secret iv plain).drop 12).take 16 =
        (node.cipher (key node secret) iv plain).2 ∧
      (sealed node secret iv plain).drop 28 = (node.cipher (key node secret) iv plain).1 := by
  have htag := h.tag_length (key node secret) iv plain
  rw [sealed, List.append_assoc]
  refine ⟨List.take_left' hiv, ?_, ?_⟩
  · rw [List.drop_left' hiv]
    exact List.take_left' htag
  · rw [← List.append_assoc]
    exact List.drop_left' (by rw [List.length_append, hiv, htag])

/-- A payload that is cut off in its tag. -/
theorem take_sealed (h : node.Lawful) (hiv : iv.length = 12) {n : ℕ} (hn : n ≤ 16) :
    (sealed node secret iv plain).take (12 + n) =
      iv ++ (node.cipher (key node secret) iv plain).2.take n := by
  have htag := h.tag_length (key node secret) iv plain
  rw [sealed, List.append_assoc, List.take_append, hiv, List.take_of_length_le (by omega),
    Nat.add_sub_cancel_left, List.take_append_of_le_length (by omega)]

/-- **What is opened.** The payloads that `decrypt` gets these plaintext bytes out of are those in
which they are sealed, however the base64 is spelled, and no others, but for those of no bytes at
all with a tag that is cut off. Reading the bytes as UTF-8 comes after. -/
theorem decryptBytes_eq_some (h : node.Lawful) :
    decryptBytes node secret payload = some plain ↔
      ∃ iv, iv.length = 12 ∧
        (Base64.decode payload = sealed node secret iv plain ∨
          plain = [] ∧ ∃ n ∈ tagLengths, n < 16 ∧
            Base64.decode payload = (sealed node secret iv plain).take (12 + n)) := by
  rw [decryptBytes, h.decipher_iff]
  generalize Base64.decode payload = buf
  constructor
  · rintro ⟨-, hlength, henc, htag⟩
    have hlengths : 4 ≤ ((buf.drop 12).take 16).length := by
      revert hlength
      generalize ((buf.drop 12).take 16).length = n
      intro hn
      simp only [tagLengths, List.mem_cons, List.not_mem_nil, or_false] at hn
      omega
    rw [List.length_take, List.length_drop] at hlengths
    have hiv : (buf.take 12).length = 12 := by
      rw [List.length_take]
      omega
    refine ⟨buf.take 12, hiv, ?_⟩
    have hsplit : buf = buf.take 12 ++ ((buf.drop 12).take 16 ++ buf.drop 28) := by
      conv_lhs => rw [← List.take_append_drop 12 buf, ← List.take_append_drop 16 (buf.drop 12)]
      rw [List.drop_drop]
    have hwhole := h.tag_length (key node secret) (buf.take 12) plain
    by_cases hfull : 28 ≤ buf.length
    · left
      have hsixteen : ((buf.drop 12).take 16).length = 16 := by
        rw [List.length_take, List.length_drop]
        omega
      rw [hsixteen, List.take_of_length_le hwhole.le] at htag
      rw [sealed, ← htag, ← henc, List.append_assoc]
      exact hsplit
    · right
      have hnone : buf.drop 28 = [] := List.drop_eq_nil_of_le (by omega)
      have hplain : plain = [] := by
        have henclen := h.enc_length (key node secret) (buf.take 12) plain
        rw [← henc, hnone] at henclen
        exact List.length_eq_zero_iff.mp henclen.symm
      refine ⟨hplain, ((buf.drop 12).take 16).length, hlength, ?_, ?_⟩
      · rw [List.length_take, List.length_drop]
        omega
      · rw [hnone, List.append_nil] at hsplit
        rw [take_sealed h hiv (by rw [List.length_take]; exact Nat.min_le_left _ _)]
        exact hsplit.trans (congrArg (buf.take 12 ++ ·) htag)
  · rintro ⟨iv, hiv, hbuf | ⟨rfl, n, hn, hcut, hbuf⟩⟩
    · obtain ⟨htake, htag, henc⟩ := parts_sealed h hiv
      rw [hbuf, htake, htag, henc, h.tag_length]
      refine ⟨?_, by decide, rfl, (List.take_of_length_le (h.tag_length _ _ _).le).symm⟩
      rintro rfl
      cases hiv
    · rw [take_sealed h hiv hcut.le] at hbuf
      have htag := h.tag_length (key node secret) iv []
      have hlength : ((node.cipher (key node secret) iv []).2.take n).length = n := by
        rw [List.length_take, htag, Nat.min_eq_left hcut.le]
      have henc : (node.cipher (key node secret) iv []).1 = [] :=
        List.length_eq_zero_iff.mp (h.enc_length _ _ _)
      have hdrop : (iv ++ (node.cipher (key node secret) iv []).2.take n).drop 28 = [] :=
        List.drop_eq_nil_of_le (by rw [List.length_append, hiv, hlength]; omega)
      rw [hbuf, List.take_left' hiv, List.drop_left' hiv, hdrop,
        List.take_of_length_le (hlength.le.trans hcut.le), hlength]
      refine ⟨?_, hn, henc.symm, rfl⟩
      rintro rfl
      cases hiv

/-- **Round trip.** -/
theorem decrypt_encrypt (h : node.Lawful) (hiv : iv.length = 12) (text : String) :
    decrypt node secret (encrypt node secret iv text) = some text := by
  have hbytes : decryptBytes node secret (encrypt node secret iv text) = some (utf8 text) :=
    (decryptBytes_eq_some h).mpr ⟨iv, hiv, Or.inl (Base64.decode_encode _)⟩
  rw [decrypt, hbytes, Option.map_some, h.text_utf8]

end Payloads

/-! ### A recorded run of the cipher -/

/-- A secret, an `iv` and a text. -/
def recordedSecret : String := "a-secret-of-the-deployment-0123456789"
def recordedIv : Bytes := List.replicate 12 7
def recordedText : String := "31203950010026"

/-- The key, the key stream and the tag that `node:crypto` makes of them. -/
def recordedKey : Bytes :=
  [148, 51, 58, 185, 212, 240, 132, 138, 6, 147, 140, 102, 184, 235, 162, 114,
    28, 74, 236, 16, 68, 55, 194, 129, 175, 41, 192, 217, 128, 128, 252, 113]
def recordedStream : Bytes := [122, 200, 127, 66, 79, 172, 72, 234, 57, 179, 75, 179, 114, 26]
def recordedTag : Bytes :=
  [164, 102, 116, 138, 111, 44, 34, 58, 40, 141, 216, 64, 146, 32, 37, 87]

/-- A text combined with as much of the key stream as there is. -/
def combine : Bytes → Bytes → Bytes
  | [], _ => []
  | bytes, [] => bytes
  | b :: bytes, s :: stream => (b ^^^ s) :: combine bytes stream

/-- The recorded stream and tag, and none elsewhere. -/
def recordedCipher (key iv plain : Bytes) : Bytes × Bytes :=
  let hit := key = recordedKey ∧ iv = recordedIv
  (combine plain (if hit then recordedStream else []),
    if hit ∧ plain = utf8 recordedText then recordedTag else List.replicate 16 0)

/-- `node:crypto` as it was recorded. -/
def recorded : NodeCrypto where
  sha256 secret := if secret = utf8 recordedSecret then recordedKey else List.replicate 32 0
  cipher := recordedCipher
  decipher key iv tag enc :=
    let plain := (recordedCipher key iv enc).1
    if iv ≠ [] ∧ tag.length ∈ tagLengths ∧
        tag = (recordedCipher key iv plain).2.take tag.length then some plain
    else none
  text bytes := (String.fromUTF8? bytes.toByteArray).getD ""

theorem combine_combine (bytes stream : Bytes) :
    combine (combine bytes stream) stream = bytes := by
  induction bytes generalizing stream with
  | nil => rfl
  | cons b bytes ih =>
      cases stream with
      | nil => rfl
      | cons s stream =>
          rw [combine, combine, ih, UInt8.xor_assoc, UInt8.xor_self, UInt8.xor_zero]

theorem length_combine (bytes stream : Bytes) : (combine bytes stream).length = bytes.length := by
  induction bytes generalizing stream with
  | nil => rfl
  | cons b bytes ih =>
      cases stream with
      | nil => rfl
      | cons s stream => rw [combine, List.length_cons, List.length_cons, ih]

theorem recorded_lawful : recorded.Lawful where
  tag_length key iv plain := by
    show (if _ then recordedTag else List.replicate 16 0).length = 16
    split <;> rfl
  enc_length key iv plain := length_combine _ _
  decipher_iff key iv tag enc plain := by
    have hback : ∀ text, (recordedCipher key iv (recordedCipher key iv text).1).1 = text :=
      fun text => combine_combine _ _
    show (if _ then some (recordedCipher key iv enc).1 else none) = some plain ↔
      iv ≠ [] ∧ tag.length ∈ tagLengths ∧ enc = (recordedCipher key iv plain).1 ∧
        tag = (recordedCipher key iv plain).2.take tag.length
    constructor
    · intro h
      split at h
      · rename_i hopens
        obtain rfl := Option.some.inj h
        exact ⟨hopens.1, hopens.2.1, (hback enc).symm, hopens.2.2⟩
      · cases h
    · rintro ⟨hiv, hlength, rfl, htag⟩
      rw [hback, if_pos ⟨hiv, hlength, htag⟩]
  text_utf8 text := by
    have hbytes : (utf8 text).toByteArray = text.toByteArray := by
      refine ByteArray.ext ?_
      rw [List.data_toByteArray, utf8, Array.toArray_toList]
    show (String.fromUTF8? (utf8 text).toByteArray).getD "" = text
    rw [hbytes, String.fromUTF8?, dif_pos text.isValidUTF8]
    rfl

/-- The payload that `encrypt` has made is opened. -/
theorem decryptBytes_eq_some_recorded :
    decryptBytes recorded recordedSecret
      "BwcHBwcHBwcHBwcHpGZ0im8sIjoojdhAkiAlV0n5TXJ8lX3aCYJ7g0As" = some (utf8 recordedText) :=
  (decryptBytes_eq_some recorded_lawful).mpr
    ⟨recordedIv, rfl, Or.inl (by decide +kernel)⟩

end Handly.Crypto

/-! ### The PINFL of a master -/

namespace Handly.MasterProfiles

open Interleaving ReadCommitted Crypto

/-- The class with the `iv`s that `randomBytes` draws, as the edits of the profiles use it. -/
def fieldCrypto (node : NodeCrypto) (secret : String) (randomBytes : ℕ → Bytes) : FieldCrypto where
  encrypt plain iv := encrypt node secret (randomBytes iv) plain

/-- The PINFL of the row can be decrypted, and has been given for its master. -/
def Readable (node : NodeCrypto) (secret : String) (given : UserId → String → Prop)
    (row : Profile) : Prop :=
  ∀ payload, row.pinflEncrypted = some payload →
    ∃ plain, decrypt node secret payload = some plain ∧ given row.userId plain

/-- One of the calls gives the PINFL for the master. -/
def GivenIn (calls : List Call) (userId : UserId) (plain : String) : Prop :=
  ∃ k ∈ calls, k.userId = userId ∧ k.dto.givenPinfl = some plain

section Profiles

variable {node : NodeCrypto} {secret : String} {randomBytes : ℕ → Bytes}
  {given : UserId → String → Prop}

theorem Readable.mono {given' : UserId → String → Prop} {row : Profile}
    (h : Readable node secret given row) (hgiven : ∀ u plain, given u plain → given' u plain) :
    Readable node secret given' row := by
  intro payload hpayload
  obtain ⟨plain, hplain, hrow⟩ := h payload hpayload
  exact ⟨plain, hplain, hgiven _ _ hrow⟩

/-- What an edit gives as the column can be decrypted. -/
theorem decrypt_given (hnode : node.Lawful) (hrandom : ∀ n, (randomBytes n).length = 12)
    {dto : MasterProfileUpdate} {iv : ℕ} {payload : String}
    (h : (dto.givenPinfl.map fun p => (fieldCrypto node secret randomBytes).encrypt p iv) =
      some payload) :
    ∃ plain, decrypt node secret payload = some plain ∧ dto.givenPinfl = some plain := by
  obtain ⟨plain, hplain, rfl⟩ := Option.map_eq_some_iff.mp h
  exact ⟨plain, decrypt_encrypt hnode (hrandom iv) plain, hplain⟩

theorem readable_of_stmt (hnode : node.Lawful) (hrandom : ∀ n, (randomBytes n).length = 12)
    {me : ℕ} {x : Input} {k : Call} {db : Db} {o : Outcome Db Call}
    (h : Stmt (fieldCrypto node secret randomBytes) me x db k o)
    (hgiven : ∀ plain, k.dto.givenPinfl = some plain → given k.userId plain)
    (hdb : db.profiles.Every (Readable node secret given)) :
    o.store.profiles.Every (Readable node secret given) := by
  cases h with
  | fails => exact hdb.rollback
  | commits => exact hdb.commit
  | @upserts u dto profiles hprofiles =>
      refine hdb.upsert hprofiles ?_ ?_
      · intro payload hpayload
        obtain ⟨plain, hplain, hdto⟩ := decrypt_given hnode hrandom hpayload
        exact ⟨plain, hplain, hgiven plain hdto⟩
      · intro row huser hrow payload hpayload
        rcases Option.or_eq_some_iff.mp hpayload with hnew | ⟨-, hold⟩
        · obtain ⟨plain, hplain, hdto⟩ := decrypt_given hnode hrandom hnew
          have hmaster : row.userId = u := of_decide_eq_true huser
          exact ⟨plain, hplain, hmaster ▸ hgiven plain hdto⟩
        · exact hrow payload hold
  | _ => exact hdb

/-- **What is stored can be read.** In every committed state of a run the PINFL of a profile is
decrypted to one that an edit of this master has given, or that was there before. -/
theorem pinfl_readable (hnode : node.Lawful) (hrandom : ∀ n, (randomBytes n).length = 12)
    {db : Db} {before : UserId → String → Prop}
    (hbefore : db.profiles.Every (Readable node secret before)) {c' : Config Db Call}
    {ts : List (Transition Db Call Input)}
    (hrun : (profileEdits (fieldCrypto node secret randomBytes)).Run ⟨db, []⟩ ts c')
    {userId : UserId} {row : Profile} {payload : String}
    (hrow : c'.store.profileOf userId = some row) (hpayload : row.pinflEncrypted = some payload) :
    ∃ plain, decrypt node secret payload = some plain ∧
      (before userId plain ∨ GivenIn c'.calls userId plain) := by
  have hinv := (hrun.always (fun c => c.store.profiles.Every
    (Readable node secret fun u plain => before u plain ∨ GivenIn c.calls u plain)) ?_ ?_).1
  · obtain ⟨i, hcommitted, huser⟩ := Table.mem_rows.mp (List.mem_of_head? hrow)
    have hmaster : row.userId = userId := of_decide_eq_true huser
    exact hmaster ▸ hinv i row (Or.inl hcommitted) payload hpayload
  · exact hbefore.mono fun row hrow => hrow.mono fun u plain h => Or.inl h
  · intro t ht hpre
    rcases ht.cases with ⟨k, -, -, hpost⟩ | ⟨i, x, k, o, -, hk, ho, hpost⟩
    · rw [hpost]
      refine hpre.mono fun row hrow => hrow.mono fun u plain h => h.imp_right ?_
      rintro ⟨k', hk', hgiven⟩
      exact ⟨k', List.mem_append_left _ hk', hgiven⟩
    · have hstmt := step_cases ho
      have hself : o.call.userId = k.userId ∧ o.call.dto = k.dto := by
        cases hstmt <;> exact ⟨rfl, rfl⟩
      have hcalls : ∀ u plain, GivenIn t.pre.calls u plain → GivenIn t.post.calls u plain := by
        rintro u plain ⟨k', hk', hgiven⟩
        obtain ⟨j, hj⟩ := List.mem_iff_getElem?.mp hk'
        rcases ht.calls_getElem? hj with hsame | ⟨y, o', he', ho', -, hafter⟩
        · exact ⟨k', List.mem_of_getElem? hsame, hgiven⟩
        · have hkept : o'.call.userId = k'.userId ∧ o'.call.dto = k'.dto := by
            cases step_cases ho' <;> exact ⟨rfl, rfl⟩
          refine ⟨o'.call, List.mem_of_getElem? hafter, ?_⟩
          rw [hkept.1, hkept.2]
          exact hgiven
      have hstore : t.post.store = o.store := by rw [hpost]
      rw [hstore]
      refine readable_of_stmt hnode hrandom hstmt (fun plain hplain => Or.inr ?_)
        (hpre.mono fun row hrow => hrow.mono fun u plain h => h.imp_right (hcalls u plain))
      refine ⟨o.call, List.mem_of_getElem? (Machine.getElem?_of_post hk hpost), hself.1, ?_⟩
      rw [hself.2]
      exact hplain

end Profiles

/-- The profiles of nobody yet. -/
def emptyProfiles : Db where
  categories := []
  profiles := Table.ofList []
  skills := Table.ofList []
  serviceAreas := Table.ofList []

/-- An edit that gives a PINFL. -/
def withPinfl : MasterProfileUpdate :=
  { fullName := "Usta", experienceYears := 3, pinfl := some recordedText }

/-- The edit, from its start to its end. -/
def givesPinfl : List (Event Call Input) :=
  .start ⟨0, withPinfl, .start⟩ :: List.replicate 9 (.run 0 {})

theorem every_emptyProfiles (P : Profile → Prop) : emptyProfiles.profiles.Every P := by
  rintro i row (hcommitted | ⟨tx, hheld⟩)
  · cases hcommitted
  · cases hheld

/-- The PINFL of the edit is stored, and can be decrypted. -/
theorem pinfl_readable_givesPinfl :
    ∃ row payload plain,
      ((profileEdits (fieldCrypto recorded recordedSecret fun _ => recordedIv)).after
          ⟨emptyProfiles, []⟩ givesPinfl).store.profileOf 0 = some row ∧
        row.pinflEncrypted = some payload ∧
        decrypt recorded recordedSecret payload = some plain ∧
        (False ∨ GivenIn ((profileEdits (fieldCrypto recorded recordedSecret
          fun _ => recordedIv)).after ⟨emptyProfiles, []⟩ givesPinfl).calls 0 plain) := by
  have hstored : ∃ payload, (((profileEdits (fieldCrypto recorded recordedSecret
      fun _ => recordedIv)).after ⟨emptyProfiles, []⟩ givesPinfl).store.profileOf 0).bind
        Profile.pinflEncrypted = some payload :=
    ⟨"BwcHBwcHBwcHBwcHpGZ0im8sIjoojdhAkiAlV0n5TXJ8lX3aCYJ7g0As", by decide +kernel⟩
  obtain ⟨payload, hpayload⟩ := hstored
  obtain ⟨row, hrow, hcolumn⟩ := Option.bind_eq_some_iff.mp hpayload
  obtain ⟨plain, hplain, hgiven⟩ := pinfl_readable recorded_lawful (fun _ => rfl)
    (every_emptyProfiles (Readable recorded recordedSecret fun _ _ => False))
    ((profileEdits _).run_trace _ givesPinfl) hrow hcolumn
  exact ⟨row, payload, plain, hrow, hcolumn, hplain, hgiven⟩

end Handly.MasterProfiles
