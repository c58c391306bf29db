import Mathlib.Algebra.Group.Nat.Defs
import Mathlib.Data.List.TakeDrop
import PlaceGame.Errors
import PlaceGame.Json
import PlaceGame.Text.Ascii

/-!
# PlaceGame.Security.Secrets

The encrypted columns of an account: the sealed box, the associated data that ties a secret to its
row and column, and the bytes that the column stores. AES-GCM is a parameter.
-/

namespace PlaceGame

abbrev Bytes : Type := List UInt8

/-- `value.encode()`. -/
def encodeUtf8 (value : String) : Bytes := value.toByteArray.data.toList

/-- `value.decode()`; `none` is `UnicodeDecodeError`. -/
def decodeUtf8 (bytes : Bytes) : Option String := String.fromUTF8? ⟨bytes.toArray⟩

/-! ## The box -/

/-- `AESGCM` of a key; `none` is `InvalidTag`. -/
structure Aesgcm where
  encrypt : (key nonce plaintext aad : Bytes) → Bytes
  decrypt : (key nonce ciphertext aad : Bytes) → Option Bytes

/-- What `os.urandom(12)` draws. -/
abbrev Nonce : Type := { nonce : Bytes // nonce.length = 12 }

structure EncryptedSecret where
  nonce : Bytes
  ciphertext : Bytes
  deriving DecidableEq, Repr

structure SecretBox where
  key : { key : Bytes // key.length = 32 }

def invalidSecret : Exc := .other "InvalidSecret"

namespace SecretBox

variable (A : Aesgcm) (box : SecretBox)

def encrypt (nonce : Nonce) (value aad : String) : EncryptedSecret where
  nonce := nonce.val
  ciphertext := A.encrypt box.key.val nonce.val (encodeUtf8 value) (encodeUtf8 aad)

def decrypt (blob : EncryptedSecret) (aad : String) : Except Exc String :=
  match A.decrypt box.key.val blob.nonce blob.ciphertext (encodeUtf8 aad) with
  | none => .error invalidSecret
  | some bytes =>
    match decodeUtf8 bytes with
    | none => .error invalidSecret
    | some value => .ok value

theorem decrypt_of_none {blob : EncryptedSecret} {aad : String}
    (h : A.decrypt box.key.val blob.nonce blob.ciphertext (encodeUtf8 aad) = none) :
    box.decrypt A blob aad = .error invalidSecret := by
  simp only [decrypt, h]

end SecretBox

/-! ## The stored bytes -/

def secretFormatVersion : UInt8 := 1
def nonceBytes : Nat := 12
def gcmTagBytes : Nat := 16

def encodeEncryptedSecret (secret : EncryptedSecret) : Bytes :=
  [secretFormatVersion] ++ secret.nonce ++ secret.ciphertext

def decodeEncryptedSecret (value : Bytes) : Except Exc EncryptedSecret :=
  if value.length < 1 + nonceBytes + gcmTagBytes ∨ value.head? ≠ some secretFormatVersion then
    .error (.valueError "unsupported encrypted secret format")
  else
    .ok
      { nonce := (value.take (1 + nonceBytes)).drop 1
        ciphertext := value.drop (1 + nonceBytes) }

namespace EncryptedSecretFrame

def processBindParam (value : Option EncryptedSecret) : Option Bytes :=
  value.map encodeEncryptedSecret

def processResultValue : Option Bytes → Except Exc (Option EncryptedSecret)
  | none => .ok none
  | some value => (decodeEncryptedSecret value).map some

end EncryptedSecretFrame

/-! ## The columns -/

abbrev Uuid : Type := BitVec 128

/-- The last `width` hexadecimal digits. -/
def hexText : Nat → Nat → List Char
  | 0, _ => []
  | width + 1, n => hexText width (n / 16) ++ [Json.hexDigit n]

/-- `str(id)`. -/
def uuidText (id : Uuid) : String :=
  let hex := hexText 32 id.toNat
  String.ofList
    (hex.take 8 ++ '-' :: ((hex.drop 8).take 4 ++ '-' :: ((hex.drop 12).take 4 ++
      '-' :: ((hex.drop 16).take 4 ++ '-' :: hex.drop 20))))

def encryptedAad (table recordId column : String) : String :=
  table ++ "/" ++ recordId ++ "/" ++ column

/-- The identifier of an account and its encrypted columns. -/
structure AccountSecrets where
  id : Uuid
  gameUsername : Option EncryptedSecret := none
  password : Option EncryptedSecret := none
  sessionToken : Option EncryptedSecret := none

namespace AccountSecrets

variable (A : Aesgcm) (account : AccountSecrets)

def secretAad (column : String) : String := encryptedAad "game_accounts" (uuidText account.id) column

def sealSecret (value : Option String) (box : SecretBox) (nonce : Nonce) (column : String) :
    Option EncryptedSecret :=
  value.map fun value => box.encrypt A nonce value (account.secretAad column)

def openSecret (value : Option EncryptedSecret) (box : SecretBox) (column : String) :
    Except Exc (Option String) :=
  match value with
  | none => .ok none
  | some value => (box.decrypt A value (account.secretAad column)).map some

def setGameUsername (value : Option String) (box : SecretBox) (nonce : Nonce) : AccountSecrets :=
  { account with gameUsername := account.sealSecret A value box nonce "game_username" }

def getGameUsername (box : SecretBox) : Except Exc (Option String) :=
  account.openSecret A account.gameUsername box "game_username"

def setPassword (value : Option String) (box : SecretBox) (nonce : Nonce) : AccountSecrets :=
  { account with password := account.sealSecret A value box nonce "password" }

def getPassword (box : SecretBox) : Except Exc (Option String) :=
  account.openSecret A account.password box "password"

def setSessionToken (value : Option String) (box : SecretBox) (nonce : Nonce) : AccountSecrets :=
  { account with sessionToken := account.sealSecret A value box nonce "session_token" }

def getSessionToken (box : SecretBox) : Except Exc (Option String) :=
  account.openSecret A account.sessionToken box "session_token"

end AccountSecrets

/-- The columns of `EncryptedSecretFrame`. -/
inductive SecretColumn where
  | gameUsername
  | password
  | sessionToken
  deriving DecidableEq, Repr

namespace SecretColumn

def text : SecretColumn → String
  | .gameUsername => "game_username"
  | .password => "password"
  | .sessionToken => "session_token"

def set (A : Aesgcm) : SecretColumn → AccountSecrets → Option String → SecretBox → Nonce →
    AccountSecrets
  | .gameUsername => AccountSecrets.setGameUsername A
  | .password => AccountSecrets.setPassword A
  | .sessionToken => AccountSecrets.setSessionToken A

def get (A : Aesgcm) : SecretColumn → AccountSecrets → SecretBox → Except Exc (Option String)
  | .gameUsername => AccountSecrets.getGameUsername A
  | .password => AccountSecrets.getPassword A
  | .sessionToken => AccountSecrets.getSessionToken A

def frame : SecretColumn → AccountSecrets → Option EncryptedSecret
  | .gameUsername => AccountSecrets.gameUsername
  | .password => AccountSecrets.password
  | .sessionToken => AccountSecrets.sessionToken

def place : SecretColumn → AccountSecrets → Option EncryptedSecret → AccountSecrets
  | .gameUsername, account, value => { account with gameUsername := value }
  | .password, account, value => { account with password := value }
  | .sessionToken, account, value => { account with sessionToken := value }

theorem text_injective : Function.Injective text := by
  intro a b h
  cases a <;> cases b <;> first | rfl | exact absurd h (by decide)

/-- The accessors of the three columns differ in the column only. -/
theorem frame_set (A : Aesgcm) (column : SecretColumn) (account : AccountSecrets)
    (value : Option String) (box : SecretBox) (nonce : Nonce) :
    column.frame (column.set A account value box nonce) =
      account.sealSecret A value box nonce column.text := by
  cases column <;> rfl

theorem get_place (A : Aesgcm) (column : SecretColumn) (account : AccountSecrets)
    (value : Option EncryptedSecret) (box : SecretBox) :
    column.get A (column.place account value) box = account.openSecret A value box column.text := by
  cases column <;> rfl

end SecretColumn

/-! ## Text -/

theorem decodeUtf8_encodeUtf8 (value : String) : decodeUtf8 (encodeUtf8 value) = some value := by
  unfold decodeUtf8 encodeUtf8 String.fromUTF8?
  rw [Array.toArray_toList]
  exact dif_pos value.isValidUTF8

theorem encodeUtf8_injective : Function.Injective encodeUtf8 := by
  intro a b h
  have hdecode := congrArg decodeUtf8 h
  rwa [decodeUtf8_encodeUtf8, decodeUtf8_encodeUtf8, Option.some.injEq] at hdecode

theorem hexDigit_ne (n : Nat) : Json.hexDigit n ≠ '-' ∧ Json.hexDigit n ≠ '/' := by
  have hdigit : ∀ k < 16, Nat.digitChar k ≠ '-' ∧ Nat.digitChar k ≠ '/' := by decide
  exact hdigit _ (Nat.mod_lt _ (by decide))

theorem mem_hexText {c : Char} {width n : Nat} (h : c ∈ hexText width n) :
    ∃ k, c = Json.hexDigit k := by
  induction width generalizing n with
  | zero => cases h
  | succ width ih =>
    cases List.mem_append.mp h with
    | inl h => exact ih h
    | inr h => exact ⟨n, List.mem_singleton.mp h⟩

theorem hexText_inj {width n m : Nat} (hn : n < 16 ^ width) (hm : m < 16 ^ width)
    (h : hexText width n = hexText width m) : n = m := by
  have hdigit : ∀ j < 16, ∀ k < 16, Nat.digitChar j = Nat.digitChar k → j = k := by decide
  induction width generalizing n m with
  | zero => omega
  | succ width ih =>
    obtain ⟨hhigh, hlow⟩ := List.append_inj' h rfl
    have hhigh := ih (by rw [Nat.pow_succ] at hn; omega) (by rw [Nat.pow_succ] at hm; omega) hhigh
    have hlow := hdigit _ (Nat.mod_lt n (by decide)) _ (Nat.mod_lt m (by decide))
      (List.cons.inj hlow).1
    omega

/-- The groups of a text, joined again. -/
theorem take_drop_groups (hex : List Char) :
    hex.take 8 ++ ((hex.drop 8).take 4 ++ ((hex.drop 12).take 4 ++
      ((hex.drop 16).take 4 ++ hex.drop 20))) = hex := by
  have hgroup : ∀ m n, (hex.drop m).take n ++ hex.drop (m + n) = hex.drop m := by
    intro m n
    rw [← List.drop_drop, List.take_append_drop]
  rw [hgroup 16 4, hgroup 12 4, hgroup 8 4, List.take_append_drop]

theorem filter_uuidText (id : Uuid) :
    (uuidText id).toList.filter (· ≠ '-') = hexText 32 id.toNat := by
  have hdigits : ∀ part : List Char, part ⊆ hexText 32 id.toNat →
      part.filter (· ≠ '-') = part := by
    intro part hpart
    refine List.filter_eq_self.mpr fun c hc => ?_
    obtain ⟨k, rfl⟩ := mem_hexText (hpart hc)
    exact decide_eq_true (hexDigit_ne k).1
  have htake : ∀ m n, ((hexText 32 id.toNat).drop m).take n ⊆ hexText 32 id.toNat := fun m n =>
    List.Subset.trans (List.take_subset _ _) (List.drop_subset _ _)
  have hskip : ∀ rest : List Char,
      ('-' :: rest).filter (· ≠ '-') = rest.filter (· ≠ '-') := fun rest => rfl
  rw [uuidText, String.toList_ofList]
  simp only [List.filter_append, hskip, hdigits _ (htake _ _), hdigits _ (List.take_subset _ _),
    hdigits _ (List.drop_subset _ _), take_drop_groups]

theorem uuidText_injective : Function.Injective uuidText := by
  intro a b h
  have hhex := congrArg (fun s => s.toList.filter (· ≠ '-')) h
  simp only [filter_uuidText] at hhex
  exact BitVec.eq_of_toNat_eq (hexText_inj a.isLt b.isLt hhex)

theorem slash_uuidText (id : Uuid) : '/' ∉ (uuidText id).toList := by
  intro h
  have hmem : '/' ∈ (uuidText id).toList.filter (· ≠ '-') :=
    List.mem_filter.mpr ⟨h, by decide⟩
  rw [filter_uuidText] at hmem
  obtain ⟨k, hk⟩ := mem_hexText hmem
  exact (hexDigit_ne k).2 hk.symm

theorem append_slash_inj {a b c d : String} (ha : '/' ∉ a.toList) (hb : '/' ∉ b.toList)
    (h : a ++ "/" ++ c = b ++ "/" ++ d) : a = b ∧ c = d := by
  have hsplit : ∀ x y : String, (x ++ "/" ++ y).toList = x.toList ++ '/' :: y.toList := by
    intro x y
    simp
  have hleft := Text.splitOnce_eq_pair.mpr ⟨ha, hsplit a c⟩
  have hright := Text.splitOnce_eq_pair.mpr ⟨hb, hsplit b d⟩
  rw [h, hright] at hleft
  obtain ⟨hbefore, hafter⟩ := List.cons.inj hleft
  exact ⟨(String.toList_injective hbefore).symm,
    (String.toList_injective (List.cons.inj hafter).1).symm⟩

/-- Three parts without slashes come back from the text. -/
theorem encryptedAad_inj {table table' recordId recordId' column column' : String}
    (htable : '/' ∉ table.toList) (htable' : '/' ∉ table'.toList) (hid : '/' ∉ recordId.toList)
    (hid' : '/' ∉ recordId'.toList)
    (h : encryptedAad table recordId column = encryptedAad table' recordId' column') :
    table = table' ∧ recordId = recordId' ∧ column = column' := by
  have hparts : ∀ a b c : String, encryptedAad a b c = a ++ "/" ++ (b ++ "/" ++ c) := by
    intro a b c
    simp only [encryptedAad, String.append_assoc]
  rw [hparts, hparts] at h
  obtain ⟨htable, hrest⟩ := append_slash_inj htable htable' h
  exact ⟨htable, append_slash_inj hid hid' hrest⟩

theorem secretAad_inj {account other : AccountSecrets} {column column' : SecretColumn}
    (h : account.secretAad column.text = other.secretAad column'.text) :
    account.id = other.id ∧ column = column' := by
  have htable : '/' ∉ "game_accounts".toList := by decide
  obtain ⟨-, hid, hcolumn⟩ :=
    encryptedAad_inj htable htable (slash_uuidText account.id) (slash_uuidText other.id) h
  exact ⟨uuidText_injective hid, SecretColumn.text_injective hcolumn⟩

/-! ## The codec -/

/-- What starts with the version and holds a nonce and a tag is decoded. -/
theorem decodeEncryptedSecret_ok_iff (value : Bytes) :
    (∃ secret, decodeEncryptedSecret value = .ok secret) ↔
      value.head? = some secretFormatVersion ∧ 1 + nonceBytes + gcmTagBytes ≤ value.length := by
  unfold decodeEncryptedSecret
  split
  · rename_i hbad
    refine iff_of_false (fun ⟨_, h⟩ => by cases h) fun ⟨hhead, hlength⟩ => ?_
    exact hbad.elim (fun hshort => absurd hlength (not_le.mpr hshort)) fun hne => hne hhead
  · rename_i hgood
    rw [not_or, not_lt, not_not] at hgood
    exact iff_of_true ⟨_, rfl⟩ hgood.symm

theorem encode_decodeEncryptedSecret {value : Bytes} {secret : EncryptedSecret}
    (h : decodeEncryptedSecret value = .ok secret) : encodeEncryptedSecret secret = value := by
  have hhead := ((decodeEncryptedSecret_ok_iff value).mp ⟨secret, h⟩).1
  unfold decodeEncryptedSecret at h
  split at h
  · cases h
  · cases h
    cases value with
    | nil => cases hhead
    | cons version rest =>
      cases hhead
      exact congrArg (List.cons secretFormatVersion) (List.take_append_drop nonceBytes rest)

/-- A frame with a nonce and a tag is decoded to itself. -/
theorem decode_encodeEncryptedSecret {secret : EncryptedSecret}
    (hnonce : secret.nonce.length = nonceBytes) (htag : gcmTagBytes ≤ secret.ciphertext.length) :
    decodeEncryptedSecret (encodeEncryptedSecret secret) = .ok secret := by
  have hlength : 1 + nonceBytes + gcmTagBytes ≤ (encodeEncryptedSecret secret).length := by
    simp only [encodeEncryptedSecret, List.length_append, List.length_singleton]
    omega
  obtain ⟨decoded, hdecode⟩ :=
    (decodeEncryptedSecret_ok_iff (encodeEncryptedSecret secret)).mpr ⟨rfl, hlength⟩
  have hsame := encode_decodeEncryptedSecret hdecode
  have hnonce' : decoded.nonce.length = nonceBytes := by
    unfold decodeEncryptedSecret at hdecode
    split at hdecode
    · cases hdecode
    · cases hdecode
      simp only [List.length_drop, List.length_take]
      omega
  obtain ⟨hversion, hcipher⟩ := List.append_inj hsame (by simp [hnonce, hnonce'])
  rw [hdecode]
  cases decoded
  cases secret
  simp only [List.cons_append, List.nil_append, List.cons.injEq, true_and] at hversion
  cases hversion
  cases hcipher
  rfl

/-! ## An ideal cipher -/

/-- One call of `encrypt`. -/
structure Sealing where
  key : Bytes
  nonce : Bytes
  plaintext : Bytes
  aad : Bytes
  deriving DecidableEq

def Sealing.ciphertext (A : Aesgcm) (call : Sealing) : Bytes :=
  A.encrypt call.key call.nonce call.plaintext call.aad

/-- An authenticated cipher that opens what was sealed under its key and associated data only. The
binding is about the sealings made: no function is injective in all associated data. -/
structure Aesgcm.Ideal (A : Aesgcm) (Sealed : Set Sealing) : Prop where
  opens : ∀ key nonce plaintext aad,
    A.decrypt key nonce (A.encrypt key nonce plaintext aad) aad = some plaintext
  length : ∀ key nonce plaintext aad,
    (A.encrypt key nonce plaintext aad).length = plaintext.length + gcmTagBytes
  binds : ∀ call ∈ Sealed, ∀ key aad, ∀ plaintext,
    A.decrypt key call.nonce (call.ciphertext A) aad = some plaintext →
      key = call.key ∧ aad = call.aad

namespace SecretColumn

variable (A : Aesgcm)

/-- The bytes of the column after its setter ran. -/
def store (column : SecretColumn) (account : AccountSecrets) (value : Option String)
    (box : SecretBox) (nonce : Nonce) : Option Bytes :=
  EncryptedSecretFrame.processBindParam (column.frame (column.set A account value box nonce))

/-- What the getter returns when the column holds these bytes. -/
def load (column : SecretColumn) (account : AccountSecrets) (stored : Option Bytes)
    (box : SecretBox) : Except Exc (Option String) := do
  let value ← EncryptedSecretFrame.processResultValue stored
  column.get A (column.place account value) box

def sealing (column : SecretColumn) (account : AccountSecrets) (value : String) (box : SecretBox)
    (nonce : Nonce) : Sealing where
  key := box.key.val
  nonce := nonce.val
  plaintext := encodeUtf8 value
  aad := encodeUtf8 (account.secretAad column.text)

variable {A} {Sealed : Set Sealing} (hA : A.Ideal Sealed)

include hA

theorem load_store_some (column column' : SecretColumn) (account other : AccountSecrets)
    (value : String) (box box' : SecretBox) (nonce : Nonce) :
    column'.load A other (column.store A account (some value) box nonce) box' =
      other.openSecret A (some (box.encrypt A nonce value (account.secretAad column.text))) box'
        column'.text := by
  have htag : gcmTagBytes ≤
      (box.encrypt A nonce value (account.secretAad column.text)).ciphertext.length := by
    rw [SecretBox.encrypt, hA.length]
    omega
  have hdecode : decodeEncryptedSecret (encodeEncryptedSecret
      (box.encrypt A nonce value (account.secretAad column.text))) = .ok _ :=
    decode_encodeEncryptedSecret nonce.property htag
  rw [load, store, frame_set, AccountSecrets.sealSecret]
  simp only [Option.map_some, EncryptedSecretFrame.processBindParam,
    EncryptedSecretFrame.processResultValue, hdecode]
  exact get_place A column' other _ box'

theorem load_store (column : SecretColumn) {account other : AccountSecrets}
    (hid : other.id = account.id) (value : Option String) (box : SecretBox) (nonce : Nonce) :
    column.load A other (column.store A account value box nonce) box = .ok value := by
  cases value with
  | none =>
    rw [load, store, frame_set]
    exact get_place A column other none box
  | some value =>
    have haad : other.secretAad column.text = account.secretAad column.text := by
      rw [AccountSecrets.secretAad, hid, AccountSecrets.secretAad]
    rw [load_store_some hA]
    simp only [AccountSecrets.openSecret, haad, SecretBox.decrypt, SecretBox.encrypt, hA.opens,
      decodeUtf8_encodeUtf8]
    rfl

theorem load_store_elsewhere {column column' : SecretColumn} {account other : AccountSecrets}
    {value : String} {box box' : SecretBox} {nonce : Nonce}
    (hsealed : column.sealing account value box nonce ∈ Sealed)
    (hne : ¬ (other.id = account.id ∧ column' = column ∧ box'.key = box.key)) :
    column'.load A other (column.store A account (some value) box nonce) box' =
      .error invalidSecret := by
  have hrefuse : A.decrypt box'.key.val nonce.val
      ((column.sealing account value box nonce).ciphertext A)
      (encodeUtf8 (other.secretAad column'.text)) = none := by
    rw [Option.eq_none_iff_forall_ne_some]
    intro plaintext hopen
    obtain ⟨hkey, haad⟩ := hA.binds _ hsealed _ _ _ hopen
    obtain ⟨hid, hcolumn⟩ := secretAad_inj (encodeUtf8_injective haad)
    exact hne ⟨hid, hcolumn, Subtype.ext hkey⟩
  rw [load_store_some hA, AccountSecrets.openSecret, SecretBox.decrypt_of_none A box' hrefuse]
  rfl

end SecretColumn

/-! ## Where secrets open -/

/-- A stored secret opens with its account, column and key, the codec accepts the frames and keeps
their bytes, and a secret that was sealed opens nowhere else. -/
theorem secrets_open_where_sealed (A : Aesgcm) (Sealed : Set Sealing) (hA : A.Ideal Sealed) :
    (∀ (column : SecretColumn) (account other : AccountSecrets) (value : Option String)
        (box : SecretBox) (nonce : Nonce), other.id = account.id →
      column.load A other (column.store A account value box nonce) box = .ok value) ∧
    (∀ value : Bytes, (∃ secret, decodeEncryptedSecret value = .ok secret) ↔
      value.head? = some secretFormatVersion ∧ 1 + nonceBytes + gcmTagBytes ≤ value.length) ∧
    (∀ (value : Bytes) (secret : EncryptedSecret), decodeEncryptedSecret value = .ok secret →
      encodeEncryptedSecret secret = value) ∧
    ∀ (column column' : SecretColumn) (account other : AccountSecrets) (value : String)
        (box box' : SecretBox) (nonce : Nonce),
      column.sealing account value box nonce ∈ Sealed →
      ¬ (other.id = account.id ∧ column' = column ∧ box'.key = box.key) →
      column'.load A other (column.store A account (some value) box nonce) box' =
        .error invalidSecret :=
  ⟨fun column _ _ value box nonce hid => column.load_store hA hid value box nonce,
    decodeEncryptedSecret_ok_iff, fun _ _ h => encode_decodeEncryptedSecret h,
    fun _ _ _ _ _ _ _ _ hsealed hne => SecretColumn.load_store_elsewhere hA hsealed hne⟩

/-- A password sealed under the key `00 01 … 1f`, with the nonce `00 01 … 0b`. -/
def passwordCall : Sealing where
  key := (List.range 32).map UInt8.ofNat
  nonce := (List.range 12).map UInt8.ofNat
  plaintext := encodeUtf8 "pw"
  aad := encodeUtf8 "game_accounts/00000000-0000-0000-0000-000000000001/password"

def passwordCiphertext : Bytes :=
  [55, 117, 12, 94, 1, 153, 115, 95, 0, 226, 185, 86, 156, 163, 242, 23, 64, 213]

def plainTag : Bytes := List.replicate gcmTagBytes 1

/-- AES-GCM on that call, and no secrecy on any other. -/
def passwordAesgcm : Aesgcm where
  encrypt key nonce plaintext aad :=
    if ⟨key, nonce, plaintext, aad⟩ = passwordCall then passwordCiphertext
    else plaintext ++ plainTag
  decrypt key nonce ciphertext aad :=
    if ciphertext = passwordCiphertext ∧ ⟨key, nonce, passwordCall.plaintext, aad⟩ = passwordCall then
      some passwordCall.plaintext
    else if ciphertext.drop (ciphertext.length - gcmTagBytes) = plainTag then
      some (ciphertext.take (ciphertext.length - gcmTagBytes))
    else none

theorem passwordAesgcm_ideal : passwordAesgcm.Ideal {passwordCall} where
  opens key nonce plaintext aad := by
    by_cases hcall : (⟨key, nonce, plaintext, aad⟩ : Sealing) = passwordCall
    · cases hcall
      rfl
    · have hother : ¬ (plaintext ++ plainTag = passwordCiphertext ∧
          ⟨key, nonce, passwordCall.plaintext, aad⟩ = passwordCall) := fun ⟨hsame, _⟩ => by
        have htag : 1 ∈ passwordCiphertext.getLast? := by
          rw [← hsame]
          exact List.mem_getLast?_append_of_mem_getLast? rfl
        exact absurd htag (by decide)
      have hlength : (plaintext ++ plainTag).length - gcmTagBytes = plaintext.length := by
        rw [List.length_append]
        exact Nat.add_sub_cancel _ _
      simp only [passwordAesgcm, if_neg hcall, if_neg hother, hlength, List.drop_left,
        List.take_left, if_true]
  length key nonce plaintext aad := by
    by_cases hcall : (⟨key, nonce, plaintext, aad⟩ : Sealing) = passwordCall
    · cases hcall
      rfl
    · simp only [passwordAesgcm, if_neg hcall, List.length_append]
      rfl
  binds call hcall key aad plaintext hopen := by
    cases hcall
    have hcipher : passwordCall.ciphertext passwordAesgcm = passwordCiphertext := by decide
    have htag : ¬ passwordCiphertext.drop (passwordCiphertext.length - gcmTagBytes) = plainTag := by
      decide
    rw [hcipher] at hopen
    simp only [passwordAesgcm, if_neg htag, true_and] at hopen
    split at hopen
    · rename_i hsame
      exact ⟨congrArg Sealing.key hsame, congrArg Sealing.aad hsame⟩
    · cases hopen

/-- The stored password opens in its row and column; the column of the user name and the row of
another account refuse it. -/
theorem secrets_open_where_sealed_password :
    let account : AccountSecrets := { id := 1 }
    let box : SecretBox := ⟨(List.range 32).map UInt8.ofNat, rfl⟩
    let nonce : Nonce := ⟨(List.range 12).map UInt8.ofNat, rfl⟩
    let stored := SecretColumn.password.store passwordAesgcm account (some "pw") box nonce
    stored = some ([1] ++ nonce.val ++ passwordCiphertext) ∧
      SecretColumn.password.load passwordAesgcm account stored box = .ok (some "pw") ∧
      SecretColumn.gameUsername.load passwordAesgcm account stored box = .error invalidSecret ∧
      SecretColumn.password.load passwordAesgcm { id := 2 } stored box = .error invalidSecret := by
  intro account box nonce stored
  obtain ⟨hopen, -, -, hrefuse⟩ :=
    secrets_open_where_sealed passwordAesgcm {passwordCall} passwordAesgcm_ideal
  have hsealed : SecretColumn.password.sealing account "pw" box nonce = passwordCall := by
    decide
  refine ⟨by decide, hopen .password account account (some "pw") box nonce rfl, ?_, ?_⟩
  · exact hrefuse .password .gameUsername account account "pw" box box nonce hsealed (by simp)
  · exact hrefuse .password .password account { id := 2 } "pw" box box nonce hsealed
      fun ⟨hid, _⟩ => absurd hid (by decide)

end PlaceGame
