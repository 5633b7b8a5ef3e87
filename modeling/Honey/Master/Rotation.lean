import Honey.Schemes.Text
import Honey.Master.Db

/-! Secrets at rest: the stored form of a secret, and the two maintenance commands that rewrite every
    stored secret, one under the key in use and one from an old key to a new one.

      secret -- encrypt --> "enc:v1:" ++ base64 (nonce ++ ciphertext)          text without the marker
        ^                                   |                                  is a secret from before
        +------------- decrypt -------------+                                  there was a key

      users > subscriptions > WireGuard keys > services > REALITY keys > chain passwords > TOTP secrets

    The commands are loops over the tables, without a transaction: one `SELECT` for a loop, one `UPDATE` for a row, and
    the first failure ends the command with the rows before it rewritten. A rotation that stopped can go on only if no
    value it has rewritten is met again, since a value is always opened with the old key. -/

namespace Honey.Master

open Honey.Schemes List Except

/-! ### The stored form -/

/-- A key of the cipher. -/
abbrev SecretKey := { bytes : List UInt8 // bytes.length = 32 }

/-- The random part of a stored secret (`NONCE_LEN`). -/
abbrev Nonce := { bytes : List UInt8 // bytes.length = 24 }

/-- Base64 and the cipher (XChaCha20-Poly1305), as the crates give them. -/
structure Crypto where
  encode : List UInt8 → String
  decode : String → Option (List UInt8)
  encrypt : SecretKey → List UInt8 → List UInt8 → List UInt8
  decrypt : SecretKey → List UInt8 → List UInt8 → Option (List UInt8)
  decode_encode : ∀ b, decode (encode b) = some b
  encrypt_ne_nil : ∀ k n m, encrypt k n m ≠ []
  decrypt_encrypt : ∀ k n m, decrypt k n (encrypt k n m) = some m
  /-- A ciphertext opens under its own key only. -/
  authentic : ∀ k k' n m, k ≠ k' → decrypt k' n (encrypt k n m) = none

/-- `PREFIX` -/
def secretMarker : String := "enc:v1:"

/-- `strip_prefix(PREFIX)` -/
def stripMarker (stored : String) : Option String :=
  if secretMarker.toList.isPrefixOf stored.toList then
    some (String.ofList (stored.toList.drop secretMarker.length))
  else none

theorem stripMarker_append (s : String) : stripMarker (secretMarker ++ s) = some s := by
  rw [stripMarker, if_pos]
  · rw [String.toList_append, ← String.length_toList, drop_left, String.ofList_toList]
  · simp

namespace Crypto

variable (c : Crypto)

/-- `cipher_from_b64` -/
def cipherFromB64 (text : String) : Except String SecretKey :=
  match c.decode (trim text) with
  | none => .error "key must be base64"
  | some bytes =>
    if h : bytes.length = 32 then .ok ⟨bytes, h⟩
    else .error ("key must decode to 32 bytes, got " ++ toString bytes.length)

/-- The plaintext in a blob, with the error of a key that does not open it. -/
def openBlob (key : SecretKey) (wrongKey : String) (b64 : String) : Except String String :=
  match c.decode b64 with
  | none => .error "bad ciphertext base64"
  | some blob =>
    if blob.length ≤ 24 then .error "ciphertext too short"
    else match c.decrypt key (blob.take 24) (blob.drop 24) with
      | none => .error wrongKey
      | some plaintext => match fromUtf8 plaintext with
        | none => .error "decrypted value is not utf-8"
        | some text => .ok text

/-- The stored form of a secret. -/
def sealBlob (key : SecretKey) (nonce : Nonce) (plaintext : String) : String :=
  secretMarker ++ c.encode (nonce.1 ++ c.encrypt key nonce.1 (utf8 plaintext))

/-- `secret::encrypt`, with what the random source and the cipher give. -/
def encryptSecret (cipher : Option SecretKey) (draw : Except String Nonce) (plaintext : String) :
    Except String String :=
  match cipher with
  | none => .ok plaintext
  | some key => do
      let nonce ← draw
      return c.sealBlob key nonce plaintext

/-- `secret::decrypt` -/
def decryptSecret (cipher : Option SecretKey) (stored : String) : Except String String :=
  match stripMarker stored with
  | none => .ok stored
  | some b64 => match cipher with
    | none => .error "encrypted value found but HONEY_SECRET_KEY is not set"
    | some key => c.openBlob key "decrypt failed (wrong key?)" b64

/-- `secret::encrypt(&secret::decrypt(stored)?)` -/
def reencryptValue (cipher : Option SecretKey) (draw : Except String Nonce) (stored : String) :
    Except String String := do
  let plaintext ← c.decryptSecret cipher stored
  c.encryptSecret cipher draw plaintext

/-- What `rekey_value` seals again: the old key is read only for a value with the marker. -/
def oldPlaintext (old : String) (stored : String) : Except String String :=
  match stripMarker stored with
  | some b64 => do
      let key ← c.cipherFromB64 old
      c.openBlob key "decrypt failed (wrong old key?)" b64
  | none => .ok stored

/-- `rekey_value` -/
def rekeyValue (old new : String) (draw : Except String Nonce) (stored : String) : Except String String := do
  let plaintext ← c.oldPlaintext old stored
  let key ← c.cipherFromB64 new
  let nonce ← draw
  return c.sealBlob key nonce plaintext

/-- The stored value opens under the key, or is a secret from before there was one. -/
def Opens (key : SecretKey) (stored plaintext : String) : Prop :=
  c.decryptSecret (some key) stored = .ok plaintext

variable {c} {k k' : SecretKey} {v : String}

theorem openBlob_encode (wrong : String) (n : Nonce) (p : String) : c.openBlob k' wrong
    (c.encode (n.1 ++ c.encrypt k n.1 (utf8 p))) =
      match c.decrypt k' n.1 (c.encrypt k n.1 (utf8 p)) with
      | none => .error wrong
      | some plaintext => match fromUtf8 plaintext with
        | none => .error "decrypted value is not utf-8"
        | some text => .ok text := by
  have hpos := length_pos_of_ne_nil (c.encrypt_ne_nil k n.1 (utf8 p))
  have hlen : ¬ (n.1 ++ c.encrypt k n.1 (utf8 p)).length ≤ 24 := by
    rw [length_append]
    omega
  rw [openBlob, c.decode_encode]
  simp only [if_neg hlen, take_left' n.2, drop_left' n.2]

theorem opens_sealBlob (n : Nonce) (p : String) : c.Opens k (c.sealBlob k n p) p := by
  rw [Opens, decryptSecret, sealBlob, stripMarker_append]
  simp [openBlob_encode, c.decrypt_encrypt, fromUtf8_utf8]

theorem not_opens_sealBlob (hk : k ≠ k') (n : Nonce) (p q : String) : ¬ c.Opens k' (c.sealBlob k n p) q := by
  rw [Opens, decryptSecret, sealBlob, stripMarker_append]
  simp [openBlob_encode, c.authentic k k' _ _ hk]

theorem Opens.unique {p q : String} (hp : c.Opens k v p) (hq : c.Opens k v q) : p = q := ok.inj (hp.symm.trans hq)

theorem openBlob_eq_ok {wrong wrong' b64 p : String} (h : c.openBlob k wrong b64 = .ok p) :
    c.openBlob k wrong' b64 = .ok p := by
  rw [openBlob] at h ⊢
  rcases hd : c.decode b64 with _ | blob
  · rw [hd] at h
    cases h
  rw [hd] at h
  dsimp only at h ⊢
  split at h
  · cases h
  rename_i hlen
  rw [if_neg hlen]
  rcases hp : c.decrypt k (blob.take 24) (blob.drop 24) with _ | plaintext
  · rw [hp] at h
    cases h
  · rw [hp] at h
    exact h

theorem reencryptValue_eq_ok {draw : Except String Nonce} {v' : String}
    (h : c.reencryptValue (some k) draw v = .ok v') : ∃ p n, c.Opens k v p ∧ v' = c.sealBlob k n p := by
  obtain ⟨p, hp, h⟩ := bind_eq_ok.mp h
  obtain ⟨n, -, h⟩ := bind_eq_ok.mp h
  exact ⟨p, n, hp, (ok.inj h).symm⟩

theorem oldPlaintext_eq_ok {old p : String} (hold : c.cipherFromB64 old = .ok k) :
    c.oldPlaintext old v = .ok p ↔ c.Opens k v p := by
  rw [Opens, decryptSecret, oldPlaintext, hold]
  rcases stripMarker v with _ | b64
  · exact Iff.rfl
  · exact ⟨openBlob_eq_ok, openBlob_eq_ok⟩

theorem rekeyValue_eq_ok {old new : String} {draw : Except String Nonce} {v' : String}
    (hold : c.cipherFromB64 old = .ok k) (hnew : c.cipherFromB64 new = .ok k') :
    c.rekeyValue old new draw v = .ok v' ↔ ∃ p n, c.Opens k v p ∧ draw = .ok n ∧ v' = c.sealBlob k' n p := by
  rw [rekeyValue, hnew]
  constructor
  · intro h
    obtain ⟨p, hp, h⟩ := bind_eq_ok.mp h
    obtain ⟨key, hkey, h⟩ := bind_eq_ok.mp h
    obtain ⟨n, hn, h⟩ := bind_eq_ok.mp h
    obtain rfl := ok.inj hkey
    exact ⟨p, n, (oldPlaintext_eq_ok hold).mp hp, hn, (ok.inj h).symm⟩
  · rintro ⟨p, n, hp, hn, rfl⟩
    exact bind_eq_ok.mpr ⟨p, (oldPlaintext_eq_ok hold).mpr hp, bind_eq_ok.mpr ⟨k', rfl, bind_eq_ok.mpr ⟨n, hn, rfl⟩⟩⟩

end Crypto

/-! ### The tables and the commands -/

/-- What the commands loop over; the inbounds are looped over once for each of their two secrets. -/
inductive SecretTable where
  | users | subscriptions | interfaces | peers | services | realityKeys | chainPasswords | admins
  deriving DecidableEq, Repr

inductive SecretColumn where
  | uuid | password | token | namedToken | interfaceKey | peerKey | serviceSecret | realityKey
  | chainPassword | totpSecret
  deriving DecidableEq, Repr

/-- The columns that one `UPDATE` of the table sets. -/
def SecretTable.columns : SecretTable → List SecretColumn
  | .users => [.uuid, .password, .token]
  | .subscriptions => [.namedToken]
  | .interfaces => [.interfaceKey]
  | .peers => [.peerKey]
  | .services => [.serviceSecret]
  | .realityKeys => [.realityKey]
  | .chainPasswords => [.chainPassword]
  | .admins => [.totpSecret]

def SecretColumn.table : SecretColumn → SecretTable
  | .uuid | .password | .token => .users
  | .namedToken => .subscriptions
  | .interfaceKey => .interfaces
  | .peerKey => .peers
  | .serviceSecret => .services
  | .realityKey => .realityKeys
  | .chainPassword => .chainPasswords
  | .totpSecret => .admins

theorem SecretTable.mem_columns {t : SecretTable} {col : SecretColumn} : col ∈ t.columns ↔ col.table = t := by
  cases t <;> cases col <;> simp [columns, SecretColumn.table]

theorem SecretTable.columns_nodup (t : SecretTable) : t.columns.Nodup := by
  cases t <;> decide

/-- The stored secrets: the rows that the `SELECT` of each table returns, and the columns. -/
structure SecretDb where
  rows : SecretTable → List Uuid
  cells : SecretColumn → Uuid → Option String
  nodup : ∀ t, (rows t).Nodup
  stored : ∀ {col id v}, cells col id = some v → id ∈ rows col.table

/-- What a run meets: failing queries, and the nonces it draws or the errors it gets for them. -/
structure Outage where
  select : SecretTable → Option String
  draw : SecretColumn → Uuid → Except String Nonce
  update : SecretTable → Uuid → Option String

/-- One statement of a loop: the query, or the values and the `UPDATE` of one row. -/
inductive SecretOp where
  | select (t : SecretTable)
  | row (t : SecretTable) (id : Uuid)
  deriving DecidableEq, Repr

def SecretOp.table : SecretOp → SecretTable
  | .select t | .row t _ => t

namespace SecretDb

/-- A cell gets another value. -/
def set (db : SecretDb) {col : SecretColumn} {id : Uuid} {v : String}
    (h : db.cells col id = some v) (v' : String) : SecretDb where
  rows := db.rows
  cells := fun col' id' => if col' = col ∧ id' = id then some v' else db.cells col' id'
  nodup := db.nodup
  stored := by
    intro col' id' x hx
    split at hx
    · rename_i heq
      rw [heq.1, heq.2]
      exact db.stored h
    · exact db.stored hx

section

variable (value : SecretColumn → Uuid → String → Except String String) (w : Outage)

/-- A value of the row, unless it is NULL. -/
def rewriteCell (id : Uuid) (db : SecretDb) (col : SecretColumn) : Except String SecretDb :=
  match h : db.cells col id with
  | none => .ok db
  | some v => (value col id v).map fun v' => db.set h v'

def exec (op : SecretOp) (db : SecretDb) : Except String SecretDb :=
  match op with
  | .select t => match w.select t with
    | some e => .error e
    | none => .ok db
  | .row t id => do
      let db' ← t.columns.foldlM (rewriteCell value id) db
      match w.update t id with
      | some e => .error e
      | none => .ok db'

/-- A loop over the rows of its tables, all of which are queried first (`wg_private_keys` has two). -/
def loopOps (db : SecretDb) (loop : List SecretTable) : List SecretOp :=
  loop.map .select ++ loop.flatMap fun t => (db.rows t).map (.row t)

/-- The loops, one after the other. -/
def rewrite (loops : List (List SecretTable)) (db : SecretDb) : SecretDb × Except String Unit :=
  statements ((loops.flatMap db.loopOps).map (exec value w)) db

end

def rekeyLoops : List (List SecretTable) :=
  [[.users], [.subscriptions], [.interfaces, .peers], [.services], [.realityKeys], [.chainPasswords], [.admins]]

def reencryptLoops : List (List SecretTable) :=
  [[.users], [.subscriptions], [.interfaces, .peers], [.services], [.realityKeys], [.chainPasswords]]

/-- `rekey_secrets`, with the counts of users, inbounds and administrators. -/
def rekeySecrets (c : Crypto) (old new : String) (w : Outage) (db : SecretDb) : SecretDb × Except String (ℕ × ℕ × ℕ) :=
  let (after, result) :=
    db.rewrite (fun col id => c.rekeyValue old new (w.draw col id)) w rekeyLoops
  (after, result.map fun _ =>
    ((db.rows .users).length, (db.rows .realityKeys).length, (db.rows .admins).length))

/-- `reencrypt_secrets`, under the key of the process. -/
def reencryptSecrets (c : Crypto) (cipher : Option SecretKey) (w : Outage) (db : SecretDb) :
    SecretDb × Except String (ℕ × ℕ) :=
  let (after, result) :=
    db.rewrite (fun col id => c.reencryptValue cipher (w.draw col id)) w reencryptLoops
  (after, result.map fun _ => ((db.rows .users).length, (db.rows .realityKeys).length))

/-! ### What a run rewrites -/

/-- The cells of `hit` are rewritten and no others. -/
structure Swept (value : SecretColumn → Uuid → String → Except String String)
    (hit : SecretColumn → Uuid → Prop) (db db' : SecretDb) : Prop where
  rows : db'.rows = db.rows
  kept : ∀ {col id}, ¬ hit col id → db'.cells col id = db.cells col id
  swept : ∀ {col id}, hit col id → Option.Rel (fun v v' => value col id v = .ok v') (db.cells col id) (db'.cells col id)

/-- A statement succeeds if its query does and every value of its row is `fit`. -/
def Passes (fit : SecretColumn → Uuid → String → Prop) (w : Outage) (db : SecretDb) : SecretOp → Prop
  | .select t => w.select t = none
  | .row t id => w.update t id = none ∧ ∀ col v, col.table = t → db.cells col id = some v → fit col id v

section

variable {value : SecretColumn → Uuid → String → Except String String} {w : Outage}
variable {hit hit' : SecretColumn → Uuid → Prop} {db db₁ db₂ : SecretDb}

theorem Swept.refl (value : SecretColumn → Uuid → String → Except String String) (db : SecretDb) :
    Swept value (fun _ _ => False) db db :=
  ⟨rfl, fun _ => rfl, fun h => h.elim⟩

theorem Swept.congr (h : Swept value hit db db₁) (hiff : ∀ col id, hit col id ↔ hit' col id) :
    Swept value hit' db db₁ :=
  ⟨h.rows, fun hn => h.kept fun hh => hn ((hiff _ _).mp hh), fun hh => h.swept ((hiff _ _).mpr hh)⟩

theorem Swept.trans (h : Swept value hit db db₁) (h' : Swept value hit' db₁ db₂)
    (hdis : ∀ col id, hit col id → ¬ hit' col id) : Swept value (fun col id => hit col id ∨ hit' col id) db db₂ where
  rows := h'.rows.trans h.rows
  kept hn := by
    rw [not_or] at hn
    rw [h'.kept hn.2, h.kept hn.1]
  swept {col id} hh := by
    by_cases hfirst : hit col id
    · rw [h'.kept (hdis col id hfirst)]
      exact h.swept hfirst
    · rw [← h.kept hfirst]
      exact h'.swept (hh.resolve_left hfirst)

theorem Swept.cell (h : Swept value hit db db₁) {col : SecretColumn} {id : Uuid} {v : String} (hhit : hit col id)
    (hv : db.cells col id = some v) : ∃ v', db₁.cells col id = some v' ∧ value col id v = .ok v' := by
  have hrel := h.swept hhit
  rw [hv] at hrel
  generalize db₁.cells col id = cell at hrel
  cases hrel with
  | some hval => exact ⟨_, rfl, hval⟩

variable {id : Uuid} {op : SecretOp}

theorem rewriteCell_swept {col : SecretColumn} (h : rewriteCell value id db col = .ok db₁) :
    Swept value (fun col' id' => col' = col ∧ id' = id) db db₁ := by
  rw [rewriteCell] at h
  split at h
  · rename_i hnone
    obtain rfl := ok.inj h
    refine ⟨rfl, fun _ => rfl, ?_⟩
    rintro _ _ ⟨rfl, rfl⟩
    rw [hnone]
    exact .none
  rename_i hv
  obtain ⟨v', hval, rfl⟩ := map_eq_ok.mp h
  refine ⟨rfl, fun hn => if_neg hn, ?_⟩
  rintro col' id' ⟨rfl, rfl⟩
  have hset : (db.set hv v').cells col' id' = some v' := if_pos ⟨rfl, rfl⟩
  rw [hset, hv]
  exact .some hval

theorem rewriteCell_isOk {col : SecretColumn} : (∃ db', rewriteCell value id db col = .ok db') ↔
      ∀ v, db.cells col id = some v → ∃ v', value col id v = .ok v' := by
  rw [rewriteCell]
  split
  · rename_i hnone
    simp [hnone]
  rename_i hv
  simp only [map_eq_ok, hv, Option.some.injEq, forall_eq']
  constructor
  · rintro ⟨_, v', hval, -⟩
    exact ⟨v', hval⟩
  · rintro ⟨v', hval⟩
    exact ⟨_, v', hval, rfl⟩

theorem rewriteCells_swept : ∀ {cols : List SecretColumn} {db db' : SecretDb}, cols.Nodup →
    cols.foldlM (rewriteCell value id) db = .ok db' →
    Swept value (fun col' id' => col' ∈ cols ∧ id' = id) db db'
  | [], db, db', _, h => by
    rw [← ok.inj h]
    exact (Swept.refl value db).congr (by simp)
  | col :: cols, db, db', hnodup, h => by
    rw [nodup_cons] at hnodup
    obtain ⟨db₁, h₁, h⟩ := bind_eq_ok.mp h
    refine ((rewriteCell_swept h₁).trans (rewriteCells_swept hnodup.2 h) ?_).congr ?_
    · rintro col' id' ⟨rfl, -⟩ ⟨hmem, -⟩
      exact hnodup.1 hmem
    · intro col' id'
      rw [mem_cons, or_and_right]

theorem rewriteCells_isOk : ∀ {cols : List SecretColumn} {db : SecretDb}, cols.Nodup →
    ((∃ db', cols.foldlM (rewriteCell value id) db = .ok db') ↔
      ∀ col ∈ cols, ∀ v, db.cells col id = some v → ∃ v', value col id v = .ok v')
  | [], db, _ => by simp [pure, Except.pure]
  | col :: cols, db, hnodup => by
    rw [nodup_cons] at hnodup
    rw [forall_mem_cons, ← rewriteCell_isOk]
    -- the first column's value leaves the other columns alone
    have hrest : ∀ db₁, rewriteCell value id db col = .ok db₁ →
        ((∃ db', cols.foldlM (rewriteCell value id) db₁ = .ok db') ↔
          ∀ col' ∈ cols, ∀ v, db.cells col' id = some v → ∃ v', value col' id v = .ok v') := by
      intro db₁ h₁
      rw [rewriteCells_isOk hnodup.2]
      refine forall₂_congr fun col' hmem => ?_
      rw [(rewriteCell_swept h₁).kept fun heq => hnodup.1 (heq.1 ▸ hmem)]
    constructor
    · rintro ⟨db', h⟩
      obtain ⟨db₁, h₁, h⟩ := bind_eq_ok.mp h
      exact ⟨⟨db₁, h₁⟩, (hrest db₁ h₁).mp ⟨db', h⟩⟩
    · rintro ⟨⟨db₁, h₁⟩, h⟩
      obtain ⟨db', h⟩ := (hrest db₁ h₁).mpr h
      exact ⟨db', bind_eq_ok.mpr ⟨db₁, h₁, h⟩⟩

theorem exec_swept (h : exec value w op db = .ok db₁) : Swept value (fun col id => .row col.table id = op) db db₁ := by
  cases op with
  | select t =>
    rw [exec] at h
    split at h
    · cases h
    · obtain rfl := ok.inj h
      exact (Swept.refl value db).congr (by simp)
  | row t id =>
    obtain ⟨db', hcells, h⟩ := bind_eq_ok.mp h
    split at h
    · cases h
    · obtain rfl := ok.inj h
      refine (rewriteCells_swept t.columns_nodup hcells).congr fun col' id' => ?_
      rw [SecretTable.mem_columns, SecretOp.row.injEq]

theorem exec_isOk : (∃ db', exec value w op db = .ok db') ↔
    Passes (fun col id v => ∃ v', value col id v = .ok v') w db op := by
  cases op with
  | select t =>
    rw [exec, Passes]
    rcases w.select t with _ | e <;> simp
  | row t id =>
    rw [exec, Passes]
    rcases w.update t id with _ | e
    · rw [show (∃ db', (do
          let db' ← t.columns.foldlM (rewriteCell value id) db
          ok db') = ok db') ↔
          ∃ db', t.columns.foldlM (rewriteCell value id) db = .ok db' by simp [bind_eq_ok]]
      rw [rewriteCells_isOk t.columns_nodup]
      simp only [SecretTable.mem_columns, true_and]
      exact ⟨fun h col v ht => h col ht v, fun h col ht v => h col v ht⟩
    · simp [bind_eq_ok]

variable {ops : List SecretOp} {fit : SecretColumn → Uuid → String → Prop}

theorem passes_of_swept (h : Swept value hit db db₁) (hother : ∀ col id, .row col.table id = op → ¬ hit col id) :
    Passes fit w db₁ op ↔ Passes fit w db op := by
  cases op with
  | select t => exact Iff.rfl
  | row t id =>
    refine and_congr_right fun _ => forall₂_congr fun col v => ?_
    constructor
    · intro hfit ht hv
      exact hfit ht (by rw [h.kept (hother col id (by rw [ht])), hv])
    · intro hfit ht hv
      exact hfit ht (by rw [← h.kept (hother col id (by rw [ht])), hv])

/-- Statements that all pass: the command goes through, and has rewritten the cells of their rows. -/
theorem run_passed : ∀ {ops : List SecretOp} {db : SecretDb}, ops.Nodup →
    (∀ op ∈ ops, Passes (fun col id v => ∃ v', value col id v = .ok v') w db op) →
    ∃ db', statements (ops.map (exec value w)) db = (db', .ok ()) ∧
      Swept value (fun col id => .row col.table id ∈ ops) db db'
  | [], db, _, _ => ⟨db, rfl, (Swept.refl value db).congr (by simp)⟩
  | op :: ops, db, hnodup, hpass => by
    rw [nodup_cons] at hnodup
    rw [forall_mem_cons] at hpass
    obtain ⟨db₁, h₁⟩ := exec_isOk.mpr hpass.1
    have hswept := exec_swept h₁
    have hother : ∀ op' ∈ ops, ∀ (col : SecretColumn) id, .row col.table id = op' → .row col.table id ≠ op := by
      rintro _ hmem col id rfl heq
      exact hnodup.1 (heq ▸ hmem)
    obtain ⟨db', hrun, hswept'⟩ := run_passed hnodup.2 fun op' hmem =>
      (passes_of_swept hswept (hother op' hmem)).mpr (hpass.2 op' hmem)
    refine ⟨db', by rw [map_cons, statements, h₁]; exact hrun, ?_⟩
    refine (hswept.trans hswept' ?_).congr fun col id => mem_cons.symm
    intro col id heq hmem
    exact hother _ hmem col id rfl heq

/-- A statement that does not pass ends the command; the rows before it are rewritten. -/
theorem run_stopped {before after : List SecretOp} (hnodup : (before ++ op :: after).Nodup)
    (hpass : ∀ op ∈ before, Passes (fun col id v => ∃ v', value col id v = .ok v') w db op)
    (hfail : ¬ Passes (fun col id v => ∃ v', value col id v = .ok v') w db op) :
    ∃ db' e, statements ((before ++ op :: after).map (exec value w)) db = (db', .error e) ∧
      Swept value (fun col id => .row col.table id ∈ before) db db' := by
  rw [nodup_append] at hnodup
  obtain ⟨db', hrun, hswept⟩ := run_passed hnodup.1 hpass
  have hstop : ¬ ∃ db₁, exec value w op db' = .ok db₁ := by
    rw [exec_isOk, passes_of_swept hswept]
    · exact hfail
    · rintro col id rfl hmem
      exact hnodup.2.2 _ hmem _ mem_cons_self rfl
  rcases hexec : exec value w op db' with e | db₁
  · refine ⟨db', e, ?_, hswept⟩
    rw [map_append, statements_append hrun, map_cons, statements, hexec]
  · exact absurd ⟨db₁, hexec⟩ hstop

end

theorem row_mem_loops {db : SecretDb} {loops : List (List SecretTable)} {t : SecretTable} {id : Uuid} :
    .row t id ∈ loops.flatMap db.loopOps ↔ t ∈ loops.flatten ∧ id ∈ db.rows t := by
  simp only [mem_flatMap, loopOps, mem_append, mem_map, mem_flatten]
  constructor
  · rintro ⟨loop, hloop, ⟨t', -, heq⟩ | ⟨t', ht', id', hid, heq⟩⟩
    · cases heq
    · obtain ⟨rfl, rfl⟩ := SecretOp.row.inj heq
      exact ⟨⟨loop, hloop, ht'⟩, hid⟩
  · rintro ⟨⟨loop, hloop, ht⟩, hid⟩
    exact ⟨loop, hloop, .inr ⟨t, ht, id, hid, rfl⟩⟩

theorem loops_nodup (db : SecretDb) {loops : List (List SecretTable)} (h : loops.flatten.Nodup) :
    (loops.flatMap db.loopOps).Nodup := by
  have hrows : ∀ {loop : List SecretTable}, loop.Nodup →
      (loop.flatMap fun t => (db.rows t).map (SecretOp.row t)).Nodup := by
    intro loop hloop
    rw [nodup_flatMap]
    refine ⟨fun t _ => (db.nodup t).map fun _ _ heq => (SecretOp.row.inj heq).2, hloop.imp ?_⟩
    intro t t' hne op hop hop'
    obtain ⟨_, -, rfl⟩ := mem_map.mp hop
    obtain ⟨_, -, heq⟩ := mem_map.mp hop'
    exact hne (SecretOp.row.inj heq).1.symm
  have htable : ∀ {loop : List SecretTable} {op : SecretOp}, op ∈ db.loopOps loop → op.table ∈ loop := by
    intro loop op hop
    rcases mem_append.mp hop with hop | hop
    · obtain ⟨t, ht, rfl⟩ := mem_map.mp hop
      exact ht
    · obtain ⟨t, ht, hop⟩ := mem_flatMap.mp hop
      obtain ⟨id, -, rfl⟩ := mem_map.mp hop
      exact ht
  rw [nodup_flatten] at h
  rw [nodup_flatMap]
  constructor
  · intro loop hloop
    refine nodup_append.mpr ⟨(h.1 loop hloop).map fun _ _ heq => SecretOp.select.inj heq, hrows (h.1 loop hloop), ?_⟩
    rintro _ hsel _ hrow rfl
    obtain ⟨t, -, rfl⟩ := mem_map.mp hsel
    obtain ⟨t', -, hop⟩ := mem_flatMap.mp hrow
    obtain ⟨_, -, heq⟩ := mem_map.mp hop
    cases heq
  · exact h.2.imp fun hdis op hop hop' => hdis (htable hop) (htable hop')

theorem rekeyOps_nodup (db : SecretDb) : (rekeyLoops.flatMap db.loopOps).Nodup := db.loops_nodup (by decide)

theorem mem_rekeyLoops (t : SecretTable) : t ∈ rekeyLoops.flatten := by
  cases t <;> decide

end SecretDb

/-! ### Rotation and its failures -/

/-- No query and no draw fails. -/
def Outage.Calm (w : Outage) : Prop :=
  (∀ t, w.select t = none) ∧ (∀ col id, ∃ n, w.draw col id = .ok n) ∧ ∀ t id, w.update t id = none

namespace SecretDb

section

variable (c : Crypto) (k₁ k₂ : SecretKey)

/-- What a stored value stands for during a rotation: what the old key opens, or else the new one. -/
def Plain (stored plaintext : String) : Prop :=
  c.Opens k₁ stored plaintext ∨ (∀ q, ¬ c.Opens k₁ stored q) ∧ c.Opens k₂ stored plaintext

/-- Every secret of `db` is readable under the new key. -/
def Rotated (db db' : SecretDb) : Prop :=
  ∀ col id v, db.cells col id = some v → ∃ p v', Plain c k₁ k₂ v p ∧ db'.cells col id = some v' ∧ c.Opens k₂ v' p

/-- The values that neither key opens are replaced by ones the old key opens. -/
structure Mended (db db' : SecretDb) : Prop where
  rows : db'.rows = db.rows
  cells : ∀ col id, Option.Rel (fun v v' => (∃ p, Plain c k₁ k₂ v p) ∧ v' = v ∨
    (¬ ∃ p, Plain c k₁ k₂ v p) ∧ ∃ p, c.Opens k₁ v' p) (db.cells col id) (db'.cells col id)

/-- The run of a rotation, with the keys of the two texts, keeps every secret readable; it ends in
    a rotated database, or else every later run that meets no failure does. -/
structure Resumable (old new : String) (w : Outage) (db : SecretDb) : Prop where
  kept : ∀ col id v p, db.cells col id = some v → Plain c k₁ k₂ v p →
    ∃ v', (db.rekeySecrets c old new w).1.cells col id = some v' ∧ (c.Opens k₁ v' p ∨ c.Opens k₂ v' p)
  done : ∀ n, (db.rekeySecrets c old new w).2 = .ok n → Rotated c k₁ k₂ db (db.rekeySecrets c old new w).1
  resumes : ∀ e, (db.rekeySecrets c old new w).2 = .error e → ∀ db' w',
    Mended c k₁ k₂ (db.rekeySecrets c old new w).1 db' → w'.Calm →
    (∃ n, (db'.rekeySecrets c old new w').2 = .ok n) ∧ Rotated c k₁ k₂ db' (db'.rekeySecrets c old new w').1 ∧
      ∀ col id v p, db.cells col id = some v → Plain c k₁ k₂ v p →
        ∃ v', (db'.rekeySecrets c old new w').1.cells col id = some v' ∧ c.Opens k₂ v' p

/-- The old key opens the value, and a nonce is drawn for it. -/
def Fit (w : Outage) (col : SecretColumn) (id : Uuid) (v : String) : Prop :=
  (∃ n, w.draw col id = .ok n) ∧ ∃ p, c.Opens k₁ v p

/-- Every statement of the rotation passes. -/
def Clear (w : Outage) (db : SecretDb) : Prop :=
  ∀ op ∈ rekeyLoops.flatMap db.loopOps, Passes (Fit c k₁ w) w db op

/-- The first statement that does not pass comes before every row with a secret. -/
def Untouched (w : Outage) (db : SecretDb) : Prop :=
  AtFirst (Passes (Fit c k₁ w) w db) (fun before _ => ∀ col id, .row col.table id ∈ before → db.cells col id = none)
    (rekeyLoops.flatMap db.loopOps)

/-- No secret is under the new key only. -/
def OldOnly (db : SecretDb) : Prop :=
  ∀ col id v p, db.cells col id = some v → Plain c k₁ k₂ v p → ∃ q, c.Opens k₁ v q

end

section

variable {c : Crypto} {k₁ k₂ : SecretKey} {old new : String} {w w' : Outage} {db db' : SecretDb}

theorem Plain.unique {v p q : String} (hp : Plain c k₁ k₂ v p) (hq : Plain c k₁ k₂ v q) : p = q := by
  rcases hp with hp | ⟨hno, hp⟩
  · rcases hq with hq | ⟨hno, -⟩
    · exact hp.unique hq
    · exact absurd hp (hno p)
  · rcases hq with hq | ⟨-, hq⟩
    · exact absurd hq (hno q)
    · exact hp.unique hq

theorem plain_sealBlob (n : Nonce) (p : String) : Plain c k₁ k₂ (c.sealBlob k₂ n p) p := by
  by_cases hk : k₂ = k₁
  · left
    rw [← hk]
    exact Crypto.opens_sealBlob n p
  · exact .inr ⟨(Crypto.not_opens_sealBlob hk n p), Crypto.opens_sealBlob n p⟩

/-- Without a failing query, a rotation passes exactly if the old key opens every value. -/
theorem clear_of_calm (hcalm : w.Calm) :
    Clear c k₁ w db ↔ ∀ col id v, db.cells col id = some v → ∃ p, c.Opens k₁ v p := by
  obtain ⟨hselect, hdraw, hupdate⟩ := hcalm
  constructor
  · intro h col id v hv
    have hrow := h _ (row_mem_loops.mpr ⟨mem_rekeyLoops _, db.stored hv⟩)
    exact (hrow.2 col v rfl hv).2
  · rintro h (t | ⟨t, id⟩) -
    · exact hselect t
    · exact ⟨hupdate t id, fun col v _ hv => ⟨hdraw col id, h col id v hv⟩⟩

theorem opens_empty : c.Opens k₁ "" "" := rfl

open Classical in
theorem exists_mended (c : Crypto) (k₁ k₂ : SecretKey) (db : SecretDb) : ∃ db', Mended c k₁ k₂ db db' := by
  let mend : String → String := fun v => if ∃ p, Plain c k₁ k₂ v p then v else ""
  have hmend : ∀ v, (∃ p, Plain c k₁ k₂ v p) ∧ mend v = v ∨
      (¬ ∃ p, Plain c k₁ k₂ v p) ∧ ∃ p, c.Opens k₁ (mend v) p := by
    intro v
    by_cases hv : ∃ p, Plain c k₁ k₂ v p
    · exact .inl ⟨hv, if_pos hv⟩
    · exact .inr ⟨hv, "", by rw [show mend v = "" from if_neg hv]; exact opens_empty⟩
  refine ⟨⟨db.rows, fun col id => (db.cells col id).map mend, db.nodup, ?_⟩, rfl, fun col id => ?_⟩
  · intro col id v hv
    obtain ⟨x, hx, -⟩ := Option.map_eq_some_iff.mp hv
    exact db.stored hx
  · dsimp only
    rcases db.cells col id with _ | v
    · exact .none
    · rw [Option.map_some]
      exact Option.Rel.some (hmend v)

theorem exists_calm : ∃ w : Outage, w.Calm :=
  ⟨⟨fun _ => none, fun _ _ => .ok ⟨replicate 24 0, rfl⟩, fun _ _ => none⟩,
    fun _ => rfl, fun _ _ => ⟨_, rfl⟩, fun _ _ => rfl⟩

variable {col : SecretColumn}

theorem Mended.cell_of_plain (h : Mended c k₁ k₂ db db') {id : Uuid} {v p : String} (hv : db.cells col id = some v)
    (hp : Plain c k₁ k₂ v p) : db'.cells col id = some v := by
  have hrel := h.cells col id
  rw [hv] at hrel
  generalize db'.cells col id = cell at hrel
  cases hrel with
  | some hor =>
    rcases hor with ⟨-, rfl⟩ | ⟨hno, -⟩
    · rfl
    · exact absurd ⟨p, hp⟩ hno

theorem Mended.cell_cases (h : Mended c k₁ k₂ db db') {id : Uuid} {v' : String} (hv' : db'.cells col id = some v') :
    (∃ p, db.cells col id = some v' ∧ Plain c k₁ k₂ v' p) ∨ ∃ p, c.Opens k₁ v' p := by
  have hrel := h.cells col id
  rw [hv'] at hrel
  generalize db.cells col id = cell at hrel
  cases hrel with
  | some hor =>
    rcases hor with ⟨⟨p, hp⟩, rfl⟩ | ⟨-, hp⟩
    · exact .inl ⟨p, rfl, hp⟩
    · exact .inr hp

variable (hold : c.cipherFromB64 old = .ok k₁) (hnew : c.cipherFromB64 new = .ok k₂)

include hold hnew

theorem rekeyValue_plain {draw : Except String Nonce} {v v' : String} (h : c.rekeyValue old new draw v = .ok v') :
    ∃ p n, c.Opens k₁ v p ∧ v' = c.sealBlob k₂ n p := by
  obtain ⟨p, n, hp, -, rfl⟩ := (Crypto.rekeyValue_eq_ok hold hnew).mp h
  exact ⟨p, n, hp, rfl⟩

theorem passes_iff_fit (op : SecretOp) : Passes
      (fun col id v => ∃ v', c.rekeyValue old new (w.draw col id) v = .ok v') w db op ↔
      Passes (Fit c k₁ w) w db op := by
  cases op with
  | select t => exact Iff.rfl
  | row t id =>
    refine and_congr_right fun _ => forall₂_congr fun col v => ?_
    refine imp_congr_right fun _ => imp_congr_right fun _ => ?_
    simp only [Crypto.rekeyValue_eq_ok hold hnew]
    constructor
    · rintro ⟨v', p, n, hp, hn, -⟩
      exact ⟨⟨n, hn⟩, p, hp⟩
    · rintro ⟨⟨n, hn⟩, p, hp⟩
      exact ⟨_, p, n, hp, hn, rfl⟩

section

variable {hit : SecretColumn → Uuid → Prop}

theorem swept_sealed (h : Swept (fun col id => c.rekeyValue old new (w.draw col id)) hit db db')
    {col : SecretColumn} {id : Uuid} {v : String} (hv : db.cells col id = some v) (hhit : hit col id) :
    ∃ p n, c.Opens k₁ v p ∧ db'.cells col id = some (c.sealBlob k₂ n p) := by
  obtain ⟨v', hcell, hval⟩ := h.cell hhit hv
  obtain ⟨q, n, hq, rfl⟩ := rekeyValue_plain hold hnew hval
  exact ⟨q, n, hq, hcell⟩

/-- Wherever a rotation stops, every value stands for what it did. -/
theorem swept_plain (h : Swept (fun col id => c.rekeyValue old new (w.draw col id)) hit db db')
    {col : SecretColumn} {id : Uuid} {v p : String} (hv : db.cells col id = some v)
    (hp : Plain c k₁ k₂ v p) : ∃ v', db'.cells col id = some v' ∧ Plain c k₁ k₂ v' p := by
  by_cases hhit : hit col id
  · obtain ⟨q, n, hq, hcell⟩ := swept_sealed hold hnew h hv hhit
    obtain rfl := hp.unique (.inl hq)
    exact ⟨_, hcell, plain_sealBlob n p⟩
  · exact ⟨v, by rw [h.kept hhit, hv], hp⟩

end

theorem rekey_clear (h : Clear c k₁ w db) : (∃ n, (db.rekeySecrets c old new w).2 = .ok n) ∧
      ∀ col id v, db.cells col id = some v → ∃ p n, c.Opens k₁ v p ∧
        (db.rekeySecrets c old new w).1.cells col id = some (c.sealBlob k₂ n p) := by
  obtain ⟨db', hrun, hswept⟩ := run_passed (db.rekeyOps_nodup) fun op hop =>
    (passes_iff_fit hold hnew op).mpr (h op hop)
  rw [rekeySecrets, rewrite, hrun]
  refine ⟨⟨_, rfl⟩, fun col id v hv => swept_sealed hold hnew hswept hv ?_⟩
  exact row_mem_loops.mpr ⟨mem_rekeyLoops _, db.stored hv⟩

theorem rekey_stopped {before after : List SecretOp} {op : SecretOp}
    (hops : rekeyLoops.flatMap db.loopOps = before ++ op :: after)
    (hpass : ∀ op ∈ before, Passes (Fit c k₁ w) w db op) (hfail : ¬ Passes (Fit c k₁ w) w db op) :
    (∃ e, (db.rekeySecrets c old new w).2 = .error e) ∧ Swept (fun col id => c.rekeyValue old new (w.draw col id))
        (fun col id => .row col.table id ∈ before) db (db.rekeySecrets c old new w).1 := by
  obtain ⟨db', e, hrun, hswept⟩ := run_stopped (hops ▸ db.rekeyOps_nodup)
    (fun op hop => (passes_iff_fit hold hnew op).mpr (hpass op hop))
    (fun h => hfail ((passes_iff_fit hold hnew op).mp h))
  rw [rekeySecrets, rewrite, hops, hrun]
  exact ⟨⟨e, rfl⟩, hswept⟩

theorem rekey_isOk : (∃ n, (db.rekeySecrets c old new w).2 = .ok n) ↔ Clear c k₁ w db := by
  constructor
  · rintro ⟨n, hn⟩
    rcases all_or_first (Passes (Fit c k₁ w) w db) (rekeyLoops.flatMap db.loopOps) with
      hclear | ⟨before, op, after, hops, hpass, hfail⟩
    · exact hclear
    · obtain ⟨⟨e, he⟩, -⟩ := rekey_stopped hold hnew hops hpass hfail
      rw [he] at hn
      cases hn
  · intro hclear
    exact (rekey_clear hold hnew hclear).1

theorem resumes_of_opens (hcalm : w'.Calm) (h : ∀ col id v, db.cells col id = some v → ∃ p, c.Opens k₁ v p) :
    (∃ n, (db.rekeySecrets c old new w').2 = .ok n) ∧ Rotated c k₁ k₂ db (db.rekeySecrets c old new w').1 := by
  obtain ⟨hok, hcells⟩ := rekey_clear hold hnew ((clear_of_calm hcalm).mpr h)
  refine ⟨hok, fun col id v hv => ?_⟩
  obtain ⟨p, n, hp, hcell⟩ := hcells col id v hv
  exact ⟨p, _, .inl hp, hcell, Crypto.opens_sealBlob n p⟩

theorem Resumable.opens (h : Resumable c k₁ k₂ old new w db) {e : String}
    (herr : (db.rekeySecrets c old new w).2 = .error e) : ∃ db', Mended c k₁ k₂ (db.rekeySecrets c old new w).1 db' ∧
      ∀ col id v, db'.cells col id = some v → ∃ p, c.Opens k₁ v p := by
  obtain ⟨db', hmended⟩ := exists_mended c k₁ k₂ (db.rekeySecrets c old new w).1
  obtain ⟨w', hcalm⟩ := exists_calm
  have hagain := (h.resumes e herr db' w' hmended hcalm).1
  exact ⟨db', hmended, (clear_of_calm hcalm).mp ((rekey_isOk hold hnew).mp hagain)⟩

/-- With two keys, a rotation that fails after it has rewritten a secret cannot be resumed. -/
theorem not_resumable (hk : k₁ ≠ k₂)
    {before after : List SecretOp} {op : SecretOp} (hops : rekeyLoops.flatMap db.loopOps = before ++ op :: after)
    (hpass : ∀ op ∈ before, Passes (Fit c k₁ w) w db op) (hfail : ¬ Passes (Fit c k₁ w) w db op) {id : Uuid}
    {v : String} (hrow : .row col.table id ∈ before) (hv : db.cells col id = some v) :
    ¬ Resumable c k₁ k₂ old new w db := by
  intro h
  obtain ⟨⟨e, herr⟩, hswept⟩ := rekey_stopped hold hnew hops hpass hfail
  obtain ⟨db', hmended, hopens⟩ := h.opens hold hnew herr
  obtain ⟨p, n, -, hcell⟩ := swept_sealed hold hnew hswept hv hrow
  obtain ⟨q, hq⟩ := hopens col id _ (hmended.cell_of_plain hcell (plain_sealBlob n p))
  exact Crypto.not_opens_sealBlob (Ne.symm hk) n p q hq

/-- A rotation is safe to fail, and to run again, exactly if nothing in it fails, or the old key opens
    every secret and the failure comes before the first rewritten one (or the keys are the same). -/
theorem rotation_resumable_iff (w : Outage) (db : SecretDb) : Resumable c k₁ k₂ old new w db ↔
      Clear c k₁ w db ∨ OldOnly c k₁ k₂ db ∧ (k₁ = k₂ ∨ Untouched c k₁ w db) := by
  rcases all_or_first (Passes (Fit c k₁ w) w db) (rekeyLoops.flatMap db.loopOps) with
    hclear | ⟨before, op, after, hops, hpass, hfail⟩
  · -- nothing fails
    refine iff_of_true ?_ (.inl hclear)
    obtain ⟨⟨n, hok⟩, hcells⟩ := rekey_clear hold hnew hclear
    refine ⟨fun col id v p hv hp => ?_, fun _ _ col id v hv => ?_, fun e he => ?_⟩
    · obtain ⟨q, n, hq, hcell⟩ := hcells col id v hv
      obtain rfl := hp.unique (.inl hq)
      exact ⟨_, hcell, .inr (Crypto.opens_sealBlob n p)⟩
    · obtain ⟨p, n, hp, hcell⟩ := hcells col id v hv
      exact ⟨p, _, .inl hp, hcell, Crypto.opens_sealBlob n p⟩
    · rw [hok] at he
      cases he
  · have hnot : ¬ Clear c k₁ w db := fun h =>
      hfail (h op (hops ▸ mem_append_right before mem_cons_self))
    obtain ⟨⟨e, herr⟩, hswept⟩ := rekey_stopped hold hnew hops hpass hfail
    rw [or_iff_right hnot, Untouched, hops, atFirst_iff hpass hfail]
    constructor
    · intro h
      constructor
      · intro col id v p hv hp
        by_cases hhit : .row col.table id ∈ before
        · obtain ⟨q, n, hq, -⟩ := swept_sealed hold hnew hswept hv hhit
          exact ⟨q, hq⟩
        · obtain ⟨db', hmended, hopens⟩ := h.opens hold hnew herr
          exact hopens col id v (hmended.cell_of_plain (by rw [hswept.kept hhit, hv]) hp)
      · refine or_iff_not_imp_left.mpr fun hk col id hhit => ?_
        by_contra hsome
        obtain ⟨v, hv⟩ := Option.ne_none_iff_exists'.mp hsome
        exact not_resumable hold hnew hk hops hpass hfail hhit hv h
    · rintro ⟨honly, hsafe⟩
      refine ⟨fun col id v p hv hp => ?_, fun n hn => ?_, fun _ _ db' w' hmended hcalm => ?_⟩
      · obtain ⟨v', hcell, hp'⟩ := swept_plain hold hnew hswept hv hp
        exact ⟨v', hcell, hp'.imp_right And.right⟩
      · rw [herr] at hn
        cases hn
      have hopens : ∀ col id v, db'.cells col id = some v → ∃ p, c.Opens k₁ v p := by
        intro col id v' hv'
        rcases hmended.cell_cases hv' with ⟨p, hcell, hp⟩ | hp
        · by_cases hhit : .row col.table id ∈ before
          · rcases hsafe with rfl | huntouched
            · rcases hp with hp | ⟨-, hp⟩
              · exact ⟨p, hp⟩
              · exact ⟨p, hp⟩
            · have hrel := hswept.swept hhit
              rw [huntouched col id hhit, hcell] at hrel
              cases hrel
          · exact honly col id v' p (by rw [← hswept.kept hhit, hcell]) hp
        · exact hp
      obtain ⟨hok, hrotated⟩ := resumes_of_opens hold hnew hcalm hopens
      refine ⟨hok, hrotated, fun col id v p hv hp => ?_⟩
      obtain ⟨v', hcell, hp'⟩ := swept_plain hold hnew hswept hv hp
      obtain ⟨q, v'', hq, hcell', hopen⟩ := hrotated col id v' (hmended.cell_of_plain hcell hp')
      obtain rfl := hp'.unique hq
      exact ⟨v'', hcell', hopen⟩

end

end SecretDb

/-- A stand-in for base64 and the cipher: bytes are characters, and the key stands before the text. -/
def plainCrypto : Crypto where
  encode bytes := String.ofList (bytes.map fun b => Char.ofNat b.toNat)
  decode text := some (text.toList.map fun ch => UInt8.ofNat ch.toNat)
  encrypt k _ m := k.1 ++ m
  decrypt k _ m := if m.take 32 = k.1 then some (m.drop 32) else none
  decode_encode b := by
    have hchar : ∀ x : UInt8, UInt8.ofNat (Char.ofNat x.toNat).toNat = x := by
      intro x
      have hvalid : x.toNat.isValidChar := .inl (by have := x.toNat_lt; omega)
      rw [Char.ofNat, dif_pos hvalid]
      simp [Char.ofNatAux, Char.toNat]
    simp [Function.comp_def, hchar]
  encrypt_ne_nil k n m h := by
    have hk := congrArg List.length (append_eq_nil_iff.mp h).1
    rw [k.2] at hk
    cases hk
  decrypt_encrypt k n m := by
    rw [take_left' k.2, drop_left' k.2, if_pos rfl]
  authentic k k' n m hk := by
    rw [take_left' k.2, if_neg]
    exact fun h => hk (Subtype.ext h)

namespace SecretDb

def oldKeyText : String := "oooooooooooooooooooooooooooooooo"
def newKeyText : String := "nnnnnnnnnnnnnnnnnnnnnnnnnnnnnnnn"
def oldKey : SecretKey := ⟨List.replicate 32 111, rfl⟩
def newKey : SecretKey := ⟨List.replicate 32 110, rfl⟩

/-- Two users, stored before there was a key. -/
def twoUsers : SecretDb where
  rows t := if t = .users then [1, 2] else []
  cells col id := if col = .uuid ∧ (id = 1 ∨ id = 2) then some "7f" else none
  nodup t := by cases t <;> decide
  stored := by
    intro col id v h
    split at h
    · rename_i hc
      rw [hc.1]
      rcases hc.2 with rfl | rfl <;> decide
    · cases h

/-- The connection is lost at the second user, or never. -/
def lostAt (lost : Option Uuid) : Outage where
  select _ := none
  draw _ _ := .ok ⟨List.replicate 24 0, rfl⟩
  update _ id := if some id = lost then some "connection closed" else none

theorem oldKey_read : plainCrypto.cipherFromB64 oldKeyText = .ok oldKey := by rfl

theorem newKey_read : plainCrypto.cipherFromB64 newKeyText = .ok newKey := by rfl

theorem lostAt_none_calm : (lostAt none).Calm := ⟨fun _ => rfl, fun _ _ => ⟨_, rfl⟩, fun _ _ => rfl⟩

theorem twoUsers_opens (k : SecretKey) (col : SecretColumn) (id : Uuid) (v : String)
    (h : twoUsers.cells col id = some v) : ∃ p, plainCrypto.Opens k v p := by
  rw [twoUsers] at h
  dsimp only at h
  split at h
  · obtain rfl := Option.some.inj h
    exact ⟨"7f", rfl⟩
  · cases h

/-- A run that loses nothing. -/
theorem twoUsers_rotated : Resumable plainCrypto oldKey newKey oldKeyText newKeyText (lostAt none) twoUsers :=
  (rotation_resumable_iff oldKey_read newKey_read _ twoUsers).mpr
    (.inl ((clear_of_calm lostAt_none_calm).mpr (twoUsers_opens oldKey)))

/-- The connection is lost after the first of two users: the next run meets that user's value, which
    is under the new key already. -/
theorem twoUsers_stuck : ¬ Resumable plainCrypto oldKey newKey oldKeyText newKeyText (lostAt (some 2)) twoUsers := by
  have hops : rekeyLoops.flatMap twoUsers.loopOps =
      [.select .users, .row .users 1] ++ .row .users 2 :: [.select .subscriptions,
        .select .interfaces, .select .peers, .select .services, .select .realityKeys,
        .select .chainPasswords, .select .admins] := by decide
  have hcell : twoUsers.cells .uuid 1 = some "7f" := rfl
  refine not_resumable oldKey_read newKey_read (by decide) hops ?_ ?_ (by decide) hcell
  · intro op hop
    rcases mem_cons.mp hop with rfl | hop
    · rfl
    · obtain rfl := mem_singleton.mp hop
      exact ⟨rfl, fun col v _ hv => ⟨⟨_, rfl⟩, twoUsers_opens oldKey col 1 v hv⟩⟩
  · rintro ⟨hupdate, -⟩
    cases hupdate

/-! ### The two commands compared -/

section

variable (c : Crypto) (key : SecretKey)

/-- Every secret is a ciphertext under the key, of the plaintext it had. -/
def Reencrypted (db db' : SecretDb) : Prop :=
  ∀ col id v, db.cells col id = some v → ∃ v' b64 p, db'.cells col id = some v' ∧
    stripMarker v' = some b64 ∧ c.Opens key v p ∧ c.Opens key v' p

/-- The columns in which the loops rewrite a value. -/
def rewrittenColumns (loops : List (List SecretTable)) (db : SecretDb) : Set SecretColumn :=
  {col | ∃ id v, db.cells col id = some v ∧ .row col.table id ∈ loops.flatMap db.loopOps}

end

variable {c : Crypto} {key : SecretKey} {w : Outage} {db : SecretDb}

theorem rewrite_swept {value : SecretColumn → Uuid → String → Except String String}
    {loops : List (List SecretTable)} (hloops : loops.flatten.Nodup) (h : (db.rewrite value w loops).2 = .ok ()) :
    Swept value (fun col id => .row col.table id ∈ loops.flatMap db.loopOps) db (db.rewrite value w loops).1 := by
  rcases all_or_first (Passes (fun col id v => ∃ v', value col id v = .ok v') w db)
    (loops.flatMap db.loopOps) with hpass | ⟨before, op, after, hops, hpass, hfail⟩
  · obtain ⟨db', hrun, hswept⟩ := run_passed (db.loops_nodup hloops) hpass
    rw [rewrite, hrun]
    exact hswept
  · obtain ⟨db', e, hrun, -⟩ := run_stopped (hops ▸ db.loops_nodup hloops) hpass hfail
    rw [rewrite, hops, hrun] at h
    cases h

theorem reencrypt_swept {n : ℕ × ℕ} (h : (db.reencryptSecrets c (some key) w).2 = .ok n) :
    Swept (fun col id => c.reencryptValue (some key) (w.draw col id))
      (fun col id => .row col.table id ∈ reencryptLoops.flatMap db.loopOps) db
      (db.reencryptSecrets c (some key) w).1 := by
  have hrun : (db.rewrite (fun col id => c.reencryptValue (some key) (w.draw col id)) w
      reencryptLoops).2 = .ok () := by
    obtain ⟨u, hu, -⟩ := map_eq_ok.mp h
    exact hu
  exact rewrite_swept (by decide) hrun

theorem mem_reencryptLoops {t : SecretTable} : t ∈ reencryptLoops.flatten ↔ t ≠ .admins := by
  cases t <;> decide

theorem mem_rewrittenColumns {loops : List (List SecretTable)} {col : SecretColumn} :
    col ∈ rewrittenColumns loops db ↔ (∃ id v, db.cells col id = some v) ∧ col.table ∈ loops.flatten := by
  constructor
  · rintro ⟨id, v, hv, hrow⟩
    exact ⟨⟨id, v, hv⟩, (row_mem_loops.mp hrow).1⟩
  · rintro ⟨⟨id, v, hv⟩, hmem⟩
    exact ⟨id, v, hv, row_mem_loops.mpr ⟨hmem, db.stored hv⟩⟩

/-- A successful re-encryption leaves every secret sealed under the key in use, and covers the columns
    that a rotation covers, exactly if no administrator has a TOTP secret. -/
theorem reencrypt_complete_iff {n : ℕ × ℕ} (h : (db.reencryptSecrets c (some key) w).2 = .ok n) :
    (Reencrypted c key db (db.reencryptSecrets c (some key) w).1 ∧
        rewrittenColumns reencryptLoops db = rewrittenColumns rekeyLoops db) ↔
      ∀ id, db.cells .totpSecret id = none := by
  constructor
  · rintro ⟨-, hcols⟩ id
    by_contra hsome
    obtain ⟨v, hv⟩ := Option.ne_none_iff_exists'.mp hsome
    have hrekey : .totpSecret ∈ rewrittenColumns rekeyLoops db :=
      mem_rewrittenColumns.mpr ⟨⟨id, v, hv⟩, mem_rekeyLoops _⟩
    rw [← hcols] at hrekey
    exact mem_reencryptLoops.mp (mem_rewrittenColumns.mp hrekey).2 rfl
  · intro htotp
    have hcovered : ∀ {col id v}, db.cells col id = some v → col.table ∈ reencryptLoops.flatten := by
      intro col id v hv
      rw [mem_reencryptLoops]
      intro hadmins
      cases col with
      | totpSecret =>
        rw [htotp id] at hv
        cases hv
      | _ => cases hadmins
    constructor
    · intro col id v hv
      obtain ⟨v', hcell, hval⟩ := (reencrypt_swept h).cell (row_mem_loops.mpr ⟨hcovered hv, db.stored hv⟩) hv
      obtain ⟨p, m, hp, rfl⟩ := Crypto.reencryptValue_eq_ok hval
      exact ⟨_, _, p, hcell, stripMarker_append _, hp, Crypto.opens_sealBlob m p⟩
    · ext col
      rw [mem_rewrittenColumns, mem_rewrittenColumns]
      refine and_congr_right ?_
      rintro ⟨id, v, hv⟩
      exact iff_of_true (hcovered hv) (mem_rekeyLoops _)

theorem twoUsers_reencrypted : Reencrypted plainCrypto newKey twoUsers
        (twoUsers.reencryptSecrets plainCrypto (some newKey) (lostAt none)).1 ∧
      rewrittenColumns reencryptLoops twoUsers = rewrittenColumns rekeyLoops twoUsers :=
  (reencrypt_complete_iff (by rfl)).mpr fun _ => rfl

/-- An administrator whose second factor was set up before there was a key. -/
def oneAdmin : SecretDb where
  rows t := if t = .admins then [9] else []
  cells col id := if col = .totpSecret ∧ id = 9 then some "JBSWY3DP" else none
  nodup t := by cases t <;> decide
  stored := by
    intro col id v h
    split at h
    · rename_i hc
      rw [hc.1, hc.2]
      decide
    · cases h

/-- The TOTP secret is still in plain text after a re-encryption that reports success. -/
theorem oneAdmin_plain : (oneAdmin.reencryptSecrets plainCrypto (some newKey) (lostAt none)).2 = .ok (0, 0) ∧
      (oneAdmin.reencryptSecrets plainCrypto (some newKey) (lostAt none)).1.cells .totpSecret 9 = some "JBSWY3DP" ∧
      ¬ Reencrypted plainCrypto newKey oneAdmin
        (oneAdmin.reencryptSecrets plainCrypto (some newKey) (lostAt none)).1 := by
  have hcell : (oneAdmin.reencryptSecrets plainCrypto (some newKey) (lostAt none)).1.cells
      .totpSecret 9 = some "JBSWY3DP" := by rfl
  refine ⟨by rfl, hcell, fun h => ?_⟩
  obtain ⟨v', b64, p, hv', hmarked, -⟩ := h .totpSecret 9 "JBSWY3DP" rfl
  obtain rfl := Option.some.inj (hv'.symm.trans hcell)
  cases hmarked

end SecretDb

end Honey.Master
