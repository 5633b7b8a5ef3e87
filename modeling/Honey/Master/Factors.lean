import Honey.Master.Admins

/-! Two-factor login: the handlers under `/auth/totp` and the two columns of `admins` that they write.

        setup    --> new secret, flag off          whatever the flag was
        enable   --> flag on                       with a code for the secret
        disable  --> no secret, flag off           with a code, where the secret can be read

    The flag goes off by a code exactly where nobody sets up an account that is on, and where the
    secret of an account that is switched off can be read (`FactorKept`). -/

namespace Honey.Master
open Honey.Schemes

/-! ### Accounts -/

/-- `totp_secret` (sealed) and `totp_enabled` of an administrator. -/
structure Factor where
  adminId : Uuid
  secret : Option String
  enabled : Bool
  deriving DecidableEq, Repr

/-- `admin_recovery_codes`. -/
structure RecoveryCode where
  codeHash : String
  adminId : Uuid
  used : Bool
  deriving DecidableEq, Repr

/-- The tables behind identities, with what belongs to the second factor. An administrator without a
    row has the defaults of the columns. -/
structure AccountDb where
  auth : AuthDb
  factors : Table Factor.adminId
  codes : Table RecoveryCode.codeHash

/-- Sealing, and what comes from the libraries for one-time codes and pictures. -/
structure Seals where
  encrypt : String → String → Option String
  decrypt : String → Option String
  verifyTotp : String → ℤ → String → Bool
  url : String → String → Option String
  qr : String → Option String

namespace AccountDb

variable (s : AccountDb)

variable (a : Uuid)

def factor : Factor := (s.factors.find? a).getD ⟨a, none, false⟩

/-- `totp_enabled` of an administrator who is there. -/
def totpEnabled : Bool := (s.auth.admins.find? a).isSome && (s.factor a).enabled

/-- `get_admin_totp_secret`, unsealed; a secret that cannot be unsealed counts as none. -/
def totpSecret (k : Seals) (a : Uuid) : Option String :=
  if (s.auth.admins.find? a).isSome then (s.factor a).secret.bind k.decrypt else none

/-- `UPDATE admins SET totp_secret = …, totp_enabled = … WHERE id = …`. -/
def setFactor (secret : Option String) (enabled : Bool) : AccountDb :=
  if (s.auth.admins.find? a).isSome then { s with factors := s.factors.put ⟨a, secret, enabled⟩ } else s

/-- `count_unused_admin_recovery_codes`. -/
def unusedCodes : ℕ := (s.codes.rows.filter fun c => c.adminId = a ∧ ¬ c.used).length

/-- `replace_admin_recovery_codes`, in a transaction. -/
def replaceCodes (hashes : List String) : Except Refusal AccountDb :=
  let kept := s.codes.keep (·.adminId ≠ a)
  if hashes.Nodup ∧ ∀ h ∈ hashes, kept.find? h = none then
    .ok { s with codes := hashes.foldl (fun t h => t.put ⟨h, a, false⟩) kept }
  else .error .conflict

end AccountDb

/-! ### Handlers -/

/-- A request with its body and what its handler draws. -/
inductive FactorOp where
  | status
  | setup (secret nonce : String)
  | enable (code : String)
  | disable (code : String)
  | recoveryStatus
  | recoveryGenerate (code : String) (drawn : Option (List String))

def FactorOp.route : FactorOp → Method × String
  | .status => (.get, "/auth/totp")
  | .setup .. => (.post, "/auth/totp/setup")
  | .enable _ => (.post, "/auth/totp/enable")
  | .disable _ => (.post, "/auth/totp/disable")
  | .recoveryStatus => (.get, "/auth/totp/recovery")
  | .recoveryGenerate .. => (.post, "/auth/totp/recovery/generate")

inductive FactorAnswer where
  | done
  | status (enabled : Bool)
  | secret (secret url qr : String)
  | recovery (enabled : Bool) (remaining : ℕ)
  | codes (codes : List String)
  deriving DecidableEq, Repr

/-- Whether the reading statements of the handler fail, and its writing one. -/
structure FactorFaults where
  (reads writes : Bool)
  deriving DecidableEq, Repr

def Refusal.sessionRequired : Refusal := ⟨401, "session required", "M1207"⟩

/-- The refusal of `session_account`. -/
def Refusal.panelRequired : Refusal := .forbidden "admin sessions require a panel session"

section

variable (k : Seals) (now : ℤ) (f : FactorFaults) (a : Uuid) (s : AccountDb)

def totpStatus : AccountDb × Except Refusal FactorAnswer :=
  if f.reads then (s, .error .internal) else (s, .ok (.status (s.totpEnabled a)))

def totpSetup (username secret nonce : String) : AccountDb × Except Refusal FactorAnswer :=
  match k.encrypt nonce secret with
  | none => (s, .error .internal)
  | some sealed =>
    if f.writes then (s, .error .internal)
    else (s.setFactor a (some sealed) false,
      match (k.url secret username).bind fun url => (k.qr url).map fun qr => (url, qr) with
      | some (url, qr) => .ok (.secret secret url qr)
      | none => .error .internal)

def totpEnable (code : String) : AccountDb × Except Refusal FactorAnswer :=
  if f.reads then (s, .error .internal)
  else match s.totpSecret k a with
    | none => (s, .error (.badRequest "run two-factor setup first"))
    | some secret =>
      if ¬ k.verifyTotp secret now (trim code) then (s, .error (.badRequest "invalid code"))
      else if f.writes then (s, .error .internal)
      else (s.setFactor a (s.factor a).secret true, .ok .done)

/-- `totp_disable`: without a secret that can be read there is nothing to check. -/
def totpDisable (code : String) : AccountDb × Except Refusal FactorAnswer :=
  if f.reads then (s, .error .internal)
  else if (s.totpSecret k a).any fun secret => !k.verifyTotp secret now (trim code) then
    (s, .error (.badRequest "invalid code"))
  else if f.writes then (s, .error .internal)
  else (s.setFactor a none false, .ok .done)

def totpRecoveryStatus : AccountDb × Except Refusal FactorAnswer :=
  if f.reads then (s, .error .internal)
  else (s, .ok (.recovery (s.totpEnabled a) (s.unusedCodes a)))

/-- `totp_recovery_generate`; the ten codes are drawn before they are stored. -/
def totpRecoveryGenerate (tokenHash : String → String) (code : String) (drawn : Option (List String)) :
    AccountDb × Except Refusal FactorAnswer :=
  if f.reads then (s, .error .internal)
  else if (s.auth.admins.find? a).isNone then (s, .error .sessionRequired)
  else if ¬ s.totpEnabled a then
    (s, .error (.badRequest "enable two-factor before generating recovery codes"))
  else match s.totpSecret k a with
    | none => (s, .error (.badRequest "two-factor secret is unavailable"))
    | some secret =>
      if ¬ k.verifyTotp secret now (trim code) then (s, .error (.badRequest "invalid code"))
      else match drawn with
        | none => (s, .error .internal)
        | some codes =>
          if f.writes then (s, .error .internal)
          else match s.replaceCodes a (codes.map tokenHash) with
            | .error e => (s, .error e)
            | .ok s' => (s', .ok (.codes codes))

end

/-- What a handler says to an identity without an account. -/
def FactorOp.noAccount : FactorOp → Refusal
  | .recoveryStatus | .recoveryGenerate .. => .panelRequired
  | _ => .sessionRequired

variable (g : Gate) (k : Seals)

/-- The handlers, for an account and the name of the identity. -/
def handleAccount (now : ℤ) (f : FactorFaults) (a : Uuid) (username : String)
    (op : FactorOp) (s : AccountDb) : AccountDb × Except Refusal FactorAnswer :=
  match op with
  | .status => totpStatus f a s
  | .setup secret nonce => totpSetup k f a s username secret nonce
  | .enable code => totpEnable k now f a s code
  | .disable code => totpDisable k now f a s code
  | .recoveryStatus => totpRecoveryStatus f a s
  | .recoveryGenerate code drawn => totpRecoveryGenerate k now f a s g.tokenHash code drawn

def handleFactor (now : ℤ) (f : FactorFaults) (i : Identity) (op : FactorOp)
    (s : AccountDb) : AccountDb × Except Refusal FactorAnswer :=
  match i.adminId with
  | none => (s, .error op.noAccount)
  | some a => handleAccount g k now f a i.username op s

/-! ### Runs -/

structure FactorCall where
  now : ℤ
  faults : Faults
  writes : FactorFaults
  head : Head
  op : FactorOp

def FactorCall.request (c : FactorCall) : ApiRequest := ⟨c.head, c.op.route.1, c.op.route.2⟩

/-- A two-factor request, or anything else that happens to accounts. -/
inductive AccountEvent where
  | factor (c : FactorCall)
  | api (e : Event)

variable (s : AccountDb)

def answerFactor (c : FactorCall) : AccountDb × Except Refusal FactorAnswer :=
  match requireAuth g c.faults c.now s.auth c.request with
  | .error e => (s, .error e)
  | .ok i => handleFactor g k c.now c.writes i c.op s

def accountStep : AccountEvent → AccountDb
  | .factor c => (answerFactor g k s c).1
  | .api e => { s with auth := authStep g s.auth e }

/-- The event carries a code that is valid for the secret which the account has at that moment. -/
def DisabledByCode (a : Uuid) (s : AccountDb) (e : AccountEvent) : Prop :=
  ∃ c i code secret, e = .factor c ∧ c.op = .disable code ∧
    requireAuth g c.faults c.now s.auth c.request = .ok i ∧ i.adminId = some a ∧
    s.totpSecret k a = some secret ∧ k.verifyTotp secret c.now (trim code)

/-- The flag of every account goes off by such an event only. -/
def OffByCode (e : AccountEvent) : Prop :=
  ∀ a, s.totpEnabled a → (accountStep g k s e).totpEnabled a = false → DisabledByCode g k a s e

/-- No account that is on is set up again, and the secret of one that is to be switched off can be
    read; or the statements of the handler fail. -/
def FactorKept (e : AccountEvent) : Prop :=
  ∀ c i a, e = .factor c → requireAuth g c.faults c.now s.auth c.request = .ok i →
    i.adminId = some a → s.totpEnabled a →
      (∀ secret nonce, c.op = .setup secret nonce → k.encrypt nonce secret = none ∨ c.writes.writes) ∧
        ∀ code, c.op = .disable code → (s.totpSecret k a).isSome ∨ c.writes.reads ∨ c.writes.writes

section

variable {g : Gate} {k : Seals} {now : ℤ} {f : FactorFaults} {s : AccountDb} {a b : Uuid}

theorem factor_setFactor (ha : (s.auth.admins.find? a).isSome) (secret : Option String)
    (enabled : Bool) : (s.setFactor a secret enabled).factor b =
      if b = a then ⟨a, secret, enabled⟩ else s.factor b := by
  rw [AccountDb.setFactor, if_pos ha, AccountDb.factor, Table.find?_put]
  split
  · rfl
  · rfl

theorem totpEnabled_setFactor (secret : Option String) (enabled : Bool) : (s.setFactor a secret enabled).totpEnabled b =
      if b = a then (s.auth.admins.find? a).isSome && enabled else s.totpEnabled b := by
  by_cases ha : (s.auth.admins.find? a).isSome
  · have hauth : (s.setFactor a secret enabled).auth = s.auth := by
      rw [AccountDb.setFactor, if_pos ha]
    rw [AccountDb.totpEnabled, hauth, factor_setFactor ha]
    split
    · rename_i hb
      rw [hb]
    · rfl
  · rw [AccountDb.setFactor, if_neg ha]
    split
    · rename_i hb
      simp only [Bool.not_eq_true] at ha
      rw [hb, AccountDb.totpEnabled, ha, Bool.false_and, Bool.false_and]
    · rfl

theorem isSome_authStep (g : Gate) (db : AuthDb) (e : Event) (h : (db.admins.find? a).isSome) :
    ((authStep g db e).admins.find? a).isSome := by
  cases authStep_effect g db e with
  | same hsame => rwa [hsame]
  | created x hnew hput =>
    rw [hput, Table.find?_put]
    split
    · rfl
    · exact h
  | updated i x hash hash' input hi hop hcheck hrow hx hupdated =>
    obtain ⟨role, -, hfind⟩ := hupdated
    rw [hfind]
    split
    · rfl
    · exact h
  | deleted i r hi hop hfind => rwa [hfind, Option.isSome_map]

theorem totpRecoveryGenerate_codes (k : Seals) (now : ℤ) (f : FactorFaults) (a : Uuid) (s : AccountDb)
    (tokenHash : String → String) (code : String) (drawn : Option (List String)) :
    ∃ codes, (totpRecoveryGenerate k now f a s tokenHash code drawn).1 = { s with codes := codes } := by
  dsimp only [totpRecoveryGenerate]
  iterate 8
    split
    · exact ⟨_, rfl⟩
  rename_i hreplace
  rw [AccountDb.replaceCodes] at hreplace
  split at hreplace
  · exact ⟨_, (Except.ok.inj hreplace).symm⟩
  · cases hreplace

/-- What a handler can write: recovery codes, or the factor of one account. -/
theorem handleFactor_writes (g : Gate) (k : Seals) (now : ℤ) (f : FactorFaults) (i : Identity)
    (op : FactorOp) (s : AccountDb) : (∃ codes, (handleFactor g k now f i op s).1 = { s with codes := codes }) ∨
      ∃ a secret enabled, i.adminId = some a ∧ (handleFactor g k now f i op s).1 = s.setFactor a secret enabled ∧
        (enabled = true ∨
          (∃ secret nonce, op = .setup secret nonce ∧ k.encrypt nonce secret ≠ none ∧ f.writes = false) ∨
          ∃ code, op = .disable code ∧ f.reads = false ∧ f.writes = false ∧
            ∀ secret, s.totpSecret k a = some secret → k.verifyTotp secret now (trim code)) := by
  rw [handleFactor]
  cases hi : i.adminId with
  | none => exact .inl ⟨_, rfl⟩
  | some a =>
    cases op with
    | status =>
      dsimp only [handleAccount, totpStatus]
      split <;> exact .inl ⟨_, rfl⟩
    | setup secret nonce =>
      dsimp only [handleAccount, totpSetup]
      rcases hseal : k.encrypt nonce secret with _ | sealed
      · exact .inl ⟨_, rfl⟩
      cases f.writes with
      | true => exact .inl ⟨_, rfl⟩
      | false =>
        exact .inr ⟨a, some sealed, false, rfl, rfl, .inr (.inl ⟨secret, nonce, rfl, by simp [hseal], rfl⟩)⟩
    | enable code =>
      dsimp only [handleAccount, totpEnable]
      iterate 4
        split
        · exact .inl ⟨_, rfl⟩
      exact .inr ⟨a, _, true, rfl, rfl, .inl rfl⟩
    | disable code =>
      dsimp only [handleAccount, totpDisable]
      split
      · exact .inl ⟨_, rfl⟩
      rename_i hreads
      split
      · exact .inl ⟨_, rfl⟩
      rename_i hcode
      split
      · exact .inl ⟨_, rfl⟩
      rename_i hwrites
      refine .inr ⟨a, none, false, rfl, rfl, .inr (.inr ⟨code, rfl, by simpa using hreads,
        by simpa using hwrites, fun secret hsecret => ?_⟩)⟩
      simpa [hsecret] using hcode
    | recoveryStatus =>
      dsimp only [handleAccount, totpRecoveryStatus]
      split <;> exact .inl ⟨_, rfl⟩
    | recoveryGenerate code drawn =>
      exact .inl (totpRecoveryGenerate_codes k now f a s g.tokenHash code drawn)

theorem offByCode_of_kept {e : AccountEvent} (h : FactorKept g k s e) : OffByCode g k s e := by
  intro b hon hoff
  cases e with
  | api e =>
    rw [accountStep, AccountDb.totpEnabled] at hoff
    rw [AccountDb.totpEnabled, Bool.and_eq_true] at hon
    simp [isSome_authStep g s.auth e hon.1, AccountDb.factor] at hoff
    simp [AccountDb.factor, hoff] at hon
  | factor c =>
    rw [accountStep, answerFactor] at hoff
    cases hi : requireAuth g c.faults c.now s.auth c.request with
    | error e =>
      rw [hi] at hoff
      simp [hon] at hoff
    | ok i =>
      rw [hi] at hoff
      rcases handleFactor_writes g k c.now c.writes i c.op s with ⟨codes, hsame⟩ | ⟨a, secret, enabled, ha, hset, hwhy⟩
      · rw [hsame] at hoff
        cases hon.symm.trans hoff
      rw [hset, totpEnabled_setFactor] at hoff
      split at hoff
      · rename_i hb
        subst hb
        obtain ⟨hsetup, hdisable⟩ := h c i b rfl hi ha hon
        rcases hwhy with hon' | ⟨secret, nonce, hop, hseal, hwrites⟩ | ⟨code, hop, hreads, hwrites, hvalid⟩
        · rw [hon', Bool.and_true] at hoff
          rw [AccountDb.totpEnabled, hoff] at hon
          cases hon
        · rcases hsetup secret nonce hop with hfails | hfails
          · exact absurd hfails hseal
          · rw [hwrites] at hfails
            cases hfails
        -- the secret is there, so the code was checked against it
        rcases hdisable code hop with hsome | hfails | hfails
        · obtain ⟨stored, hstored⟩ := Option.isSome_iff_exists.mp hsome
          exact ⟨c, i, code, stored, rfl, hop, hi, ha, hstored, hvalid stored hstored⟩
        · rw [hreads] at hfails
          cases hfails
        · rw [hwrites] at hfails
          cases hfails
      · rw [hon] at hoff
        cases hoff

theorem kept_of_offByCode {e : AccountEvent} (h : OffByCode g k s e) : FactorKept g k s e := by
  rintro c i a rfl hi ha hon
  have hoff : (handleFactor g k c.now c.writes i c.op s).1 = s.setFactor a none false ∨
      (∃ sealed, (handleFactor g k c.now c.writes i c.op s).1 = s.setFactor a (some sealed) false) →
      DisabledByCode g k a s (.factor c) := by
    rintro hset
    refine h a hon ?_
    rw [accountStep, answerFactor, hi]
    rcases hset with hset | ⟨sealed, hset⟩ <;>
      rw [hset, totpEnabled_setFactor, if_pos rfl, Bool.and_false]
  constructor
  · intro secret nonce hop
    by_contra hno
    obtain ⟨hseal, hwrites⟩ := not_or.mp hno
    obtain ⟨sealed, hsealed⟩ := Option.ne_none_iff_exists'.mp hseal
    obtain ⟨c', i', code, stored, he, hop', -⟩ := hoff (.inr ⟨sealed, by
      rw [handleFactor, ha, hop]
      simp [handleAccount, totpSetup, hsealed, if_neg hwrites]⟩)
    obtain rfl := AccountEvent.factor.inj he
    rw [hop] at hop'
    cases hop'
  · intro code hop
    by_contra hno
    simp only [not_or, Bool.not_eq_true, Option.isSome_eq_false_iff, Option.isNone_iff_eq_none] at hno
    obtain ⟨hnone, hreads, hwrites⟩ := hno
    obtain ⟨c', i', code', stored, -, -, -, -, hstored, -⟩ := hoff (.inl (by
      rw [handleFactor, ha, hop]
      simp [handleAccount, totpDisable, hreads, hwrites, hnone]))
    rw [hnone] at hstored
    cases hstored

end

/-- Along every run, from every state: the flags go off by valid codes only, exactly if every step keeps the factors. -/
theorem off_by_code_iff (g : Gate) (k : Seals) (s : AccountDb) (es : List AccountEvent) :
    Always (accountStep g k) (OffByCode g k) s es ↔ Always (accountStep g k) (FactorKept g k) s es := by
  have hstep : ∀ s e, True → (OffByCode g k s e ↔ FactorKept g k s e) :=
    fun s e _ => ⟨kept_of_offByCode, offByCode_of_kept⟩
  exact always_iff (fun _ _ _ _ => trivial) hstep es s trivial

/-- Sealing by a mark; the only valid code is the secret itself. -/
def plainSeals : Seals where
  encrypt := fun _ text => some ("enc:" ++ text)
  decrypt := fun text => (text.toList.dropPrefix? "enc:".toList).map String.ofList
  verifyTotp := fun secret _ code => secret = code
  url := fun secret _ => some secret
  qr := some

/-- `carol` with the second factor on. -/
def factorDb (sealed : String) : AccountDb where
  auth := customDb .owner (.obj [])
  factors := Table.empty.put ⟨1, some sealed, true⟩
  codes := Table.empty

/-- A call of `carol`'s session. -/
def carolCall (op : FactorOp) : AccountEvent :=
  .factor ⟨0, .none, ⟨false, false⟩, cookieHead, op⟩

/-- Setting up again needs no code, and neither does switching off where the secret cannot be read. -/
theorem off_without_code : (factorDb "enc:s").totpEnabled 1 ∧
    (accountStep plainGate plainSeals (factorDb "enc:s") (carolCall (.setup "new" "n"))).totpEnabled 1 = false ∧
    (factorDb "lost").totpEnabled 1 ∧
    (accountStep plainGate plainSeals (factorDb "lost") (carolCall (.disable ""))).totpEnabled 1 = false := by
  decide +kernel

end Honey.Master
