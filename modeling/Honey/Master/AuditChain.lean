import Honey.Schemes.HashChain
import Honey.Schemes.Text
import Honey.Master.Json

/-! The audit log: what `record_audit` stamps, what the log's rows hold, and what its verification recomputes.

      record_audit (under the advisory lock)                     verify_audit_chain
      prev -- hash of the newest row                             prev -- hash of the row before
      INSERT … details (jsonb)     -->  rows, by id    -->       details, as read back
      hash (prev, id, actor, …, details' text, time)             hash (prev, id, actor, …, time) = stored?

    The stamp is a hash of bytes without lengths or tags: the stamp before, if there is one, the id, five texts that
    each end in NUL, and the time. The ids leave a NUL in their first byte, which keeps the encoding injective. The
    details are hashed as they were handed over, and verified as the column returns them. -/

namespace Honey.Master

open Honey.Schemes List Option

/-- SHA-256. -/
structure Digest where
  hash : List UInt8 → List UInt8
  length_hash : ∀ m, (hash m).length = 32

/-- `i64::to_be_bytes` -/
def be64 (x : BitVec 64) : List UInt8 :=
  [56, 48, 40, 32, 24, 16, 8, 0].map fun i => UInt8.ofBitVec ((x >>> i).setWidth 8)

/-- What a stamp covers, the details apart; the time is in microseconds. -/
structure AuditFields where
  id : ℕ
  actor : Option String
  (action resourceType : String)
  resourceId : Option String
  created : BitVec 64
  deriving DecidableEq, Repr

/-- The texts of an entry in the order in which they are hashed. -/
def AuditFields.texts (f : AuditFields) (details : String) : List String :=
  [f.actor.getD "", f.action, f.resourceType, f.resourceId.getD "", details]

/-- What `audit_chain_hash` hashes. -/
def auditChainInput (prev : Option (List UInt8)) (f : AuditFields) (details : String) : List UInt8 :=
  prev.getD [] ++ be64 (BitVec.ofNat 64 f.id) ++
    (f.texts details).flatMap (fun field => utf8 field ++ [0]) ++ be64 f.created

/-- `audit_chain_hash` -/
def Digest.auditChainHash (sha : Digest) (prev : Option (List UInt8)) (f : AuditFields)
    (details : String) : List UInt8 :=
  sha.hash (auditChainInput prev f details)

/-! ### The encoding -/

theorem length_be64 (x : BitVec 64) : (be64 x).length = 8 := rfl

theorem be64_inj {x y : BitVec 64} (h : be64 x = be64 y) : x = y := by
  apply BitVec.eq_of_getLsbD_eq
  intro i hi
  have hbyte : ∀ k ∈ [56, 48, 40, 32, 24, 16, 8, 0], ((x >>> k).setWidth 8 : BitVec 8) = (y >>> k).setWidth 8 := by
    intro k hk
    exact congrArg UInt8.toBitVec (map_inj_left.mp h k hk)
  have hk : 8 * (i / 8) ∈ [56, 48, 40, 32, 24, 16, 8, 0] := by
    have hlt : i / 8 < 8 := by omega
    interval_cases i / 8 <;> decide
  have hbit := congrArg (fun b => b.getLsbD (i % 8)) (hbyte _ hk)
  simpa [Nat.mod_lt, Nat.div_add_mod] using hbit

theorem be64_head {n : ℕ} (h : n < 2 ^ 56) : ∃ rest, be64 (BitVec.ofNat 64 n) = 0 :: rest := by
  refine ⟨_, cons_eq_cons.mpr ⟨?_, rfl⟩⟩
  have hbyte : ((BitVec.ofNat 64 n >>> 56).setWidth 8 : BitVec 8) = 0#8 := by
    apply BitVec.eq_of_toNat_eq
    simp only [BitVec.toNat_setWidth, BitVec.toNat_ushiftRight, BitVec.toNat_ofNat]
    omega
  exact congrArg UInt8.ofBitVec hbyte

theorem id_inj {m n : ℕ} (hm : m < 2 ^ 56) (hn : n < 2 ^ 56)
    (h : be64 (BitVec.ofNat 64 m) = be64 (BitVec.ofNat 64 n)) : m = n := by
  have htoNat := congrArg BitVec.toNat (be64_inj h)
  simp only [BitVec.toNat_ofNat] at htoNat
  omega

/-- The texts have no NUL. -/
def AuditFields.NoNul (f : AuditFields) (details : String) : Prop :=
  ∀ t ∈ f.texts details, 0 ∉ utf8 t

/-- The same entry; a missing text counts as an empty one. -/
def SameEntry (e e' : AuditFields × String) : Prop :=
  e.1.id = e'.1.id ∧ e.1.texts e.2 = e'.1.texts e'.2 ∧ e.1.created = e'.1.created

/-- The bytes before the first text are the stamp and the id: where only one of the two has a stamp, the
    NUL of the other's id stands in the middle of its first text. -/
theorem head_inj {p p' b b' t t' : List UInt8} (hp : p = [] ∨ p.length = 32)
    (hp' : p' = [] ∨ p'.length = 32) (hb : b.length = 8) (hb' : b'.length = 8)
    (hz : ∃ rest, b = 0 :: rest) (hz' : ∃ rest, b' = 0 :: rest) (ht : 0 ∉ t) (ht' : 0 ∉ t')
    (h : p ++ b ++ t = p' ++ b' ++ t') : p = p' ∧ b = b' ∧ t = t' := by
  -- a text that holds another's id holds its NUL
  have hmixed : ∀ {b p' b' t t' : List UInt8}, b.length = 8 → p'.length = 32 →
      (∃ rest, b' = 0 :: rest) → 0 ∉ t → b ++ t = p' ++ b' ++ t' → False := by
    rintro b p' b' t t' hb hp' ⟨rest, rfl⟩ ht h
    have hdrop := congrArg (drop 8) h
    rw [drop_left' hb, append_assoc, drop_append_of_le_length (by omega)] at hdrop
    exact ht (by simp [hdrop])
  rcases hp with rfl | hp
  · rcases hp' with rfl | hp'
    · obtain ⟨hbb, htt⟩ := append_inj h (hb.trans hb'.symm)
      exact ⟨rfl, hbb, htt⟩
    · exact (hmixed hb hp' hz' ht h).elim
  rcases hp' with rfl | hp'
  · exact (hmixed hb' hp hz ht' h.symm).elim
  rw [append_assoc, append_assoc] at h
  obtain ⟨hpp, h⟩ := append_inj h (hp.trans hp'.symm)
  obtain ⟨hbb, htt⟩ := append_inj h (hb.trans hb'.symm)
  exact ⟨hpp, hbb, htt⟩

theorem auditChainInput_eq (prev : Option (List UInt8)) (f : AuditFields) (details : String) :
    auditChainInput prev f details = (((((prev.getD [] ++ be64 (BitVec.ofNat 64 f.id) ++ utf8 (f.actor.getD "")) ++
        0 :: utf8 f.action) ++ 0 :: utf8 f.resourceType) ++ 0 :: utf8 (f.resourceId.getD "")) ++
        0 :: utf8 details) ++ 0 :: [] ++ be64 f.created := by
  simp [auditChainInput, AuditFields.texts]

/-- The stamp before and the entry can be read off what is hashed. -/
theorem auditChainInput_inj {prev prev' : Option (List UInt8)} {f f' : AuditFields} {d d' : String}
    (hprev : ∀ p, prev = some p → p.length = 32) (hprev' : ∀ p, prev' = some p → p.length = 32)
    (hid : f.id < 2 ^ 56) (hid' : f'.id < 2 ^ 56) (hnul : f.NoNul d) (hnul' : f'.NoNul d')
    (h : auditChainInput prev f d = auditChainInput prev' f' d') : prev = prev' ∧ SameEntry (f, d) (f', d') := by
  simp only [AuditFields.NoNul, AuditFields.texts, forall_mem_cons] at hnul hnul'
  obtain ⟨h₁, h₂, h₃, h₄, h₅, -⟩ := hnul
  obtain ⟨h₁', h₂', h₃', h₄', h₅', -⟩ := hnul'
  rw [auditChainInput_eq, auditChainInput_eq] at h
  obtain ⟨h, hcreated⟩ := append_inj' h rfl
  obtain ⟨h, -⟩ := append_mark_inj not_mem_nil not_mem_nil h
  obtain ⟨h, hdetails⟩ := append_mark_inj h₅ h₅' h
  obtain ⟨h, hresource⟩ := append_mark_inj h₄ h₄' h
  obtain ⟨h, htype⟩ := append_mark_inj h₃ h₃' h
  obtain ⟨h, haction⟩ := append_mark_inj h₂ h₂' h
  have hstamp : ∀ {prev : Option (List UInt8)}, (∀ p, prev = some p → p.length = 32) →
      prev.getD [] = [] ∨ (prev.getD []).length = 32 := by
    rintro (_ | p) hp
    · exact .inl rfl
    · exact .inr (hp p rfl)
  obtain ⟨hpp, hbb, hactor⟩ := head_inj (hstamp hprev) (hstamp hprev') (length_be64 _) (length_be64 _)
    (be64_head hid) (be64_head hid') h₁ h₁' h
  refine ⟨?_, id_inj hid hid' hbb, ?_, be64_inj hcreated⟩
  · have hne : ∀ p : List UInt8, p.length = 32 → p ≠ [] := by
      rintro _ hlen rfl
      cases hlen
    rcases prev with _ | p <;> rcases prev' with _ | p'
    · rfl
    · exact absurd hpp.symm (hne p' (hprev' p' rfl))
    · exact absurd hpp (hne p (hprev p rfl))
    · exact congrArg some hpp
  · simp [AuditFields.texts, utf8_inj hactor, utf8_inj haction, utf8_inj htype, utf8_inj hresource, utf8_inj hdetails]

/-! ### The details column -/

namespace Json

/-- What `jsonb` prints for a float's text: the exact decimal in plain notation, with no negative zero. (A text with an
    exponent has one digit before its point.) -/
def plainText (text : String) : String :=
  let (sign, body) : List Char × List Char := match text.toList with
    | '-' :: rest => (['-'], rest)
    | all => ([], all)
  match splitOnce 'e' body with
  | none => if text = "-0.0" then "0.0" else text
  | some (mantissa, '-' :: exponent) =>
    .ofList (sign ++ '0' :: '.' :: replicate ((decimal exponent).getD 0 - 1) '0' ++ mantissa.filter (· ≠ '.'))
  | some (mantissa, exponent) =>
    let k := (decimal exponent).getD 0
    let (whole, decimals) := (splitOnce '.' mantissa).getD (mantissa, [])
    let rest := if decimals.length ≤ k then [] else '.' :: decimals.drop k
    .ofList (sign ++ whole ++ decimals.take k ++ replicate (k - decimals.length) '0' ++ rest)

/-- The order of the keys in a `jsonb` object: shorter ones first. -/
def jsonbLe (f g : String × Json) : Bool :=
  f.1.utf8ByteSize < g.1.utf8ByteSize || (f.1.utf8ByteSize = g.1.utf8ByteSize && f.1 ≤ g.1)

section

-- how `serde_json` reads a number
variable (parse : String → Json)

mutual

/-- A value that was written to a `jsonb` column and read back. -/
def column : Json → Json
  | .float text => parse (plainText text)
  | .arr items => .arr (columnItems items)
  | .obj fields => object ((columnFields fields).insertionSort fun f g => jsonbLe f g)
  | .null => .null
  | .bool b => .bool b
  | .int n => .int n
  | .str s => .str s

def columnItems : List Json → List Json
  | [] => []
  | j :: js => column j :: columnItems js

def columnFields : List (String × Json) → List (String × Json)
  | [] => []
  | (k, v) :: fs => (k, column v) :: columnFields fs

end

mutual

/-- The text of every float comes back from the column. -/
def Steady : Json → Prop
  | .float text => parse (plainText text) = .float text
  | .arr items => SteadyItems items
  | .obj fields => SteadyFields fields
  | _ => True

def SteadyItems : List Json → Prop
  | [] => True
  | j :: js => Steady j ∧ SteadyItems js

def SteadyFields : List (String × Json) → Prop
  | [] => True
  | (_, v) :: fs => Steady v ∧ SteadyFields fs

end

end

mutual

/-- The keys of every object are in order, as in every value of `serde_json`. -/
def Tidy : Json → Prop
  | .arr items => TidyItems items
  | .obj fields => (fields.map (·.1)).Pairwise (· < ·) ∧ TidyFields fields
  | _ => True

def TidyItems : List Json → Prop
  | [] => True
  | j :: js => Tidy j ∧ TidyItems js

def TidyFields : List (String × Json) → Prop
  | [] => True
  | (_, v) :: fs => Tidy v ∧ TidyFields fs

end

theorem insertField_spec {k : String} {v : Json} : ∀ {fs : List (String × Json)},
    (fs.map (·.1)).Pairwise (· < ·) → k ∉ fs.map (·.1) →
    (insertField k v fs).Perm ((k, v) :: fs) ∧ ((insertField k v fs).map (·.1)).Pairwise (· < ·)
  | [], _, _ => ⟨.refl _, pairwise_singleton _ _⟩
  | (k', v') :: fs, hsorted, hnew => by
    rw [map_cons, mem_cons, not_or] at hnew
    have hsorted' := hsorted
    rw [map_cons, pairwise_cons] at hsorted'
    rw [insertField]
    split
    · rename_i hlt
      refine ⟨.refl _, pairwise_cons.mpr ⟨?_, hsorted⟩⟩
      intro x hx
      rcases mem_cons.mp hx with rfl | hx
      · exact hlt
      · exact hlt.trans (hsorted'.1 x hx)
    rename_i hlt
    obtain ⟨hperm, hpw⟩ := insertField_spec hsorted'.2 hnew.2
    rw [if_neg hnew.1]
    refine ⟨(hperm.cons _).trans (.swap _ _ _), pairwise_cons.mpr ⟨?_, hpw⟩⟩
    intro x hx
    rcases mem_cons.mp ((hperm.map (·.1)).mem_iff.mp hx) with rfl | hx
    · exact lt_of_le_of_ne (not_lt.mp hlt) (Ne.symm hnew.1)
    · exact hsorted'.1 x hx

theorem foldl_insertField_spec : ∀ {fs acc : List (String × Json)}, (acc.map (·.1)).Pairwise (· < ·) →
    ((fs ++ acc).map (·.1)).Nodup →
    (fs.foldl (fun acc f => insertField f.1 f.2 acc) acc).Perm (fs ++ acc) ∧
      ((fs.foldl (fun acc f => insertField f.1 f.2 acc) acc).map (·.1)).Pairwise (· < ·)
  | [], acc, hacc, _ => ⟨.refl _, hacc⟩
  | f :: fs, acc, hacc, hnodup => by
    rw [cons_append, map_cons, nodup_cons, map_append, mem_append, not_or] at hnodup
    obtain ⟨hperm, hpw⟩ := insertField_spec hacc hnodup.1.2
    have hmiddle : (fs ++ insertField f.1 f.2 acc).Perm (f :: (fs ++ acc)) := (hperm.append_left fs).trans perm_middle
    have hrest : ((fs ++ insertField f.1 f.2 acc).map (·.1)).Nodup := by
      rw [(hmiddle.map _).nodup_iff, map_cons, nodup_cons, map_append, mem_append, not_or]
      exact hnodup
    obtain ⟨hperm', hpw'⟩ := foldl_insertField_spec hpw hrest
    exact ⟨hperm'.trans hmiddle, hpw'⟩

/-- An object in order is the same after its fields were moved about and inserted again. -/
theorem object_of_perm {fs gs : List (String × Json)} (hsorted : (fs.map (·.1)).Pairwise (· < ·))
    (hperm : gs.Perm fs) : object gs = .obj fs := by
  have hnodup : ((gs ++ ([] : List (String × Json))).map (·.1)).Nodup := by
    rw [append_nil, (hperm.map _).nodup_iff]
    exact hsorted.imp ne_of_lt
  obtain ⟨hp, hs⟩ := foldl_insertField_spec Pairwise.nil hnodup
  rw [append_nil] at hp
  rw [pairwise_map] at hs hsorted
  rw [object, Perm.eq_of_pairwise _ hs hsorted (hp.trans hperm)]
  intro a b _ _ hab hba
  exact absurd hab (lt_asymm hba)

variable {parse : String → Json}

mutual

theorem column_steady : ∀ {j : Json}, j.Tidy → j.Steady parse → j.column parse = j
  | .null, _, _ => by rw [column]
  | .bool _, _, _ => by rw [column]
  | .int _, _, _ => by rw [column]
  | .str _, _, _ => by rw [column]
  | .float text, _, hs => by
    rw [column]
    exact hs
  | .arr items, ht, hs => by
    rw [column, columnItems_steady ht hs]
  | .obj fields, ht, hs => by
    rw [column, columnFields_steady ht.2 hs]
    exact object_of_perm ht.1 (perm_insertionSort _ _)

theorem columnItems_steady : ∀ {js : List Json}, TidyItems js → SteadyItems parse js → columnItems parse js = js
  | [], _, _ => rfl
  | j :: js, ht, hs => by
    rw [columnItems, column_steady ht.1 hs.1, columnItems_steady ht.2 hs.2]

theorem columnFields_steady : ∀ {fs : List (String × Json)}, TidyFields fs → SteadyFields parse fs →
    columnFields parse fs = fs
  | [], _, _ => rfl
  | (k, v) :: fs, ht, hs => by
    rw [columnFields, column_steady ht.1 hs.1, columnFields_steady ht.2 hs.2]

end

end Json

/-! ### The log -/

/-- A row of `audit_events`, with the details as they read; what is not hashed is left out. -/
structure AuditRow where
  fields : AuditFields
  details : String
  hash : Option (List UInt8)
  deriving DecidableEq, Repr

/-- The arguments of `record_audit`, the time at which its row is inserted, and the ids that
    transactions before it drew and rolled back. -/
structure AuditEntry where
  actor : Option String
  (action resourceType : String)
  resourceId : Option String
  details : Json
  created : BitVec 64
  gap : ℕ
  tidy : details.Tidy

/-- The table, by id, and its sequence of ids. -/
structure AuditLog where
  rows : List AuditRow
  seq : ℕ
  ascending : (rows.map (·.fields.id)).Pairwise (· < ·)
  bounded : ∀ r ∈ rows, r.fields.id ≤ seq

namespace AuditLog

/-- `SELECT entry_hash … ORDER BY id DESC LIMIT 1` -/
def lastHash (log : AuditLog) : Option (List UInt8) := log.rows.getLast?.bind (·.hash)

/-- What the new row says, the details apart. -/
def newFields (log : AuditLog) (e : AuditEntry) : AuditFields :=
  ⟨log.seq + e.gap + 1, e.actor, e.action, e.resourceType, e.resourceId, e.created⟩

/-- The stamp: the details are hashed as they were handed over. -/
def stamp (sha : Digest) (log : AuditLog) (e : AuditEntry) : List UInt8 :=
  sha.auditChainHash log.lastHash (log.newFields e) e.details.render

/-- `record_audit`: one transaction, alone under the advisory lock. -/
def recordAudit (sha : Digest) (reread : Json → String) (log : AuditLog) (e : AuditEntry) : AuditLog where
  rows := log.rows ++ [⟨log.newFields e, reread e.details, some (log.stamp sha e)⟩]
  seq := log.seq + e.gap + 1
  ascending := by
    rw [map_append, pairwise_append]
    refine ⟨log.ascending, pairwise_singleton _ _, ?_⟩
    intro id hid id' hid'
    obtain ⟨r, hr, rfl⟩ := List.mem_map.mp hid
    obtain rfl := mem_singleton.mp hid'
    have hle := log.bounded r hr
    simp only [newFields]
    omega
  bounded := by
    intro r hr
    rcases mem_append.mp hr with hr | hr
    · have hle := log.bounded r hr
      omega
    · obtain rfl := mem_singleton.mp hr
      exact le_rfl

end AuditLog

/-- What `verify_audit_chain` answers. -/
structure AuditVerdict where
  intact : Bool
  verifiedEntries : ℕ
  brokenAt : Option ℕ
  deriving DecidableEq, Repr

/-- The loop over the rows: how many were checked, and the id of the one that broke it off. -/
def verifyRows (sha : Digest) : Option (List UInt8) → ℕ → List AuditRow → ℕ × Option ℕ
  | _, checked, [] => (checked, none)
  | prev, checked, r :: rows => match r.hash with
    | none => verifyRows sha none checked rows
    | some stored =>
      if sha.auditChainHash prev r.fields r.details ≠ stored then (checked + 1, some r.fields.id)
      else verifyRows sha (some stored) (checked + 1) rows

/-- `verify_audit_chain` -/
def verifyAuditChain (sha : Digest) (rows : List AuditRow) : AuditVerdict :=
  let (checked, brokenAt) := verifyRows sha none 0 rows
  ⟨brokenAt.isNone, checked, brokenAt⟩

/-! ### Altered logs -/

/-- The rows that carry a hash, as a chain. -/
def rowChain (rows : List AuditRow) : List ((AuditFields × String) × List UInt8) :=
  ((rows.filter (·.hash.isSome)).map fun r => ((r.fields, r.details), r.hash.getD [])).reverse

/-- How the program links an entry to the stamp before it. -/
def Digest.link (sha : Digest) (prev : Option (List UInt8)) (e : AuditFields × String) : List UInt8 :=
  sha.auditChainHash prev e.1 e.2

variable {sha : Digest}

theorem linked_of_verified : ∀ {rows : List AuditRow} {prev : Option (List UInt8)}
    {n : ℕ} {acc : List ((AuditFields × String) × List UInt8)}, (∀ r ∈ rows, r.hash ≠ none) →
    (verifyRows sha prev n rows).2 = none → ChainLinked sha.link acc → newest acc = prev →
    ChainLinked sha.link (rowChain rows ++ acc)
  | [], _, _, acc, _, _, hacc, _ => hacc
  | r :: rows, prev, n, acc, hall, hok, hacc, hnew => by
    rw [forall_mem_cons] at hall
    obtain ⟨h, hr⟩ := ne_none_iff_exists'.mp hall.1
    rw [verifyRows, hr] at hok
    dsimp only at hok
    split at hok
    · cases hok
    rename_i hstored
    have hchain : rowChain (r :: rows) ++ acc = rowChain rows ++ ((r.fields, r.details), h) :: acc := by
      simp [rowChain, hr]
    rw [hchain]
    refine linked_of_verified hall.2 hok ⟨?_, hacc⟩ rfl
    rw [hnew]
    exact (not_not.mp hstored).symm

theorem verifyRows_legacy : ∀ {legacy rows : List AuditRow} {n : ℕ}, (∀ r ∈ legacy, r.hash = none) →
    verifyRows sha none n (legacy ++ rows) = verifyRows sha none n rows
  | [], _, _, _ => rfl
  | r :: legacy, rows, n, h => by
    rw [forall_mem_cons] at h
    rw [cons_append, verifyRows, h.1]
    exact verifyRows_legacy h.2

namespace AuditLog

variable (sha : Digest) (reread : Json → String)

/-- The entries with their stamps, as `record_audit` hashed them, oldest first. -/
def written : AuditLog → List AuditEntry → List ((AuditFields × String) × List UInt8)
  | _, [] => []
  | log, e :: es => ((log.newFields e, e.details.render), log.stamp sha e) :: written (log.recordAudit sha reread e) es

theorem lastHash_recordAudit (log : AuditLog) (e : AuditEntry) :
    (log.recordAudit sha reread e).lastHash = some (log.stamp sha e) := by
  simp [lastHash, recordAudit]

/-- A run keeps the chain of what it hashed linked, and its newest stamp is the log's. -/
theorem written_linked : ∀ {es : List AuditEntry} {log : AuditLog}
    {acc : List ((AuditFields × String) × List UInt8)}, ChainLinked sha.link acc →
    newest acc = log.lastHash →
    ChainLinked sha.link ((written sha reread log es).reverse ++ acc) ∧
      newest ((written sha reread log es).reverse ++ acc) = (es.foldl (recordAudit sha reread) log).lastHash
  | [], _, _, hacc, hnew => ⟨hacc, hnew⟩
  | e :: es, log, acc, hacc, hnew => by
    rw [written, reverse_cons, append_assoc, singleton_append]
    exact written_linked ⟨by rw [hnew]; rfl, hacc⟩ (lastHash_recordAudit sha reread log e).symm

/-- What a run adds to the log: a row for every entry. -/
theorem rows_foldl : ∀ (es : List AuditEntry) (log : AuditLog), ∃ rows,
    (es.foldl (recordAudit sha reread) log).rows = log.rows ++ rows ∧ (∀ r ∈ rows, r.hash ≠ none) ∧
      List.Forall₂ (fun w r => r.fields = w.1.1 ∧ r.hash = some w.2) (written sha reread log es) rows
  | [], log => ⟨[], by simp, by simp, .nil⟩
  | e :: es, log => by
    obtain ⟨rows, hrows, hhash, hrel⟩ := rows_foldl es _
    refine ⟨⟨log.newFields e, reread e.details, some _⟩ :: rows, ?_,
      forall_mem_cons.mpr ⟨some_ne_none _, hhash⟩, .cons ⟨rfl, rfl⟩ hrel⟩
    rw [foldl_cons, hrows, recordAudit, append_assoc]
    rfl

end AuditLog

/-- Rows without a hash come before all others. -/
def LegacyFirst (rows : List AuditRow) : Prop :=
  rows.Pairwise fun r r' => r.hash.isSome → r'.hash.isSome

/-- An id and texts that the encoding can tell apart. -/
def Readable (e : AuditFields × String) : Prop := e.1.id < 2 ^ 56 ∧ e.1.NoNul e.2

theorem LegacyFirst.split : ∀ {rows : List AuditRow}, LegacyFirst rows →
    ∃ legacy chained, rows = legacy ++ chained ∧ (∀ r ∈ legacy, r.hash = none) ∧ ∀ r ∈ chained, r.hash ≠ none
  | [], _ => ⟨[], [], rfl, by simp, by simp⟩
  | r :: rows, h => by
    rw [LegacyFirst, pairwise_cons] at h
    rcases hr : r.hash with _ | k
    · obtain ⟨legacy, chained, rfl, hl, hc⟩ := LegacyFirst.split h.2
      exact ⟨r :: legacy, chained, rfl, forall_mem_cons.mpr ⟨hr, hl⟩, hc⟩
    · refine ⟨[], r :: rows, rfl, by simp, forall_mem_cons.mpr ⟨by simp [hr], ?_⟩⟩
      intro r' hr'
      exact isSome_iff_ne_none.mp (h.1 r' hr' (by simp [hr]))

theorem filter_chained {legacy chained : List AuditRow} (hl : ∀ r ∈ legacy, r.hash = none)
    (hc : ∀ r ∈ chained, r.hash ≠ none) : (legacy ++ chained).filter (·.hash.isSome) = chained := by
  rw [filter_append, filter_eq_nil_iff.mpr, filter_eq_self.mpr, nil_append]
  · intro r hr
    exact isSome_iff_ne_none.mpr (hc r hr)
  · intro r hr
    simp [hl r hr]

theorem rowChain_legacy {legacy : List AuditRow} (hl : ∀ r ∈ legacy, r.hash = none)
    (rows : List AuditRow) : rowChain (legacy ++ rows) = rowChain rows := by
  rw [rowChain, filter_append, filter_eq_nil_iff.mpr, nil_append, rowChain]
  intro r hr
  simp [hl r hr]

theorem newest_rowChain {legacy chained : List AuditRow} (hl : ∀ r ∈ legacy, r.hash = none)
    (hc : ∀ r ∈ chained, r.hash ≠ none) :
    newest (rowChain (legacy ++ chained)) = (legacy ++ chained).getLast?.bind (·.hash) := by
  rw [rowChain, filter_chained hl hc, newest]
  rcases eq_nil_or_concat chained with rfl | ⟨init, r, rfl⟩
  · rw [append_nil]
    rcases hlast : legacy.getLast? with _ | r
    · rfl
    · rw [bind_some, hl r (mem_of_getLast? hlast)]
      rfl
  · obtain ⟨h, hr⟩ := ne_none_iff_exists'.mp (hc r (by simp))
    simp [hr]

theorem bind_hash (r : Option AuditRow) : r.bind (·.hash) = (r.map fun r => (r.fields.id, r.hash)).bind (·.2) := by
  cases r <;> rfl

theorem linked_of_intact {legacy chained : List AuditRow} (hl : ∀ r ∈ legacy, r.hash = none)
    (hc : ∀ r ∈ chained, r.hash ≠ none) (h : (verifyAuditChain sha (legacy ++ chained)).intact = true) :
    ChainLinked sha.link (rowChain (legacy ++ chained)) := by
  rw [verifyAuditChain, verifyRows_legacy hl] at h
  have hlinked : ChainLinked sha.link (rowChain chained ++ []) :=
    linked_of_verified hc (isNone_iff_eq_none.mp h) trivial rfl
  rwa [append_nil, ← rowChain_legacy hl chained] at hlinked

theorem legacy_written_linked (sha : Digest) (reread : Json → String) {legacy : AuditLog}
    (hlegacy : ∀ r ∈ legacy.rows, r.hash = none) (es : List AuditEntry) :
    ChainLinked sha.link (legacy.written sha reread es).reverse ∧ newest (legacy.written sha reread es).reverse =
        (es.foldl (AuditLog.recordAudit sha reread) legacy).lastHash := by
  have hlast : legacy.lastHash = none := by
    rw [AuditLog.lastHash, bind_eq_none_iff]
    intro r hr
    exact hlegacy r (mem_of_getLast? hr)
  have hnil : ChainLinked sha.link [] := trivial
  have hlinked : ChainLinked sha.link ((legacy.written sha reread es).reverse ++ []) ∧
      newest ((legacy.written sha reread es).reverse ++ []) =
        (es.foldl (AuditLog.recordAudit sha reread) legacy).lastHash :=
    AuditLog.written_linked sha reread hnil hlast.symm
  rwa [append_nil] at hlinked

/-- A log that `record_audit` wrote after rows without a hash, and an altered one that verifies and ends in the same id
    and hash: the rows with a hash are those of the entries that were recorded, in both. The links of the two logs must
    not collide, where they differ, and a hash-less row must not follow one with a hash. -/
theorem chain_tamper_evident (sha : Digest) (reread : Json → String) (legacy : AuditLog)
    (es : List AuditEntry) (altered : List AuditRow) (hlegacy : ∀ r ∈ legacy.rows, r.hash = none)
    (hwritten : ∀ w ∈ legacy.written sha reread es, Readable w.1)
    (haltered : ∀ r ∈ altered, Readable (r.fields, r.details)) (hfirst : LegacyFirst altered)
    (hfree : ∀ p ∈ links (legacy.written sha reread es).reverse,
      ∀ q ∈ links (rowChain altered), sha.link p.1 p.2 = sha.link q.1 q.2 →
        auditChainInput p.1 p.2.1 p.2.2 = auditChainInput q.1 q.2.1 q.2.2)
    (hintact : (verifyAuditChain sha altered).intact = true)
    (hlast : (altered.getLast?.map fun r => (r.fields.id, r.hash)) =
      ((es.foldl (AuditLog.recordAudit sha reread) legacy).rows.getLast?.map fun r => (r.fields.id, r.hash))) :
    List.Forall₂ (fun w r => r.fields = w.1.1 ∧ r.hash = some w.2) (legacy.written sha reread es)
        ((es.foldl (AuditLog.recordAudit sha reread) legacy).rows.filter (·.hash.isSome)) ∧
      List.Forall₂ (fun w r => SameEntry w.1 (r.fields, r.details) ∧ r.hash = some w.2)
        (legacy.written sha reread es) (altered.filter (·.hash.isSome)) := by
  obtain ⟨rows, hrows, hhash, hrel⟩ := AuditLog.rows_foldl sha reread es legacy
  obtain ⟨before, chained, rfl, hbefore, hchained⟩ := hfirst.split
  refine ⟨by rwa [hrows, filter_chained hlegacy hhash], ?_⟩
  -- the two chains are linked and have the same newest stamp
  obtain ⟨hlinked, hnewest⟩ := legacy_written_linked sha reread hlegacy es
  have hlinked' := linked_of_intact hbefore hchained hintact
  have hnewest' := newest_rowChain hbefore hchained
  have hsame : newest (legacy.written sha reread es).reverse = newest (rowChain (before ++ chained)) := by
    rw [hnewest, hnewest', AuditLog.lastHash, bind_hash, bind_hash, hlast]
  -- so they agree, going back from there
  have hagree : Forall₂ (fun x y => SameEntry x.1 y.1 ∧ x.2 = y.2)
      (legacy.written sha reread es).reverse (rowChain (before ++ chained)) := by
    refine linked_agree hlinked hlinked' hsame fun p hp q hq heq => ?_
    have hlen : ∀ prev e, (sha.link prev e).length = 32 := fun _ _ => sha.length_hash _
    have hpread : Readable p.2 := by
      have hmem := mem_map_of_mem (f := (·.2)) hp
      rw [links_entries] at hmem
      obtain ⟨w, hw, hwp⟩ := mem_map.mp hmem
      exact hwp ▸ hwritten w (mem_reverse.mp hw)
    have hqread : Readable q.2 := by
      have hmem := mem_map_of_mem (f := (·.2)) hq
      rw [links_entries] at hmem
      obtain ⟨y, hy, hyq⟩ := mem_map.mp hmem
      obtain ⟨r, hr, rfl⟩ := mem_map.mp (mem_reverse.mp hy)
      exact hyq ▸ haltered r (mem_filter.mp hr).1
    exact auditChainInput_inj (links_stamps hlen hlinked p hp) (links_stamps hlen hlinked' q hq)
      hpread.1 hqread.1 hpread.2 hqread.2 (hfree p hp q hq heq)
  rw [rowChain, forall₂_reverse_iff, forall₂_map_right_iff, filter_chained hbefore hchained] at hagree
  rw [filter_chained hbefore hchained]
  refine ((forall₂_and_left _ _).mpr ⟨hchained, hagree.flip⟩).flip.imp ?_
  rintro w r ⟨hsome, hentry, hstamp⟩
  obtain ⟨k, hk⟩ := ne_none_iff_exists'.mp hsome
  exact ⟨hentry, by rw [hstamp, hk]; rfl⟩

/-- A stand-in for SHA-256: the last bytes, in reverse. -/
def lastBytes : Digest where
  hash m := (m.reverse ++ List.replicate 32 0).take 32
  length_hash m := by simp

/-- A log with a row from before there were hashes. -/
def oneLegacy : AuditLog where
  rows := [⟨⟨4, none, "login", "session", none, 7⟩, "", none⟩]
  seq := 4
  ascending := pairwise_singleton _ _
  bounded := by simp

def loginEntry : AuditEntry := ⟨some "admin", "login", "session", none, .null, 9, 0, trivial⟩

/-- The row without a hash is deleted; those with one cannot be altered. -/
theorem logins_evident : let es := [loginEntry, { loginEntry with created := 10 }]
    let rows := (es.foldl (AuditLog.recordAudit lastBytes Json.render) oneLegacy).rows
    List.Forall₂ (fun w r => r.fields = w.1.1 ∧ r.hash = some w.2) (oneLegacy.written lastBytes Json.render es)
        (rows.filter (·.hash.isSome)) ∧
      List.Forall₂ (fun w r => SameEntry w.1 (r.fields, r.details) ∧ r.hash = some w.2)
        (oneLegacy.written lastBytes Json.render es) ((rows.drop 1).filter (·.hash.isSome)) :=
  chain_tamper_evident lastBytes Json.render oneLegacy _ _
    (by decide) (by unfold Readable AuditFields.NoNul; decide +kernel)
    (by unfold Readable AuditFields.NoNul; decide +kernel) (by unfold LegacyFirst; decide +kernel)
    (by decide +kernel) (by decide +kernel) (by decide +kernel)

/-! ### Untouched logs -/

/-- The details as the column returns them, and as verification prints them. -/
def rereadDetails (parse : String → Json) (j : Json) : String := (j.column parse).render

/-- The hash that the loop carries past the rows. -/
def hashAfter (prev : Option (List UInt8)) (rows : List AuditRow) : Option (List UInt8) :=
  (rows.getLast?.map (·.hash)).getD prev

theorem verifyRows_concat {r : AuditRow} {h : List UInt8} (hr : r.hash = some h) :
    ∀ {rows : List AuditRow} {prev : Option (List UInt8)} {n : ℕ},
    (verifyRows sha prev n (rows ++ [r])).2 = none ↔ (verifyRows sha prev n rows).2 = none ∧
      sha.auditChainHash (hashAfter prev rows) r.fields r.details = h
  | [], prev, n => by
    by_cases heq : sha.auditChainHash prev r.fields r.details = h
    · simp [verifyRows, hr, hashAfter, heq]
    · simp [verifyRows, hr, hashAfter, heq]
  | x :: rows, prev, n => by
    have hafter : ∀ p, p = x.hash → hashAfter prev (x :: rows) = hashAfter p rows := by
      rintro p rfl
      rw [hashAfter, hashAfter, getLast?_cons]
      cases rows.getLast? <;> rfl
    rw [cons_append, verifyRows, verifyRows]
    cases hx : x.hash with
    | none =>
      rw [hafter none hx.symm]
      exact verifyRows_concat hr
    | some stored =>
      dsimp only
      split
      · simp
      · rw [hafter _ hx.symm]
        exact verifyRows_concat hr

theorem hashAfter_none (log : AuditLog) : hashAfter none log.rows = log.lastHash := by
  rw [hashAfter, AuditLog.lastHash]
  cases log.rows.getLast? <;> rfl

theorem recordAudit_intact {parse : String → Json} {log : AuditLog} {e : AuditEntry} (hsteady : e.details.Steady parse)
    (h : (verifyAuditChain sha log.rows).intact = true) :
    (verifyAuditChain sha (log.recordAudit sha (rereadDetails parse) e).rows).intact = true := by
  have hread : rereadDetails parse e.details = e.details.render := by
    rw [rereadDetails, Json.column_steady e.tidy hsteady]
  have hrow : (verifyRows sha none 0 (log.recordAudit sha (rereadDetails parse) e).rows).2 = none := by
    rw [AuditLog.recordAudit, verifyRows_concat rfl, hashAfter_none]
    refine ⟨isNone_iff_eq_none.mp h, ?_⟩
    simp only [hread]
    rfl
  exact isNone_iff_eq_none.mpr hrow

/-- A log that begins with rows without a hash and is written by `record_audit` only, with details whose floats come
    back from the column, verifies. -/
theorem untouched_log_intact (sha : Digest) (parse : String → Json) (legacy : AuditLog)
    (hlegacy : ∀ r ∈ legacy.rows, r.hash = none) (es : List AuditEntry) (hsteady : ∀ e ∈ es, e.details.Steady parse) :
    (verifyAuditChain sha (es.foldl (AuditLog.recordAudit sha (rereadDetails parse)) legacy).rows).intact = true := by
  have hstart : (verifyAuditChain sha legacy.rows).intact = true := by
    rw [verifyAuditChain, ← append_nil legacy.rows, verifyRows_legacy hlegacy]
    rfl
  refine foldlRecOn es _
    (motive := fun log : AuditLog => (verifyAuditChain sha log.rows).intact = true) hstart ?_
  intro log hlog e he
  exact recordAudit_intact (hsteady e he) hlog

/-- The details that the bot's `set_quota_reply` records; a number that is not finite is `null`. -/
def quotaDetails (gb : Option String) : Json :=
  .object [("via", .str "telegram"), ("traffic_limit_gb", (gb.map .float).getD .null)]

theorem quotaDetails_eq (gb : Option String) : quotaDetails gb =
    .obj [("traffic_limit_gb", (gb.map .float).getD .null), ("via", .str "telegram")] := by
  have hlt : "traffic_limit_gb" < "via" := by decide
  simp [quotaDetails, Json.object, Json.insertField, hlt]

theorem quotaDetails_tidy (gb : Option String) : (quotaDetails gb).Tidy := by
  have hlt : "traffic_limit_gb" < "via" := by decide
  rw [quotaDetails_eq]
  refine ⟨by simpa using hlt, ?_, trivial, trivial⟩
  cases gb <;> trivial

/-- `/setquota ann <gb>`, sent by chat 5, as the bot records it. -/
def quotaEntry (gb : String) : AuditEntry :=
  ⟨some "telegram:5", "update", "user", some "ann", quotaDetails (some gb), 9, 0, quotaDetails_tidy (some gb)⟩

/-- A parser for which a text of digits is an integer, if it has 64 bits, and every other number keeps its text. -/
def digitsParser (text : String) : Json :=
  match (decimal text.toList).filter (· < 2 ^ 64) with
  | some n => .int n
  | none => .float text

/-- A login, and a quota of a gigabyte and a half. -/
theorem small_quota_intact : (verifyAuditChain lastBytes ([loginEntry, quotaEntry "1.5"].foldl
    (AuditLog.recordAudit lastBytes (rereadDetails digitsParser)) oneLegacy).rows).intact = true :=
  untouched_log_intact lastBytes digitsParser oneLegacy (by decide) _ (by
    rw [forall_mem_cons, forall_mem_singleton]
    exact ⟨trivial, rfl, trivial, trivial⟩)

/-- A quota that prints with an exponent comes back from the column as an integer: the log that the bot
    wrote is reported broken. -/
theorem large_quota_broken : verifyAuditChain lastBytes
    ([quotaEntry "1e16"].foldl (AuditLog.recordAudit lastBytes (rereadDetails digitsParser)) oneLegacy).rows =
      ⟨false, 1, some 5⟩ := by
  decide +kernel

end Honey.Master
