import Honey.Master.Lockout

/-! The address that a request counts as, behind a proxy that appends that of its peer.

        client --> proxy --> X-Forwarded-For: what the client sent, peer
                                              | first element
                                              v
                                     allowlist, key of the failures

    The first element is the client's own, if it sends the header. -/

namespace Honey.Master
open Schemes List Option

/-- What `HeaderValue::to_str` takes. -/
def visibleAscii (c : Char) : Bool := (32 ≤ c.toNat && c.toNat < 127) || c = '\t'

/-- The head that a proxy hands on: after what the client sent, if it sent the header, the address of the peer. -/
def Head.forwarded (h : Head) (peer : String) (client : Option String) : Head :=
  { h with forwardedFor := (some (client.elim peer (· ++ ", " ++ peer))).filter (·.toList.all visibleAscii) }

/-- The key under which `login` counts failures. -/
def Head.limitKey (h : Head) : String := h.forwardedRemote.getD "unknown"

/-- The decision of `require_auth` on the address, that of `login`, and the key. -/
def treatment (g : Gate) (f : Faults) (db : AuthDb) (h : Head) : Bool × Except LoginAnswer Unit × String :=
  (f.ips || ipAllowed g db h.forwardedRemote, checkAddress g db f.ips h.forwardedRemote, h.limitKey)

/-- The address of a peer as the proxy writes it. -/
structure Peer (peer : String) : Prop where
  visible : peer.toList.all visibleAscii = true
  single : ',' ∉ peer.toList
  trimmed : trim peer = peer
  filled : peer ≠ ""

/-- What the request says its address is: what stands before the first comma of the text that the client sent, if that
    can be read, or the peer where it sent none. -/
def Says (peer : String) : Option String → String → Prop
  | none, address => address = peer
  | some sent, address => sent.toList.all visibleAscii = true ∧ ∃ first rest : List Char,
      (sent.toList = first ∨ sent.toList = first ++ ',' :: rest) ∧ ',' ∉ first ∧ address = trim (String.ofList first)

theorem takeWhile_first {first : List Char} (h : ',' ∉ first) (rest : List Char) :
    (first ++ ',' :: rest).takeWhile (· ≠ ',') = first := by
  rw [takeWhile_append_of_pos fun c hc => by simpa using ne_of_mem_of_not_mem hc h]
  simp

theorem exists_first (l : List Char) : ∃ first rest, (l = first ∨ l = first ++ ',' :: rest) ∧ ',' ∉ first := by
  by_cases hl : ',' ∈ l
  · obtain ⟨first, rest, rfl, hfirst⟩ := eq_append_cons_of_mem hl
    exact ⟨first, rest, .inr rfl, hfirst⟩
  · exact ⟨l, [], .inl rfl, hl⟩

theorem forwarded_first {sent : String} (peer : String) {first rest : List Char} (hfirst : ',' ∉ first)
    (hsent : sent.toList = first ∨ sent.toList = first ++ ',' :: rest) :
    (sent ++ ", " ++ peer).toList.takeWhile (· ≠ ',') = first := by
  rcases hsent with hsent | hsent
  · simpa [hsent] using takeWhile_first hfirst (' ' :: peer.toList)
  · simpa [hsent] using takeWhile_first hfirst (rest ++ ',' :: ' ' :: peer.toList)

theorem forwardedRemote_of_header {h : Head} {header address : String} {first : List Char}
    (hheader : h.forwardedFor = (some header).filter (·.toList.all visibleAscii))
    (hfirst : header.toList.takeWhile (· ≠ ',') = first) : h.forwardedRemote = some address ↔
      address ≠ "" ∧ header.toList.all visibleAscii = true ∧ address = trim (String.ofList first) := by
  rw [Head.forwardedRemote, hheader, filter_some]
  split
  · rename_i hseen
    rw [map_some, hfirst, filter_eq_some_iff, some_inj, and_iff_right hseen, decide_eq_true_iff]
    exact ⟨fun h => ⟨h.2, h.1.symm⟩, fun h => ⟨h.2.symm, h.1⟩⟩
  · rename_i hseen
    exact iff_of_false (absurd · (by simp)) fun h => hseen h.2.1

/-- The proxy's element is the first one only where the client does not send the header. -/
theorem forwardedRemote_iff {peer : String} (hpeer : Peer peer) (h : Head) (client : Option String) (address : String) :
    (h.forwarded peer client).forwardedRemote = some address ↔ address ≠ "" ∧ Says peer client address := by
  cases client with
  | none =>
    have hfirst : peer.toList.takeWhile (· ≠ ',') = peer.toList :=
      takeWhile_eq_self_iff.mpr fun c hc => by simpa using ne_of_mem_of_not_mem hc hpeer.single
    rw [forwardedRemote_of_header rfl hfirst, and_iff_right hpeer.visible, String.ofList_toList, hpeer.trimmed]
    rfl
  | some sent =>
    obtain ⟨first, rest, hsent, hfirst⟩ := exists_first sent.toList
    have hseen : (sent ++ ", " ++ peer).toList.all visibleAscii = sent.toList.all visibleAscii := by
      rw [String.toList_append, String.toList_append, all_append, all_append, hpeer.visible]
      simp [visibleAscii]
    rw [forwardedRemote_of_header rfl (forwarded_first peer hfirst hsent), hseen]
    refine and_congr_right fun _ => and_congr_right fun _ => ?_
    constructor
    · exact fun heq => ⟨first, rest, hsent, hfirst, heq⟩
    · rintro ⟨first', rest', hsent', hfirst', rfl⟩
      rw [← forwarded_first peer hfirst hsent, forwarded_first peer hfirst' hsent']

theorem getD_eq_iff {d : String} {r r' : Option String} (hr : r ≠ some "") (hr' : r' ≠ some "") :
    r.getD d = r'.getD d ↔ ∀ a, a ≠ "" → a ≠ d → (r = some a ↔ r' = some a) := by
  have hsome : ∀ {o : Option String} {a}, a ≠ d → (o = some a ↔ o.getD d = a) := by
    intro o a ha
    cases o with
    | none => simp [ha.symm]
    | some x => simp
  constructor
  · intro heq a _ ha
    rw [hsome ha, hsome ha, heq]
  · intro h
    by_contra hne
    by_cases hd : r.getD d = d
    · have hd' : r'.getD d ≠ d := fun heq => hne (hd.trans heq.symm)
      have hval := (hsome hd').mpr rfl
      have hback := (h _ (fun hempty => hr' (hempty ▸ hval)) hd').mpr hval
      exact hne ((hsome hd').mp hback)
    · have hval := (hsome hd).mpr rfl
      have hback := (h _ (fun hempty => hr (hempty ▸ hval)) hd).mp hval
      exact hne ((hsome hd).mp hback).symm

theorem ipAllowed_limitKey {g : Gate} (hip : g.isIp "unknown" = false) (db : AuthDb) (h : Head) :
    ipAllowed g db h.forwardedRemote = ipAllowed g db (some h.limitKey) := by
  rw [Head.limitKey]
  cases h.forwardedRemote with
  | none => simp [ipAllowed, hip]
  | some remote => rfl

theorem treatment_limitKey {g : Gate} (hip : g.isIp "unknown" = false) (f : Faults) (db : AuthDb) {h h' : Head} :
    treatment g f db h = treatment g f db h' ↔ h.limitKey = h'.limitKey := by
  constructor
  · intro heq
    exact congrArg (·.2.2) heq
  · intro hkey
    simp only [treatment, checkAddress, ipAllowed_limitKey hip, hkey]

/-- Behind the proxy two requests of one peer are treated alike exactly if they say the same of their address; one that
    says nothing counts as `unknown`. -/
theorem treatment_eq_iff {g : Gate} (hip : g.isIp "unknown" = false) {peer : String} (hpeer : Peer peer) (f : Faults)
    (db : AuthDb) (h : Head) (client client' : Option String) :
    treatment g f db (h.forwarded peer client) = treatment g f db (h.forwarded peer client') ↔
      ∀ address, address ≠ "" → address ≠ "unknown" → (Says peer client address ↔ Says peer client' address) := by
  rw [treatment_limitKey hip, Head.limitKey, Head.limitKey, getD_eq_iff]
  · refine forall_congr' fun a => forall_congr' fun ha => ?_
    rw [forwardedRemote_iff hpeer, forwardedRemote_iff hpeer, and_iff_right ha, and_iff_right ha]
  · exact fun h => ((forwardedRemote_iff hpeer _ _ _).mp h).1 rfl
  · exact fun h => ((forwardedRemote_iff hpeer _ _ _).mp h).1 rfl

/-- The allowlist holds one address. -/
def officeGate : Gate := { plainGate with isIp := (· ≠ "unknown"), contains := (· = ·) }

def officeDb : AuthDb := { customDb .owner (.obj []) with adminIps := ["10.0.0.1"] }

theorem officePeer : Peer "203.0.113.9" := ⟨by decide, by decide, by decide, by decide⟩

theorem same_claim_same_treatment : officeGate.isIp "unknown" = false ∧
    treatment officeGate .none officeDb (cookieHead.forwarded "203.0.113.9" (some "10.0.0.1")) =
      treatment officeGate .none officeDb (cookieHead.forwarded "203.0.113.9" (some " 10.0.0.1,x")) := by
  refine ⟨by decide, (treatment_eq_iff (by decide) officePeer _ _ _ _ _).mpr fun address hfilled _ => ?_⟩
  have hsays := fun client => (forwardedRemote_iff officePeer cookieHead client address).trans (and_iff_right hfilled)
  rw [← hsays, ← hsays]
  rfl

/-- A client that sends the office's address is let in, and its failures count for the office. -/
theorem forged_address_admitted : treatment officeGate .none officeDb (cookieHead.forwarded "203.0.113.9" none) =
        (false, .error (.unauthorized "your address is not allowed"), "203.0.113.9") ∧
      treatment officeGate .none officeDb (cookieHead.forwarded "203.0.113.9" (some "10.0.0.1")) =
        (true, .ok (), "10.0.0.1") := by
  constructor <;> rfl

end Honey.Master
