import Honey.Agent.Acme

/-! The ACME manager over time: the domains it renews, its accounts, and the files that the cores load.

        Prepare   activate -> for each domain: ensure -> paths into the spec
        ensure    usable files? -> account? register, save -> order -> write the chain -> write the key
        renewal   ensure, for each active domain

    `activate` replaces the domains of the whole agent, even for the `Start` of one core. Accounts are
    saved under the domain and looked up under the domain and its directory; files are per domain. -/

namespace Honey.Agent.XrayAcme
open Honey.Master Honey.Schemes Function Option List

/-! ### The domains that are renewed -/

/-- What becomes of a core once the certificates are there. -/
inductive Change where | kept | stopped | swapped

/-- How a push goes: it fails before the domains are replaced, or before they are stored, or in the
    issuance or a validation; or the cores are changed. -/
inductive PushEnd where
  | failed
  | unsaved
  | rejected
  | done (change : ServerCore → Change)

/-- The domains of the renewal loop and of `registrations.json`; for each core, the managed domains
    whose paths are in its running config. -/
structure Fleet where
  (active stored : List String)
  uses : ServerCore → List String

inductive FleetEv where
  /-- `Apply`, or `Start` of one core on its part of the spec. -/
  | push (spec : NodeSpec) (only : Option ServerCore) (how : PushEnd)
  | stop (k : ServerCore)
  | restart

/-- The domains that `Prepare` activates; none where it refuses the spec or is not called. -/
def requestedDomains (m : Manager) (spec : NodeSpec) (only : Option ServerCore) : Option (List String) :=
  match requests m (only.elim spec (coreSpec spec)).inbounds ⟨[], []⟩ with
  | .ok rs => if only ≠ some .singbox ∧ rs.managed.all (·.domain ∉ rs.singbox) then some (rs.managed.map (·.domain))
      else none
  | .error _ => none

/-- The domains whose paths `injectPaths` puts into the inbounds of a core. -/
def usedDomains (m : Manager) (spec : NodeSpec) (domains : List String) (k : ServerCore) : List String :=
  (coreSpec spec k).inbounds.filterMap fun ib => (ib.tls.map fun t => domainOf m.go t.serverName).filter
    fun d => managed ib.type ib.core ∧ d ∈ domains

namespace Fleet

def start : Fleet := ⟨[], [], fun _ => []⟩

def activate (s : Fleet) (domains : List String) : PushEnd → Fleet
  | .failed => s
  | .unsaved => { s with active := domains }
  | _ => { s with active := domains, stored := domains }

def change (m : Manager) (s : Fleet) (spec : NodeSpec) (domains : List String) : PushEnd → Fleet
  | .done change => { s with uses := fun k => match change k with
      | .kept => s.uses k
      | .stopped => []
      | .swapped => usedDomains m spec domains k }
  | _ => s

/-- The moment after `activate`. -/
def between (m : Manager) (s : Fleet) : FleetEv → Fleet
  | .push spec only how => (requestedDomains m spec only).elim s (s.activate · how)
  | _ => s

def step (m : Manager) (s : Fleet) : FleetEv → Fleet
  | .push spec only how => (requestedDomains m spec only).elim s fun ds => (s.activate ds how).change m spec ds how
  | .stop k => { s with uses := update s.uses k [] }
  | .restart => { s with active := s.stored }

/-- What the cores of the manager use is renewed, and would be after a restart. -/
def Covered (s : Fleet) : Prop :=
  ∀ k, k ≠ .singbox → ∀ d ∈ s.uses k, d ∈ s.active ∧ d ∈ s.stored

/-- Nothing in use is missing from the domains that are activated. -/
def KeepsUsed (m : Manager) (s : Fleet) : FleetEv → Prop
  | .push spec only how => ∀ ds ∈ requestedDomains m spec only, how ≠ .failed →
      ∀ k, k ≠ .singbox → ∀ d ∈ s.uses k, d ∈ ds
  | _ => True

variable {m : Manager} {s : Fleet} {ds : List String} {how : PushEnd}

theorem covered_activate (h : s.Covered) :
    (s.activate ds how).Covered ↔ how ≠ .failed → ∀ k, k ≠ .singbox → ∀ d ∈ s.uses k, d ∈ ds := by
  cases how with
  | failed => exact iff_of_true h (absurd rfl)
  | unsaved =>
    refine ⟨fun hc _ k hk d hd => (hc k hk d hd).1, fun hc k hk d hd => ?_⟩
    exact ⟨hc nofun k hk d hd, (h k hk d hd).2⟩
  | rejected | done =>
    refine ⟨fun hc _ k hk d hd => (hc k hk d hd).1, fun hc k hk d hd => ?_⟩
    exact ⟨hc nofun k hk d hd, hc nofun k hk d hd⟩

theorem covered_change {spec : NodeSpec} (h : (s.activate ds how).Covered) :
    ((s.activate ds how).change m spec ds how).Covered := by
  cases how with
  | done change =>
    intro k hk d hd
    simp only [Fleet.change] at hd
    split at hd
    · exact h k hk d hd
    · cases hd
    · obtain ⟨ib, -, hib⟩ := mem_filterMap.mp hd
      have hmem : d ∈ ds := (of_decide_eq_true (filter_eq_some_iff.mp hib).2).2
      exact ⟨hmem, hmem⟩
  | _ => exact h

theorem covered_step (m : Manager) (s : Fleet) (e : FleetEv) (h : s.Covered) :
    (s.between m e).Covered ∧ (s.step m e).Covered ↔ s.KeepsUsed m e := by
  cases e with
  | push spec only how =>
    rw [between, step, KeepsUsed]
    cases requestedDomains m spec only with
    | none => exact iff_of_true ⟨h, h⟩ nofun
    | some ds =>
      simp only [mem_def, some.injEq, forall_eq', ← covered_activate h]
      exact and_iff_left_of_imp covered_change
  | stop k =>
    refine iff_of_true ⟨h, fun k' hk d hd => ?_⟩ trivial
    by_cases hkk : k' = k
    · simp [step, hkk] at hd
    · exact h k' hk d (by simpa [step, hkk] using hd)
  | restart => exact iff_of_true ⟨h, fun k hk d hd => ⟨(h k hk d hd).2, (h k hk d hd).2⟩⟩ trivial

/-- At every moment the managed domains of the running cores are renewed and stored, exactly if every
    push that gets to replace the domains requests all that are in use. -/
theorem used_domains_renewed_iff (m : Manager) (es : List FleetEv) :
    Always (step m) (fun s e => (s.between m e).Covered ∧ (s.step m e).Covered) start es ↔
      Always (step m) (KeepsUsed m) start es :=
  always_iff (fun s e h hok => ((covered_step m s e h).mpr hok).2) (covered_step m) es start fun _ _ _ hd => nomatch hd

def acmeInbound (core domain : String) : SpecInbound :=
  ⟨core, core, "vless", "::", 443, [], some ⟨true, domain, "", "", none, false, "", "", 0⟩,
    "\x7b\"acme\":\x7b\"email\":\"ops@example.com\"\x7d\x7d", none, 0, 0, ""⟩

/-- One domain for each of the two cores. -/
def twoCores : NodeSpec :=
  ⟨"info", "", "", [acmeInbound "xray" "a.example", acmeInbound "hysteria" "b.example"], [], []⟩

/-- After a push of both cores, a `Start` of Xray drops the domain of Hysteria. -/
theorem start_drops_domain : ¬ Always (step ⟨plainGo, 9080, 9082, "production"⟩)
    (fun s e => (s.between ⟨plainGo, 9080, 9082, "production"⟩ e).Covered ∧
      (s.step ⟨plainGo, 9080, 9082, "production"⟩ e).Covered) start
    [.push twoCores none (.done fun _ => .swapped), .push twoCores (some .xray) .rejected] := by
  intro h
  have hcovered := h.2.1.1 .hysteria (by decide) "b.example" (by decide +kernel)
  revert hcovered
  decide +kernel

end Fleet

/-! ### Certificates on disk -/

/-- A chain, as its leaf: the key it is for, the directory that issued it, and its end. -/
structure Leaf where
  key : ℕ
  directory : String
  notAfter : ℤ

/-- `fullchain.pem` and `privkey.pem`. -/
structure Pair where
  chain : Option Leaf
  key : Option ℕ

/-- How issuing goes: the key and the end of what `issueHTTP01` returns, if it does, and the two writes. -/
structure Answers where
  issued : Option (ℕ × ℤ)
  (chainWritten keyWritten : Bool)

namespace Pair

variable (p : Pair)

/-- `tls.LoadX509KeyPair` loads the files. -/
def Matching : Prop := ∃ leaf, p = ⟨some leaf, some leaf.key⟩

/-- Thirty days. Times are seconds. -/
def renewBefore : ℤ := 30 * 24 * 3600

/-- `loadUsableCertificate`. -/
def usable (now : ℤ) : Bool :=
  match p.chain, p.key with
  | some leaf, some key => leaf.key = key && renewBefore < leaf.notAfter - now
  | _, _ => false

theorem usable_mono {p : Pair} {now : ℤ} {d : ℕ} (h : p.usable (now + d)) : p.usable now := by
  rcases p with ⟨_ | leaf, _ | key⟩
  · cases h
  · cases h
  · cases h
  · simp only [usable, Bool.and_eq_true, decide_eq_true_eq] at h ⊢
    exact ⟨h.1, by omega⟩

/-- `export`: the files after each write. -/
def exported (a : Answers) (leaf : Leaf) : List Pair :=
  if a.chainWritten then
    { p with chain := some leaf } :: if a.keyWritten then [⟨some leaf, some leaf.key⟩] else []
  else []

/-- The files after each write of `ensure`. -/
def ensured (now : ℤ) (directory : String) (a : Answers) : List Pair :=
  if p.usable now then [] else a.issued.elim [] fun o => p.exported a ⟨o.1, directory, o.2⟩

/-- A matching pair matches at every moment of a renewal exactly if no new chain is written, or one for the old key. -/
theorem renewal_matching_iff (leaf : Leaf) (now : ℤ) (directory : String) (a : Answers) :
    (∀ q ∈ (⟨some leaf, some leaf.key⟩ : Pair).ensured now directory a, q.Matching) ↔
      renewBefore < leaf.notAfter - now ∨ ∀ o ∈ a.issued, a.chainWritten → o.1 = leaf.key := by
  rw [ensured, usable]
  by_cases husable : renewBefore < leaf.notAfter - now
  · simp [husable]
  rcases a.issued with _ | o
  · simp
  rcases hchain : a.chainWritten with _ | _
  · simp [exported, hchain]
  simp only [husable, decide_false, Bool.and_false, Bool.false_eq_true, if_false, elim_some, exported,
    hchain, if_true, forall_mem_cons, false_or, mem_def, some.injEq, forall_eq', true_imp_iff]
  constructor
  · rintro ⟨⟨leaf', heq⟩, -⟩
    obtain ⟨rfl, hkey⟩ := Pair.mk.inj heq |>.imp_left some.inj
    exact (some.inj hkey).symm
  · rintro heq
    refine ⟨⟨_, by rw [heq]⟩, fun q hq => ?_⟩
    split at hq
    · exact ⟨_, mem_singleton.mp hq⟩
    · cases hq

/-- The new chain is written and the new key is not. -/
theorem torn_renewal : ∃ q ∈ (⟨some ⟨1, "ca", 0⟩, some 1⟩ : Pair).ensured 0 "ca" ⟨some (2, 9), true, false⟩,
    ¬ q.Matching :=
  ⟨⟨some ⟨2, "ca", 9⟩, some 1⟩, mem_cons_self, fun ⟨_, h⟩ => by cases h⟩

end Pair

/-! ### Accounts -/

/-- `managedDomain`; whether its account has a URI. -/
structure ManagedDomain where
  request : Request
  registered : Bool
  deriving DecidableEq

/-- The manager's memory, `registrations.json`, the account documents by the name of their directory,
    and the requests whose account has been saved. -/
structure Store where
  domains : String → Option ManagedDomain
  stored : List Request
  accounts : String → Bool
  saved : List Request

inductive StoreEv where
  | activate (rs : List Request) (how : PushEnd)
  /-- Issuance for a domain without usable files, with the outcomes of `Register` and `saveAccount`. -/
  | issue (domain : String) (registers saves : Bool)
  | restart (how : PushEnd)

/-- The names of directories: `strings.ToLower`, and the first four bytes of SHA-256 in hexadecimal. -/
structure Naming where
  (toLower sum : String → String)

def Naming.safePart (n : Naming) (value : String) : String :=
  String.ofList ((n.toLower value).toList.map fun c =>
    if c.isLower || c.isDigit || c = '.' || c = '-' then c else '-') ++ "-" ++ n.sum value

def plainNaming : Naming := ⟨id, fun _ => "00000000"⟩

def siteRequest : Request := ⟨"a.example", "ops@example.com", "https://acme.example/directory"⟩

namespace Store

/-- An entry with the same request stays, others look for their account. -/
def entryFor (n : Naming) (s : Store) (r : Request) : ManagedDomain :=
  ((s.domains r.domain).filter (·.request = r)).getD ⟨r, s.accounts (n.safePart (r.domain ++ "|" ++ r.directory))⟩

def activate (n : Naming) (s : Store) (rs : List Request) : PushEnd → Store
  | .failed => s
  | how => { s with
      domains := fun d => (rs.find? (·.domain = d)).map (s.entryFor n)
      stored := match how with | .unsaved => s.stored | _ => rs }

/-- The account part of `issueHTTP01`. -/
def issue (n : Naming) (s : Store) (domain : String) (registers saves : Bool) (e : ManagedDomain) : Store :=
  if e.registered || !registers then s
  else
    let s := { s with domains := update s.domains domain (some { e with registered := true }) }
    if saves then
      { s with accounts := update s.accounts (n.safePart e.request.domain) true, saved := e.request :: s.saved }
    else s

/-- Nothing is in memory, and nothing has been saved so far. -/
def start (stored : List Request) (accounts : String → Bool) : Store := ⟨fun _ => none, stored, accounts, []⟩

def step (n : Naming) (s : Store) : StoreEv → Store
  | .activate rs how => s.activate n rs how
  | .issue domain registers saves => (s.domains domain).elim s (s.issue n domain registers saves)
  | .restart how => ({ s with domains := fun _ => none } : Store).activate n s.stored how

/-- A request whose account has been saved is not registered again. -/
def RegistersOnce (s : Store) : StoreEv → Prop
  | .issue domain _ _ => ∀ e, s.domains domain = some e → e.registered = false → e.request ∉ s.saved
  | _ => True

/-- What is activated with a saved account is in memory with it; a restart brings back none. -/
def KeepsAccounts (s : Store) : StoreEv → Prop
  | .activate rs _ => ∀ r ∈ rs, r ∈ s.saved → s.domains r.domain = some ⟨r, true⟩
  | .issue .. => True
  | .restart _ => ∀ r ∈ s.stored, r ∉ s.saved

/-- Entries stand under their domain, with their account if it has been saved. -/
def Known (s : Store) : Prop :=
  ∀ d e, s.domains d = some e → e.request.domain = d ∧ (e.request ∈ s.saved → e.registered)

variable {n : Naming} {s : Store}

theorem known_activate {rs : List Request} {how : PushEnd} (h : s.Known)
    (hkeeps : ∀ r ∈ rs, r ∈ s.saved → s.domains r.domain = some ⟨r, true⟩) : (s.activate n rs how).Known := by
  have hnew : ∀ d e, (rs.find? (·.domain = d)).map (s.entryFor n) = some e →
      e.request.domain = d ∧ (e.request ∈ s.saved → e.registered) := by
    intro d e he
    obtain ⟨r, hr, rfl⟩ := map_eq_some_iff.mp he
    have hrequest : (s.entryFor n r).request = r := by
      rw [entryFor]
      rcases hold : (s.domains r.domain).filter (·.request = r) with _ | old
      · rw [hold, getD_none]
      · rw [hold]
        simpa using (filter_eq_some_iff.mp hold).2
    rw [hrequest]
    refine ⟨by simpa using find?_some hr, fun hsaved => ?_⟩
    simp [entryFor, hkeeps r (mem_of_find?_eq_some hr) hsaved, Option.filter]
  cases how with
  | failed => exact h
  | unsaved | rejected | done => exact hnew

theorem known_issue {d : String} {registers saves : Bool} {e : ManagedDomain} (h : s.Known)
    (he : s.domains d = some e) : (s.issue n d registers saves e).Known := by
  obtain ⟨rfl, -⟩ := h d e he
  have hset : ∀ saved, (∀ r ∈ saved, r = e.request ∨ r ∈ s.saved) → ({ s with
      domains := update s.domains e.request.domain (some { e with registered := true }), saved } : Store).Known := by
    intro saved hsaved d e' he'
    by_cases hd : d = e.request.domain
    · simp only [hd, update_self, some.injEq] at he'
      simp [← he', hd]
    simp only [update_of_ne hd] at he'
    refine ⟨(h d e' he').1, fun hmem => (h d e' he').2 ((hsaved _ hmem).resolve_left ?_)⟩
    rintro heq
    exact hd ((h d e' he').1 ▸ heq ▸ rfl)
  rw [issue]
  split
  · exact h
  cases saves with
  | true => exact hset _ fun r hr => mem_cons.mp hr
  | false => exact hset _ fun r hr => .inr hr

theorem known_step (s : Store) (e : StoreEv) (h : s.Known) (hkeeps : s.KeepsAccounts e) : (s.step n e).Known := by
  cases e with
  | activate rs how => exact known_activate h hkeeps
  | issue domain registers saves =>
    rw [step]
    cases he : s.domains domain with
    | none => exact h
    | some e => exact known_issue h he
  | restart how => exact known_activate (fun _ _ he => nomatch he) fun r hr hsaved => absurd hsaved (hkeeps r hr)

/-- In every run in which no activation or restart brings back a request with a saved account, nothing
    is registered twice. -/
theorem registered_once (n : Naming) (stored : List Request) (accounts : String → Bool) (es : List StoreEv)
    (h : Always (step n) KeepsAccounts (start stored accounts) es) :
    Always (step n) RegistersOnce (start stored accounts) es := by
  refine always_of_inv known_step (fun s e hs _ => ?_) es _ (fun _ _ he => nomatch he) h
  cases e with
  | issue domain => exact fun e he hun hsaved => by simp [(hs domain e he).2 hsaved] at hun
  | activate | restart => trivial

/-- The account is registered and saved. -/
def firstIssue : List StoreEv := [.activate [siteRequest] .rejected, .issue "a.example" true true]

theorem retry_registers_once :
    Always (step plainNaming) KeepsAccounts (start [] fun _ => false) (firstIssue ++ firstIssue) ∧
      Always (step plainNaming) RegistersOnce (start [] fun _ => false) (firstIssue ++ firstIssue) := by
  have hkeeps : Always (step plainNaming) KeepsAccounts (start [] fun _ => false) (firstIssue ++ firstIssue) := by
    refine ⟨fun _ _ h => (by cases h), trivial, ?_, trivial, trivial⟩
    rintro r hr -
    obtain rfl := mem_singleton.mp hr
    rfl
  exact ⟨hkeeps, registered_once _ _ _ _ hkeeps⟩

/-- After a restart the account is looked for where it was not saved. -/
theorem restart_registers_again : ¬ Always (step plainNaming) RegistersOnce (start [] fun _ => false)
    (firstIssue ++ [.restart .rejected, .issue "a.example" true true]) := by
  intro h
  exact h.2.2.2.1 ⟨siteRequest, false⟩ (by decide +kernel) rfl (by decide +kernel)

end Store

/-! ### Whose certificate it is -/

/-- `ensure`: the files by the name of their directory when it ends, and whether it succeeds. -/
def ensure (n : Naming) (now : ℤ) (r : Request) (a : Answers) (files : String → Pair) : (String → Pair) × Bool :=
  let p := files (n.safePart r.domain)
  (update files (n.safePart r.domain) ((p.ensured now r.directory a).getLastD p),
    p.usable now || (a.issued.isSome && a.chainWritten && a.keyWritten))

/-- The loop of `Prepare` in issue mode. -/
def ensureAll (n : Naming) (now : ℤ) (a : String → Answers) : List Request → (String → Pair) → (String → Pair) × Bool
  | [], files => (files, true)
  | r :: rs, files =>
    let done := ensure n now r (a r.domain) files
    if done.2 then ensureAll n now a rs done.1 else done

/-- The chain at the paths of the domain is from the directory of the request. -/
def IssuedBy (n : Naming) (files : String → Pair) (r : Request) : Prop :=
  ∃ leaf, (files (n.safePart r.domain)).chain = some leaf ∧ leaf.directory = r.directory

section

variable {n : Naming} {now : ℤ} {files : String → Pair}

/-- The files stay as they are, in a success only because they are usable, or they hold a new chain. -/
theorem ensure_cases (r : Request) (a : Answers) (name : String) : ((ensure n now r a files).1 name = files name ∧
        ((ensure n now r a files).2 → n.safePart r.domain = name → (files name).usable now)) ∨
      n.safePart r.domain = name ∧ IssuedBy n (ensure n now r a files).1 r := by
  by_cases hname : name = n.safePart r.domain
  · subst hname
    simp only [ensure, IssuedBy, update_self, Pair.ensured, Pair.exported, true_and]
    by_cases husable : (files (n.safePart r.domain)).usable now
    · exact .inl ⟨by simp [husable], fun _ _ => husable⟩
    rcases a.issued with _ | o
    · exact .inl (by simp [husable])
    rcases a.chainWritten with _ | _
    · exact .inl (by simp [husable])
    · refine .inr ⟨⟨o.1, r.directory, o.2⟩, ?_, rfl⟩
      cases a.keyWritten <;> simp [husable]
  · exact .inl ⟨update_of_ne hname .., fun _ heq => absurd heq.symm hname⟩

theorem ensureAll_cases (a : String → Answers) (name : String) : ∀ (rs : List Request) (files : String → Pair),
    ((ensureAll n now a rs files).1 name = files name ∧
        ((ensureAll n now a rs files).2 → ∀ r ∈ rs, n.safePart r.domain = name → (files name).usable now)) ∨
      ∃ r ∈ rs, n.safePart r.domain = name ∧ IssuedBy n (ensureAll n now a rs files).1 r
  | [], _ => .inl ⟨rfl, nofun⟩
  | r :: rs, files => by
    have hone : ((ensure n now r (a r.domain) files).1 name = files name ∧ _) ∨ _ := ensure_cases r (a r.domain) name
    simp only [ensureAll]
    split
    · rename_i hok
      rcases ensureAll_cases a name rs (ensure n now r (a r.domain) files).1 with ⟨hsame, hrest⟩ | ⟨r', hr', h⟩
      · rcases hone with ⟨hone, husable⟩ | ⟨rfl, leaf, hleaf⟩
        · rw [hone] at hsame hrest
          exact .inl ⟨hsame, fun h => forall_mem_cons.mpr ⟨husable hok, hrest h⟩⟩
        · exact .inr ⟨r, mem_cons_self, rfl, leaf, by rwa [hsame]⟩
      · exact .inr ⟨r', mem_cons_of_mem _ hr', h⟩
    · rename_i hok
      exact hone.imp (fun h => ⟨h.1, fun hok' => absurd hok' hok⟩) fun h => ⟨r, mem_cons_self, h⟩

end

/-- The files, the clock, and for each name of a directory the ACME directory of the last request for it. -/
structure Issuance where
  files : String → Pair
  clock : ℤ
  asked : String → Option String

/-- A call of `Prepare` in issue mode, some time after the one before. -/
structure PrepareCall where
  wait : ℕ
  requests : List Request
  answers : String → Answers

namespace Issuance

variable (n : Naming) (s : Issuance) (e : PrepareCall)

def start : Issuance := ⟨fun _ => ⟨none, none⟩, 0, fun _ => none⟩

def prepare : (String → Pair) × Bool := ensureAll n (s.clock + e.wait) e.answers e.requests s.files

def step : Issuance where
  files := (s.prepare n e).1
  clock := s.clock + e.wait
  asked name := ((e.requests.find? (n.safePart ·.domain = name)).map (·.directory)).or (s.asked name)

/-- A success leaves certificates of the directories that the call names. -/
def Issued : Prop := (s.prepare n e).2 → ∀ r ∈ e.requests, IssuedBy n (s.step n e).files r

/-- No two domains of the call share their files, and one whose files are still usable is asked for under the same
    directory as the last time. -/
def Settled : Prop := (e.requests.map (n.safePart ·.domain)).Nodup ∧
  ∀ r ∈ e.requests, (s.files (n.safePart r.domain)).usable (s.clock + e.wait) →
    s.asked (n.safePart r.domain) = some r.directory

/-- What is usable is from the directory that was asked last. -/
def Traced : Prop := ∀ name, (s.files name).usable s.clock →
  ∃ leaf, (s.files name).chain = some leaf ∧ s.asked name = some leaf.directory

variable {n s e}

theorem issued_step (h : s.Traced) (hs : s.Settled n e) : s.Issued n e := by
  intro hok r hr
  rcases ensureAll_cases e.answers (n.safePart r.domain) e.requests s.files
    with ⟨hsame, husable⟩ | ⟨r', hr', hname, hissued⟩
  · have husable := husable hok r hr rfl
    obtain ⟨leaf, hleaf, hasked⟩ := h _ (Pair.usable_mono husable)
    exact ⟨leaf, (congrArg Pair.chain hsame).trans hleaf, some.inj (hasked.symm.trans (hs.2 r hr husable))⟩
  · exact inj_on_of_nodup_map hs.1 hr' hr hname ▸ hissued

theorem asked_step {name : String} {r : Request} (hnames : (e.requests.map (n.safePart ·.domain)).Nodup)
    (hr : r ∈ e.requests) (hname : n.safePart r.domain = name) : (s.step n e).asked name = some r.directory := by
  have hfind : e.requests.find? (n.safePart ·.domain = name) = some r := by
    rcases hf : e.requests.find? (n.safePart ·.domain = name) with _ | r'
    · exact absurd hname (by simpa using find?_eq_none.mp hf r hr)
    · have hname' : n.safePart r'.domain = name := by simpa using find?_some hf
      rw [hf, inj_on_of_nodup_map hnames (mem_of_find?_eq_some hf) hr (hname'.trans hname.symm)]
  simp [step, hfind]

theorem traced_step (s : Issuance) (e : PrepareCall) (h : s.Traced) (hs : s.Settled n e) : (s.step n e).Traced := by
  intro name husable
  rcases ensureAll_cases e.answers name e.requests s.files with ⟨hsame, -⟩ | ⟨r, hr, hname, leaf, hleaf, hdirectory⟩
  · -- the files were usable before, so that a request for them names the directory that was asked last
    have husable' : (s.files name).usable (s.clock + e.wait) := by
      rw [← hsame]
      exact husable
    obtain ⟨leaf, hleaf, hasked⟩ := h name (Pair.usable_mono husable')
    refine ⟨leaf, (congrArg Pair.chain hsame).trans hleaf, ?_⟩
    by_cases hr : ∃ r ∈ e.requests, n.safePart r.domain = name
    · obtain ⟨r, hr, hname⟩ := hr
      rw [asked_step hs.1 hr hname, ← hs.2 r hr (hname ▸ husable'), hname, hasked]
    · have hfind : e.requests.find? (n.safePart ·.domain = name) = none := by
        simpa using hr
      simpa [step, hfind] using hasked
  · exact ⟨leaf, hname ▸ hleaf, hdirectory ▸ asked_step hs.1 hr hname⟩

/-- In every run of calls in which a domain is moved to another directory only once its files are not usable any more,
    a success leaves certificates of the directories that the call names. -/
theorem issued_by_current (n : Naming) (es : List PrepareCall) (h : Always (step n) (Settled n) start es) :
    Always (step n) (Issued n) start es :=
  always_of_inv traced_step (fun _ _ ht hs => issued_step ht hs) es _ (fun _ hu => by cases hu) h

/-- Every order gives a certificate with this key and end. -/
def orders (key : ℕ) (notAfter : ℤ) (_ : String) : Answers := ⟨some (key, notAfter), true, true⟩

def stagingRequest : Request := { siteRequest with directory := "https://staging.example/directory" }

/-- A domain is issued for, kept, and moved to staging after its certificate has ended. -/
def movedLate : List PrepareCall :=
  [⟨0, [siteRequest], orders 1 (10 ^ 7)⟩, ⟨10, [siteRequest], orders 2 (10 ^ 7)⟩,
    ⟨10 ^ 7, [stagingRequest], orders 3 (3 * 10 ^ 7)⟩, ⟨10, [stagingRequest], orders 4 (3 * 10 ^ 7)⟩]

theorem moved_late_issued : Always (step plainNaming) (Issued plainNaming) start movedLate := by
  refine issued_by_current plainNaming movedLate ?_
  simp only [movedLate, always_cons, always_nil, and_true]
  unfold Settled
  decide +kernel

/-- A domain that moves from staging to production keeps its staging certificate. -/
theorem staging_certificate_kept : ¬ Always (step plainNaming) (Issued plainNaming) start
    [⟨0, [stagingRequest], orders 1 (10 ^ 9)⟩, ⟨10, [siteRequest], orders 2 (10 ^ 9)⟩] := by
  intro h
  obtain ⟨leaf, hleaf, hdirectory⟩ := h.2.1 (by decide +kernel) siteRequest (by simp)
  rw [← some.inj hleaf] at hdirectory
  revert hdirectory
  decide

end Issuance

end Honey.Agent.XrayAcme
