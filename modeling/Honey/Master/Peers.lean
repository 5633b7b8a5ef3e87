import Honey.Master.Rebuild
import Honey.Schemes.Gather
import Honey.Schemes.Run

/-! The message of one WireGuard interface, as a function of its peers.

        rows -- all readable -- issue peers to the active users that have none -- show the active ones
                                 +- the lowest free addresses, in the order of the users (`offered`)

    The peers of users who are not active are not shown, but they hold addresses. So one of them that is taken away
    shows exactly if it could not be read or if somebody gets its address now (`wgFace_without_iff`).

    A call that makes a peer looks it up, looks for an address and inserts, in three statements of their own.
    Between them others may insert: `PeerWork` has the statements of many calls in any order. -/

namespace Honey.Master
open Honey.Schemes List Option Function

/-! ### New peers -/

/-- The addresses that a pool hands out next. -/
def offered (cidr : String) : List Ipv4 → ℕ → List Ipv4
  | _, 0 => []
  | taken, n + 1 => match allocateIp cidr taken with
    | .error _ => []
    | .ok ip => ip :: offered cidr (taken ++ [ip]) n

/-- The addresses of peers. -/
def takenBy (rows : List WgPeer) : List Ipv4 := rows.filterMap fun p => parseIpv4 p.address.toList

section Wireguard

variable (env : Env) (keys : Keys)

/-- A new peer on the lowest free address, read back as it is stored. -/
def newPeer (iface : WgInterface) (taken : List Ipv4) (v : Uuid) : Option (Ipv4 × WgPeer) := do
  let ip ← (allocateIp iface.addressCidr taken).toOption
  let pair ← (keys iface.id v).toOption
  let privateEnc ← (env.encrypt pair.1).toOption
  let _ ← (env.decrypt privateEnc).toOption
  return (ip, ⟨iface.id, v, privateEnc, pair.2, ip.text⟩)

/-- New peers for users that have none, one after the other. -/
def issue (iface : WgInterface) : List Ipv4 → List Uuid → Option (List WgPeer)
  | _, [] => some []
  | taken, v :: vs => do
      let new ← newPeer env keys iface taken v
      let rest ← issue iface (taken ++ [new.1]) vs
      return new.2 :: rest

/-- The peers that an interface shows: those of the active users. -/
def shownPeers (active : List Uuid) (rows : List WgPeer) : List WireguardPeer :=
  (rows.filter fun p => p.userId ∈ active).map fun p => ⟨p.publicKey, p.address ++ "/32"⟩

/-- The message of an interface, but for its peers. -/
def wgBase (iface : WgInterface) : Option WireguardInterface := do
  let net ← (parseCidr iface.addressCidr).toOption
  let server ← (serverAddress iface.addressCidr).toOption
  return {
    name := iface.name
    listenPort := (u32From iface.listenPort).getD 0
    privateKey := iface.privateKey
    address := server.text ++ "/" ++ toString net.2
    mtu := (u32From iface.mtu).getD 1420
    amnezia := iface.amnezia
    amneziaParamsJson := if iface.amnezia then iface.amneziaParams.render else ""
    peers := [] }

/-- The message of an interface with some peers, for the ids of the active users. -/
def wgFace (active : List Uuid) (iface : WgInterface) (rows : List WgPeer) : Option WireguardInterface := do
  let _ ← rows.mapM fun p => (env.decryptWgPeer p).toOption
  let news ← issue env keys iface (takenBy rows) (active.filter (· ∉ rows.map (·.userId)))
  let base ← wgBase iface
  return { base with peers := shownPeers active (rows ++ news) }

variable {env keys} {iface : WgInterface}

/-- What new peers are: one for every user, readable, on the addresses that are offered. -/
structure Issued (env : Env) (iface : WgInterface) (taken : List Ipv4) (vs : List Uuid) (news : List WgPeer) :
    Prop where
  users : news.map (·.userId) = vs
  interface : ∀ p ∈ news, p.interfaceId = iface.id
  opens : ∀ p ∈ news, (env.decryptWgPeer p).toOption.isSome
  addresses : news.map (·.address) = (offered iface.addressCidr taken vs.length).map Ipv4.text

variable {taken : List Ipv4} {ip : Ipv4} {rows : List WgPeer} {extra : Option Ipv4} {cidr : String}
  {active : List Uuid}

theorem newPeer_eq_some {v : Uuid} {p : WgPeer} : newPeer env keys iface taken v = some (ip, p) ↔ ∃ pair enc plain,
      allocateIp iface.addressCidr taken = .ok ip ∧ keys iface.id v = .ok pair ∧
      env.encrypt pair.1 = .ok enc ∧ env.decrypt enc = .ok plain ∧ p = ⟨iface.id, v, enc, pair.2, ip.text⟩ := by
  simp only [newPeer, bind_eq_bind, bind_eq_some_iff, Option.pure_def, toOption_eq_some, some.injEq, Prod.mk.injEq]
  constructor
  · rintro ⟨ip, hip, pair, hpair, enc, henc, plain, hplain, rfl, rfl⟩
    exact ⟨pair, enc, plain, hip, hpair, henc, hplain, rfl⟩
  · rintro ⟨pair, enc, plain, hip, hpair, henc, hplain, rfl⟩
    exact ⟨ip, hip, pair, hpair, enc, henc, plain, hplain, rfl, rfl⟩

theorem issue_spec : ∀ {vs : List Uuid} {taken : List Ipv4} {news : List WgPeer},
    issue env keys iface taken vs = some news → Issued env iface taken vs news
  | [], taken, news, h => by
    obtain rfl := some.inj h
    exact ⟨rfl, nofun, nofun, rfl⟩
  | v :: vs, taken, news, h => by
    rw [issue] at h
    simp only [bind_eq_bind, bind_eq_some_iff] at h
    obtain ⟨⟨ip, p⟩, hnew, rest, hrest, h⟩ := h
    obtain rfl := some.inj h
    obtain ⟨pair, enc, plain, hip, -, -, hplain, rfl⟩ := newPeer_eq_some.mp hnew
    have ih := issue_spec hrest
    refine ⟨by rw [map_cons, ih.users], ?_, ?_, ?_⟩
    · exact forall_mem_cons.mpr ⟨rfl, ih.interface⟩
    · refine forall_mem_cons.mpr ⟨?_, ih.opens⟩
      rw [Env.decryptWgPeer, hplain]
      rfl
    · simp [offered, hip, ih.addresses]

theorem ensureWgPeer_new (env : Env) (keys : Keys) {peers : Peers} {v : Uuid}
    (hfind : peers.find? (iface.id, v) = none) :
    match newPeer env keys iface (takenBy (peersAt peers iface.id)) v with
    | none => ∃ peers' e, ensureWgPeer env keys peers iface v = (peers', .error e)
    | some new => ∃ q, ensureWgPeer env keys peers iface v = (peers.put new.2, .ok q) := by
  have htaken : (peers.rows.filter (·.interfaceId = iface.id)).filterMap
      (fun p => parseIpv4 p.address.toList) = takenBy (peersAt peers iface.id) := rfl
  simp only [newPeer, ensureWgPeer, hfind, newWgPeer, htaken]
  rcases allocateIp iface.addressCidr (takenBy (peersAt peers iface.id)) with e | ip
  · exact ⟨peers, e, rfl⟩
  rcases keys iface.id v with e | pair
  · exact ⟨peers, e, rfl⟩
  cases henc : env.encrypt pair.1 with
  | error e =>
    simp only [bind, Except.bind, Except.toOption, Option.bind, henc]
    exact ⟨peers, e, rfl⟩
  | ok enc =>
    simp only [bind, Except.bind, Except.toOption, Option.bind, henc, pure, Except.pure, Env.decryptWgPeer]
    cases env.decrypt enc with
    | error e => exact ⟨_, e, rfl⟩
    | ok plain => exact ⟨_, rfl⟩

theorem peersAt_nodup (peers : Peers) (i : Uuid) : ((peersAt peers i).map (·.userId)).Nodup := by
  refine Nodup.of_map (fun v => (i, v)) ?_
  have hkeys : ((peersAt peers i).map (·.userId)).map (fun v => (i, v)) = (peersAt peers i).map WgPeer.key := by
    rw [List.map_map]
    refine map_congr_left fun p hp => ?_
    have hi : p.interfaceId = i := by simpa using (mem_filter.mp hp).2
    rw [comp_apply, WgPeer.key, hi]
  rw [hkeys]
  exact peers.nodup.sublist (filter_sublist.map _)

theorem address_of_decrypt {p q : WgPeer} (h : env.decryptWgPeer p = .ok q) : q.address = p.address := by
  obtain ⟨key, -, h⟩ := bind_eq_ok.mp h
  rw [← Except.ok.inj h]

theorem peersAt_put {peers : Peers} {p : WgPeer} (hface : p.interfaceId = iface.id) (hfind : peers.find? p.key = none) :
    peersAt (peers.put p) iface.id = peersAt peers iface.id ++ [p] := by
  rw [peersAt, Table.rows_put_new hfind, peersAt]
  simp [hface]

theorem provision_issue (env : Env) (keys : Keys) (iface : WgInterface) (has : List Uuid) :
    ∀ (us : List User) (peers : Peers), (us.map (·.id)).Nodup →
    (∀ u ∈ us, u.id ∉ has → peers.find? (iface.id, u.id) = none) →
    match issue env keys iface (takenBy (peersAt peers iface.id)) ((us.map (·.id)).filter (· ∉ has)) with
    | none => ∃ peers' e, provision env keys iface has peers us = (peers', .error e)
    | some news => ∃ peers', provision env keys iface has peers us = (peers', .ok ()) ∧
        peersAt peers' iface.id = peersAt peers iface.id ++ news
  | [], peers, _, _ => ⟨peers, rfl, by simp⟩
  | u :: us, peers, hnd, hnone => by
    rw [map_cons, nodup_cons] at hnd
    by_cases hu : u.id ∈ has
    · rw [map_cons, filter_cons_of_neg (by simpa using hu), provision, if_pos hu]
      exact provision_issue env keys iface has us peers hnd.2 fun v hv => hnone v (mem_cons_of_mem u hv)
    have hfind := hnone u mem_cons_self hu
    have hone := ensureWgPeer_new env keys hfind
    rw [map_cons, filter_cons_of_pos (by simpa using hu), issue, provision, if_neg hu]
    cases hnew : newPeer env keys iface (takenBy (peersAt peers iface.id)) u.id with
    | none =>
      rw [hnew] at hone
      obtain ⟨peers', e, hone⟩ := hone
      rw [hone]
      exact ⟨peers', e, rfl⟩
    | some new =>
      obtain ⟨ip, p⟩ := new
      rw [hnew] at hone
      obtain ⟨q, hone⟩ := hone
      obtain ⟨pair, enc, plain, -, -, -, -, hp⟩ := newPeer_eq_some.mp hnew
      have hkey : p.key = (iface.id, u.id) := by rw [hp, WgPeer.key]
      have hat : peersAt (peers.put p) iface.id = peersAt peers iface.id ++ [p] :=
        peersAt_put (by rw [hp]) (hkey ▸ hfind)
      have htaken : takenBy (peersAt (peers.put p) iface.id) = takenBy (peersAt peers iface.id) ++ [ip] := by
        rw [hat]
        simp [takenBy, hp, parseIpv4_text]
      have hrest := provision_issue env keys iface has us _ hnd.2 (fun v hv hhas => by
        have hne : (iface.id, v.id) ≠ p.key := by
          rw [hkey]
          intro h
          have hid : v.id = u.id := (Prod.mk.inj h).2
          exact hnd.1 (hid ▸ mem_map_of_mem hv)
        rw [Table.find?_put_of_ne hne]
        exact hnone v (mem_cons_of_mem u hv) hhas)
      rw [htaken, hat] at hrest
      rw [hone]
      simp only [bind_eq_bind, bind_some]
      cases hissue : issue env keys iface (takenBy (peersAt peers iface.id) ++ [ip])
          ((us.map (·.id)).filter (· ∉ has)) with
      | none =>
        rw [hissue] at hrest
        exact hrest
      | some news =>
        rw [hissue] at hrest
        obtain ⟨peers', hrun, hrows⟩ := hrest
        exact ⟨peers', hrun, by rw [hrows, append_assoc]; rfl⟩

theorem shown_open {opened : List WgPeer} (active : List Uuid) (h : rows.mapM env.decryptWgPeer = .ok opened) :
    shownPeers active opened = shownPeers active rows := by
  have hkeep := mapM_keeps (p := fun p : WgPeer => (p.userId, p.publicKey, p.address))
    (q := fun p : WgPeer => (p.userId, p.publicKey, p.address)) (fun p q hq => by
      obtain ⟨key, -, hq⟩ := bind_eq_ok.mp hq
      rw [← Except.ok.inj hq]) h
  have hread : ∀ l : List WgPeer, shownPeers active l =
      ((l.map fun p => (p.userId, p.publicKey, p.address)).filter fun t => t.1 ∈ active).map
        fun t => ⟨t.2.1, t.2.2 ++ "/32"⟩ := by
    intro l
    rw [List.filter_map, List.map_map]
    rfl
  rw [hread, hread, hkeep]

theorem mapM_append_isSome (rows : List WgPeer) {news : List WgPeer}
    (hrows : (rows.mapM env.decryptWgPeer).toOption.isSome)
    (hnews : ∀ p ∈ news, (env.decryptWgPeer p).toOption.isSome) :
    ∃ opened, (rows ++ news).mapM env.decryptWgPeer = .ok opened := by
  rw [toOption_mapM, mapM_some_iff] at hrows
  have hall : ((rows ++ news).mapM fun p => (env.decryptWgPeer p).toOption).isSome := by
    rw [mapM_some_iff]
    intro p hp
    exact (mem_append.mp hp).elim (hrows p) (hnews p)
  rw [← toOption_mapM] at hall
  obtain ⟨opened, h⟩ := isSome_iff_exists.mp hall
  exact ⟨opened, toOption_eq_some.mp h⟩

theorem buildWgInterface_face (env : Env) (keys : Keys) (iface : WgInterface) {active : List User}
    (hnd : (active.map (·.id)).Nodup) (peers : Peers) : (buildWgInterface env keys active peers iface).2.toOption =
      wgFace env keys (active.map (·.id)) iface (peersAt peers iface.id) := by
  rw [buildWgInterface, wgFace, ← toOption_mapM]
  rw [show (peersAt peers iface.id).mapM env.decryptWgPeer = wgPeersForInterface env peers iface.id from rfl]
  rcases hold : wgPeersForInterface env peers iface.id with e | existing
  · rfl
  have husers := wgPeers_users hold
  have hissue := provision_issue env keys iface (existing.map _) active peers hnd (fun u _ hu => by
      rw [husers] at hu
      rw [Table.find?_eq_none]
      intro hmem
      obtain ⟨p, hp, hkey⟩ := mem_map.mp hmem
      obtain ⟨hiface, huser⟩ := Prod.mk.inj hkey
      refine hu (mem_map.mpr ⟨p, mem_filter.mpr ⟨hp, ?_⟩, huser⟩)
      simpa using hiface)
  rw [← husers]
  simp only [bind_eq_bind]
  cases hnews : issue env keys iface (takenBy (peersAt peers iface.id))
      ((active.map (·.id)).filter (· ∉ existing.map (·.userId))) with
  | none =>
    rw [hnews] at hissue
    obtain ⟨peers', e, hrun⟩ := hissue
    rw [hrun]
    rfl
  | some news =>
    rw [hnews] at hissue
    obtain ⟨peers', hrun, hat⟩ := hissue
    have hspec := issue_spec hnews
    obtain ⟨opened, hopened⟩ := mapM_append_isSome _
      (by rw [show (peersAt peers iface.id).mapM env.decryptWgPeer = _ from hold]; rfl) hspec.opens
    have hrows : wgPeersForInterface env peers' iface.id = .ok opened := by
      rw [← hopened, ← hat]
      rfl
    simp only [hrun, wgMessage, hrows, wgBase, bind_some]
    rcases parseCidr iface.addressCidr with e | net
    · rfl
    cases serverAddress iface.addressCidr with
    | error e => rfl
    | ok server =>
      rw [← shown_open _ hopened]
      rfl

/-- The WireGuard loop: every interface depends on its own peers only. -/
theorem buildWireguard_face (env : Env) (keys : Keys) {active : List User} (hnd : (active.map (·.id)).Nodup) :
    ∀ (ifaces : List WgInterface) (peers : Peers), (ifaces.map (·.id)).Nodup →
    (buildWireguard env keys active peers ifaces).2.toOption =
      ifaces.mapM fun i => wgFace env keys (active.map (·.id)) i (peersAt peers i.id)
  | [], _, _ => rfl
  | iface :: ifaces, peers, hids => by
    rw [map_cons, nodup_cons] at hids
    have hface := buildWgInterface_face env keys iface hnd peers
    rw [mapM_cons, ← hface, buildWireguard]
    cases hone : buildWgInterface env keys active peers iface with
    | mk peers₁ result =>
      rcases result with e | w
      · rfl
      obtain ⟨hgrown, -, -⟩ := buildWgInterface_ok hone
      have hothers : ifaces.mapM (fun i => wgFace env keys (active.map (·.id)) i (peersAt peers₁ i.id)) =
          ifaces.mapM fun i => wgFace env keys (active.map (·.id)) i (peersAt peers i.id) := by
        refine mapM_congr fun i hi => ?_
        rw [hgrown.others i.id fun heq => hids.1 (heq ▸ mem_map_of_mem hi)]
      rw [← hothers, ← buildWireguard_face env keys hnd ifaces peers₁ hids.2]
      rcases hrest : buildWireguard env keys active peers₁ ifaces with ⟨q, e | ws⟩
      · simp only [hrest]
        rfl
      · simp only [hrest]
        rfl

/-! ### A peer taken away -/

theorem firstFree_eq_some : ∀ {n : ℕ} {host : Ipv4}, firstFree taken n host = some ip → ip ∉ taken
  | n + 1, host, h => by
    rw [firstFree] at h
    split at h
    · exact firstFree_eq_some h
    · exact some.inj h ▸ ‹host ∉ taken›

theorem firstFree_more {taken' : List Ipv4} (hmore : ∀ b, b ∈ taken ↔ b ∈ taken' ∨ extra = some b) :
    ∀ (n : ℕ) (host : Ipv4), (∀ a, extra = some a → firstFree taken' n host ≠ some a) →
    firstFree taken n host = firstFree taken' n host
  | 0, _, _ => rfl
  | n + 1, host, h => by
    rw [firstFree] at h
    rw [firstFree, firstFree]
    by_cases hhost : host ∈ taken'
    · rw [if_pos hhost] at h
      rw [if_pos ((hmore host).mpr (.inl hhost)), if_pos hhost]
      exact firstFree_more hmore n _ h
    · rw [if_neg hhost] at h
      have hnot : host ∉ taken := fun hmem => ((hmore host).mp hmem).elim hhost fun ha => h host ha rfl
      rw [if_neg hnot, if_neg hhost]

theorem firstFree_fewer {taken' : List Ipv4} (hsub : taken' ⊆ taken) :
    ∀ {n : ℕ} {host : Ipv4}, firstFree taken n host = some ip →
    ∃ ip', firstFree taken' n host = some ip' ∧ (ip' = ip ∨ ip' ∈ taken)
  | n + 1, host, h => by
    rw [firstFree] at h
    rw [firstFree]
    by_cases hhost : host ∈ taken
    · rw [if_pos hhost] at h
      by_cases hhost' : host ∈ taken'
      · rw [if_pos hhost']
        exact firstFree_fewer hsub h
      · rw [if_neg hhost']
        exact ⟨host, rfl, .inr hhost⟩
    · rw [if_neg hhost] at h
      rw [if_neg fun hmem => hhost (hsub hmem)]
      exact ⟨host, rfl, .inl (some.inj h)⟩

theorem allocateIp_eq (cidr : String) : (∃ e, ∀ taken, allocateIp cidr taken = .error e) ∨
    ∃ n host, ∀ taken, allocateIp cidr taken = match firstFree taken n host with
      | some ip => .ok ip
      | none => .error "wg address pool exhausted" := by
  rcases hnet : parseCidr cidr with e | net
  · exact .inl ⟨e, fun taken => by rw [allocateIp, hnet]; rfl⟩
  by_cases hsmall : 31 ≤ net.2
  · refine .inl ⟨"wg pool too small (need /30 or larger)", fun taken => ?_⟩
    rw [allocateIp, hnet]
    simp [bind, Except.bind, hsmall, throw, throwThe, MonadExceptOf.throw]
  obtain ⟨mask, hmask⟩ : ∃ mask : Ipv4, BitVec.allOnes 32 <<< ((32 - net.2) % 32) = mask := ⟨_, rfl⟩
  refine .inr ⟨((net.1 &&& mask) ||| ~~~mask).toNat - ((net.1 &&& mask) + 2).toNat,
    (net.1 &&& mask) + 2, fun taken => ?_⟩
  rw [allocateIp, hnet]
  simp only [bind, Except.bind, if_neg hsmall, hmask]
  cases firstFree taken _ _ with
  | none => rfl
  | some ip => rfl

theorem allocateIp_ok (h : allocateIp cidr taken = .ok ip) : ∃ n host, firstFree taken n host = some ip ∧
    ∀ {taken' ip'}, firstFree taken' n host = some ip' → allocateIp cidr taken' = .ok ip' := by
  rcases allocateIp_eq cidr with ⟨e, hall⟩ | ⟨n, host, hall⟩
  · rw [hall] at h
    cases h
  refine ⟨n, host, ?_, fun h' => by rw [hall, h']⟩
  rw [hall] at h
  cases hfree : firstFree taken n host with
  | none =>
    rw [hfree] at h
    cases h
  | some ip' =>
    rw [hfree] at h
    rw [Except.ok.inj h]

theorem allocateIp_notMem (h : allocateIp cidr taken = .ok ip) : ip ∉ taken := by
  obtain ⟨n, host, hfree, -⟩ := allocateIp_ok h
  exact firstFree_eq_some hfree

theorem allocateIp_more {taken' : List Ipv4} (hmore : ∀ b, b ∈ taken ↔ b ∈ taken' ∨ extra = some b)
    (h : ∀ a, extra = some a → allocateIp cidr taken' ≠ .ok a) : allocateIp cidr taken = allocateIp cidr taken' := by
  rcases allocateIp_eq cidr with ⟨e, hall⟩ | ⟨n, host, hall⟩
  · rw [hall, hall]
  have hfree : ∀ a, extra = some a → firstFree taken' n host ≠ some a := by
    intro a ha hfree
    exact h a ha (by rw [hall, hfree])
  rw [hall, hall, firstFree_more hmore n host hfree]

theorem allocateIp_fewer {taken' : List Ipv4} (hsub : taken' ⊆ taken) (h : allocateIp cidr taken = .ok ip) :
    ∃ ip', allocateIp cidr taken' = .ok ip' ∧ (ip' = ip ∨ ip' ∈ taken) := by
  obtain ⟨n, host, hfree, hok⟩ := allocateIp_ok h
  obtain ⟨ip', hfree', hip'⟩ := firstFree_fewer hsub hfree
  exact ⟨ip', hok hfree', hip'⟩

theorem notMem_of_offered {a : Ipv4} : ∀ {n : ℕ} {taken : List Ipv4}, a ∈ offered cidr taken n → a ∉ taken
  | n + 1, taken, h => by
    rw [offered] at h
    cases hip : allocateIp cidr taken with
    | error e =>
      rw [hip] at h
      cases h
    | ok ip =>
      rw [hip] at h
      rcases mem_cons.mp h with rfl | h
      · exact allocateIp_notMem hip
      · exact fun hmem => notMem_of_offered h (mem_append_left [ip] hmem)

/-- An address that would not be offered may as well be taken. -/
theorem issue_more : ∀ (vs : List Uuid) {taken taken' : List Ipv4}, (∀ b, b ∈ taken ↔ b ∈ taken' ∨ extra = some b) →
    (∀ a, extra = some a → a ∉ offered iface.addressCidr taken' vs.length) →
    issue env keys iface taken vs = issue env keys iface taken' vs
  | [], _, _, _, _ => rfl
  | v :: vs, taken, taken', hmore, hextra => by
    have hsame : allocateIp iface.addressCidr taken = allocateIp iface.addressCidr taken' := by
      refine allocateIp_more hmore fun a ha hip => hextra a ha ?_
      rw [length_cons, offered, hip]
      exact mem_cons_self
    have hnew : newPeer env keys iface taken v = newPeer env keys iface taken' v := by
      rw [newPeer, newPeer, hsame]
    rw [issue, issue, hnew]
    rcases hone : newPeer env keys iface taken' v with _ | new
    · rfl
    obtain ⟨ip, p⟩ := new
    obtain ⟨-, -, -, hip, -⟩ := newPeer_eq_some.mp hone
    have hoffered : ip :: offered iface.addressCidr (taken' ++ [ip]) vs.length =
        offered iface.addressCidr taken' (v :: vs).length := by
      rw [length_cons, offered, hip]
    have hmore' : ∀ b, b ∈ taken ++ [ip] ↔ b ∈ taken' ++ [ip] ∨ extra = some b := by
      intro b
      rw [mem_append, mem_append, hmore b]
      tauto
    have hextra' : ∀ a, extra = some a → a ∉ offered iface.addressCidr (taken' ++ [ip]) vs.length :=
      fun a ha hmem => hextra a ha (hoffered ▸ mem_cons_of_mem ip hmem)
    simp [issue_more vs hmore' hextra']

theorem issue_fewer (env : Env) (keys : Keys) (iface : WgInterface) :
    ∀ (vs : List Uuid) {taken taken' : List Ipv4}, taken' ⊆ taken →
    (issue env keys iface taken vs).isSome → (issue env keys iface taken' vs).isSome
  | [], _, _, _, _ => rfl
  | v :: vs, taken, taken', hsub, h => by
    obtain ⟨news, hnews⟩ := isSome_iff_exists.mp h
    rw [issue] at hnews
    simp only [bind_eq_bind, bind_eq_some_iff] at hnews
    obtain ⟨⟨ip, p⟩, hnew, rest, hrest, -⟩ := hnews
    obtain ⟨pair, enc, plain, hip, hkeys, henc, hplain, -⟩ := newPeer_eq_some.mp hnew
    obtain ⟨ip', hip', hwhere⟩ := allocateIp_fewer hsub hip
    have hnew' := newPeer_eq_some.mpr ⟨pair, enc, plain, hip', hkeys, henc, hplain, rfl⟩
    have hsub' : taken' ++ [ip'] ⊆ taken ++ [ip] := by
      intro b hb
      rw [mem_append, mem_singleton] at hb ⊢
      rcases hb with hb | rfl
      · exact .inl (hsub hb)
      · exact hwhere.symm
    have hrest' := issue_fewer env keys iface vs hsub' (by rw [hrest]; rfl)
    obtain ⟨rest', hrest'⟩ := isSome_iff_exists.mp hrest'
    rw [issue, hnew']
    simp [hrest']

/-- The users without a peer. -/
abbrev lacking (active : List Uuid) (rows : List WgPeer) : List Uuid := active.filter (· ∉ rows.map (·.userId))

theorem shown_append (active : List Uuid) (rows rows' : List WgPeer) :
    shownPeers active (rows ++ rows') = shownPeers active rows ++ shownPeers active rows' := by
  rw [shownPeers, filter_append, map_append, shownPeers, shownPeers]

theorem shown_issued {news : List WgPeer} (h : Issued env iface taken (lacking active rows) news) :
    shownPeers active news = news.map fun p => ⟨p.publicKey, p.address ++ "/32"⟩ := by
  rw [shownPeers, filter_eq_self.mpr]
  intro p hp
  have hmem : p.userId ∈ lacking active rows := h.users ▸ mem_map_of_mem hp
  simpa using (mem_filter.mp hmem).1

theorem wgFace_eq_some {w : WireguardInterface} : wgFace env keys active iface rows = some w ↔
      (∀ p ∈ rows, (env.decryptWgPeer p).toOption.isSome) ∧ ∃ news base,
        issue env keys iface (takenBy rows) (lacking active rows) = some news ∧ wgBase iface = some base ∧
        w = { base with peers := shownPeers active (rows ++ news) } := by
  rw [← mapM_some_iff, isSome_iff_exists]
  simp only [wgFace, bind_eq_bind, bind_eq_some_iff, Option.pure_def, some.injEq]
  constructor
  · rintro ⟨opened, hopened, news, hnews, base, hbase, rfl⟩
    exact ⟨⟨opened, hopened⟩, news, base, hnews, hbase, rfl⟩
  · rintro ⟨⟨opened, hopened⟩, news, base, hnews, hbase, rfl⟩
    exact ⟨opened, hopened, news, hnews, base, hbase, rfl⟩

theorem wgFace_length {w : WireguardInterface} (hactive : active.Nodup) (hrows : (rows.map (·.userId)).Nodup)
    (h : wgFace env keys active iface rows = some w) : w.peers.length = active.length := by
  obtain ⟨-, news, base, hnews, -, rfl⟩ := wgFace_eq_some.mp h
  have husers : (rows ++ news).map (·.userId) = rows.map (·.userId) ++ lacking active rows := by
    rw [map_append, (issue_spec hnews).users]
  have hnd : ((rows ++ news).map (·.userId)).Nodup := by
    rw [husers]
    refine hrows.append (hactive.filter _) ?_
    intro v hv hlacks
    simpa [hv] using (mem_filter.mp hlacks).2
  have hperm : (((rows ++ news).map (·.userId)).filter (· ∈ active)).Perm active := by
    refine (perm_ext_iff_of_nodup (hnd.filter _) hactive).mpr fun v => ?_
    rw [husers, mem_filter]
    by_cases hv : v ∈ active
    · by_cases hrow : v ∈ rows.map (·.userId) <;> simp [hrow]
    · simp [hv]
  rw [← hperm.length_eq, List.filter_map]
  simp only [shownPeers, length_map]
  rfl

/-- The peers but those of one user. -/
abbrev withoutUser (u : Uuid) (rows : List WgPeer) : List WgPeer := rows.filter (·.userId ≠ u)

section

variable {active : List Uuid} {u : Uuid} {rows : List WgPeer}

theorem lacking_without (hu : u ∉ active) (rows : List WgPeer) :
    lacking active (withoutUser u rows) = lacking active rows := by
  refine filter_congr fun v hv => ?_
  have hne : v ≠ u := fun h => hu (h ▸ hv)
  simp only [decide_eq_decide, not_iff_not, List.mem_map, mem_filter, decide_eq_true_eq]
  constructor
  · rintro ⟨p, ⟨hp, -⟩, rfl⟩
    exact ⟨p, hp, rfl⟩
  · rintro ⟨p, hp, rfl⟩
    exact ⟨p, ⟨hp, hne⟩, rfl⟩

theorem shown_without (hu : u ∉ active) (rows : List WgPeer) :
    shownPeers active (withoutUser u rows) = shownPeers active rows := by
  rw [shownPeers, List.filter_filter]
  congr 1
  refine filter_congr fun p _ => ?_
  by_cases hp : p.userId = u
  · simp [hp, hu]
  · simp [hp]

theorem takenBy_without {p : WgPeer} (hp : p ∈ rows) (hnd : (rows.map (·.userId)).Nodup) (b : Ipv4) :
    b ∈ takenBy rows ↔ b ∈ takenBy (withoutUser p.userId rows) ∨ parseIpv4 p.address.toList = some b := by
  simp only [takenBy, mem_filterMap, mem_filter, decide_eq_true_eq]
  constructor
  · rintro ⟨q, hq, hb⟩
    by_cases hqp : q.userId = p.userId
    · obtain rfl := inj_on_of_nodup_map hnd hq hp hqp
      exact .inr hb
    · exact .inl ⟨q, ⟨hq, hqp⟩, hb⟩
  · rintro (⟨q, ⟨hq, -⟩, hb⟩ | hb)
    · exact ⟨q, hq, hb⟩
    · exact ⟨p, hp, hb⟩

/-- The peer of a user who is not active does not matter: it can be read, and its address is not one
    that a user without a peer would get. -/
structure IdlePeer (env : Env) (active : List Uuid) (cidr : String) (rows : List WgPeer) (p : WgPeer) : Prop where
  opens : (env.decryptWgPeer p).toOption.isSome
  address : ∀ a, parseIpv4 p.address.toList = some a → a ∉ offered cidr (takenBy (withoutUser p.userId rows))
      (lacking active (withoutUser p.userId rows)).length

theorem wgFace_without_isSome (hu : u ∉ active) (h : (wgFace env keys active iface rows).isSome) :
    (wgFace env keys active iface (withoutUser u rows)).isSome := by
  obtain ⟨w, hw⟩ := isSome_iff_exists.mp h
  obtain ⟨hopen, news, base, hnews, hbase, -⟩ := wgFace_eq_some.mp hw
  have hsub : takenBy (withoutUser u rows) ⊆ takenBy rows := fun b hb => by
    obtain ⟨q, hq, hqb⟩ := mem_filterMap.mp hb
    exact mem_filterMap.mpr ⟨q, (mem_filter.mp hq).1, hqb⟩
  have hroom := issue_fewer env keys iface _ hsub (by rw [hnews]; rfl)
  obtain ⟨news', hnews'⟩ := isSome_iff_exists.mp hroom
  rw [← lacking_without hu] at hnews'
  have hface := wgFace_eq_some.mpr ⟨fun p hp => hopen p (mem_filter.mp hp).1, news', base, hnews', hbase, rfl⟩
  rw [hface]
  rfl

/-- A peer taken away shows exactly if it could not be read, or if somebody gets its address. -/
theorem wgFace_without_iff (hu : u ∉ active) (hnd : (rows.map (·.userId)).Nodup)
    (h : (wgFace env keys active iface (withoutUser u rows)).isSome) :
    wgFace env keys active iface (withoutUser u rows) = wgFace env keys active iface rows ↔
      ∀ p ∈ rows, p.userId = u → IdlePeer env active iface.addressCidr rows p := by
  obtain ⟨w, hw⟩ := isSome_iff_exists.mp h
  obtain ⟨hopen, news, base, hnews, hbase, hwshown⟩ := wgFace_eq_some.mp hw
  constructor
  · rintro heq p hp rfl
    rw [hw] at heq
    obtain ⟨hopen', news', base', hnews', -, hwshown'⟩ := wgFace_eq_some.mp heq.symm
    refine ⟨hopen' p hp, fun a ha hoffered => ?_⟩
    -- the two lists of new peers are shown at the end of one list
    have hlists : shownPeers active (withoutUser p.userId rows ++ news) = shownPeers active (rows ++ news') := by
      have := hwshown.symm.trans hwshown'
      simpa using congrArg WireguardInterface.peers this
    rw [shown_append, shown_append, shown_without hu] at hlists
    have hspec := issue_spec hnews
    have hspec' := issue_spec hnews'
    have htails := append_cancel_left hlists
    rw [shown_issued hspec, shown_issued hspec'] at htails
    have haddresses : news.map (·.address) = news'.map (·.address) := by
      have hslash := congrArg (map WireguardPeer.allowedIp) htails
      rw [List.map_map, List.map_map] at hslash
      have hinj : Injective fun s : String => s ++ "/32" := fun s t hst => by
        simpa using hst
      refine map_injective_iff.mpr hinj ?_
      rw [List.map_map, List.map_map]
      exact hslash
    -- so the address is handed out before the peer is gone, too, though it is taken then
    rw [hspec.addresses, hspec'.addresses] at haddresses
    have hmem : a.text ∈ (offered iface.addressCidr (takenBy rows) (lacking active rows).length).map Ipv4.text :=
      haddresses ▸ mem_map_of_mem hoffered
    obtain ⟨b, hb, hab⟩ := mem_map.mp hmem
    obtain rfl := text_injective hab
    exact notMem_of_offered hb ((takenBy_without hp hnd b).mpr (.inr ha))
  · intro hidle
    by_cases hmem : ∃ p ∈ rows, p.userId = u
    · obtain ⟨p, hp, rfl⟩ := hmem
      have hidle := hidle p hp rfl
      have hissue : issue env keys iface (takenBy rows) (lacking active rows) = some news := by
        rw [← hnews, lacking_without hu]
        refine issue_more _ (takenBy_without hp hnd) fun a ha => ?_
        have hfree := hidle.address a ha
        rwa [lacking_without hu] at hfree
      have hopen' : ∀ q ∈ rows, (env.decryptWgPeer q).toOption.isSome := by
        intro q hq
        by_cases hqp : q.userId = p.userId
        · rw [inj_on_of_nodup_map hnd hq hp hqp]
          exact hidle.opens
        · exact hopen q (mem_filter.mpr ⟨hq, by simpa using hqp⟩)
      rw [hw, hwshown]
      refine (wgFace_eq_some.mpr ⟨hopen', news, base, hissue, hbase, ?_⟩).symm
      rw [shown_append, shown_append, shown_without hu]
    · have hall : withoutUser u rows = rows := by
        refine filter_eq_self.mpr fun p hp => ?_
        simpa using fun hpu => hmem ⟨p, hp, hpu⟩
      rw [hall]

end

end Wireguard

/-! ### Calls side by side -/

/-- A call of `ensure_wg_peer` between its statements. -/
inductive PeerCall where
  | lookup
  | allocate
  | insert (p : WgPeer)
  | done (r : Except String WgPeer)

/-- The statements that a call has before it. -/
def PeerCall.left : PeerCall → ℕ
  | .lookup => 3
  | .allocate => 2
  | .insert _ => 1
  | .done _ => 0

structure PeerCalls where
  peers : Peers
  calls : ℕ → PeerCall

/-- The unique constraints of `wg_peers`. -/
def clashes (peers : Peers) (p : WgPeer) : Bool :=
  peers.rows.any fun q => q.interfaceId = p.interfaceId ∧ (q.userId = p.userId ∨ q.address = p.address)

/-- Calls for one interface: the keys that each generates, and its user. -/
structure PeerWork where
  env : Env
  iface : WgInterface
  keys : ℕ → Keys
  user : ℕ → Uuid

namespace PeerWork

variable (w : PeerWork)

/-- The peer of a call, from the addresses that it finds. -/
def newPeer (peers : Peers) (i : ℕ) : Except String WgPeer := newWgPeer w.env (w.keys i) peers w.iface (w.user i)

/-- The next statement of a call. -/
def next (s : PeerCalls) (i : ℕ) : Peers × PeerCall :=
  match s.calls i with
  | .lookup => (s.peers, match s.peers.find? (w.iface.id, w.user i) with
    | some existing => .done (w.env.decryptWgPeer existing)
    | none => .allocate)
  | .allocate => (s.peers, match w.newPeer s.peers i with
    | .error e => .done (.error e)
    | .ok p => .insert p)
  | .insert p =>
    if clashes s.peers p then (s.peers, .done (.error "duplicate key value violates unique constraint"))
    else (s.peers.put p, .done (w.env.decryptWgPeer p))
  | .done r => (s.peers, .done r)

def step (s : PeerCalls) (i : ℕ) : PeerCalls := ⟨(w.next s i).1, update s.calls i (w.next s i).2⟩

/-- Statements of calls, from the first one on. -/
def run (peers : Peers) (acts : List ℕ) : PeerCalls := acts.foldl w.step ⟨peers, fun _ => .lookup⟩

/-- An insert of call `i` now is not between the look for an address and the insert of call `j`, nor, if they are for
one user, between its lookup and its insert. -/
def Clear (i j : ℕ) : PeerCall → Prop
  | .allocate => w.user j ≠ w.user i
  | .insert _ => False
  | _ => True

/-- An address is free where a call looks for one, and no insert comes between the reads and the insert of another. -/
def Undisturbed (s : PeerCalls) (i : ℕ) : Prop :=
  match s.calls i with
  | .allocate => ∃ ip, allocateIp w.iface.addressCidr (takenBy (peersAt s.peers w.iface.id)) = .ok ip
  | .insert _ => ∀ j ≠ i, w.Clear i j (s.calls j)
  | _ => True

/-- Every call is back with a peer after three statements at the latest; there is one for each user. -/
structure Served (acts : List ℕ) (s : PeerCalls) : Prop where
  never_fails : ∀ i e, s.calls i ≠ .done (.error e)
  returns : ∀ i, 3 ≤ acts.count i → ∃ p, s.calls i = .done (.ok p)
  shared : ∀ i j p q, s.calls i = .done (.ok p) → s.calls j = .done (.ok q) → w.user i = w.user j → p = q
  apart : ∀ i j p q, s.calls i = .done (.ok p) → s.calls j = .done (.ok q) → w.user i ≠ w.user j → p.address ≠ q.address

/-- What a call has read still holds, and its answer is a peer of the interface. -/
def Holds (peers : Peers) (i : ℕ) : PeerCall → Prop
  | .lookup => True
  | .allocate => peers.find? (w.iface.id, w.user i) = none
  | .insert p => peers.find? (w.iface.id, w.user i) = none ∧ w.newPeer peers i = .ok p
  | .done r => ∃ p ∈ peersAt peers w.iface.id, p.userId = w.user i ∧ w.env.decryptWgPeer p = r

/-- The peers of the interface can be read, no two share an address, and no call is out of date. -/
structure Inv (s : PeerCalls) : Prop where
  addresses : ((peersAt s.peers w.iface.id).map (·.address)).Nodup
  opens : ∀ p ∈ peersAt s.peers w.iface.id, ∃ q, w.env.decryptWgPeer p = .ok q
  holds : ∀ i, w.Holds s.peers i (s.calls i)

/-- A new key can be sealed and read again. -/
def Sealable : Prop := ∀ i, ∃ pair enc plain, w.keys i w.iface.id (w.user i) = .ok pair ∧
  w.env.encrypt pair.1 = .ok enc ∧ w.env.decrypt enc = .ok plain

variable {w} {s : PeerCalls} {i : ℕ} {p : WgPeer}

theorem Inv.returned {r : Except String WgPeer} (h : w.Inv s) (hi : s.calls i = .done r) :
    ∃ p ∈ peersAt s.peers w.iface.id, p.userId = w.user i ∧ w.env.decryptWgPeer p = r := by
  have hheld := h.holds i
  rwa [hi] at hheld

theorem Inv.goOn {c : PeerCall} (h : w.Inv s) (hc : w.Holds s.peers i c) : w.Inv ⟨s.peers, update s.calls i c⟩ := by
  refine ⟨h.addresses, h.opens, fun j => ?_⟩
  by_cases hji : j = i
  · subst hji
    simpa using hc
  · simpa [hji] using h.holds j

theorem newPeer_eq (hseal : w.Sealable) (i : ℕ) : ∃ enc key plain, w.env.decrypt enc = .ok plain ∧ ∀ peers,
    w.newPeer peers i = (allocateIp w.iface.addressCidr (takenBy (peersAt peers w.iface.id))).map fun ip =>
      ⟨w.iface.id, w.user i, enc, key, ip.text⟩ := by
  obtain ⟨pair, enc, plain, hpair, henc, hplain⟩ := hseal i
  refine ⟨enc, pair.2, plain, hplain, fun peers => ?_⟩
  rw [newPeer, newWgPeer, hpair]
  simp only [bind, Except.bind, henc]
  rfl

/-- A call that inserts what it would find again meets no constraint. -/
theorem inserted (hseal : w.Sealable) (hfind : s.peers.find? (w.iface.id, w.user i) = none)
    (hnew : w.newPeer s.peers i = .ok p) : clashes s.peers p = false ∧ p.userId = w.user i ∧
      p.address ∉ (peersAt s.peers w.iface.id).map (·.address) ∧ (∃ q, w.env.decryptWgPeer p = .ok q) ∧
      peersAt (s.peers.put p) w.iface.id = peersAt s.peers w.iface.id ++ [p] := by
  obtain ⟨enc, key, plain, hplain, heq⟩ := newPeer_eq hseal i
  rw [heq, map_eq_ok] at hnew
  obtain ⟨ip, hip, rfl⟩ := hnew
  have haddress : ∀ q ∈ peersAt s.peers w.iface.id, q.address ≠ ip.text := fun q hq heq =>
    allocateIp_notMem hip (mem_filterMap.mpr ⟨q, hq, heq ▸ parseIpv4_text ip⟩)
  refine ⟨?_, rfl, by simpa using haddress, ⟨_, by rw [Env.decryptWgPeer, hplain]; rfl⟩, peersAt_put rfl hfind⟩
  simp only [clashes, List.any_eq_false, decide_eq_true_eq]
  rintro q hq ⟨hface, huser | heq⟩
  · exact Table.find?_eq_none.mp hfind (mem_map.mpr ⟨q, hq, Prod.ext hface huser⟩)
  · exact haddress q (mem_filter.mpr ⟨hq, by simpa using hface⟩) heq

/-- A call on its own does what `ensureWgPeer` does at once. -/
theorem run_alone (hseal : w.Sealable) (peers : Peers) (i : ℕ) :
    ((w.run peers [i, i, i]).peers, (w.run peers [i, i, i]).calls i) =
      (ensureWgPeer w.env (w.keys i) peers w.iface (w.user i)).map id .done := by
  rw [ensureWgPeer]
  cases hfind : peers.find? (w.iface.id, w.user i) with
  | some existing => simp [run, step, next, hfind]
  | none =>
    cases hnew : newWgPeer w.env (w.keys i) peers w.iface (w.user i) with
    | error e => simp [run, step, next, newPeer, hfind, hnew]
    | ok p =>
      have hclash := (inserted (s := ⟨peers, fun _ => .lookup⟩) hseal hfind hnew).1
      simp [run, step, next, newPeer, hfind, hnew, hclash]

theorem holds_put {c : PeerCall} {j : ℕ} (huser : p.userId = w.user i)
    (hat : peersAt (s.peers.put p) w.iface.id = peersAt s.peers w.iface.id ++ [p]) (h : w.Holds s.peers j c)
    (hfar : w.Clear i j c) : w.Holds (s.peers.put p) j c := by
  cases c with
  | lookup => trivial
  | allocate =>
    rw [Holds, Table.find?_put_of_ne]
    · exact h
    · exact fun heq => hfar ((congrArg Prod.snd heq).trans huser)
  | insert q => exact hfar.elim
  | done r =>
    obtain ⟨q, hq, hrest⟩ := h
    exact ⟨q, hat ▸ mem_append_left _ hq, hrest⟩

theorem inv_step (hseal : w.Sealable) (s : PeerCalls) (i : ℕ) (h : w.Inv s) (hok : w.Undisturbed s i) :
    w.Inv (w.step s i) := by
  have hheld := h.holds i
  rw [step, next]
  rw [Undisturbed] at hok
  cases hcall : s.calls i with
  | lookup =>
    refine h.goOn ?_
    cases hfind : s.peers.find? (w.iface.id, w.user i) with
    | none => exact hfind
    | some existing =>
      obtain ⟨hmem, hkey⟩ := Table.find?_eq_some.mp hfind
      obtain ⟨hface, huser⟩ := Prod.mk.inj hkey
      exact ⟨existing, mem_filter.mpr ⟨hmem, by simpa using hface⟩, huser, rfl⟩
  | allocate =>
    rw [hcall] at hok hheld
    obtain ⟨ip, hip⟩ := hok
    obtain ⟨enc, key, plain, -, heq⟩ := newPeer_eq hseal i
    refine h.goOn ?_
    rw [heq, hip]
    exact ⟨hheld, by rw [heq, hip]; rfl⟩
  | insert p =>
    rw [hcall] at hok hheld
    obtain ⟨hclash, huser, haddress, hopens, hat⟩ := inserted hseal hheld.1 hheld.2
    simp only [hclash, Bool.false_eq_true, if_false]
    refine ⟨?_, ?_, fun j => ?_⟩
    · rw [hat, map_append]
      exact h.addresses.append (nodup_singleton _) (by simpa using haddress)
    · rw [hat]
      exact forall_mem_append.mpr ⟨h.opens, forall_mem_singleton.mpr hopens⟩
    · by_cases hji : j = i
      · subst hji
        simp only [update_self]
        exact ⟨p, by simp [hat], huser, rfl⟩
      · simp only [update_of_ne hji]
        exact holds_put huser hat (h.holds j) (hok j hji)
  | done r =>
    rw [hcall] at hheld
    exact h.goOn hheld

theorem left_step (s : PeerCalls) (i : ℕ) : ((w.step s i).calls i).left ≤ (s.calls i).left - 1 := by
  simp only [step, next]
  cases s.calls i with
  | lookup => cases s.peers.find? (w.iface.id, w.user i) <;> simp [PeerCall.left]
  | allocate => cases w.newPeer s.peers i <;> simp [PeerCall.left]
  | insert p => by_cases hclash : clashes s.peers p <;> simp [PeerCall.left, hclash]
  | done r => simp [PeerCall.left]

theorem left_run (i : ℕ) : ∀ (acts : List ℕ) (s : PeerCalls),
    ((acts.foldl w.step s).calls i).left ≤ (s.calls i).left - acts.count i
  | [], _ => le_rfl
  | a :: acts, s => by
    have hrest := left_run i acts (w.step s a)
    rw [foldl_cons]
    by_cases hai : a = i
    · subst hai
      have hstep := left_step (w := w) s a
      rw [count_cons_self]
      omega
    · have hsame : (w.step s a).calls i = s.calls i := update_of_ne (Ne.symm hai) ..
      rwa [hsame, ← count_cons_of_ne hai] at hrest

/-- Calls whose reads and insert no other insert parts serve every user with a peer. -/
theorem undisturbed_served {peers : Peers} (hseal : w.Sealable)
    (haddresses : ((peersAt peers w.iface.id).map (·.address)).Nodup)
    (hopens : ∀ p ∈ peersAt peers w.iface.id, ∃ q, w.env.decryptWgPeer p = .ok q) (acts : List ℕ)
    (h : Always w.step w.Undisturbed ⟨peers, fun _ => .lookup⟩ acts) : w.Served acts (w.run peers acts) := by
  have hinv : w.Inv (w.run peers acts) := inv_run (inv_step hseal) acts _ ⟨haddresses, hopens, fun _ => trivial⟩ h
  have hleft : ∀ i, ((w.run peers acts).calls i).left ≤ 3 - acts.count i := fun i => left_run i acts _
  generalize w.run peers acts = s at hinv hleft
  have hfails : ∀ i e, s.calls i ≠ .done (.error e) := by
    intro i e hi
    obtain ⟨p, hp, -, he⟩ := hinv.returned hi
    obtain ⟨q, hq⟩ := hinv.opens p hp
    cases hq.symm.trans he
  refine ⟨hfails, fun i hi => ?_, fun i j p q hp hq huser => ?_, fun i j p q hp hq huser heq => huser ?_⟩
  · have hdone := (hleft i).trans (Nat.sub_eq_zero_of_le hi).le
    cases hcall : s.calls i with
    | done r =>
      cases r with
      | error e => exact absurd hcall (hfails i e)
      | ok p => exact ⟨p, rfl⟩
    | _ => simp [hcall, PeerCall.left] at hdone
  · obtain ⟨a, ha, hau, hap⟩ := hinv.returned hp
    obtain ⟨b, hb, hbu, hbq⟩ := hinv.returned hq
    rw [inj_on_of_nodup_map (peersAt_nodup _ _) ha hb (by rw [hau, hbu, huser]), hbq] at hap
    exact (Except.ok.inj hap).symm
  · obtain ⟨a, ha, hau, hap⟩ := hinv.returned hp
    obtain ⟨b, hb, hbu, hbq⟩ := hinv.returned hq
    rw [address_of_decrypt hap, address_of_decrypt hbq] at heq
    rw [← hau, ← hbu, inj_on_of_nodup_map hinv.addresses ha hb heq]

end PeerWork

/-- Calls for different users, with nothing to encrypt. -/
def smallWork : PeerWork where
  env := ⟨.ok, .ok, fun _ _ => true⟩
  iface := ⟨1, 1, "wg0", 51820, "", "10.7.0.0/24", 1420, false, .null, true, 0⟩
  keys _ _ _ := .ok ("", "")
  user := BitVec.ofNat 128

theorem one_call_alone : ((smallWork.run Table.empty [0, 0, 0]).peers, (smallWork.run Table.empty [0, 0, 0]).calls 0) =
    (ensureWgPeer smallWork.env (smallWork.keys 0) Table.empty smallWork.iface 0).map id .done :=
  PeerWork.run_alone (fun _ => ⟨_, _, _, rfl, rfl, rfl⟩) Table.empty 0

/-- The second call looks its user up before the first one inserts, and for an address after it. -/
theorem lookups_first : smallWork.Served [0, 1, 0, 0, 1, 1] (smallWork.run Table.empty [0, 1, 0, 0, 1, 1]) := by
  refine @PeerWork.undisturbed_served smallWork Table.empty (fun i => ⟨_, _, _, rfl, rfl, rfl⟩)
    nodup_nil (fun p hp => absurd hp not_mem_nil) _ ⟨trivial, trivial, ⟨_, rfl⟩, ?_, ⟨_, rfl⟩, ?_, trivial⟩
  · rintro (_ | _ | j) hj
    · exact absurd rfl hj
    · exact fun heq => absurd heq (by decide)
    · trivial
  · rintro (_ | _ | j) hj
    · trivial
    · exact absurd rfl hj
    · trivial

/-- Two calls that look for an address before either inserts: one of them fails. -/
theorem same_address_fails : ¬ smallWork.Served [0, 0, 1, 1, 0, 1] (smallWork.run Table.empty [0, 0, 1, 1, 0, 1]) :=
  fun h => h.never_fails 1 _ rfl

end Honey.Master
