import Honey.Agent.Service
import Honey.Schemes.Run

/-! The data planes that the agent drives beside the cores: the nftables table of hop ranges
    (`firewall.go`), the WireGuard interfaces (`wg.go`) and the managed daemons (`svc.go`).

        spec.inbounds   hop_ports ------> table inet honey, replaced as a whole
        spec.wireguard  name.conf -- down -- up --> interface, MASQUERADE rule
        spec.services   file -- kill -- start --> daemon

    A command that fails is logged and leaves the plane where it stood. An interface or a daemon is touched only by a
    spec that names it, so what a spec leaves out stays up; with all commands succeeding the planes are those of the
    last spec as long as specs leave nothing out and move no interface to another network (`Planes.exact_sync`). -/

namespace Honey.Agent
open Honey.Master Honey.Schemes List Table

/-- What the planes take from libraries and tools: `encoding/json`, also into the nine numbers of
    `awgParams`, and the network that iptables makes of an address. -/
structure Tools where
  parse : String → Json
  awgParams : String → Option (List ℕ)
  network : String → String

/-! ### Hop ranges -/

/-- A UDP port range and the port it is redirected to. -/
structure HopRule where
  (start last port : ℕ)
  deriving DecidableEq, Repr

/-- `strconv.Atoi`, but for its bound of 64 bits, which `parseHopRange` would refuse too. -/
def atoi : List Char → Option ℤ
  | '-' :: ds => (decimal ds).map fun n => -(n : ℤ)
  | '+' :: ds => (decimal ds).map fun n => (n : ℤ)
  | ds => (decimal ds).map fun n => (n : ℤ)

def parseHopRange (s : String) : Option (ℕ × ℕ) := do
  let (a, b) ← splitOnce '-' s.toList
  let start ← atoi (trim (String.ofList a)).toList
  let last ← atoi (trim (String.ofList b)).toList
  if start ≤ 0 ∨ last < start ∨ last > 65535 then none else some (start.toNat, last.toNat)

/-- A value that `encoding/json` stores in a string field without an error. -/
def readsAsText : Json → Bool
  | .null | .str _ => true
  | _ => false

/-- `hop_ports` of the extra settings; none where `json.Unmarshal` reports an error. -/
def hopPorts : Json → Option String
  | .obj fields =>
    if fields.all fun f => !namesField "hop_ports" f.1 || readsAsText f.2 then
      some (unmarshalField "hop_ports" Json.asStr? "" (.obj fields))
    else none
  | .null => some ""
  | _ => none

/-- The loop body of `syncPortHopping`. -/
def hopRule (parse : String → Json) (ib : SpecInbound) : Option HopRule :=
  if ib.type ≠ "hysteria2" ∨ ib.extraJson = "" then none
  else do
    let ports ← hopPorts (parse ib.extraJson)
    if ports = "" then none
    else
      let (start, last) ← parseHopRange ports
      return ⟨start, last, ib.listenPort⟩

/-- How the commands of `firewall.Apply` go: nft is installed, a table that stands is deleted, the script loads. -/
structure Nft where
  (found deleted loaded : Bool)
  deriving DecidableEq, Repr

/-- The rules in the table; no rules, no table. The script adds to a table that could not be deleted. -/
def Firewall.apply (o : Nft) (rules table : List HopRule) : List HopRule :=
  if o.found then
    let table := if o.deleted then [] else table
    if o.loaded then table ++ rules else table
  else table

/-- Exactly these outcomes leave the table as it stood. -/
def Firewall.Settled (o : Nft) (rules table : List HopRule) : Prop :=
  o.found → if o.deleted then table = if o.loaded then rules else [] else o.loaded → rules = []

theorem Firewall.apply_eq_iff (o : Nft) (rules table : List HopRule) :
    Firewall.apply o rules table = table ↔ Firewall.Settled o rules table := by
  obtain ⟨found, deleted, loaded⟩ := o
  cases found with
  | false => simp [apply, Settled]
  | true => cases deleted <;> cases loaded <;> simp [apply, Settled, eq_comm]

/-! ### Names -/

/-- `unicode.ToLower`, as far as it yields a letter of ASCII. -/
def lowerRune (c : Char) : Char :=
  if c.isUpper then c.toLower
  else if c.toNat = 0x212A then 'k'
  else if c.toNat = 0x130 then 'i'
  else c

/-- The letters and digits of a name. -/
def saneName (name : String) : String :=
  let s := String.ofList ((name.toList.map lowerRune).filter fun c =>
    ('a' ≤ c && c ≤ 'z') || ('0' ≤ c && c ≤ '9'))
  if s = "" then "0" else s

/-! ### WireGuard -/

/-- The sections of a `.conf` file; `PostUp` and `PostDown` add and delete the MASQUERADE rule of the address. -/
structure WgConf where
  address : String
  listenPort : ℕ
  privateKey : String
  mtu : Option ℕ
  awgParams : Option (List ℕ)
  peers : List WireguardPeer
  deriving DecidableEq, Repr

namespace Wg

variable (t : Tools) (w : WireguardInterface)

def serverConf : WgConf where
  address := w.address
  listenPort := w.listenPort
  privateKey := w.privateKey
  mtu := if w.mtu > 0 then some w.mtu else none
  awgParams := if w.amnezia ∧ w.amneziaParamsJson ≠ "" then t.awgParams w.amneziaParamsJson else none
  peers := w.peers

/-- At most 15 characters, prefixed by the kind. -/
def ifName : String :=
  String.ofList (((if w.amnezia then "awg-" else "wg-") ++ saneName w.name).toList.take 15)

/-- The config files, the interfaces that are up with the config they came up with, and the MASQUERADE
    rules by network. -/
structure Plane where
  files : String → Option WgConf
  live : Table (Prod.fst : String × WgConf → String)
  nat : List String

/-- How the commands of `applyOne` go: the tool is missing or the file cannot be written; neither
    `down` nor `up` has an effect; the interface goes down but not up; it comes up. -/
inductive Outcome where | skipped | stuck | failed | up
  deriving DecidableEq, Repr

variable (name : String) (p : Plane)

/-- `wg-quick down`: of an interface that is up, and with the `PostDown` of the file that is there. -/
def Plane.down : Plane :=
  match p.live.find? name, p.files name with
  | some _, some conf =>
    { p with live := p.live.keep (·.1 ≠ name), nat := p.nat.erase (t.network conf.address) }
  | _, _ => p

/-- `wg-quick up`. -/
def Plane.up : Plane :=
  match p.live.find? name, p.files name with
  | none, some conf =>
    { p with live := p.live.put (name, conf), nat := p.nat ++ [t.network conf.address] }
  | _, _ => p

/-- `os.WriteFile` of the config. -/
def Plane.write : Plane :=
  { p with files := Function.update p.files (ifName w) (some (serverConf t w)) }

def applyOne (o : Outcome) (w : WireguardInterface) (p : Plane) : Plane :=
  match o with
  | .skipped => p
  | .stuck => p.write t w
  | .failed => (p.write t w).down t (ifName w)
  | .up => ((p.write t w).down t (ifName w)).up t (ifName w)

/-- The outcomes are those of the interfaces of the spec in turn. -/
def apply (o : ℕ → Outcome) (ifaces : List WireguardInterface) (p : Plane) : Plane :=
  ifaces.zipIdx.foldl (fun p x => applyOne t (o x.2) x.1 p) p

/-- What a call makes of the interface under a name, if it gets to take it down. -/
def attempt (o : Outcome) (w : WireguardInterface) : Option (String × Option WgConf) :=
  match o with
  | .skipped | .stuck => none
  | .failed => some (ifName w, none)
  | .up => some (ifName w, some (serverConf t w))

/-- The config of the interface under a name. -/
def Plane.conf? (name : String) : Option WgConf := (p.live.find? name).map Prod.snd

theorem conf?_down (n : String) {p : Plane} (h : p.files name ≠ none) :
    (p.down t name).conf? n = if n = name then none else p.conf? n := by
  obtain ⟨conf, hconf⟩ := Option.ne_none_iff_exists'.mp h
  rcases hlive : p.live.find? name with _ | r
  · simp only [Plane.down, hlive]
    split
    · rename_i hn
      rw [hn, Plane.conf?, hlive]
      rfl
    · rfl
  · simp only [Plane.down, hlive, hconf, Plane.conf?, find?_keep_ne]
    split
    · rfl
    · rfl

theorem conf?_up {name : String} {conf : WgConf} {p : Plane} (hfile : p.files name = some conf)
    (hdown : p.live.find? name = none) (n : String) :
    (p.up t name).conf? n = if n = name then some conf else p.conf? n := by
  simp only [Plane.up, hdown, hfile, Plane.conf?, find?_put]
  split
  · rfl
  · rfl

@[simp] theorem files_down : (p.down t name).files = p.files := by
  rw [Plane.down]
  split
  · rfl
  · rfl

theorem files_write :
    (p.write t w).files (ifName w) = some (serverConf t w) := Function.update_self ..

theorem find?_down {p : Plane} (h : p.files name ≠ none) : (p.down t name).live.find? name = none := by
  have hconf := conf?_down t name name h
  rw [if_pos rfl, Plane.conf?, Option.map_eq_none_iff] at hconf
  exact hconf

theorem conf?_applyOne (o : Outcome) (w : WireguardInterface) (p : Plane) (n : String) : (applyOne t o w p).conf? n =
      ((attempt t o w).bind fun x => if x.1 = n then some x.2 else none).getD (p.conf? n) := by
  have hfile : (p.write t w).files (ifName w) ≠ none := by simp [files_write]
  cases o with
  | skipped => rfl
  | stuck => rfl
  | failed =>
    rw [applyOne, conf?_down t _ n hfile]
    by_cases hn : n = ifName w
    · simp [attempt, hn]
    · simp [attempt, hn, Ne.symm hn]
      rfl
  | up =>
    rw [applyOne, conf?_up t (by rw [files_down, files_write]) (find?_down t _ hfile), conf?_down t _ n hfile]
    by_cases hn : n = ifName w
    · simp [attempt, hn]
    · simp [attempt, hn, Ne.symm hn]
      rfl

/-- The last attempt at every interface leaves it as it stood: up with the same config, or down. -/
def Settled (o : ℕ → Outcome) (ifaces : List WireguardInterface) (p : Plane) : Prop :=
  ∀ before x name conf after, ifaces.zipIdx = before ++ x :: after → attempt t (o x.2) x.1 = some (name, conf) →
    (∀ y ∈ after, ∀ conf', attempt t (o y.2) y.1 ≠ some (name, conf')) → conf = p.conf? name

theorem apply_kept_iff (o : ℕ → Outcome) (ifaces : List WireguardInterface) (p : Plane) :
    (∀ n, (apply t o ifaces p).conf? n = p.conf? n) ↔ Settled t o ifaces p :=
  foldl_kept_iff (fun p x n => conf?_applyOne t (o x.2) x.1 p n) ifaces.zipIdx p

end Wg

/-! ### Daemons -/

namespace Svc

def ifName (kind name : String) : String := kind ++ "-" ++ saneName name

/-- The tag of the PID file. -/
def tag (s : SpecService) : String := ifName (if s.kind = "mtproto" then "mtg" else "naive") s.name

/-- The daemons that run, by the tag of their PID file, with the file each was started on. -/
abbrev Daemons := Table (Prod.fst : String × List Piece → String)

/-- How the commands go: the binary is missing or the file cannot be written; the old daemon is killed
    and the new one does not start; it starts. -/
inductive Outcome where | skipped | failed | up
  deriving DecidableEq, Repr

variable (parse : String → Json)

/-- The daemon of a service; none of an unknown kind. -/
def daemon (s : SpecService) : Option (String × List Piece) :=
  (applyOne parse s).toOption.map (tag s, ·)

/-- The PID file names the daemon to kill. -/
def supervise (started : Bool) (d : String × List Piece) (ds : Daemons) : Daemons :=
  let ds := ds.keep (·.1 ≠ d.1)
  if started then ds.put d else ds

def start (o : Outcome) (s : SpecService) (ds : Daemons) : Daemons :=
  match daemon parse s, o with
  | some d, .failed => supervise false d ds
  | some d, .up => supervise true d ds
  | _, _ => ds

def apply (o : ℕ → Outcome) (services : List SpecService) (ds : Daemons) : Daemons :=
  services.zipIdx.foldl (fun ds x => start parse (o x.2) x.1 ds) ds

/-- What a call makes of the daemon under a tag, if it gets to kill it. -/
def attempt (o : Outcome) (s : SpecService) : Option (String × Option (List Piece)) :=
  match daemon parse s, o with
  | some d, .failed => some (d.1, none)
  | some d, .up => some (d.1, some d.2)
  | _, _ => none

/-- The file of the daemon under a tag. -/
def file? (ds : Daemons) (tag : String) : Option (List Piece) := (ds.find? tag).map Prod.snd

theorem file?_supervise (started : Bool) (d : String × List Piece) (ds : Daemons) (n : String) :
    file? (supervise started d ds) n = if n = d.1 then (if started then some d.2 else none) else file? ds n := by
  cases started with
  | false =>
    simp only [supervise, file?, find?_keep_ne, Bool.false_eq_true, if_false]
    split
    · rfl
    · rfl
  | true =>
    simp only [supervise, file?, if_true, find?_put, find?_keep_ne]
    split
    · rfl
    · rfl

theorem file?_start (o : Outcome) (s : SpecService) (ds : Daemons) (n : String) : file? (start parse o s ds) n =
      ((attempt parse o s).bind fun x => if x.1 = n then some x.2 else none).getD (file? ds n) := by
  rcases h : daemon parse s with _ | d
  · simp [start, attempt, h]
  cases o with
  | skipped => simp [start, attempt]
  | failed | up =>
    simp only [start, attempt, h, file?_supervise]
    by_cases hn : n = d.1
    · simp [hn]
    · simp [hn, Ne.symm hn]

/-- The last attempt at every daemon leaves it as it was: running on the same file, or not running. -/
def Settled (o : ℕ → Outcome) (services : List SpecService) (ds : Daemons) : Prop :=
  ∀ before x tag file after, services.zipIdx = before ++ x :: after → attempt parse (o x.2) x.1 = some (tag, file) →
    (∀ y ∈ after, ∀ file', attempt parse (o y.2) y.1 ≠ some (tag, file')) → file = file? ds tag

theorem apply_kept_iff (o : ℕ → Outcome) (services : List SpecService) (ds : Daemons) :
    (∀ n, file? (apply parse o services ds) n = file? ds n) ↔ Settled parse o services ds :=
  foldl_kept_iff (fun ds x n => file?_start parse (o x.2) x.1 ds n) services.zipIdx ds

end Svc

/-! ### The planes together -/

structure Planes where
  hop : List HopRule
  wg : Wg.Plane
  daemons : Svc.Daemons

/-- How the commands of the planes go in one call. -/
structure PlaneOutcomes where
  nft : Nft
  wg : ℕ → Wg.Outcome
  svc : ℕ → Svc.Outcome

variable (t : Tools) (o : PlaneOutcomes) (spec : NodeSpec) (p : Planes)

/-- The first part of `Apply`: an empty list is no reason to touch a plane. -/
def Planes.sync : Planes where
  hop := Firewall.apply o.nft (spec.inbounds.filterMap (hopRule t.parse)) p.hop
  wg := if spec.wireguard = [] then p.wg else Wg.apply t o.wg spec.wireguard p.wg
  daemons := if spec.services = [] then p.daemons else Svc.apply t.parse o.svc spec.services p.daemons

/-- The hop table, the interfaces and the daemons are the same. -/
structure Planes.Same (p q : Planes) : Prop where
  hop : q.hop = p.hop
  wg : ∀ n, q.wg.conf? n = p.wg.conf? n
  daemons : ∀ n, Svc.file? q.daemons n = Svc.file? p.daemons n

/-- Every plane already stands as the spec and the outcomes of the commands make it. -/
structure Planes.Settled (t : Tools) (o : PlaneOutcomes) (spec : NodeSpec) (p : Planes) : Prop where
  hop : Firewall.Settled o.nft (spec.inbounds.filterMap (hopRule t.parse)) p.hop
  wg : Wg.Settled t o.wg spec.wireguard p.wg
  daemons : Svc.Settled t.parse o.svc spec.services p.daemons

@[simp] theorem Planes.sync_wg :
    (p.sync t o spec).wg = Wg.apply t o.wg spec.wireguard p.wg := by
  rw [sync]
  split
  · rename_i h
    rw [h]
    rfl
  · rfl

@[simp] theorem Planes.sync_daemons :
    (p.sync t o spec).daemons = Svc.apply t.parse o.svc spec.services p.daemons := by
  simp only [sync]
  split
  · rename_i h
    rw [h]
    rfl
  · rfl

theorem Planes.sync_same_iff : p.Same (p.sync t o spec) ↔ p.Settled t o spec := by
  constructor
  · rintro ⟨hop, wg, daemons⟩
    rw [sync_wg] at wg
    rw [sync_daemons] at daemons
    exact ⟨(Firewall.apply_eq_iff ..).mp hop, (Wg.apply_kept_iff ..).mp wg, (Svc.apply_kept_iff ..).mp daemons⟩
  · rintro ⟨hop, wg, daemons⟩
    refine ⟨(Firewall.apply_eq_iff ..).mpr hop, ?_, ?_⟩
    · rw [sync_wg]
      exact (Wg.apply_kept_iff ..).mpr wg
    · rw [sync_daemons]
      exact (Svc.apply_kept_iff ..).mpr daemons

/-! ### A sequence of specs -/

/-- Every command succeeds. -/
def allUp : PlaneOutcomes := ⟨⟨true, true, true⟩, fun _ => .up, fun _ => .up⟩

theorem foldl_zipIdx {α σ : Type} (f : σ → α → σ) (l : List α) (s : σ) :
    l.zipIdx.foldl (fun s x => f s x.1) s = l.foldl f s := by
  conv_rhs => rw [← zipIdx_map_fst 0 l]
  rw [foldl_map]

namespace Wg

variable (t : Tools)

/-- An interface of the spec. -/
def row (w : WireguardInterface) : String × WgConf := (ifName w, serverConf t w)

/-- One MASQUERADE rule for every interface that is up, for its network. -/
def Balanced (p : Plane) : Prop :=
  p.nat.Perm (p.live.rows.map fun r => t.network r.2.address)

theorem applyOne_up (w : WireguardInterface) (p : Plane) :
    (applyOne t .up w p).live = p.live.replace (row t w) ∧ (applyOne t .up w p).nat =
      (if (p.live.find? (ifName w)).isNone then p.nat else p.nat.erase (t.network w.address)) ++
        [t.network w.address] := by
  have hfile := files_write t w p
  rcases hlive : p.live.find? (ifName w) with _ | r
  · have hdown : (p.write t w).down t (ifName w) = p.write t w := by
      rw [Plane.down, show (p.write t w).live = p.live from rfl, hlive]
    rw [applyOne, hdown, Plane.up, show (p.write t w).live = p.live from rfl, hlive, hfile]
    have hkeep : p.live.keep (·.1 ≠ (row t w).1) = p.live := keep_ne_of_find?_none hlive
    rw [Table.replace, hkeep]
    exact ⟨rfl, rfl⟩
  · rw [applyOne, Plane.up, find?_down t _ (by simp [hfile]), files_down, hfile]
    simp only [Plane.down, show (p.write t w).live = p.live from rfl, hlive, hfile]
    exact ⟨rfl, rfl⟩

theorem balanced_applyOne_up {t : Tools} {w : WireguardInterface} {p : Plane} (hbal : Balanced t p)
    (hnet : ∀ r ∈ p.live.rows, r.1 = ifName w → t.network r.2.address = t.network w.address) :
    Balanced t (applyOne t .up w p) := by
  obtain ⟨hup, hnat⟩ := applyOne_up t w p
  rw [Balanced, hup, hnat, rows_replace, map_append]
  refine Perm.append_right _ ?_
  rcases hlive : p.live.find? (ifName w) with _ | r
  · have hrows : p.live.rows.filter (·.1 ≠ (row t w).1) = p.live.rows :=
      congrArg rows (keep_ne_of_find?_none hlive)
    rw [hrows]
    exact hbal
  · -- the rule of the interface goes down with it: the file already has the new address, but the
    -- network is the same
    obtain ⟨hr, hname⟩ := find?_eq_some.mp hlive
    have hperm := hbal.trans ((rows_perm_cons hlive).map _)
    rw [map_cons, hnet r hr hname] at hperm
    have herase := hperm.erase (t.network w.address)
    rwa [erase_cons_head] at herase

theorem apply_up (ws : List WireguardInterface) (p : Plane) :
    apply t (fun _ => .up) ws p = ws.foldl (fun p w => applyOne t .up w p) p :=
  foldl_zipIdx (fun p w => applyOne t .up w p) ws p

theorem live_foldl_up (t : Tools) : ∀ (ws : List WireguardInterface) (p : Plane),
    (ws.foldl (fun p w => applyOne t .up w p) p).live = (ws.map (row t)).foldl Table.replace p.live
  | [], _ => rfl
  | w :: ws, p => by
    rw [foldl_cons, live_foldl_up t ws, (applyOne_up ..).1, map_cons, foldl_cons]

theorem balanced_foldl_up {t : Tools} : ∀ (ws : List WireguardInterface) (p : Plane),
    (ws.map ifName).Nodup → Balanced t p →
    (∀ r ∈ p.live.rows, ∀ w ∈ ws, r.1 = ifName w → t.network r.2.address = t.network w.address) →
    Balanced t (ws.foldl (fun p w => applyOne t .up w p) p)
  | [], _, _, hbal, _ => hbal
  | w :: ws, p, hnd, hbal, hnet => by
    rw [map_cons, nodup_cons] at hnd
    have hstep := balanced_applyOne_up hbal fun r hr => hnet r hr w mem_cons_self
    refine balanced_foldl_up ws _ hnd.2 hstep fun r hr w' hw' hname => ?_
    rw [(applyOne_up ..).1, rows_replace, mem_append, mem_singleton] at hr
    rcases hr with hr | rfl
    · exact hnet r (mem_of_mem_filter hr) w' (mem_cons_of_mem w hw') hname
    · exact absurd (mem_map.mpr ⟨w', hw', hname.symm⟩) hnd.1

end Wg

theorem Svc.start_up {parse : String → Json} {s : SpecService} {d : String × List Piece}
    (h : Svc.daemon parse s = some d) (ds : Svc.Daemons) : Svc.start parse .up s ds = ds.replace d := by
  simp only [Svc.start, h]
  rfl

theorem Svc.apply_up (parse : String → Json) (services : List SpecService) (ds : Svc.Daemons) :
    Svc.apply parse (fun _ => .up) services ds = (services.filterMap (Svc.daemon parse)).foldl Table.replace ds := by
  rw [Svc.apply, foldl_zipIdx fun ds s => Svc.start parse .up s ds]
  induction services generalizing ds with
  | nil => rfl
  | cons s services ih =>
    rw [foldl_cons, ih]
    rcases hd : Svc.daemon parse s with _ | d
    · simp [Svc.start, hd]
    · rw [filterMap_cons_some hd, Svc.start_up hd, foldl_cons]

/-- The interfaces and the daemons are those of the spec, each with its own settings, and there is one
    MASQUERADE rule per interface. -/
structure Planes.Exact (t : Tools) (spec : NodeSpec) (p : Planes) : Prop where
  live : p.wg.live.rows.Perm (spec.wireguard.map (Wg.row t))
  nat : Wg.Balanced t p.wg
  daemons : (p.daemons.rows.map some).Perm (spec.services.map (Svc.daemon t.parse))

/-- The spec names every interface and every daemon that is up, leaves the interfaces in their
    networks, and has a name of its own for each of them. -/
structure Planes.Steady (t : Tools) (spec : NodeSpec) (p : Planes) : Prop where
  names : (spec.wireguard.map Wg.ifName).Nodup
  interfaces : ∀ r ∈ p.wg.live.rows, ∃ w ∈ spec.wireguard, Wg.ifName w = r.1 ∧
    t.network w.address = t.network r.2.address
  kinds : ∀ s ∈ spec.services, s.kind = "mtproto" ∨ s.kind = "naive"
  tags : (spec.services.map Svc.tag).Nodup
  daemons : ∀ d ∈ p.daemons.rows, ∃ s ∈ spec.services, Svc.tag s = d.1

theorem Svc.daemon_eq (parse : String → Json) {s : SpecService}
    (h : s.kind = "mtproto" ∨ s.kind = "naive") : ∃ file, Svc.daemon parse s = some (Svc.tag s, file) := by
  rcases h with h | h
  · exact ⟨applyMtproto parse s, by simp only [Svc.daemon, applyOne, h]; rfl⟩
  · exact ⟨applyNaive parse s, by simp only [Svc.daemon, applyOne, h]; rfl⟩

theorem Svc.daemons_of_kinds (parse : String → Json) : ∀ {services : List SpecService},
    (∀ s ∈ services, s.kind = "mtproto" ∨ s.kind = "naive") →
    (services.filterMap (Svc.daemon parse)).map some = services.map (Svc.daemon parse) ∧
      (services.filterMap (Svc.daemon parse)).map Prod.fst = services.map Svc.tag
  | [], _ => ⟨rfl, rfl⟩
  | s :: services, h => by
    obtain ⟨file, hfile⟩ := Svc.daemon_eq parse (h s mem_cons_self)
    obtain ⟨hmap, htags⟩ := daemons_of_kinds parse fun s' hs' =>
      h s' (mem_cons_of_mem s hs')
    rw [filterMap_cons_some hfile]
    simp [hmap, htags, hfile]

theorem filter_not_mem_eq_nil {α κ : Type} [DecidableEq κ] {key : α → κ} {rows : List α} {keys : List κ}
    (h : ∀ r ∈ rows, key r ∈ keys) : rows.filter (key · ∉ keys) = [] :=
  filter_eq_nil_iff.mpr (by simpa using h)

/-- A steady spec makes the planes its own. -/
theorem Planes.exact_sync {t : Tools} {spec : NodeSpec} {p : Planes} (hbal : Wg.Balanced t p.wg)
    (h : p.Steady t spec) : (p.sync t allUp spec).Exact t spec where
  live := by
    have hnd : ((spec.wireguard.map (Wg.row t)).map Prod.fst).Nodup := by
      rw [map_map]
      exact h.names
    rw [sync_wg, show allUp.wg = fun _ => .up from rfl, Wg.apply_up, Wg.live_foldl_up,
      rows_foldl_replace _ _ hnd, filter_not_mem_eq_nil, nil_append]
    intro r hr
    obtain ⟨w, hw, hname, -⟩ := h.interfaces r hr
    exact mem_map.mpr ⟨Wg.row t w, mem_map_of_mem hw, hname⟩
  nat := by
    rw [sync_wg, show allUp.wg = fun _ => .up from rfl, Wg.apply_up]
    refine Wg.balanced_foldl_up _ _ h.names hbal fun r hr w hw hname => ?_
    obtain ⟨w', hw', hname', hnet⟩ := h.interfaces r hr
    rw [inj_on_of_nodup_map h.names hw hw' (hname.symm.trans hname'.symm), hnet]
  daemons := by
    obtain ⟨hmap, htags⟩ := Svc.daemons_of_kinds t.parse h.kinds
    rw [sync_daemons, show allUp.svc = fun _ => .up from rfl, Svc.apply_up,
      rows_foldl_replace _ _ (htags ▸ h.tags), filter_not_mem_eq_nil, nil_append, hmap]
    intro d hd
    obtain ⟨s, hs, htag⟩ := h.daemons d hd
    rw [htags]
    exact mem_map.mpr ⟨s, hs, htag⟩

end Honey.Agent
