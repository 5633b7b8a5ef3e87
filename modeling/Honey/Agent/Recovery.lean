import Honey.Agent.Accounting
import Honey.Agent.Acme
import Honey.Schemes.Crash

/-! What a reboot may start (`core/recovery.go`, `recoverCore` of the agent).

        config.json                    written in place or renamed in, never synced
        config.json.honey-state.json   temp file -- write -- sync -- rename

        boot:  marker active? -- hash of config.json = its hash? -- check -- launch
                  | no                | no
                  +-------------------+--> the core stays off

    `Apply`, `Start` and `Stop` change the two files at different times, with rollbacks that write the config back.
    Every call is a program over single operations of the file system and the processes, so a crash may cut it off
    anywhere; what is not synced comes back with any bytes at all. A rename that has returned is done, and completes a
    `MarkActive` or `MarkInactive`.

    The invariant speaks of the markers alone: each is the synced text of the last completed mark of its core
    (`Host.Sound`). What the configs went through does not matter, since the hash is compared before a core is started
    (`resumed_as_marked`). Planes, certificates and services are in other files and left out. -/

namespace Honey.Agent.Recovery
open Honey.Master Honey.Schemes Honey.Schemes.Prog List ExceptT Json Function

/-! ### The marker -/

structure RecoveryState where
  version : ℤ
  active : Bool
  sha256 : String
  deriving DecidableEq, Repr

namespace RecoveryState

/-- The fields in the order of the struct; an empty hash is left out. -/
def fields (s : RecoveryState) : List (String × Json) :=
  [("version", .int s.version), ("active", .bool s.active)] ++
    if s.sha256 = "" then [] else [("sha256", .str s.sha256)]

def marshal (s : RecoveryState) : List UInt8 := utf8 (obj s.fields).render

/-- The fields that an object names have the types of the struct. -/
def fieldFits (f : String × Json) : Bool :=
  (!namesField "version" f.1 || XrayAcme.fits asI64? f.2) &&
  (!namesField "active" f.1 || XrayAcme.fits asBool? f.2) &&
  (!namesField "sha256" f.1 || XrayAcme.fits asStr? f.2)

/-- The struct as a value fills it. -/
def ofJson (j : Json) : RecoveryState where
  version := unmarshalField "version" asI64? 0 j
  active := unmarshalField "active" asBool? false j
  sha256 := unmarshalField "sha256" asStr? "" j

/-- A value that `json.Unmarshal` can put into the struct. -/
def decodes : Json → Bool
  | .obj fields => fields.all fieldFits
  | .null => true
  | _ => false

def unmarshal (data : List UInt8) : Except String RecoveryState :=
  match fromUtf8 data with
  | none => .error "invalid JSON input"
  | some text => do
    let j ← Agent.unmarshal text
    if decodes j then return ofJson j
    else .error "json: cannot unmarshal value into Go value of type core.recoveryState"

end RecoveryState

def configHash (sum256 : List UInt8 → List UInt8) (data : List UInt8) : String :=
  String.ofList ((sum256 data).flatMap hexByte)

/-! ### The host -/

/-- The files of the agent that matter for a reboot; temporary files are numbered. -/
inductive Path where
  | config (k : ServerCore)
  | state (k : ServerCore)
  | temp (n : ℕ)
  deriving DecidableEq, Repr

/-- A file, and whether its bytes are on the disk for good. -/
structure File where
  bytes : List UInt8
  synced : Bool
  deriving DecidableEq, Repr

/-- A mark that was completed, with the config file at that moment. -/
inductive Mark where
  | active (config : Option (List UInt8))
  | inactive
  deriving DecidableEq, Repr

/-- The host. `marks` are the marks completed so far, `started` the cores launched since the boot;
    both are kept for the statements only. -/
structure Host where
  up : Bool
  files : Path → Option File
  state : ServerCore → ProtoState
  marks : List (ServerCore × Mark)
  started : List ServerCore

inductive FileError where
  | notExist
  | other (err : String)
  deriving DecidableEq, Repr

/-- The operations of the calls. -/
inductive FileOp where
  | mkdirAll
  | createTemp
  | chmod (tmp : ℕ)
  | write (tmp : ℕ) (data : List UInt8)
  | sync (tmp : ℕ)
  | close (tmp : ℕ)
  | remove (tmp : ℕ)
  | readFile (path : Path)
  | writeConfig (k : ServerCore) (data : List UInt8)
  | renameConfig (tmp : ℕ) (k : ServerCore)
  | renameState (tmp : ℕ) (k : ServerCore) (active : Bool)
  | removeState (k : ServerCore)
  | check (path : Path)
  | status (k : ServerCore)
  | fail (k : ServerCore)
  | launch (k : ServerCore)
  | halt (k : ServerCore)
  deriving DecidableEq, Repr

/-- What an operation answers. -/
abbrev FileOp.Answer : FileOp → Type
  | .createTemp => Except String ℕ
  | .readFile _ => Except FileError (List UInt8)
  | .removeState _ => Except FileError Unit
  | .status _ => ProtoState
  | .fail _ | .halt _ => Unit
  | _ => Except String Unit

/-- What the world does at one operation: cores that exit on their own before it, whether it fails,
    what a write that fails leaves, and the number of a new temporary file. -/
structure Turn where
  exits : ServerCore → Option CoreProcess.Exit
  fault : Option String
  torn : Option (List UInt8)
  name : ℕ

def Turn.verdict (t : Turn) : Except String Unit :=
  match t.fault with
  | none => .ok ()
  | some e => .error e

namespace Host

def put (h : Host) (p : Path) (f : Option File) : Host :=
  { h with files := update h.files p f }

def setState (h : Host) (k : ServerCore) (s : ProtoState) : Host :=
  { h with state := update h.state k s }

/-- `reap`, for the cores that exit. -/
def reap (x : ServerCore → Option CoreProcess.Exit) (h : Host) : Host :=
  { h with state := fun k => match h.state k, x k with
    | .running, some .clean => .stopped
    | .running, some (.failed _) => .errored
    | s, _ => s }

/-- A write in place. One that fails may have left anything. -/
def writeAt (h : Host) (t : Turn) (p : Path) (data : List UInt8) : Host × Except String Unit :=
  match t.fault with
  | none => (h.put p (some ⟨data, false⟩), .ok ())
  | some e => (match t.torn with
    | none => h
    | some left => h.put p (some ⟨left, false⟩), .error e)

/-- The config file of a core. -/
def config (h : Host) (k : ServerCore) : Option (List UInt8) := (h.files (.config k)).map File.bytes

/-- The mark that is completed now. -/
def mark (h : Host) (k : ServerCore) (active : Bool) : Mark :=
  if active then .active (h.config k) else .inactive

/-- One operation, with the cores that exited taken off. -/
def act : (o : FileOp) → Turn → Host → Host × o.Answer
  | .mkdirAll, t, h | .chmod _, t, h | .close _, t, h | .check _, t, h => (h, t.verdict)
  | .createTemp, t, h => match t.fault with
    | some e => (h, .error e)
    | none =>
      if (h.files (.temp t.name)).isSome then (h, .error "file exists")
      else (h.put (.temp t.name) (some ⟨[], false⟩), .ok t.name)
  | .write n data, t, h => h.writeAt t (.temp n) data
  | .sync n, t, h => match t.fault with
    | some e => (h, .error e)
    | none => (h.put (.temp n) ((h.files (.temp n)).map fun f => { f with synced := true }), .ok ())
  | .remove n, t, h => match t.fault with
    | some e => (h, .error e)
    | none => (h.put (.temp n) none, .ok ())
  | .readFile p, t, h => (h, match t.fault with
    | some e => .error (.other e)
    | none => match h.files p with
      | none => .error .notExist
      | some f => .ok f.bytes)
  | .writeConfig k data, t, h => h.writeAt t (.config k) data
  | .renameConfig n k, t, h => match t.fault, h.files (.temp n) with
    | some e, _ => (h, .error e)
    | none, none => (h, .error "no such file or directory")
    | none, some f => ((h.put (.config k) (some f)).put (.temp n) none, .ok ())
  | .renameState n k active, t, h => match t.fault, h.files (.temp n) with
    | some e, _ => (h, .error e)
    | none, none => (h, .error "no such file or directory")
    | none, some f => ({ (h.put (.state k) (some f)).put (.temp n) none with
        marks := h.marks ++ [(k, h.mark k active)] }, .ok ())
  | .removeState k, t, h => match t.fault, h.files (.state k) with
    | some e, _ => (h, .error (.other e))
    | none, none => (h, .error .notExist)
    | none, some _ => (h.put (.state k) none, .ok ())
  | .status k, _, h => (h, h.state k)
  | .fail k, _, h => (h.setState k .errored, ())
  | .launch k, t, h => match t.fault with
    | some e => (h, .error e)
    | none => ({ h.setState k .running with started := h.started ++ [k] }, .ok ())
  | .halt k, _, h => (h.setState k .stopped, ())

def step (o : FileOp) (t : Turn) (h : Host) : Host × o.Answer := act o t (h.reap t.exits)

/-- The host comes back: what was synced is as it was, of the rest anything may be left, and no core runs. -/
def reboot (torn : Path → Option (List UInt8)) (h : Host) : Host where
  up := true
  files := fun p => (h.files p).bind fun f =>
    if f.synced then some f else (torn p).map fun left => ⟨left, true⟩
  state := fun _ => .stopped
  marks := h.marks
  started := []

end Host

/-! ### Commands -/

/-- A program of the agent that may fail. -/
abbrev Cmd := ExceptT String (Prog FileOp FileOp.Answer)

/-- One operation. -/
def sys (o : FileOp) : Prog FileOp FileOp.Answer o.Answer := perform o

variable (tmp : ℕ) (k : ServerCore) (active : Bool)

def mkdirAll : Cmd Unit := mk (sys .mkdirAll)
def createTemp : Cmd ℕ := mk (sys .createTemp)
def chmod : Cmd Unit := mk (sys (.chmod tmp))
def write (data : List UInt8) : Cmd Unit := mk (sys (.write tmp data))
def sync : Cmd Unit := mk (sys (.sync tmp))
def close : Cmd Unit := mk (sys (.close tmp))
def writeFile (data : List UInt8) : Cmd Unit := mk (sys (.writeConfig k data))
def renameState : Cmd Unit := mk (sys (.renameState tmp k active))

/-- `fmt.Errorf` with a text before the error. -/
def context {α : Type} (text : String) (x : Cmd α) : Cmd α :=
  mk do return withPrefix text (← x.run)

/-- `defer os.Remove(path)`. -/
def deferRemove {α : Type} (body : Cmd α) : Cmd α := mk do
  let r ← body.run
  let _ ← sys (.remove tmp)
  return r

/-! ### Marks -/

/-- The rename, with the second attempt after the old marker was removed. -/
def installState : Cmd Unit := mk do
  match ← sys (.renameState tmp k active) with
  | .ok () => return .ok ()
  | .error e =>
    match ← sys (.removeState k) with
    | .error (.other _) => return .error e
    | _ => (renameState tmp k active).run

def writeRecoveryState (state : RecoveryState) : Cmd Unit := do
  mkdirAll
  let tmp ← createTemp
  deferRemove tmp do
    chmod tmp
    write tmp state.marshal
    sync tmp
    close tmp
    installState tmp k state.active

/-- The parts of the agent outside these files. -/
structure NodeAgent where
  sum256 : List UInt8 → List UInt8
  path : ServerCore → String
  buildConfig : ServerCore → NodeSpec → Except String String
  validateHysteria : String → Option String

/-- The error of reading a file. -/
def readError (path : String) : FileError → String
  | .notExist => "open " ++ path ++ ": no such file or directory"
  | .other e => e

variable (a : NodeAgent)

/-- Reading the config of a core. -/
def readConfig (k : ServerCore) : Cmd (List UInt8) := mk do
  match ← sys (.readFile (.config k)) with
  | .ok data => return .ok data
  | .error e => return .error (readError (a.path k) e)

def markActive (k : ServerCore) : Cmd Unit := do
  let config ← context "read active core config: " (readConfig a k)
  writeRecoveryState k ⟨1, true, configHash a.sum256 config⟩

def markInactive : Cmd Unit := writeRecoveryState k ⟨1, false, ""⟩

/-! ### Processes -/

/-- The name of a core in the messages of its process. -/
def processName : ServerCore → String
  | .singbox => "sing-box"
  | .xray => "xray"
  | .hysteria => "hysteria"

/-- `checkPath`, for a core whose binary can check a config (`checkArgs`). -/
def checkPath (path : Path) : Cmd Unit :=
  if k = .hysteria then pure () else mk (sys (.check path))

def failLocked {α : Type} (err : String) : Cmd α := mk do
  let _ ← sys (.fail k)
  return .error err

def writeConfig (data : List UInt8) : Cmd Unit :=
  if data = [] then pure ()
  else do
    mkdirAll
    writeFile k data

/-- `Start` from its check on. -/
def launchChecked : Cmd Unit := do
  checkPath k (.config k)
  context ("start " ++ processName k ++ ": ") (mk (sys (.launch k)))

/-- `Process.Start`. -/
def startProcess (data : List UInt8) : Cmd Unit := mk do
  if (← sys (.status k)) = .running then return .ok ()
  else
    match ← (do writeConfig k data; launchChecked k : Cmd Unit).run with
    | .ok () => return .ok ()
    | .error e => (failLocked k e).run

/-- `Process.Stop`. -/
def stopProcess : Cmd Unit := mk do
  let _ ← sys (.halt k)
  return .ok ()

/-- A candidate file that the core has checked. -/
def stageCandidate (tmp : ℕ) (data : List UInt8) : Cmd Unit := do
  chmod tmp
  write tmp data
  close tmp
  checkPath k (.temp tmp)

/-- The config before the swap, if there is one. -/
def readOld : Cmd (Option (List UInt8)) := mk do
  match ← sys (.readFile (.config k)) with
  | .ok data => return .ok (some data)
  | .error .notExist => return .ok none
  | .error (.other e) => return .error ("read current " ++ processName k ++ " config: " ++ e)

/-- The end of `Process.Apply` after a start that failed. -/
def restoreOld (old : Option (List UInt8)) (err : String) : Cmd Unit :=
    mk do
  let failed := "apply new " ++ processName k ++ " config: " ++ err
  match old with
  | none => return .error err
  | some data =>
    match ← sys (.writeConfig k data) with
    | .error e => return .error (failed ++ "; restore config: " ++ e)
    | .ok () =>
      match ← (startProcess k []).run with
      | .error e => return .error (failed ++ "; restart previous config: " ++ e)
      | .ok () => return .error (failed ++ "; previous config restored")

/-- `Process.Apply` from the rename on. -/
def swapIn (tmp : ℕ) (old : Option (List UInt8)) : Cmd Unit := mk do
  match ← sys (.renameConfig tmp k) with
  | .error e =>
    let _ ← (startProcess k []).run
    return .error ("install candidate " ++ processName k ++ " config: " ++ e)
  | .ok () =>
    match ← (startProcess k []).run with
    | .ok () => return .ok ()
    | .error e => (restoreOld k old e).run

/-- `Process.Apply`. -/
def applyProcess (data : List UInt8) : Cmd Unit :=
  if data = [] then do
    checkPath k (.config k)
    stopProcess k
    startProcess k []
  else do
    mkdirAll
    let tmp ← context ("create candidate " ++ processName k ++ " config: ") createTemp
    deferRemove tmp do
      stageCandidate k tmp data
      let old ← readOld k
      stopProcess k
      swapIn k tmp old

/-- `Process.Validate`, and `Validate` of the Hysteria manager, which reads the text itself. -/
def validateConfig (k : ServerCore) (config : String) : Cmd Unit :=
  if k = .hysteria then
    match a.validateHysteria config with
    | none => pure ()
    | some e => throw e
  else if config = "" then pure ()
  else do
    mkdirAll
    let tmp ← context ("create candidate " ++ processName k ++ " config: ") createTemp
    deferRemove tmp (stageCandidate k tmp (utf8 config))

/-! ### Calls -/

/-- The loop of `validateCandidate`. -/
def validateKinds (a : NodeAgent) (spec : NodeSpec) : List ServerCore → Cmd (List (ServerCore × Option String))
  | [] => return []
  | k :: ks =>
    if (coreSpec spec k).inbounds = [] then return (k, none) :: (← validateKinds a spec ks)
    else do
      let config ← context ("build " ++ k.key ++ " config: ") (mk (pure (a.buildConfig k (coreSpec spec k))))
      context ("validate " ++ k.key ++ " config: ") (validateConfig a k config)
      return (k, some config) :: (← validateKinds a spec ks)

/-- `prepareACME`, with the answers of the manager in this call. -/
def prepareSpec (acme : Option Acme) (issue : Bool) (spec : NodeSpec) : Except String NodeSpec :=
  match acme with
  | none => .ok spec
  | some m => if issue then m.activate spec else m.prepare spec

/-- `Apply` up to the point where it touches the cores. -/
def candidateConfigs (acme : Option Acme) (spec : NodeSpec) : Cmd (List (ServerCore × Option String)) := do
  let prepared ← context "prepare ACME candidate: " (mk (pure (prepareSpec acme false spec)))
  let configs ← validateKinds a prepared kinds
  if acme.isSome then do
    let issued ← context "activate ACME certificate: " (mk (pure (prepareSpec acme true prepared)))
    validateKinds a issued kinds
  else return configs

/-- The first loop of `Apply`: the cores without inbounds; those that ran. -/
def stopIdle (a : NodeAgent) : List ServerCore → Cmd (List ServerCore)
  | [] => return []
  | k :: ks => mk do
    let state ← sys (.status k)
    match ← (context ("mark " ++ k.key ++ " inactive: ") (markInactive k)).run with
    | .error e => return .error e
    | .ok () =>
      match ← (stopProcess k).run with
      | .error e =>
        let _ ← if state = .running then (markActive a k).run else pure (.ok ())
        return .error ("stop " ++ k.key ++ ": " ++ e)
      | .ok () =>
        let stopped ← (stopIdle a ks).run
        return stopped.map fun rest => if state = .running then k :: rest else rest

/-- `Start("")` of the cores that ran; the errors. -/
def startAgain : List ServerCore → Prog FileOp FileOp.Answer (List String)
  | [] => return []
  | k :: ks => do
    let r ← (startProcess k []).run
    let errs ← startAgain ks
    return match r with
      | .ok () => errs
      | .error e => e :: errs

/-- The markers of the cores without inbounds that run again. -/
def markAgain (a : NodeAgent) : List ServerCore → Prog FileOp FileOp.Answer Unit
  | [] => return ()
  | k :: ks => do
    if (← sys (.status k)) = .running then
      let _ ← (markActive a k).run
      markAgain a ks
    else markAgain a ks

/-- The second loop: the cores with inbounds. -/
def applyWanted (a : NodeAgent) (idle stopped : List ServerCore) : List (ServerCore × String) → Cmd Unit
  | [] => return ()
  | (k, config) :: rest => mk do
    match ← (applyProcess k (utf8 config)).run with
    | .error e =>
      let errs ← startAgain stopped
      markAgain a idle
      let e := if errs = [] then e else e ++ "; restore previous cores: " ++ "; ".intercalate errs
      return .error ("apply " ++ k.key ++ " config: " ++ e)
    | .ok () =>
      match ← (context ("mark " ++ k.key ++ " active: ") (markActive a k)).run with
      | .error e => return .error e
      | .ok () => (applyWanted a idle stopped rest).run

/-- The third loop. -/
def settleIdle (a : NodeAgent) : List ServerCore → Cmd Unit
  | [] => return ()
  | k :: ks => mk do
    if (← sys (.status k)) = .running then
      match ← (context ("mark " ++ k.key ++ " active: ") (markActive a k)).run with
      | .error e => return .error e
      | .ok () => (settleIdle a ks).run
    else (settleIdle a ks).run

/-- `Apply`. -/
def applyCall (acme : Option Acme) (spec : NodeSpec) : Cmd Unit := do
  let configs ← candidateConfigs a acme spec
  let stopped ← stopIdle a (unwanted configs)
  applyWanted a (unwanted configs) stopped (wanted configs)
  settleIdle a (unwanted configs)

/-- `Start`; sing-box manages its certificates itself. -/
def startCall (k : ServerCore) (acme : Option Acme) (spec : NodeSpec) : Cmd Unit := do
  let acme := if k = .singbox then none else acme
  let spec ← mk (pure (prepareSpec acme true (coreSpec spec k)))
  let config ← mk (pure (a.buildConfig k spec))
  startProcess k (utf8 config)
  markActive a k

/-- `Stop`. -/
def stopCall : Cmd Unit := do
  markInactive k
  stopProcess k

/-- One core in the callback of `SetReload`. -/
def reloadCore : Cmd Unit := mk do
  if (← sys (.status k)) = .running then (applyProcess k []).run
  else return .ok ()

/-- The callback of `SetReload`. -/
def reloadCall : Cmd Unit := do
  reloadCore .xray
  reloadCore .hysteria

/-! ### The boot -/

def shouldRecover (k : ServerCore) : Cmd Bool := mk do
  match ← sys (.readFile (.state k)) with
  | .error .notExist => return .ok false
  | .error (.other e) => return .error e
  | .ok data =>
    match RecoveryState.unmarshal data with
    | .error e => return .error ("parse recovery state: " ++ e)
    | .ok state =>
      if state.version ≠ 1 ∨ state.active = false then return .ok false
      else
        match ← (context "read active core config: " (readConfig a k)).run with
        | .error e => return .error e
        | .ok config =>
          if configHash a.sum256 config ≠ state.sha256 then
            return .error ("recovery state hash mismatch: want " ++ state.sha256 ++ ", got " ++
              configHash a.sum256 config)
          else return .ok true

/-- `recoverCore`; its errors are only logged. -/
def recoverCore (k : ServerCore) : Prog FileOp FileOp.Answer Unit := do
  match ← (shouldRecover a k).run with
  | .ok true =>
    let _ ← (startProcess k []).run
    return ()
  | _ => return ()

/-- The recovery in `main`. -/
def recoverAll : Prog FileOp FileOp.Answer Unit := do
  recoverCore a .singbox
  recoverCore a .xray
  recoverCore a .hysteria

/-- What the agent is asked to do. -/
inductive NodeCall where
  | apply (acme : Option Acme) (spec : NodeSpec)
  | start (k : ServerCore) (acme : Option Acme) (spec : NodeSpec)
  | stop (k : ServerCore)
  | reload

def NodeCall.cmd : NodeCall → Cmd Unit
  | .apply acme spec => applyCall a acme spec
  | .start k acme spec => startCall a k acme spec
  | .stop k => stopCall k
  | .reload => reloadCall

/-- The life of the host: a call, which the turns may cut off, or a boot, after the host went down in
    a call or between two. -/
inductive HostTurn where
  | call (c : NodeCall) (turns : List Turn)
  | boot (torn : Path → Option (List UInt8)) (turns : List Turn)

namespace Host

/-- The host after a program; it is down if the program was cut off. -/
def finish {α : Type} : Host × Option (α × List Turn) → Host
  | (h, some _) => h
  | (h, none) => { h with up := false }

def advance (a : NodeAgent) (h : Host) : HostTurn → Host
  | .call c turns => if h.up then finish (exec step (c.cmd a).run turns h) else h
  | .boot torn turns => finish (exec step (recoverAll a) turns (h.reboot torn))

end Host

/-! ### The text of a marker -/

theorem unmarshal_fields {k : String} {v : Json} {fs : List (String × Json)} (hv : wellFormed v)
    (hfs : wellFormedFields fs) : Agent.unmarshal (obj ((k, v) :: fs)).render = .ok (object ((k, v) :: fs)) := by
  have hread : ∀ n, 1 + fuel v + fuelFields fs ≤ n →
      readValue (n + 1) (obj ((k, v) :: fs)).chars = some (object ((k, v) :: fs), []) := by
    intro n hn
    rw [← append_nil (chars _), chars_obj, readValue_object (by rfl), readFields_chars k v fs n [] hv hfs hn]
    rfl
  have hlen := fuelFields_le_length fs hfs
  have hval := fuel_le_length v hv
  have hn := hread (obj ((k, v) :: fs)).chars.length (by
    have := congrArg length (chars_obj k v fs [])
    simp only [length_cons, length_append] at this
    omega)
  simp only [Agent.unmarshal, render, String.toList_ofList, hn]
  rfl

theorem names_apart : namesField "version" "version" ∧ namesField "active" "active" ∧
    namesField "sha256" "sha256" ∧ ¬ namesField "version" "active" ∧ ¬ namesField "version" "sha256" ∧
    ¬ namesField "active" "version" ∧ ¬ namesField "active" "sha256" ∧ ¬ namesField "sha256" "version" ∧
    ¬ namesField "sha256" "active" := by decide +kernel

theorem object_fields (sha256 : String) :
    object [("version", int 1), ("active", .bool active), ("sha256", .str sha256)] =
      .obj [("active", .bool active), ("sha256", .str sha256), ("version", .int 1)] := by
  have hav : "active" < "version" := by decide +kernel
  have hsa : ¬ "sha256" < "active" := by decide +kernel
  have hsv : "sha256" < "version" := by decide +kernel
  simp only [object, foldl_cons, foldl_nil, insertField, if_pos hav, if_neg hsa, if_pos hsv]
  rw [if_neg (by decide +kernel)]

theorem decode_fields (sha256 : String) :
    RecoveryState.decodes (object (RecoveryState.fields ⟨1, active, sha256⟩)) = true ∧
    RecoveryState.ofJson (object (RecoveryState.fields ⟨1, active, sha256⟩)) = ⟨1, active, sha256⟩ := by
  rw [RecoveryState.fields]
  by_cases h : sha256 = ""
  · subst h
    cases active with
    | false => decide +kernel
    | true => decide +kernel
  simp only [if_neg h]
  rw [cons_append, cons_append, nil_append, object_fields]
  constructor
  · simp [RecoveryState.decodes, RecoveryState.fieldFits, names_apart, XrayAcme.fits, asI64?, asBool?, asStr?, InI64]
  · simp [RecoveryState.ofJson, unmarshalField, lastWrite, fieldValue, names_apart, asI64?, asBool?, asStr?, InI64]

theorem unmarshal_marshal (sha256 : String) :
    RecoveryState.unmarshal (RecoveryState.marshal ⟨1, active, sha256⟩) = .ok ⟨1, active, sha256⟩ := by
  have hdec := decode_fields active sha256
  have htext : Agent.unmarshal (obj (RecoveryState.fields ⟨1, active, sha256⟩)).render =
      .ok (object (RecoveryState.fields ⟨1, active, sha256⟩)) := by
    refine unmarshal_fields rfl ?_
    by_cases h : sha256 = "" <;> simp [h, wellFormedFields, wellFormed]
  rw [RecoveryState.unmarshal, RecoveryState.marshal, fromUtf8_utf8]
  simp only [htext]
  change (if _ then _ else _) = _
  rw [if_pos hdec.1, hdec.2]
  rfl

theorem hexByte_inj (b c : UInt8) (h : hexByte b = hexByte c) : b = c := by
  have hdigit : ∀ m < 16, ∀ n < 16, Nat.digitChar m = Nat.digitChar n → m = n := by decide
  simp only [hexByte, cons.injEq, and_true] at h
  have hb := b.toNat_lt
  have hc := c.toNat_lt
  have hhigh := hdigit _ (by omega) _ (by omega) h.1
  have hlow := hdigit _ (by omega) _ (by omega) h.2
  exact UInt8.toNat_inj.mp (by omega)

theorem flatMap_hexByte_inj : ∀ data data' : List UInt8, data.flatMap hexByte = data'.flatMap hexByte → data = data'
  | [], [], _ => rfl
  | [], c :: data', h => by simp [hexByte] at h
  | b :: data, [], h => by simp [hexByte] at h
  | b :: data, c :: data', h => by
    obtain ⟨hhead, htail⟩ := append_inj h rfl
    rw [hexByte_inj b c hhead, flatMap_hexByte_inj data data' htail]

theorem configHash_inj {sum256 : List UInt8 → List UInt8} (h : Injective sum256)
    {config config' : List UInt8} (heq : configHash sum256 config = configHash sum256 config') : config = config' :=
  h (flatMap_hexByte_inj _ _ (String.ofList_injective heq))

/-! ### The markers -/

/-- The state that a mark writes. -/
def Mark.state (sum256 : List UInt8 → List UInt8) : Mark → Option RecoveryState
  | .inactive => some ⟨1, false, ""⟩
  | .active (some config) => some ⟨1, true, configHash sum256 config⟩
  | .active none => none

/-- The last mark that was completed for a core. -/
def lastMark (marks : List (ServerCore × Mark)) : Option Mark :=
  ((marks.filter (·.1 = k)).getLast?).map Prod.snd

theorem lastMark_append_self (m : Mark) (marks : List (ServerCore × Mark)) :
    lastMark k (marks ++ [(k, m)]) = some m := by
  simp [lastMark]

theorem lastMark_append_other {j k : ServerCore} (h : j ≠ k) (m : Mark)
    (marks : List (ServerCore × Mark)) : lastMark k (marks ++ [(j, m)]) = lastMark k marks := by
  simp [lastMark, h]

theorem lastMark_eq_some {k : ServerCore} {m : Mark} {marks : List (ServerCore × Mark)}
    (h : lastMark k marks = some m) : ∃ before after, marks = before ++ (k, m) :: after ∧ ∀ x ∈ after, x.1 ≠ k := by
  induction marks using reverseRecOn with
  | nil => cases h
  | append_singleton marks x ih =>
    obtain ⟨j, n⟩ := x
    by_cases hj : j = k
    · subst hj
      rw [lastMark_append_self] at h
      cases h
      exact ⟨marks, [], rfl, by simp⟩
    rw [lastMark_append_other hj] at h
    obtain ⟨before, after, rfl, hafter⟩ := ih h
    refine ⟨before, after ++ [(j, n)], by simp, ?_⟩
    intro x hx
    rcases mem_append.mp hx with hx | hx
    · exact hafter x hx
    · rw [mem_singleton.mp hx]
      exact hj

/-- Every marker is the synced text of the last mark that was completed for its core. -/
def Host.Sound (h : Host) : Prop :=
  ∀ k f, h.files (.state k) = some f → f.synced = true ∧
    ∃ m s, lastMark k h.marks = some m ∧ m.state a.sum256 = some s ∧ f.bytes = s.marshal

/-- The preconditions of a program, with the invariant wherever it may be cut off. -/
abbrev wpSound {α : Type} (p : Prog FileOp FileOp.Answer α) (post : α → Host → Prop) : Host → Prop :=
  wp Host.step (Host.Sound a) p post

/-- The program keeps the invariant. -/
abbrev Safe {α : Type} (p : Prog FileOp FileOp.Answer α) : Prop := Keeps Host.step (Host.Sound a) p

namespace FileOp

/-- The files that an operation may change. -/
def touches (t : Turn) : FileOp → List Path
  | .createTemp => [.temp t.name]
  | .write n _ | .sync n | .remove n => [.temp n]
  | .writeConfig k _ => [.config k]
  | .renameConfig n k => [.config k, .temp n]
  | .renameState n k _ => [.state k, .temp n]
  | .removeState k => [.state k]
  | _ => []

/-- The operation that completes a mark. -/
def completes : FileOp → Bool
  | .renameState _ _ _ => true
  | _ => false

end FileOp

section

variable {a : NodeAgent} {h : Host} {o : FileOp} {t : Turn} {k : ServerCore}

attribute [local simp] FileOp.touches

theorem files_reap (x : ServerCore → Option CoreProcess.Exit) : (h.reap x).files = h.files := rfl

variable (p : Path)

theorem put_files_self (f : Option File) : (h.put p f).files p = f := update_self ..

theorem put_files_of_ne {p q : Path} (hpq : q ≠ p) (f : Option File) :
    (h.put p f).files q = h.files q := update_of_ne hpq ..

theorem writeAt_files_of_ne {p q : Path} (hpq : q ≠ p) (data : List UInt8) :
    (h.writeAt t p data).1.files q = h.files q := by
  rw [Host.writeAt]
  split
  · exact put_files_of_ne hpq _
  split
  · rfl
  · exact put_files_of_ne hpq _

variable (data : List UInt8)

theorem writeAt_marks : (h.writeAt t p data).1.marks = h.marks := by
  rw [Host.writeAt]
  split
  · rfl
  · split <;> rfl

theorem act_frame {p : Path} (hp : p ∉ o.touches t) : (Host.act o t h).1.files p = h.files p := by
  cases o with
  | mkdirAll | chmod | close | check | readFile | status | fail | halt => rfl
  | write | writeConfig => exact writeAt_files_of_ne (by simpa using hp) _
  | launch =>
    simp only [Host.act]
    split <;> rfl
  | createTemp | sync | remove | removeState =>
    simp only [FileOp.touches, mem_singleton] at hp
    simp only [Host.act]
    repeat' split
    all_goals first
      | rfl
      | exact put_files_of_ne hp _
  | renameConfig | renameState =>
    simp only [FileOp.touches, mem_cons, not_mem_nil, or_false, not_or] at hp
    simp only [Host.act]
    split
    · rfl
    · rfl
    · exact (put_files_of_ne hp.2 _).trans (put_files_of_ne hp.1 _)

section

variable (ho : o.completes = false)
include ho

theorem act_marks : (Host.act o t h).1.marks = h.marks := by
  cases o with
  | mkdirAll | chmod | close | check | readFile | status | fail | halt => rfl
  | write | writeConfig => exact writeAt_marks ..
  | renameState => cases ho
  | createTemp | sync | remove | launch | renameConfig | removeState =>
    simp only [Host.act]
    repeat' split
    all_goals rfl

/-- A marker changes by the rename alone, or it is removed. -/
theorem act_state (k : ServerCore) : (Host.act o t h).1.files (.state k) = h.files (.state k) ∨
    (Host.act o t h).1.files (.state k) = none := by
  by_cases htouch : Path.state k ∈ o.touches t
  · cases o with
    | renameState => cases ho
    | removeState j =>
      simp only [FileOp.touches, mem_singleton, Path.state.injEq] at htouch
      subst htouch
      simp only [Host.act]
      split
      · exact .inl rfl
      · exact .inl rfl
      · exact .inr (put_files_self _ _)
    | _ => simp at htouch
  · exact .inl (act_frame htouch)

omit ho in
theorem step_frame {p : Path} (hp : p ∉ o.touches t) : (Host.step o t h).1.files p = h.files p := act_frame hp

theorem step_marks : (Host.step o t h).1.marks = h.marks := act_marks ho

theorem step_state (k : ServerCore) : (Host.step o t h).1.files (.state k) = h.files (.state k) ∨
    (Host.step o t h).1.files (.state k) = none := act_state ho k

omit ho in
/-- Every operation but the rename of a marker keeps the invariant. -/
theorem Host.Sound.step (hs : h.Sound a) (ho : o.completes = false) : (Host.step o t h).1.Sound a := by
  intro k f hf
  rcases step_state (t := t) (h := h) ho k with hsame | hnone
  · rw [step_marks ho]
    exact hs k f (hsame.symm.trans hf)
  · cases hnone.symm.trans hf

theorem keeps_sys : Safe a (sys o) := keeps_perform fun _ _ hs => hs.step ho

end

/-! ### Writing a marker -/

/-- The invariant, with the config that is marked still in place. -/
structure Prepared (a : NodeAgent) (k : ServerCore) (state : RecoveryState) (h : Host) : Prop where
  sound : h.Sound a
  fits : (h.mark k state.active).state a.sum256 = some state

/-- The temporary file holds the marker, on the disk for good. -/
structure Staged (a : NodeAgent) (k : ServerCore) (state : RecoveryState) (tmp : ℕ) (h : Host) :
    Prop extends Prepared a k state h where
  staged : h.files (.temp tmp) = some ⟨state.marshal, true⟩

variable {state : RecoveryState} {tmp : ℕ}

theorem mark_congr {h' : Host} (hc : h'.files (.config k) = h.files (.config k)) (active : Bool) :
    h'.mark k active = h.mark k active := by
  rw [Host.mark, Host.mark, Host.config, Host.config, hc]

theorem Prepared.step (hp : Prepared a k state h) (ho : o.completes = false)
    (hc : .config k ∉ o.touches t) : Prepared a k state (Host.step o t h).1 where
  sound := hp.sound.step ho
  fits := by
    rw [mark_congr (step_frame hc)]
    exact hp.fits

theorem Staged.step (hp : Staged a k state tmp h) (ho : o.completes = false)
    (hc : .config k ∉ o.touches t) (ht : .temp tmp ∉ o.touches t) : Staged a k state tmp (Host.step o t h).1 where
  toPrepared := hp.toPrepared.step ho hc
  staged := (step_frame ht).trans hp.staged

theorem Prepared.wp_sys (hp : Prepared a k state h) (ho : o.completes = false) (hc : ∀ t, .config k ∉ o.touches t) :
    wpSound a (sys o) (fun _ h => Prepared a k state h) h :=
  ⟨hp.sound, fun t => hp.step ho (hc t)⟩

theorem Staged.wp_sys (hp : Staged a k state tmp h) (ho : o.completes = false)
    (hc : ∀ t, .config k ∉ o.touches t) (ht : ∀ t, .temp tmp ∉ o.touches t) :
    wpSound a (sys o) (fun _ h => Staged a k state tmp h) h :=
  ⟨hp.sound, fun t => hp.step ho (hc t) (ht t)⟩

/-- The mark is the last one of its core. -/
structure Host.Completed (a : NodeAgent) (k : ServerCore) (active : Bool) (h : Host) : Prop where
  sound : h.Sound a
  last : lastMark k h.marks = some (h.mark k active)

theorem Staged.wp_renameState (hp : Staged a k state tmp h) : wpSound a (sys (.renameState tmp k state.active))
      (onOk (fun _ h => h.Completed a k state.active) fun _ h => Staged a k state tmp h) h := by
  refine (wp_perform _).mpr ⟨hp.sound, fun t => ?_⟩
  simp only [Host.step, Host.act]
  split
  · exact ⟨⟨hp.sound, hp.fits⟩, hp.staged⟩
  · exact ⟨⟨hp.sound, hp.fits⟩, hp.staged⟩
  rename_i _ hf
  cases hp.staged.symm.trans hf
  refine ⟨fun j g hg => ?_, lastMark_append_self k _ _⟩
  by_cases hj : j = k
  · subst hj
    rw [put_files_of_ne (by simp), put_files_self] at hg
    cases hg
    exact ⟨rfl, _, state, lastMark_append_self _ _ _, hp.fits, rfl⟩
  · rw [put_files_of_ne (by simp), put_files_of_ne (by simpa using hj)] at hg
    obtain ⟨hsync, m, s, hlast, hstate⟩ := hp.sound j g hg
    exact ⟨hsync, m, s, (lastMark_append_other (Ne.symm hj) _ _).trans hlast, hstate⟩

theorem wp_write (hp : Prepared a k state h) : wpSound a (write tmp state.marshal).run (onOk
      (fun _ h => Prepared a k state h ∧ h.files (.temp tmp) = some ⟨state.marshal, false⟩)
      fun _ h => h.Sound a) h := by
  refine (wp_perform _).mpr ⟨hp.sound, fun t => ?_⟩
  have hnext : Prepared a k state (Host.step (.write tmp state.marshal) t h).1 := hp.step rfl (by simp)
  revert hnext
  simp only [Host.step, Host.act, Host.writeAt]
  split
  · exact fun hnext => ⟨hnext, put_files_self _ _⟩
  · exact fun hnext => hnext.sound

theorem wp_sync (hp : Prepared a k state h) (hfile : h.files (.temp tmp) = some ⟨state.marshal, false⟩) :
    wpSound a (sync tmp).run (onOk (fun _ h => Staged a k state tmp h) fun _ h => h.Sound a) h := by
  refine (wp_perform _).mpr ⟨hp.sound, fun t => ?_⟩
  have hnext : Prepared a k state (Host.step (.sync tmp) t h).1 := hp.step rfl (by simp)
  revert hnext
  simp only [Host.step, Host.act]
  split
  · exact fun hnext => hnext.sound
  · refine fun hnext => ⟨hnext, (put_files_self _ _).trans ?_⟩
    rw [files_reap, hfile]
    rfl

theorem wp_installState (hp : Staged a k state tmp h) : wpSound a (installState tmp k state.active).run
    (onOk (fun _ h => h.Completed a k state.active) fun _ h => h.Sound a) h := by
  refine (wp_bind _ _ _).mpr (wp_mono (fun r h hr => ?_) _ _ hp.wp_renameState)
  cases r with
  | ok _ => exact hr
  | error e =>
    have hremove : wpSound a (sys (.removeState k)) (fun _ h => Staged a k state tmp h) h :=
      hr.wp_sys rfl (by simp) (by simp)
    refine (wp_bind _ _ _).mpr (wp_mono (fun r h hr => ?_) _ _ hremove)
    have hagain : wpSound a (renameState tmp k state.active).run
        (onOk (fun _ h => h.Completed a k state.active) fun _ h => h.Sound a) h := by
      refine wp_mono (fun r h hr => ?_) _ _ hr.wp_renameState
      cases r with
      | ok _ => exact hr
      | error _ => exact hr.sound
    split
    · exact hr.sound
    · exact hagain

variable {α : Type} {text : String} {inv : Host → Prop}

theorem wp_deferRemove {body : Cmd α} {post : Except String α → Host → Prop} (hsound : ∀ {r h}, post r h → h.Sound a)
    (hpost : ∀ {r h} t, post r h → post r (Host.step (.remove tmp) t h).1) (hb : wpSound a body.run post h) :
    wpSound a (deferRemove tmp body).run post h :=
  (wp_bind _ _ _).mpr (wp_mono (fun _ _ hr => ⟨hsound hr, fun t => hpost t hr⟩) _ _ hb)

/-- A marker is written only after its text is on the disk for good. -/
theorem wp_writeRecoveryState (hp : Prepared a k state h) :
    wpSound a (writeRecoveryState k state).run
      (onOk (fun _ h => h.Completed a k state.active) fun _ h => h.Sound a) h := by
  refine wp_seq (wp_onOk (hp.wp_sys rfl (by simp)) fun _ hp => hp.sound) fun _ h hp => ?_
  refine wp_seq (wp_onOk (hp.wp_sys rfl (by simp)) fun _ hp => hp.sound) fun tmp h hp => ?_
  refine wp_deferRemove ?_ ?_ ?_
  · rintro (e | _) h hr
    · exact hr
    · exact hr.sound
  · rintro (e | _) h t hr
    · exact hr.step rfl
    · exact ⟨hr.sound.step rfl, by rw [step_marks rfl, hr.last, mark_congr (step_frame (by simp))]⟩
  refine wp_seq (wp_onOk (hp.wp_sys rfl (by simp)) fun _ hp => hp.sound) fun _ h hp => ?_
  refine wp_seq (wp_write hp) fun _ h hp => ?_
  refine wp_seq (wp_sync hp.1 hp.2) fun _ h hp => ?_
  have hclose : wpSound a (sys (.close tmp)) (fun _ h => Staged a k state tmp h) h := hp.wp_sys rfl (by simp) (by simp)
  exact wp_seq (wp_onOk hclose fun _ hp => hp.sound) fun _ h hp => wp_installState hp

/-- A success of `markInactive` has completed its mark. -/
theorem wp_markInactive (hs : h.Sound a) :
    wpSound a (markInactive k).run (onOk (fun _ h => h.Completed a k false) fun _ h => h.Sound a) h :=
  wp_writeRecoveryState ⟨hs, rfl⟩

theorem sound_of_completed {active : Bool} : ∀ (r : Except String Unit) (h : Host),
    onOk (fun _ h => h.Completed a k active) (fun _ h => h.Sound a) r h → h.Sound a
  | .ok _, _, hr => hr.sound
  | .error _, _, hr => hr

theorem keeps_markInactive : Safe a (markInactive k).run :=
  fun _ hs => wp_mono sound_of_completed _ _ (wp_markInactive hs)

theorem wp_context {x : Cmd α} {crash : Host → Prop} {post : Except String α → Host → Prop} :
    wp Host.step crash (context text x).run post h ↔
      wp Host.step crash x.run (fun r h => post (withPrefix text r) h) h :=
  wp_bind _ _ _

theorem keeps_context {x : Cmd α} (hx : Keeps Host.step inv x.run) : Keeps Host.step inv (context text x).run :=
  fun _ hs => wp_context.mpr (hx _ hs)

theorem step_readFile : (Host.step (.readFile p) t h).1.files = h.files ∧
    ∀ data, (Host.step (.readFile p) t h).2 = .ok data → (h.files p).map File.bytes = some data := by
  refine ⟨rfl, fun data hdata => ?_⟩
  simp only [Host.step, Host.act, files_reap] at hdata
  split at hdata
  · cases hdata
  split at hdata
  · cases hdata
  · rename_i hf
    rw [hf]
    exact congrArg some (Except.ok.inj hdata)

theorem wp_readConfig {crash : Host → Prop} (hcrash : crash h)
    (hinv : ∀ t, inv (Host.step (.readFile (.config k)) t h).1) : wp Host.step crash (context text (readConfig a k)).run
      (onOk (fun config h => inv h ∧ h.config k = some config) fun _ h => inv h) h := by
  rw [wp_context]
  refine (wp_bind _ _ _).mpr ((wp_perform _).mpr ⟨hcrash, fun t => ?_⟩)
  split
  · rename_i data hdata
    exact ⟨hinv t, (step_readFile _).2 data hdata⟩
  · exact hinv t

/-- A success of `markActive` has completed its mark; the config that is hashed is still in place then. -/
theorem wp_markActive (hs : h.Sound a) :
    wpSound a (markActive a k).run (onOk (fun _ h => h.Completed a k true) fun _ h => h.Sound a) h := by
  refine wp_seq (wp_readConfig hs fun _ => hs.step rfl) fun config h hc => ?_
  refine wp_writeRecoveryState ⟨hc.1, ?_⟩
  rw [Host.mark, hc.2]
  rfl

theorem keeps_markActive : Safe a (markActive a k).run := fun _ hs => wp_mono sound_of_completed _ _ (wp_markActive hs)

/-! ### The calls keep the invariant -/

theorem keeps_deferRemove {body : Cmd α} (hb : Safe a body.run) : Safe a (deferRemove tmp body).run :=
  fun _ hs => wp_deferRemove id (fun _ hr => hr.step rfl) (hb _ hs)

theorem keeps_checkPath : Safe a (checkPath k p).run := by
  rw [checkPath]
  split
  · exact keeps_pure _
  · exact keeps_sys rfl

theorem keeps_writeConfig : Safe a (writeConfig k data).run := by
  rw [writeConfig]
  split
  · exact keeps_pure _
  · exact keeps_then (keeps_sys rfl) fun _ => keeps_sys rfl

theorem keeps_launchChecked : Safe a (launchChecked k).run :=
  keeps_then (keeps_checkPath _) fun _ => keeps_context (keeps_sys rfl)

theorem keeps_startProcess : Safe a (startProcess k data).run := by
  refine keeps_bind (keeps_sys rfl) fun s => ?_
  split
  · exact keeps_pure _
  refine keeps_bind (keeps_then (keeps_writeConfig data) fun _ => keeps_launchChecked) fun r => ?_
  split
  · exact keeps_pure _
  · exact keeps_bind (keeps_sys rfl) fun _ => keeps_pure _

theorem keeps_stopProcess : Safe a (stopProcess k).run := keeps_bind (keeps_sys rfl) fun _ => keeps_pure _

theorem keeps_stageCandidate : Safe a (stageCandidate k tmp data).run :=
  keeps_then (keeps_sys rfl) fun _ => keeps_then (keeps_sys rfl) fun _ =>
    keeps_then (keeps_sys rfl) fun _ => keeps_checkPath _

theorem keeps_readOld : Safe a (readOld k).run := by
  refine keeps_bind (keeps_sys rfl) fun r => ?_
  split <;> exact keeps_pure _

theorem keeps_restoreOld (old : Option (List UInt8)) (err : String) : Safe a (restoreOld k old err).run := by
  rcases old with _ | data
  · exact keeps_pure _
  refine keeps_bind (keeps_sys rfl) fun r => ?_
  split
  · exact keeps_pure _
  · refine keeps_bind (keeps_startProcess []) fun r => ?_
    split <;> exact keeps_pure _

theorem keeps_swapIn (old : Option (List UInt8)) : Safe a (swapIn k tmp old).run := by
  refine keeps_bind (keeps_sys rfl) fun r => ?_
  split
  · exact keeps_bind (keeps_startProcess []) fun _ => keeps_pure _
  refine keeps_bind (keeps_startProcess []) fun r => ?_
  split
  · exact keeps_pure _
  · exact keeps_restoreOld old _

theorem keeps_applyProcess : Safe a (applyProcess k data).run := by
  rw [applyProcess]
  split
  · exact keeps_then (keeps_checkPath _) fun _ => keeps_then keeps_stopProcess fun _ =>
      keeps_startProcess []
  refine keeps_then (keeps_sys rfl) fun _ => ?_
  refine keeps_then (keeps_context (keeps_sys rfl)) fun tmp => ?_
  exact keeps_deferRemove (keeps_then (keeps_stageCandidate data) fun _ =>
    keeps_then keeps_readOld fun old => keeps_then keeps_stopProcess fun _ => keeps_swapIn old)

theorem keeps_validateConfig (config : String) : Safe a (validateConfig a k config).run := by
  rw [validateConfig]
  split
  · split
    · exact keeps_pure _
    · exact keeps_throw _
  split
  · exact keeps_pure _
  · exact keeps_then (keeps_sys rfl) fun _ => keeps_then (keeps_context (keeps_sys rfl)) fun tmp =>
      keeps_deferRemove (keeps_stageCandidate _)

theorem keeps_validateKinds (spec : NodeSpec) : ∀ ks : List ServerCore, Safe a (validateKinds a spec ks).run
  | [] => keeps_pure _
  | k :: ks => by
    rw [validateKinds]
    split
    · exact keeps_then (keeps_validateKinds spec ks) fun _ => keeps_pure _
    · exact keeps_then (keeps_context (keeps_pure _)) fun config =>
        keeps_then (keeps_context (keeps_validateConfig config)) fun _ =>
          keeps_then (keeps_validateKinds spec ks) fun _ => keeps_pure _

theorem keeps_candidateConfigs (acme : Option Acme) (spec : NodeSpec) : Safe a (candidateConfigs a acme spec).run := by
  refine keeps_then (keeps_context (keeps_pure _)) fun prepared =>
    keeps_then (keeps_validateKinds prepared kinds) fun configs => ?_
  split
  · exact keeps_then (keeps_context (keeps_pure _)) fun issued => keeps_validateKinds issued kinds
  · exact keeps_pure _

theorem keeps_stopIdle : ∀ ks : List ServerCore, Safe a (stopIdle a ks).run
  | [] => keeps_pure _
  | k :: ks => by
    refine keeps_bind (keeps_sys rfl) fun state =>
      keeps_bind (keeps_context keeps_markInactive) fun r => ?_
    split
    · exact keeps_pure _
    refine keeps_bind keeps_stopProcess fun r => ?_
    split
    · split
      · exact keeps_bind keeps_markActive fun _ => keeps_pure _
      · exact keeps_bind (keeps_pure _) fun _ => keeps_pure _
    · exact keeps_bind (keeps_stopIdle ks) fun _ => keeps_pure _

theorem keeps_startAgain : ∀ ks : List ServerCore, Safe a (startAgain ks)
  | [] => keeps_pure _
  | _ :: ks => keeps_bind (keeps_startProcess []) fun _ =>
    keeps_bind (keeps_startAgain ks) fun _ => keeps_pure _

theorem keeps_markAgain : ∀ ks : List ServerCore, Safe a (markAgain a ks)
  | [] => keeps_pure _
  | k :: ks => by
    refine keeps_bind (keeps_sys rfl) fun state => ?_
    split
    · exact keeps_bind keeps_markActive fun _ => keeps_markAgain ks
    · exact keeps_markAgain ks

theorem keeps_applyWanted (idle stopped : List ServerCore) : ∀ configs : List (ServerCore × String),
    Safe a (applyWanted a idle stopped configs).run
  | [] => keeps_pure _
  | (k, config) :: rest => by
    refine keeps_bind (keeps_applyProcess _) fun r => ?_
    split
    · exact keeps_bind (keeps_startAgain stopped) fun _ =>
        keeps_bind (keeps_markAgain idle) fun _ => keeps_pure _
    refine keeps_bind (keeps_context keeps_markActive) fun r => ?_
    split
    · exact keeps_pure _
    · exact keeps_applyWanted idle stopped rest

theorem keeps_settleIdle : ∀ ks : List ServerCore, Safe a (settleIdle a ks).run
  | [] => keeps_pure _
  | k :: ks => by
    refine keeps_bind (keeps_sys rfl) fun state => ?_
    split
    · refine keeps_bind (keeps_context keeps_markActive) fun r => ?_
      split
      · exact keeps_pure _
      · exact keeps_settleIdle ks
    · exact keeps_settleIdle ks

theorem keeps_reloadCore : Safe a (reloadCore k).run := by
  refine keeps_bind (keeps_sys rfl) fun state => ?_
  split
  · exact keeps_applyProcess []
  · exact keeps_pure _

/-- Every call keeps the invariant, wherever it is cut off. -/
theorem keeps_cmd (c : NodeCall) : Safe a (c.cmd a).run := by
  cases c with
  | apply acme spec =>
    exact keeps_then (keeps_candidateConfigs acme spec) fun configs =>
      keeps_then (keeps_stopIdle _) fun stopped => keeps_then (keeps_applyWanted _ _ _) fun _ =>
        keeps_settleIdle _
  | start k acme spec =>
    exact keeps_then (keeps_pure _) fun spec => keeps_then (keeps_pure _) fun config =>
      keeps_then (keeps_startProcess _) fun _ => keeps_markActive
  | stop k => exact keeps_then keeps_markInactive fun _ => keeps_stopProcess
  | reload => exact keeps_then keeps_reloadCore fun _ => keeps_reloadCore

/-! ### The boot -/

/-- The config of a core is the one of its last completed mark, which says active. -/
def Host.Marked (h : Host) (k : ServerCore) : Prop :=
  ∃ config, h.config k = some config ∧ lastMark k h.marks = some (.active (some config))

/-- The invariant of the boot: what was started so far was marked. -/
structure Host.Resuming (a : NodeAgent) (h : Host) : Prop where
  sound : h.Sound a
  started : ∀ k ∈ h.started, h.Marked k

/-- The operations of the boot that start nothing. -/
def FileOp.idle : FileOp → Bool
  | .readFile _ | .check _ | .status _ | .fail _ => true
  | _ => false

theorem step_idle (ho : o.idle = true) : (Host.step o t h).1.files = h.files ∧
    (Host.step o t h).1.marks = h.marks ∧ (Host.step o t h).1.started = h.started := by
  cases o with
  | readFile | check | status | fail => exact ⟨rfl, rfl, rfl⟩
  | _ => cases ho

theorem marked_congr {h' : Host} (hf : h'.files = h.files) (hm : h'.marks = h.marks) : h'.Marked k ↔ h.Marked k := by
  rw [Host.Marked, Host.Marked, Host.config, Host.config, hf, hm]

theorem sound_congr {h' : Host} (hf : h'.files = h.files) (hm : h'.marks = h.marks) (hs : h.Sound a) : h'.Sound a := by
  rw [Host.Sound, hf, hm]
  exact hs

theorem Host.Resuming.step (hr : h.Resuming a) (ho : o.idle = true) : (Host.step o t h).1.Resuming a := by
  obtain ⟨hf, hm, hst⟩ := step_idle ho
  refine ⟨sound_congr hf hm hr.sound, fun k hk => ?_⟩
  rw [hst] at hk
  exact (marked_congr hf hm).mpr (hr.started k hk)

theorem Host.Resuming.launch (hr : h.Resuming a) (hk : h.Marked k) : (Host.step (.launch k) t h).1.Resuming a := by
  simp only [Host.step, act]
  split
  · exact ⟨hr.sound, hr.started⟩
  refine ⟨hr.sound, fun j hj => ?_⟩
  rcases mem_append.mp hj with hj | hj
  · exact hr.started j hj
  · rw [mem_singleton.mp hj]
    exact hk

theorem wp_idle (ho : o.idle = true) (hr : h.Resuming a) (hk : h.Marked k) :
    wp Host.step (Host.Resuming a) (sys o) (fun _ h => h.Resuming a ∧ h.Marked k) h := by
  refine ⟨hr, fun t => ?_⟩
  obtain ⟨hf, hm, -⟩ := step_idle ho
  exact ⟨hr.step ho, (marked_congr hf hm).mpr hk⟩

theorem wp_launchChecked (hr : h.Resuming a) (hk : h.Marked k) :
    wp Host.step (Host.Resuming a) (launchChecked k).run (fun _ h => h.Resuming a) h := by
  have hcheck : wp Host.step (Host.Resuming a) (checkPath k (.config k)).run
      (fun _ h => h.Resuming a ∧ h.Marked k) h := by
    rw [checkPath]
    split
    · exact ⟨hr, hk⟩
    · exact wp_idle rfl hr hk
  refine wp_seq (wp_onOk hcheck fun _ h => h.1) fun _ h hh => wp_context.mpr ?_
  exact ⟨hh.1, fun t => hh.1.launch hh.2⟩

theorem wp_startProcess (hr : h.Resuming a) (hk : h.Marked k) :
    wp Host.step (Host.Resuming a) (startProcess k []).run (fun _ h => h.Resuming a) h := by
  refine (wp_bind _ _ _).mpr (wp_mono (fun s h hh => ?_) _ _ (wp_idle rfl hr hk))
  split
  · exact hh.1
  refine (wp_bind _ _ _).mpr (wp_mono (fun r h hr => ?_) _ _ (wp_launchChecked hh.1 hh.2))
  split
  · exact hr
  · exact ⟨hr, fun t => hr.step rfl⟩

/-- A marker says what its last completed mark was. -/
theorem Host.Sound.read (hs : h.Sound a) {data : List UInt8} (hdata : (h.files (.state k)).map File.bytes = some data) :
    ∃ m s, lastMark k h.marks = some m ∧ m.state a.sum256 = some s ∧ RecoveryState.unmarshal data = .ok s := by
  obtain ⟨f, hf, rfl⟩ := Option.map_eq_some_iff.mp hdata
  obtain ⟨-, m, s, hlast, hstate, hbytes⟩ := hs k f hf
  refine ⟨m, s, hlast, hstate, ?_⟩
  rw [hbytes]
  cases m with
  | inactive =>
    cases hstate
    exact unmarshal_marshal _ _
  | active config =>
    cases config with
    | none => cases hstate
    | some config =>
      cases hstate
      exact unmarshal_marshal _ _

section

variable (hinj : Injective a.sum256)
include hinj

theorem marked_of_hash {m : Mark} {s : RecoveryState}
    {config : List UInt8} (hlast : lastMark k h.marks = some m) (hstate : m.state a.sum256 = some s)
    (hactive : s.active = true) (hconfig : h.config k = some config)
    (hhash : configHash a.sum256 config = s.sha256) : h.Marked k := by
  cases m with
  | inactive =>
    cases hstate
    cases hactive
  | active marked =>
    rcases marked with _ | marked
    · cases hstate
    cases hstate
    rw [configHash_inj hinj hhash] at hconfig
    exact ⟨marked, hconfig, hlast⟩

theorem wp_shouldRecover (hr : h.Resuming a) : wp Host.step (Host.Resuming a) (shouldRecover a k).run
      (fun r h => h.Resuming a ∧ (r = .ok true → h.Marked k)) h := by
  refine (wp_bind _ _ _).mpr ((wp_perform _).mpr ⟨hr, fun t => ?_⟩)
  have hnext : (Host.step (.readFile (.state k)) t h).1.Resuming a := hr.step rfl
  split
  · exact ⟨hnext, nofun⟩
  · exact ⟨hnext, nofun⟩
  rename_i data hdata
  obtain ⟨m, s, hlast, hstate, hread⟩ := hr.sound.read ((step_readFile _).2 data hdata)
  rw [hread]
  dsimp only
  split
  · exact ⟨hnext, nofun⟩
  rename_i hver
  push Not at hver
  have hconfig : wp Host.step (Host.Resuming a) (context "read active core config: " (readConfig a k)).run
      (onOk (fun config h => (h.Resuming a ∧ lastMark k h.marks = some m) ∧ h.config k = some config)
        fun _ h => h.Resuming a ∧ lastMark k h.marks = some m)
      (Host.step (.readFile (.state k)) t h).1 :=
    wp_readConfig hnext fun t => ⟨hnext.step rfl, hlast⟩
  refine (wp_bind _ _ _).mpr (wp_mono (fun r h hh => ?_) _ _ hconfig)
  rcases r with e | config
  · exact ⟨hh.1, nofun⟩
  dsimp only
  split
  · exact ⟨hh.1.1, nofun⟩
  rename_i hhash
  push Not at hhash
  refine ⟨hh.1.1, fun _ => ?_⟩
  exact marked_of_hash hinj hh.1.2 hstate (by simpa using hver.2) hh.2 hhash

theorem keeps_recoverCore (k : ServerCore) : Keeps Host.step (Host.Resuming a) (recoverCore a k) := by
  intro h hr
  refine (wp_bind _ _ _).mpr (wp_mono (fun r h hh => ?_) _ _ (wp_shouldRecover hinj hr))
  split
  · exact (wp_bind _ _ _).mpr (wp_mono (fun _ _ h => h) _ _ (wp_startProcess hh.1 (hh.2 rfl)))
  · exact hh.1

theorem keeps_recoverAll : Keeps Host.step (Host.Resuming a) (recoverAll a) :=
  keeps_bind (keeps_recoverCore hinj _) fun _ => keeps_bind (keeps_recoverCore hinj _) fun _ =>
    keeps_recoverCore hinj _

omit hinj in
/-- A crash leaves the markers alone: they were synced. -/
theorem resuming_reboot (torn : Path → Option (List UInt8)) (hs : h.Sound a) : (h.reboot torn).Resuming a := by
  refine ⟨fun k f hf => ?_, nofun⟩
  obtain ⟨g, hg, hgf⟩ := Option.bind_eq_some_iff.mp hf
  obtain ⟨hsync, hmark⟩ := hs k g hg
  rw [if_pos hsync] at hgf
  cases hgf
  exact ⟨hsync, hmark⟩

omit hinj in
theorem finish_of_keeps {p : Prog FileOp FileOp.Answer α} (hdown : ∀ h, inv h → inv { h with up := false })
    (hp : Keeps Host.step inv p) (turns : List Turn) (hs : inv h) : inv (Host.finish (exec Host.step p turns h)) := by
  have hrun := exec_of_wp p turns h (hp h hs)
  generalize exec Host.step p turns h = e at hrun
  obtain ⟨h', r⟩ := e
  cases r with
  | none => exact hdown _ hrun
  | some r => exact hrun

theorem resuming_boot (torn : Path → Option (List UInt8))
    (turns : List Turn) (hs : h.Sound a) : (h.advance a (.boot torn turns)).Resuming a :=
  finish_of_keeps (fun _ hr => ⟨hr.sound, hr.started⟩) (keeps_recoverAll hinj) turns (resuming_reboot torn hs)

theorem Host.Sound.advance (hs : h.Sound a) (e : HostTurn) : (h.advance a e).Sound a := by
  cases e with
  | boot torn turns => exact (resuming_boot hinj torn turns hs).sound
  | call c turns =>
    rw [Host.advance]
    split
    · exact finish_of_keeps (fun _ hs => hs) (keeps_cmd c) turns hs
    · exact hs

end

end

/-! ### Whole lives -/

/-- A boot starts only cores whose config is, byte for byte, the one of the last completed
    `MarkActive`, with no `MarkInactive` completed after it. -/
def resumesMarked (h : Host) : HostTurn → Prop
  | .call _ _ => True
  | .boot torn turns => ∀ k ∈ (h.advance a (.boot torn turns)).started,
      ∃ config before after, (h.advance a (.boot torn turns)).config k = some config ∧
        (h.advance a (.boot torn turns)).marks = before ++ (k, .active (some config)) :: after ∧
        ∀ x ∈ after, x.1 ≠ k

/-- Whatever calls are made, whatever fails in them and wherever the host goes down, from a host without markers. -/
theorem resumed_as_marked (a : NodeAgent) (hinj : Injective a.sum256) (h : Host)
    (hfresh : ∀ k, h.files (.state k) = none) (es : List HostTurn) :
    Always (Host.advance a) (resumesMarked a) h es := by
  rw [always_iff_prefixes]
  intro before e after _
  have hs : (before.foldl (Host.advance a) h).Sound a :=
    inv_foldl (fun _ e hs => hs.advance hinj e) before h fun k f hf => by cases (hfresh k).symm.trans hf
  cases e with
  | call => trivial
  | boot torn turns =>
    intro k hk
    obtain ⟨config, hconfig, hlast⟩ := (resuming_boot hinj torn turns hs).started k hk
    obtain ⟨earlier, later, hmarks, hlater⟩ := lastMark_eq_some hlast
    exact ⟨config, earlier, later, hconfig, hmarks, hlater⟩

/-- A node whose hash is the config itself and whose only config is one byte long. -/
def plainAgent : NodeAgent := ⟨id, fun _ => "/c", fun _ _ => .ok "c", fun _ => none⟩

/-- An operation that succeeds. -/
def goodTurn : Turn := ⟨fun _ => none, none, none, 0⟩

def emptyHost : Host := ⟨true, fun _ => none, fun _ => .stopped, [], []⟩

/-- A start that nothing cuts off, then a boot with the config file as it was written. -/
def startAndBoot : List HostTurn :=
  [.call (.start .singbox none ⟨"", "", "", [], [], []⟩) (List.replicate 20 goodTurn),
    .boot (fun _ => some (utf8 "c")) (List.replicate 20 goodTurn)]

/-- The core is back. -/
theorem plain_resumed : (startAndBoot.foldl (Host.advance plainAgent) emptyHost).started = [.singbox] ∧
    Always (Host.advance plainAgent) (resumesMarked plainAgent) emptyHost startAndBoot :=
  ⟨by decide +kernel, resumed_as_marked plainAgent injective_id emptyHost (fun _ => rfl) _⟩

end Honey.Agent.Recovery
