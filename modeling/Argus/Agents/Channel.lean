import Argus.Auth.MasterDb
import Argus.Lib.Machine
import Mathlib.Logic.Function.Basic

namespace Argus.Agents

open Argus.Auth (Digest sha256 truthy)

/-!
# The agent control channel

The socket between the server and its agents (`plugins/agent-ws.ts`), the registry of
connected sockets (`services/agent-hub.ts`) and the command queue in the master database
(`services/agent-commands.ts`), with what the register message does to `agents` and
`agent_keys` (`services/agents.ts`).

* `World` — the tables, the hub, the sockets and every call that is under way.
* `Proc` — where a call stands.  An `await` splits it twice: the database executes the
  statement at one moment, and the code behind the `await` goes on at a later one.  A
  constructor named after a statement has it issued and not yet executed; the others are
  about to run the code up to the next statement, which nothing interrupts.
* `World.hubSend`, `World.pushFirst` — `AgentHub.send` and the loop of `flushPending`.
* `step`, `machine` — one step of a call or of a socket, and all runs of them.

Instants stand in the labels.  The columns that only record one (`sentAt`, `ackedAt`,
`lastSeenAt`, `lastUsedAt`) are left out, since no function here reads them.
-/

/-! ### Rows -/

/-- `AGENT_STATUSES`. -/
inductive AgentStatus
  | pending
  | approved
  | revoked
deriving DecidableEq, Repr

/-- `AGENT_COMMAND_TYPES`. -/
inductive CommandType
  | restart
  | update
  | config
  | rescan
  | cancelScan
deriving DecidableEq, Repr

/-- `agent_commands.status`. -/
inductive CommandStatus
  | pending
  | sent
  | acked
deriving DecidableEq, Repr

/-- The keys of `agents.metadata` the code reads or writes. -/
structure AgentMetadata where
  buildTime : Option String := none
  debug : Option Bool := none
deriving DecidableEq, Repr

/-- A row of `agents`. -/
structure Agent where
  id : String
  name : String
  hostname : Option String := none
  platform : Option String := none
  version : Option String := none
  address : Option String := none
  status : AgentStatus := .pending
  metadata : Option AgentMetadata := none
deriving DecidableEq, Repr

/-- A row of `agent_keys`; `agentId` is null until the key's first register. -/
structure AgentKey where
  id : String
  keyHash : Digest
  agentId : Option String := none
  disabled : Bool := false
deriving DecidableEq, Repr

/-- A row of `agent_commands`; the payload is the text of its JSON object. -/
structure AgentCommand where
  id : String
  agentId : String
  type : CommandType
  payload : Option String := none
  status : CommandStatus := .pending
deriving DecidableEq, Repr

/-- A row of `monitors`, with the keys of `config` that the default ping has. -/
structure Monitor where
  id : String
  agentId : String
  type : String
  name : String
  host : Option String := none
  server : Bool := false
  isDefault : Bool := false
deriving DecidableEq, Repr

/-! ### Messages -/

/-- The fields of a register message. -/
structure RegisterRequest where
  name : Option String := none
  hostname : Option String := none
  platform : Option String := none
  version : Option String := none
  address : Option String := none
  buildTime : Option String := none
deriving DecidableEq, Repr

/-- `ScanStatus`. -/
inductive ScanStatus
  | idle
  | running
  | paused
  | done
  | cancelled
  | error
deriving DecidableEq, Repr

/-- `ScanProgress`. -/
structure ScanProgress where
  folders : ℕ
  files : ℕ
  bytes : ℕ
  current : String
deriving DecidableEq, Repr

/-- `AgentToServer`; `other` is any other JSON object, which the handler ignores. -/
inductive AgentToServer
  | register (req : RegisterRequest)
  | heartbeat
  | ack (commandId : String)
  | scan (monitorId : String) (status : ScanStatus) (progress : ScanProgress)
  | other
deriving DecidableEq, Repr

/-- `ServerToAgent`. -/
inductive ServerToAgent
  | registered (agentId : String) (status : AgentStatus)
  | command (command : AgentCommand)
  | pong
deriving DecidableEq, Repr

/-- `ScanState` of a monitor, with the fields `setAgentScanState` writes or drops. -/
structure ScanState where
  status : ScanStatus := .idle
  progress : Option ScanProgress := none
  startedAt : Option ℕ := none
  finishedAt : Option ℕ := none
  error : Option String := none
deriving DecidableEq, Repr

/-- `setAgentScanState`: the new state of a monitor, from the one before. -/
def setAgentScanState (prev : ScanState) (now : ℕ) (status : ScanStatus)
    (progress : ScanProgress) : ScanState :=
  { status := status
    progress := some progress
    startedAt :=
      if status = .running ∧ prev.status ≠ .running then some now else prev.startedAt
    finishedAt := if status ≠ .running then some now else none }

/-! ### Sockets, calls, the world -/

/-- `readyState` of an accepted socket: a socket is `closing` from the close frame, or the
    failure, to its `close` event. -/
inductive ReadyState
  | opened
  | closing
  | closed
deriving DecidableEq, Repr

/-- One accepted connection: the key it presented, the `agentId` variable of its handlers,
    and everything written to it while it was open. -/
structure Socket where
  rawKey : Option String
  agentId : Option String := none
  readyState : ReadyState := .opened
  wire : List ServerToAgent := []
deriving DecidableEq, Repr

/-- What a register message carries on once `registerAgent` has returned. -/
structure Registration where
  socket : ℕ
  key : AgentKey
  agentId : String
  status : AgentStatus
  address : Option String
deriving DecidableEq, Repr

/-- Where a call of `dispatchCommand` or of the message handler stands. -/
inductive Proc
  | idle
  | finished
  /-- `dispatchCommand`: the `INSERT` is issued. -/
  | enqueue (agentId : String) (type : CommandType) (payload : Option String)
  /-- `dispatchCommand`: the row is back; the push comes next. -/
  | enqueued (command : AgentCommand)
  /-- `dispatchCommand`: pushed; the `UPDATE` of `markSent` is issued. -/
  | markSent (command : AgentCommand)
  /-- The handler: the `SELECT` of `resolveAgentKey` is issued. -/
  | resolve (socket : ℕ) (rawKey : String) (data : Option AgentToServer)
  /-- The handler: the key is back; `data` is `none` when it does not parse. -/
  | handle (socket : ℕ) (key : Option AgentKey) (data : Option AgentToServer)
  /-- `registerAgent`: the `UPDATE agents … RETURNING` is issued. -/
  | reattach (socket : ℕ) (key : AgentKey) (agentId : String) (req : RegisterRequest)
  /-- `registerAgent`: the `INSERT INTO agents` is issued. -/
  | create (socket : ℕ) (key : AgentKey) (req : RegisterRequest)
  /-- `registerAgent`: the `UPDATE agent_keys` is issued. -/
  | bindKey (socket : ℕ) (key : AgentKey) (agent : Agent) (req : RegisterRequest)
  /-- `registerAgent` has returned; `agentHub.add` comes next. -/
  | attach (r : Registration)
  | touchKeyUsage (r : Registration)
  /-- The reply `registered` comes next. -/
  | greet (r : Registration)
  | listUndelivered (r : Registration)
  /-- `flushPending`: the commands the loop has not reached yet. -/
  | flush (r : Registration) (commands : List AgentCommand)
  /-- `flushPending`: `command` is pushed; the `UPDATE` of `markSent` is issued. -/
  | flushSent (r : Registration) (command : AgentCommand) (rest : List AgentCommand)
  /-- `flushPending` has returned. -/
  | flushed (r : Registration)
  /-- `ensureDefaultPingMonitor`: its `SELECT` is issued. -/
  | findPing (r : Registration) (address : String)
  /-- `ensureDefaultPingMonitor`: its `INSERT` is issued. -/
  | createPing (r : Registration) (address : String)
  | touchAgent (socket : ℕ) (agentId : String)
  | pong (socket : ℕ)
  | markAcked (socket : ℕ) (key : AgentKey) (commandId : String)
deriving DecidableEq, Repr

/-- The server: its tables, its hub, the state of scans, the sockets and the calls. -/
structure World where
  agents : List Agent := []
  agentKeys : List AgentKey := []
  agentCommands : List AgentCommand := []
  monitors : List Monitor := []
  /-- `AgentHub.sockets`. -/
  hub : String → Option ℕ := fun _ => none
  /-- The `state` of the entries of `scan-manager.ts`. -/
  scans : String → Option ScanState := fun _ => none
  sockets : ℕ → Option Socket := fun _ => none
  procs : ℕ → Proc := fun _ => .idle

namespace World

variable (w : World)

/-- The call `p` goes on at `pc`. -/
def goto (p : ℕ) (pc : Proc) : World := { w with procs := Function.update w.procs p pc }

def modifySocket (s : ℕ) (f : Socket → Socket) : World :=
  { w with sockets := Function.update w.sockets s ((w.sockets s).map f) }

/-- `readyState === 1`. -/
def isOpen (s : ℕ) : Bool := (w.sockets s).any (fun k => decide (k.readyState = .opened))

/-- `socket.send`: a socket that is not open drops the message. -/
def send (s : ℕ) (msg : ServerToAgent) : World :=
  w.modifySocket s (fun k =>
    if k.readyState = .opened then { k with wire := k.wire ++ [msg] } else k)

/-- `socket.close()`. -/
def close (s : ℕ) : World :=
  w.modifySocket s (fun k =>
    if k.readyState = .opened then { k with readyState := .closing } else k)

/-- `AgentHub.isOnline`. -/
def isOnline (agentId : String) : Bool := (w.hub agentId).isSome

/-- `AgentHub.send`: the world after a push that answers true; `none` is the answer false,
    which changes nothing. -/
def hubSend (agentId : String) (msg : ServerToAgent) : Option World :=
  match w.hub agentId with
  | none => none
  | some s => if w.isOpen s then some (w.send s msg) else none

/-- The loop of `flushPending` up to the first push that answers true: the world after it,
    the command pushed and the commands still to come. -/
def pushFirst (agentId : String) :
    List AgentCommand → Option (World × AgentCommand × List AgentCommand)
  | [] => none
  | c :: cs =>
    match w.hubSend agentId (.command c) with
    | some w' => some (w', c, cs)
    | none => pushFirst agentId cs

/-- The `UPDATE` of `markSent` and `markAcked`: by id, whatever the status is. -/
def setStatus (id : String) (status : CommandStatus) : World :=
  { w with
    agentCommands := Table.update (fun c => decide (c.id = id)) (fun c => { c with status })
      w.agentCommands }

/-- `resolveAgentKey`. -/
def resolveAgentKey (rawKey : String) : Option AgentKey :=
  (Table.lookup AgentKey.keyHash (sha256 rawKey) w.agentKeys).filter (fun k => !k.disabled)

/-- `listUndelivered`. -/
def listUndelivered (agentId : String) : List AgentCommand :=
  w.agentCommands.filter (fun c => decide (c.agentId = agentId ∧ c.status = .pending))

end World

/-! ### `registerAgent` -/

/-- The columns a register message sets; the metadata only when a build time is reported,
    and then as a whole. -/
def RegisterRequest.set (req : RegisterRequest) (a : Agent) : Agent :=
  { a with
    hostname := req.hostname
    platform := req.platform
    version := req.version
    address := req.address
    metadata := match truthy req.buildTime with
      | some t => some { buildTime := some t }
      | none => a.metadata }

/-- The row `registerAgent` inserts for a key that has no agent. -/
def RegisterRequest.newAgent (req : RegisterRequest) (id : String) : Agent :=
  req.set { id := id, name := (req.name.or req.hostname).getD "agent" }

/-- The `UPDATE agents` of `registerAgent`. -/
def World.updateAgent (w : World) (id : String) (req : RegisterRequest) : World :=
  { w with agents := Table.update (fun a => decide (a.id = id)) req.set w.agents }

/-- The `UPDATE agent_keys` of `registerAgent`. -/
def World.setKeyAgent (w : World) (keyId agentId : String) : World :=
  { w with
    agentKeys := Table.update (fun k => decide (k.id = keyId))
      (fun k => { k with agentId := some agentId }) w.agentKeys }

/-- `agentId = res.agentId; agentHub.add(agentId, socket)`. -/
def World.hubAdd (w : World) (agentId : String) (s : ℕ) : World :=
  { w.modifySocket s (fun k => { k with agentId := some agentId }) with
    hub := Function.update w.hub agentId (some s) }

/-- The `close` handler of a socket: `agentHub.remove(agentId)` by the agent's id. -/
def World.hubRemove (w : World) (agentId : Option String) : World :=
  match agentId with
  | none => w
  | some a => { w with hub := Function.update w.hub a none }

/-- The row `ensureDefaultPingMonitor` creates. -/
def defaultPing (id agentId address : String) : Monitor :=
  { id := id
    agentId := agentId
    type := "ping"
    name := "Host reachability"
    host := some address
    server := true
    isDefault := true }

/-- `existing.some((m) => m.type === "ping" && m.config.default === true)`. -/
def World.hasDefaultPing (w : World) (agentId : String) : Bool :=
  w.monitors.any (fun m => decide (m.agentId = agentId ∧ m.type = "ping" ∧ m.isDefault = true))

/-! ### Steps -/

/-- What a step takes from outside: the clock, and the id the database draws. -/
structure Env where
  now : ℕ := 0
  id : String := ""
deriving DecidableEq, Repr

/-- The message handler behind `resolveAgentKey`. -/
def World.handle (w : World) (p : ℕ) (now : ℕ) (s : ℕ) (key : Option AgentKey)
    (data : Option AgentToServer) : World :=
  match key, data with
  | none, _ => (w.close s).goto p .finished
  | some _, none => w.goto p .finished
  | some key, some (.register req) =>
    match truthy key.agentId with
    | some agentId => w.goto p (.reattach s key agentId req)
    | none => w.goto p (.create s key req)
  | some _, some .heartbeat =>
    match (w.sockets s).bind Socket.agentId with
    | some agentId => w.goto p (.touchAgent s agentId)
    | none => (w.send s .pong).goto p .finished
  | some key, some (.ack commandId) => w.goto p (.markAcked s key commandId)
  | some _, some (.scan monitorId status progress) =>
    let prev := (w.scans monitorId).getD {}
    { w with
      scans := Function.update w.scans monitorId
        (some (setAgentScanState prev now status progress)) }.goto p .finished
  | some _, some .other => w.goto p .finished

/-- One step of the call `p`, which stands at `pc`. -/
def World.advance (w : World) (p : ℕ) (env : Env) (pc : Proc) : Option World :=
  match pc with
  | .idle | .finished => none
  | .enqueue agentId type payload =>
    let c : AgentCommand := { id := env.id, agentId, type, payload }
    -- without the agent's row the foreign key refuses the `INSERT`, and the call throws
    if w.agents.all (fun a => decide (a.id ≠ agentId)) then some (w.goto p .finished)
    else if w.agentCommands.any (fun c' => decide (c'.id = env.id)) then none
    else some ({ w with agentCommands := w.agentCommands ++ [c] }.goto p (.enqueued c))
  | .enqueued c =>
    match w.hubSend c.agentId (.command c) with
    | some w' => some (w'.goto p (.markSent c))
    | none => some (w.goto p .finished)
  | .markSent c => some ((w.setStatus c.id .sent).goto p .finished)
  | .resolve s rawKey data => some (w.goto p (.handle s (w.resolveAgentKey rawKey) data))
  | .handle s key data => some (w.handle p env.now s key data)
  | .reattach s key agentId req =>
    match Table.lookup Agent.id agentId w.agents with
    | some a =>
      let r : Registration :=
        { socket := s, key, agentId := a.id, status := a.status, address := req.address }
      some ((w.updateAgent agentId req).goto p (.attach r))
    | none => some (w.goto p (.create s key req))
  | .create s key req =>
    if w.agents.any (fun a => decide (a.id = env.id)) then none
    else
      let a := req.newAgent env.id
      some ({ w with agents := w.agents ++ [a] }.goto p (.bindKey s key a req))
  | .bindKey s key a req =>
    let r : Registration :=
      { socket := s, key, agentId := a.id, status := a.status, address := req.address }
    some ((w.setKeyAgent key.id a.id).goto p (.attach r))
  | .attach r => some ((w.hubAdd r.agentId r.socket).goto p (.touchKeyUsage r))
  | .touchKeyUsage r => some (w.goto p (.greet r))
  | .greet r =>
    some ((w.send r.socket (.registered r.agentId r.status)).goto p (.listUndelivered r))
  | .listUndelivered r => some (w.goto p (.flush r (w.listUndelivered r.agentId)))
  | .flush r commands =>
    match w.pushFirst r.agentId commands with
    | some (w', c, rest) => some (w'.goto p (.flushSent r c rest))
    | none => some (w.goto p (.flushed r))
  | .flushSent r c rest => some ((w.setStatus c.id .sent).goto p (.flush r rest))
  | .flushed r =>
    match truthy r.address with
    | some address =>
      if r.status = .approved then some (w.goto p (.findPing r address))
      else some (w.goto p .finished)
    | none => some (w.goto p .finished)
  | .findPing r address =>
    if w.hasDefaultPing r.agentId then some (w.goto p .finished)
    else some (w.goto p (.createPing r address))
  | .createPing r address =>
    if w.monitors.any (fun m => decide (m.id = env.id)) then none
    else some ({ w with
      monitors := w.monitors ++ [defaultPing env.id r.agentId address] }.goto p .finished)
  | .touchAgent s _ => some (w.goto p (.pong s))
  | .pong s => some ((w.send s .pong).goto p .finished)
  | .markAcked _ _ commandId => some ((w.setStatus commandId .acked).goto p .finished)

/-- The events of the channel. -/
inductive Label
  /-- A socket is accepted; `rawKey` is the key of its header or query. -/
  | connect (s : ℕ) (rawKey : Option String)
  /-- The `message` event of `s` starts the call `p` of its handler. -/
  | receive (s p : ℕ) (data : Option AgentToServer)
  /-- `dispatchCommand` is called. -/
  | dispatch (p : ℕ) (agentId : String) (type : CommandType) (payload : Option String)
  /-- The call `p` takes its next step. -/
  | run (p : ℕ) (env : Env)
  /-- The agent's close frame arrives, or the connection fails. -/
  | hangup (s : ℕ)
  /-- The `close` event of `s`. -/
  | closed (s : ℕ)
deriving DecidableEq, Repr

/-- One event; `none` when it cannot happen in `w`. -/
def step (w : World) : Label → Option World
  | .connect s rawKey =>
    match w.sockets s with
    | some _ => none
    | none => some { w with sockets := Function.update w.sockets s (some { rawKey }) }
  | .receive s p data =>
    match w.sockets s with
    | none => none
    | some k =>
      if w.procs p ≠ .idle ∨ k.readyState = .closed then none
      else match truthy k.rawKey with
        | none => some ((w.close s).goto p .finished)
        | some rawKey => some (w.goto p (.resolve s rawKey data))
  | .dispatch p agentId type payload =>
    if w.procs p ≠ .idle then none else some (w.goto p (.enqueue agentId type payload))
  | .run p env => w.advance p env (w.procs p)
  | .hangup s => if w.isOpen s then some (w.close s) else none
  | .closed s =>
    match w.sockets s with
    | none => none
    | some k =>
      if k.readyState = .closed then none
      else some ((w.modifySocket s (fun k => { k with readyState := .closed })).hubRemove k.agentId)

/-- The control channel as a machine. -/
def machine : Machine World Label := ⟨step⟩

/-- A server that has just started on some content of its database: no socket, no call. -/
structure World.Init (w : World) : Prop where
  hub : ∀ a, w.hub a = none
  sockets : ∀ s, w.sockets s = none
  procs : ∀ p, w.procs p = .idle
  /-- `agent_commands.id` is a primary key. -/
  ids : (w.agentCommands.map AgentCommand.id).Nodup

end Argus.Agents
