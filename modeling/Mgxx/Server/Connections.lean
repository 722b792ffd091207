import Mgxx.Concurrency.Threads
import Mgxx.Http.CertInfo
import Mgxx.Server.Address

/-!
The server with all its endpoints.  Mongoose calls `conn->fn` and hands it the
connection, whose `fn_data` is a `void*`: a listening connection has the endpoint
there, an accepted one its `remote_context`.  The handlers cast the pointer back
without a check.  A cast to what is not there, or is there no more, has no
meaning in C++, and no result here.

Objects are named by numbers that are not used again.
-/

namespace Mgxx

open Http Library

inductive ConnFn | eventManagerHandler | eventManagerContextHandler
  deriving DecidableEq

inductive FnData | null | endpoint (k : ℕ) | context (p : ℕ)
  deriving DecidableEq

/-- `mg_connection`, as far as the library reads and writes it. -/
structure MgConnection where
  status : Status := .unused
  isListening : Bool := false
  fn : ConnFn := .eventManagerHandler
  fnData : FnData := .null
  /-- `conn->data[0]`: nothing, `'E'` or `'R'`. -/
  data : Option Char := none
  rem : MgAddr := ⟨fun _ => 0, (0, 0), false⟩
  /-- The contents of `conn->send`. -/
  send : Bytes := []
  /-- Bytes of it have been sent, and the write event for these is due. -/
  sent : Bool := false
  log : List Output := []
  /-- The endpoint that accepted the connection.  The program keeps no such record. -/
  owner : Option ℕ := none

structure Context extends RemoteContext where
  mEndpoint : ℕ
  mIp : Bytes
  mTlsCert : Option TlsCertInfo := none

/-- An `http::endpoint` with the objects of its requests. -/
structure Site extends Endpoint where
  responses : ℕ → AsyncResponse
  streams : StreamRef → AsyncStream
  made : ℕ → ℕ
  history : ℕ → History

/-- The endpoint whose objects a thread is working on, and where it stands. -/
structure Job where
  site : ℕ := 0
  pc : Pc := .idle

structure ServerState where
  mEndpoints : List Site
  connections : ℕ → MgConnection
  /-- The `remote_context` objects that have been allocated and not deleted. -/
  contexts : ℕ → Option Context
  /-- How many have been allocated. -/
  allocated : ℕ
  /-- The wake-ups of the manager, which all endpoints share. -/
  wakeups : List (ℕ × ℕ)
  threads : ℕ → Job

inductive ServerEvent
  /-- `listen_http` succeeds with connection `c`; the program then registers its routes. -/
  | listen (c : ℕ) (routes : Endpoint)
  /-- Mongoose accepts connection `c` on the listening connection `l`. -/
  | accept (l c : ℕ) (rem : MgAddr)
  /-- A TLS handshake is over; `cert` is what `setup` makes of the peer's certificate. -/
  | tlsHs (c : ℕ) (cert : Option TlsCertInfo)
  /-- Any other event of mongoose. -/
  | loop (e : LoopEvent)
  /-- A step of a worker on the objects of endpoint `k`. -/
  | worker (k : ℕ) (e : Event)

def ServerEvent.isWorker : ServerEvent → Bool
  | worker .. => true
  | listen .. | accept .. | tlsHs .. | loop _ => false

/-- The endpoint as `listen_http` makes it, with its routes. -/
def Site.start (routes : Endpoint) : Site where
  mListeners := routes.mListeners
  mAssets := routes.mAssets
  mFallback := routes.mFallback
  responses := fun r => { mConn := 0, mId := r }
  streams := fun s => { mConn := 0, mId := s.response, mData := [] }
  made := fun _ => 0
  history := fun _ => {}

def Site.ofConfig (cfg : Config) : Site :=
  { cfg.world.toEndpoint with
    responses := cfg.world.responses
    streams := cfg.world.streams
    made := cfg.world.made
    history := cfg.history }

def Http.LoopEvent.readsContext : LoopEvent → Bool
  | .httpMessage .. | .write _ => true
  | .accept _ | .poll _ | .wakeup .. | .close _ | .mongoose .. => false

def Http.LoopEvent.forPeer : LoopEvent → Bool
  | .httpMessage .. | .write _ | .mongoose .. => true
  | .accept _ | .poll _ | .wakeup .. | .close _ => false

def Http.LoopEvent.isClose : LoopEvent → Bool
  | .close _ => true
  | .accept _ | .poll _ | .httpMessage .. | .wakeup .. | .write _ | .mongoose .. => false

namespace ServerState

def start : ServerState where
  mEndpoints := []
  connections _ := {}
  contexts _ := none
  allocated := 0
  wakeups := []
  threads _ := {}

/-- `static_cast<remote_context*>(conn->fn_data)`, as far as it points to one. -/
def contextOf (s : ServerState) (c : ℕ) : Option Context :=
  match (s.connections c).fnData with
  | .context p => s.contexts p
  | .null | .endpoint _ => none

def view (s : ServerState) (c : ℕ) : Connection where
  status := (s.connections c).status
  send := (s.connections c).send
  sent := (s.connections c).sent
  fnData := (s.contextOf c).map Context.toRemoteContext
  log := (s.connections c).log

def threadsAt (s : ServerState) (k t : ℕ) : Pc :=
  if (s.threads t).site = k then (s.threads t).pc else .idle

/-- What a handler of endpoint `k` and a worker on its objects can reach. -/
def config (s : ServerState) (k : ℕ) (site : Site) : Config where
  world :=
    { site.toEndpoint with
      responses := site.responses
      streams := site.streams
      made := site.made
      connections := s.view
      wakeups := s.wakeups }
  threads := s.threadsAt k
  history := site.history

/-- What a handler of endpoint `k` has left, for connection `c`. -/
def settle (s : ServerState) (k c : ℕ) (cfg : Config) : ServerState :=
  { s with
    mEndpoints := s.mEndpoints.set k (Site.ofConfig cfg)
    connections := modifyAt s.connections c fun conn =>
      { conn with
        status := (cfg.world.connections c).status
        send := (cfg.world.connections c).send
        sent := (cfg.world.connections c).sent
        log := (cfg.world.connections c).log }
    contexts := match (s.connections c).fnData with
      | .context p => modifyAt s.contexts p fun context => context.map fun context =>
          { context with
            toRemoteContext := (cfg.world.connections c).fnData.getD context.toRemoteContext }
      | .null | .endpoint _ => s.contexts
    wakeups := cfg.world.wakeups }

/-- The endpoint whose `handle` is called for an event of the connection. -/
def target (s : ServerState) (c : ℕ) : Option ℕ :=
  match (s.connections c).fn, (s.connections c).fnData with
  | .eventManagerHandler, .endpoint k => some k
  | .eventManagerContextHandler, .context p => (s.contexts p).map Context.mEndpoint
  | _, _ => none

def promoteContext (net : NetText) (s : ServerState) (k c : ℕ) :
    ServerState :=
  { s with
    connections := modifyAt s.connections c fun conn =>
      { conn with
        fn := .eventManagerContextHandler
        fnData := .context s.allocated
        data := some 'R'
        owner := some k }
    contexts := Function.update s.contexts s.allocated
      (some { mEndpoint := k, mIp := formatIp net (s.connections c).rem })
    allocated := s.allocated + 1 }

/-- The end of `handle_close`: `delete context`. -/
def deleteContext (s : ServerState) (c : ℕ) : Option ServerState :=
  if (s.connections c).data ≠ some 'R' then some s
  else match (s.connections c).fnData with
    | .context p =>
        (s.contexts p).map fun _ =>
          { s with
            connections := modifyAt s.connections c fun conn =>
              { conn with fnData := .null, data := none }
            contexts := Function.update s.contexts p none }
    | .null | .endpoint _ => none

/-- `listen_http`; `setup` marks the connection. -/
def listen (s : ServerState) (c : ℕ) (routes : Endpoint) : ServerState :=
  { s with
    mEndpoints := s.mEndpoints ++ [.start routes]
    connections := Function.update s.connections c
      { status := .live
        isListening := true
        fn := .eventManagerHandler
        fnData := .endpoint s.mEndpoints.length
        data := some 'E' } }

/-- Mongoose makes a connection that takes its handler from the listening one. -/
def connect (s : ServerState) (l c : ℕ) (rem : MgAddr) : ServerState :=
  { s with
    connections := Function.update s.connections c
      { status := .live
        fn := (s.connections l).fn
        fnData := (s.connections l).fnData
        rem } }

def handled (mg : Mongoose) (s : ServerState) (k : ℕ) (site : Site) (e : LoopEvent) : Config :=
  { s.config k site with
    world := (s.config k site).world.handle mg e
    history := Config.record site.history e }

def handle (mg : Mongoose) (s : ServerState) (k : ℕ) (e : LoopEvent) : Option ServerState := do
  let site ← s.mEndpoints[k]?
  if e.readsContext ∧ (s.contextOf e.conn).isNone then none
  else
    let s := s.settle k e.conn (s.handled mg k site e)
    -- the tables come first, the context last
    if e.isClose then s.deleteContext e.conn else some s

/-- `context->setup(conn)`. -/
def setupContext (s : ServerState) (c : ℕ) (cert : Option TlsCertInfo) : Option ServerState :=
  match (s.connections c).fnData with
  | .context p =>
      (s.contexts p).map fun context =>
        { s with
          contexts := Function.update s.contexts p
            (some { context with mTlsCert := cert.orElse fun _ => context.mTlsCert }) }
  | .null | .endpoint _ => none

/-- What an event leads to, if every pointer is what it is taken for. -/
def exec (net : NetText) (mg : Mongoose) (s : ServerState) :
    ServerEvent → Option ServerState
  | .listen c routes => some (s.listen c routes)
  | .accept l c rem => do
      let s := s.connect l c rem
      let k ← s.target c
      let _ ← s.mEndpoints[k]?
      some (s.promoteContext net k c)
  | .tlsHs c cert => do
      let k ← s.target c
      let _ ← s.mEndpoints[k]?
      s.setupContext c cert
  | .loop e => do
      let k ← s.target e.conn
      s.handle mg k e
  | .worker k e => do
      let site ← s.mEndpoints[k]?
      let cfg ← (s.config k site).step mg e
      some
        { s with
          mEndpoints := s.mEndpoints.set k (Site.ofConfig cfg)
          wakeups := cfg.world.wakeups
          threads := fun t => if e.thread = some t then ⟨k, cfg.threads t⟩ else s.threads t }

def Free (s : ServerState) (k t : ℕ) : Prop := (s.threads t).site = k ∨ (s.threads t).pc = .idle

def Enabled (s : ServerState) : ServerEvent → Prop
  | .listen c _ => (s.connections c).status = .unused
  | .accept l c _ => (s.connections l).status = .live ∧ (s.connections l).isListening = true ∧
      (s.connections c).status = .unused
  | .tlsHs c _ => (s.connections c).status = .live ∧ (s.connections c).isListening = false
  | .loop (.accept _) => False
  | .loop (.wakeup c id) => (s.connections c).status = .live ∧ (c, id) ∈ s.wakeups
  | .loop (.write c) => (s.connections c).status = .live ∧ (s.connections c).isListening = false ∧
      (s.connections c).sent = true
  | .loop e => (s.connections e.conn).status = .live ∧
      (e.forPeer = true → (s.connections e.conn).isListening = false)
  | .worker _ (.loop _) => False
  | .worker k e => ∀ t ∈ e.thread, s.Free k t

instance (s : ServerState) (k t : ℕ) : Decidable (s.Free k t) :=
  inferInstanceAs (Decidable (_ ∨ _))

/-- At most one thread takes part in an event. -/
instance decidableFree (s : ServerState) (k : ℕ) (e : Event) :
    Decidable (∀ t ∈ e.thread, s.Free k t) :=
  match e.thread with
  | none => isTrue (by simp)
  | some t => decidable_of_iff (s.Free k t) (by simp)

instance (s : ServerState) : (e : ServerEvent) → Decidable (s.Enabled e)
  | .listen .. => inferInstanceAs (Decidable (_ = _))
  | .accept .. => inferInstanceAs (Decidable (_ ∧ _ ∧ _))
  | .tlsHs .. => inferInstanceAs (Decidable (_ ∧ _))
  | .loop (.accept _) => isFalse id
  | .loop (.wakeup ..) => inferInstanceAs (Decidable (_ ∧ _))
  | .loop (.poll _) => inferInstanceAs (Decidable (_ ∧ (_ → _)))
  | .loop (.httpMessage ..) => inferInstanceAs (Decidable (_ ∧ (_ → _)))
  | .loop (.write _) => inferInstanceAs (Decidable (_ ∧ _ ∧ _))
  | .loop (.close _) => inferInstanceAs (Decidable (_ ∧ (_ → _)))
  | .loop (.mongoose ..) => inferInstanceAs (Decidable (_ ∧ (_ → _)))
  | .worker _ (.loop _) => isFalse id
  | .worker k (.headers r h) => s.decidableFree k (.headers r h)
  | .worker k (.begin t r call) => s.decidableFree k (.begin t r call)
  | .worker k (.wait t r) => s.decidableFree k (.wait t r)
  | .worker k (.put t r op) => s.decidableFree k (.put t r op)
  | .worker k (.advance t answer) => s.decidableFree k (.advance t answer)

def step (net : NetText) (mg : Mongoose) (s : ServerState)
    (e : ServerEvent) : Option ServerState := if s.Enabled e then s.exec net mg e else none

end ServerState

end Mgxx
