import Gittree.Lib.Runs
import Gittree.Relay.Handlers
import Gittree.Storage.Tenants

/-!
# The relay as a system of sessions

`services/relay/src/server.rs` and `driver.rs`: the sessions of all tenants over one set of
repositories and one broadcast channel.  A session is bound to its tenant when it connects; from
then on it handles client messages and receives what any session has sent to the channel, in the
order of the sends and from the moment it subscribed.

Each step handles one client message or one broadcast as a whole.  Two fields serve the
specifications only: the channel remembers which tenant's session sent an event, and `accepted`
lists the tenants and ids for which `store.insert` answered `Inserted`.
-/

namespace Gittree

open Rust

/-- `TenantContext`; without repositories there is no tenant record. -/
structure TenantContext where
  tenantId : String
  tenant : Option RelayTenantRecord

/-- `tenant_auth_requirements`: read and write authentication, read and write membership. -/
def tenantAuthRequirements (tenant : Option RelayTenantRecord) (defaultAuthRequired : Bool) :
    Bool × Bool × Bool × Bool :=
  match tenant with
  | some record =>
    (!record.publicRead, record.authRequired || !record.publicWrite, !record.publicRead,
      !record.publicWrite)
  | none => (defaultAuthRequired, defaultAuthRequired, false, false)

/-- `relay_url_from_host`. -/
def relayUrlFromHost (host : String) : String :=
  let host := Str.trim host
  if Str.startsWith host "ws://" || Str.startsWith host "wss://" then host else "wss://" ++ host

/-- `seed_owner_membership`. -/
def seedOwnerMembership (m : Memberships) (tenantId : String) (relayPubkey : List UInt8)
    (now : ℤ) : Memberships :=
  m.upsertMembership {
    tenantId
    pubkey := relayPubkey
    role := "owner"
    status := "active"
    createdAt := ((m.membershipByPubkey tenantId relayPubkey).map
      RelayMembershipRecord.createdAt).getD now
    updatedAt := now }

/-- The store of one tenant over the shared event table, whose calls do not fail: an insertion fails
before its first call. -/
def RepositoryStore.eventStore (tenantId : String) : EventStore Events where
  insert := fun events event => Result.settle events (RepositoryStore.insert tenantId events event)
  get := RepositoryStore.get tenantId
  delete := RepositoryStore.delete tenantId
  query := RepositoryStore.query tenantId
  size := fun events => events.table.size

theorem RepositoryStore.atomic_eventStore (tenantId : String) : (eventStore tenantId).Atomic :=
  fun _ _ _ _ h => (Result.settle_eq_error.1 h).2.symm

/-- A connected session, its tenant, and the number of sends it has behind it. -/
structure Conn where
  tenantId : String
  session : Session
  cursor : ℕ

/-- `RelayState` with its connections. -/
structure Relay where
  policy : Policy
  authRequired : Bool
  admission : Bool
  repos : Repos Events
  conns : ℕ → Option Conn
  channel : List (String × NostrEvent)
  accepted : List (String × String)

/-- The session that `handle_socket` builds. -/
def Relay.newSession (relay : Relay) (tenant : TenantContext) (challenge : String) (env : Env) :
    Session :=
  let required := tenantAuthRequirements tenant.tenant relay.authRequired
  { policy := relay.policy
    admission := relay.admission
    broadcast := true
    auth := if required.1 || required.2.1 then some ⟨challenge, none⟩ else none
    tenantId := some tenant.tenantId
    membership := tenant.tenant.isSome
    tenantSigner := tenant.tenant.bind fun record =>
      TenantSigner.new env.crypto record.relayPubkey record.relaySecret
    relayUrl := tenant.tenant.map fun record => relayUrlFromHost record.host
    readAuthRequired := required.1
    writeAuthRequired := required.2.1
    readMembershipRequired := required.2.2.1
    writeMembershipRequired := required.2.2.2
    rateLimiter := RateLimiter.fromPolicy relay.policy env.instant }

/-- What happens next. -/
inductive RelayAction
  /-- `handle_socket` for a new connection. -/
  | connect (id : ℕ) (tenant : TenantContext) (challenge : String) (env : Env)
  /-- A client message is handled. -/
  | message (id : ℕ) (msg : ClientMessage) (env : Env)
  /-- The next event of the channel is received. -/
  | receive (id : ℕ)
  /-- The receiver lags: events of the channel are skipped. -/
  | lag (id count : ℕ)
  /-- The connection ends. -/
  | disconnect (id : ℕ)

/-- The messages that one step sends, and to which session. -/
structure RelayOutput where
  id : ℕ
  tenantId : String
  replies : List ServerMessage := []
  dispatched : List ServerMessage := []

namespace Relay

/-- `initial_messages`. -/
def initialMessages (s : Session) : List ServerMessage :=
  s.auth.toList.map fun auth => .auth auth.challenge

def setConn (relay : Relay) (id : ℕ) (conn : Option Conn) : ℕ → Option Conn :=
  Function.update relay.conns id conn

/-- The relay after a session's reaction to a message, and what it sends. -/
def absorb (relay : Relay) (id : ℕ) (conn : Conn) (reaction : Reaction Events) :
    Relay × RelayOutput :=
  ({ relay with
      repos := reaction.repos
      conns := relay.setConn id (some { conn with session := reaction.session })
      channel := relay.channel ++ reaction.published.toList.map fun event => (conn.tenantId, event)
      accepted := relay.accepted ++ (reaction.insertion.toList.filter fun r =>
        r.2 == .inserted).map fun r => (conn.tenantId, r.1.id) },
    { id, tenantId := conn.tenantId, replies := reaction.replies, dispatched := reaction.dispatched })

/-- A client message of a connection: `handle_message` over the tenant's store. -/
def handle (relay : Relay) (id : ℕ) (conn : Conn) (msg : ClientMessage) (env : Env) :
    Relay × RelayOutput :=
  relay.absorb id conn
    (conn.session.handleMessage (RepositoryStore.eventStore conn.tenantId) env relay.repos msg)

/-- The memberships after `handle_socket` has seeded the owner. -/
def seeded (relay : Relay) (tenant : TenantContext) (now : ℤ) : Memberships :=
  match tenant.tenant with
  | some record => seedOwnerMembership relay.repos.memberships tenant.tenantId record.relayPubkey now
  | none => relay.repos.memberships

/-- A new connection. -/
def connect (relay : Relay) (id : ℕ) (tenant : TenantContext) (challenge : String) (env : Env) :
    Relay × RelayOutput :=
  let session := relay.newSession tenant challenge env
  ({ relay with
      repos := { relay.repos with memberships := relay.seeded tenant env.now }
      conns := relay.setConn id (some ⟨tenant.tenantId, session, relay.channel.length⟩) },
    { id, tenantId := tenant.tenantId, replies := initialMessages session })

/-- A connection that has left `count` more sends behind it. -/
def advance (relay : Relay) (id : ℕ) (conn : Conn) (count : ℕ) : Relay :=
  { relay with conns := relay.setConn id (some { conn with cursor := conn.cursor + count }) }

/-- One step; `none` where the action is not possible. -/
def step (relay : Relay) : RelayAction → Option (Relay × RelayOutput)
  | .connect id tenant challenge env =>
    if (relay.conns id).isSome then none else some (relay.connect id tenant challenge env)
  | .message id msg env =>
    (relay.conns id).map fun conn => relay.handle id conn msg env
  | .receive id => do
    let conn ← relay.conns id
    let entry ← relay.channel[conn.cursor]?
    return (relay.advance id conn 1,
      { id, tenantId := conn.tenantId, dispatched := conn.session.dispatchEvent entry.2 })
  | .lag id count => do
    let conn ← relay.conns id
    if conn.cursor + count ≤ relay.channel.length then
      return (relay.advance id conn count, { id, tenantId := conn.tenantId })
    else none
  | .disconnect id =>
    (relay.conns id).map fun conn =>
      ({ relay with conns := relay.setConn id none }, { id, tenantId := conn.tenantId })

/-- What each action does. -/
inductive Transition (relay : Relay) : RelayAction → Relay × RelayOutput → Prop
  | connect {id : ℕ} {tenant : TenantContext} {challenge : String} {env : Env}
    (hfree : relay.conns id = none) :
    Transition relay (.connect id tenant challenge env) (relay.connect id tenant challenge env)
  | message {id : ℕ} {msg : ClientMessage} {env : Env} (conn : Conn)
    (hconn : relay.conns id = some conn) :
    Transition relay (.message id msg env) (relay.handle id conn msg env)
  | receive {id : ℕ} (conn : Conn) (entry : String × NostrEvent)
    (hconn : relay.conns id = some conn) (hentry : relay.channel[conn.cursor]? = some entry) :
    Transition relay (.receive id) (relay.advance id conn 1,
      { id, tenantId := conn.tenantId, dispatched := conn.session.dispatchEvent entry.2 })
  | lag {id count : ℕ} (conn : Conn) (hconn : relay.conns id = some conn) :
    Transition relay (.lag id count) (relay.advance id conn count, { id, tenantId := conn.tenantId })
  | disconnect {id : ℕ} (conn : Conn) (hconn : relay.conns id = some conn) :
    Transition relay (.disconnect id)
      ({ relay with conns := relay.setConn id none }, { id, tenantId := conn.tenantId })

theorem transition_of_step {relay : Relay} {action : RelayAction} {r : Relay × RelayOutput}
    (h : relay.step action = some r) : Transition relay action r := by
  cases action with
  | connect id tenant challenge env =>
    simp only [step] at h
    split_ifs at h with hfree
    cases h
    exact .connect (by simpa using hfree)
  | message id msg env =>
    obtain ⟨conn, hconn, rfl⟩ := Option.map_eq_some_iff.1 h
    exact .message conn hconn
  | receive id =>
    obtain ⟨conn, hconn, h⟩ := Option.bind_eq_some_iff.1 h
    obtain ⟨entry, hentry, h⟩ := Option.bind_eq_some_iff.1 h
    cases h
    exact .receive conn entry hconn hentry
  | lag id count =>
    obtain ⟨conn, hconn, h⟩ := Option.bind_eq_some_iff.1 h
    split_ifs at h
    cases h
    exact .lag conn hconn
  | disconnect id =>
    obtain ⟨conn, hconn, rfl⟩ := Option.map_eq_some_iff.1 h
    exact .disconnect conn hconn

/-- A relay without connections: nothing has been sent, and what is stored counts as accepted. -/
structure Fresh (relay : Relay) : Prop where
  conns : ∀ id, relay.conns id = none
  channel : relay.channel = []
  accepted : ∀ (k : String) (record : EventRecord), relay.repos.store.table[k]? = some record →
    (record.tenantId, k) ∈ relay.accepted

end Relay
end Gittree
