import Gittree.Relay.Tenancy

/-!
# Membership at the moment of delivery

Where a tenant is not public to read, `REQ` checks that the authenticated key is an active member;
`dispatch_event` checks nothing.  So deliveries stop with the membership only if no open
subscription outlives it: a key does not leave while a session authenticated with it has an open
subscription, and a session with open subscriptions changes its key to that of a member only.

* `readInv_step`: what every guarded step keeps;
* `delivered_while_member`: under the guard, events are delivered to active members only;
* `delivered_after_leave`: a run in which a session is sent an event after it left.
-/

namespace Gittree
namespace Relay

open Rust
open Rust.Json (Value)

/-- The key is an active member of the tenant. -/
def ActiveKey (m : Memberships) (tenantId pubkey : String) : Prop :=
  ∃ bytes record, Hex.decode pubkey = some bytes ∧
    m.membershipByPubkey tenantId bytes = some record ∧ record.status = "active"

/-- The authenticated key of the session is an active member of the tenant. -/
def ActiveMember (m : Memberships) (tenantId : String) (s : Session) : Prop :=
  ∃ pubkey, s.authenticatedPubkey = some pubkey ∧ ActiveKey m tenantId pubkey

/-- A session that needs membership to read and has an open subscription. -/
def OpenReader (s : Session) : Prop :=
  s.readMembershipRequired = true ∧ ∃ (id : String) (state : SubscriptionState),
    s.registry[id]? = some state

/-- The steps that do not take membership from an open subscription: no verified event of a key leaves
the tenant while a session with the key has one, and such a session does not authenticate with a key
that is no member's. -/
def KeepsAccess (relay : Relay) : RelayAction → Prop
  | .message id (.event value) env => ∀ conn event, relay.conns id = some conn →
      NostrEvent.fromValue value = some event → conn.session.checkEvent env event = .ok () →
      event.kind = nip43LeaveKind →
      ∀ id' conn' pubkey, relay.conns id' = some conn' → conn'.tenantId = conn.tenantId →
        OpenReader conn'.session → conn'.session.authenticatedPubkey = some pubkey →
        Hex.decode pubkey ≠ Hex.decode event.pubkey
  | .message id (.auth value) env => ∀ conn event auth, relay.conns id = some conn →
      NostrEvent.fromValue value = some event → conn.session.checkAuth env event = .ok auth →
      OpenReader conn.session →
      ActiveKey relay.repos.memberships conn.tenantId event.pubkey
  | _ => True

/-- Every connection serves its own tenant, and open readers are active members. -/
structure ReadInv (relay : Relay) : Prop where
  tenant : ∀ id conn, relay.conns id = some conn → conn.session.tenantId = some conn.tenantId
  active : ∀ id conn, relay.conns id = some conn → OpenReader conn.session →
    ActiveMember relay.repos.memberships conn.tenantId conn.session

theorem Fresh.readInv {relay : Relay} (h : Fresh relay) : ReadInv relay where
  tenant := by
    intro id conn hc
    rw [h.conns id] at hc
    cases hc
  active := by
    intro id conn hc
    rw [h.conns id] at hc
    cases hc

/-! ### Memberships that stay active -/

/-- Every active key of the first table is active in the second. -/
def KeepsActive (m m' : Memberships) : Prop :=
  ∀ tenantId pubkey, ActiveKey m tenantId pubkey → ActiveKey m' tenantId pubkey

theorem KeepsActive.refl (m : Memberships) : KeepsActive m m := fun _ _ h => h

theorem keepsActive_of_eq {m m' : Memberships}
    (h : ∀ tenantId bytes, m'.membershipByPubkey tenantId bytes = m.membershipByPubkey tenantId bytes) :
    KeepsActive m m' := by
  rintro tenantId pubkey ⟨bytes, record, hb, hr, ha⟩
  exact ⟨bytes, record, hb, by rw [h, hr], ha⟩

/-- Writing an active membership leaves every active key active. -/
theorem keepsActive_upsert (m : Memberships) {record : RelayMembershipRecord}
    (h : record.status = "active") : KeepsActive m (m.upsertMembership record) := by
  rintro tenantId pubkey ⟨bytes, found, hb, hr, ha⟩
  by_cases hk : record.tenantId = tenantId ∧ record.pubkey = bytes
  · exact ⟨bytes, record, hb, by rw [Memberships.membershipByPubkey_upsert, if_pos hk], h⟩
  · exact ⟨bytes, found, hb, by rw [Memberships.membershipByPubkey_upsert, if_neg hk, hr], ha⟩

theorem keepsActive_handleJoin (event : NostrEvent) (tenantId : String) (pubkey : List UInt8)
    (now : ℤ) (code : String) (m : Memberships) :
    KeepsActive m (Session.handleJoin event tenantId pubkey now code m).2 := by
  unfold Session.handleJoin
  split
  · exact KeepsActive.refl m
  · split
    · exact KeepsActive.refl m
    · rename_i record hrecord
      unfold Session.joinRecord at hrecord
      simp only [Result.bind_eq_ok, Result.pure_eq_ok] at hrecord
      obtain ⟨-, -, rfl⟩ := hrecord
      intro t key h
      exact keepsActive_of_eq (fun _ _ => rfl) t key (keepsActive_upsert m rfl t key h)

/-- A leave takes the membership of one key only. -/
theorem activeKey_handleLeave {event : NostrEvent} {tenantId : String} {bytes : List UInt8} {now : ℤ}
    {m : Memberships} {t key : String} (h : ActiveKey m t key)
    (hne : t ≠ tenantId ∨ Hex.decode key ≠ some bytes) :
    ActiveKey (Session.handleLeave event tenantId bytes now m).2 t key := by
  unfold Session.handleLeave
  split
  · exact h
  · rename_i record hrecord
    obtain ⟨ht, hp⟩ := Memberships.of_membershipByPubkey hrecord
    split_ifs
    · exact h
    · obtain ⟨bytes', found, hb, hr, ha⟩ := h
      refine ⟨bytes', found, hb, ?_, ha⟩
      rw [Memberships.membershipByPubkey_upsert, if_neg, hr]
      rintro ⟨h1, h2⟩
      rcases hne with hne | hne
      · exact hne (h1.symm.trans ht)
      · exact hne (by rw [hb, ← h2, ← hp])

/-- Membership passes through the read gate only when it is active. -/
theorem activeMember_of_requireMember {s : Session} {m : Memberships} {tenantId : String}
    (ht : s.tenantId = some tenantId) (h : s.requireMember m = .ok ()) :
    ActiveMember m tenantId s := by
  obtain ⟨pubkey, bytes, record, hp, hb, hr, ha⟩ := Session.requireMember_eq_ok ht h
  exact ⟨pubkey, hp, bytes, record, hb, hr, ha⟩

/-- A request that is answered has passed the read gate, and leaves the memberships as they are. -/
theorem of_checkReq {s : Session} {store : EventStore Events} {env : Env} {repos : Repos Events}
    {id : String} {filters : List Value} {parsed : List Filter} {events : List NostrEvent}
    {m' : Memberships} (h : s.checkReq store env repos id filters = .ok (parsed, events, m')) :
    s.ensureReadMembership repos.memberships = .ok () ∧
      ∀ tenantId bytes, m'.membershipByPubkey tenantId bytes =
        repos.memberships.membershipByPubkey tenantId bytes := by
  have hmembers := Session.members_of_checkReq h
  unfold Session.checkReq at h
  simp only [Result.bind_eq_ok] at h
  obtain ⟨parsed', hread, -⟩ := h
  unfold Session.checkRead at hread
  simp only [Result.bind_eq_ok, Result.mapError_eq_ok] at hread
  obtain ⟨_, -, ⟨⟩, hmember, -⟩ := hread
  refine ⟨hmember, fun tenantId bytes => ?_⟩
  unfold Memberships.membershipByPubkey
  rw [hmembers]

/-! ### One step -/

/-- The session that a step delivers events to is one of an active member, where that is needed. -/
def DeliversToMember (relay : Relay) (output : RelayOutput) : Prop :=
  ∀ message ∈ output.replies ++ output.dispatched, ∀ event, message.delivered = some event →
    ∃ conn, relay.conns output.id = some conn ∧
      (conn.session.readMembershipRequired = true →
        ActiveMember relay.repos.memberships conn.tenantId conn.session)

/-- What a reaction must satisfy for the invariant to survive it. -/
theorem readInv_absorb {relay : Relay} (h : ReadInv relay) {id : ℕ} {conn : Conn}
    (hconn : relay.conns id = some conn) {r : Reaction Events}
    (htenant : r.session.tenantId = conn.session.tenantId)
    (hothers : ∀ id' conn', relay.conns id' = some conn' → OpenReader conn'.session →
      ActiveMember r.repos.memberships conn'.tenantId conn'.session)
    (hself : OpenReader r.session → ActiveMember r.repos.memberships conn.tenantId r.session)
    (hdelivered : ∀ message ∈ r.replies ++ r.dispatched, ∀ event, message.delivered = some event →
      ∃ (k : String) (state : SubscriptionState), r.session.registry[k]? = some state) :
    ReadInv (relay.absorb id conn r).1 ∧
      DeliversToMember (relay.absorb id conn r).1 (relay.absorb id conn r).2 := by
  have hget : ∀ id', (relay.absorb id conn r).1.conns id' =
      if id' = id then some { conn with session := r.session } else relay.conns id' := by
    intro id'
    exact Function.update_apply _ _ _ _
  refine ⟨⟨?_, ?_⟩, ?_⟩
  · intro id' conn' hc
    rw [hget] at hc
    split_ifs at hc
    · cases hc
      rw [htenant]
      exact h.tenant id conn hconn
    · exact h.tenant id' conn' hc
  · intro id' conn' hc hopen
    rw [hget] at hc
    split_ifs at hc
    · cases hc
      exact hself hopen
    · exact hothers id' conn' hc hopen
  · intro message hm event hd
    refine ⟨{ conn with session := r.session }, by rw [hget]; exact if_pos rfl, fun hreq => ?_⟩
    exact hself ⟨hreq, hdelivered message hm event hd⟩

/-- A reaction that keeps the key, opens no subscription, delivers nothing and leaves active
memberships active. -/
theorem readInv_absorb_idle {relay : Relay} (h : ReadInv relay) {id : ℕ} {conn : Conn}
    (hconn : relay.conns id = some conn) {r : Reaction Events}
    (htenant : r.session.tenantId = conn.session.tenantId)
    (hauth : r.session.auth = conn.session.auth)
    (hopen : OpenReader r.session → OpenReader conn.session)
    (hkeeps : KeepsActive relay.repos.memberships r.repos.memberships)
    (hdelivered : ∀ message ∈ r.replies ++ r.dispatched, ∀ event, message.delivered = some event →
      ∃ (k : String) (state : SubscriptionState), r.session.registry[k]? = some state) :
    ReadInv (relay.absorb id conn r).1 ∧
      DeliversToMember (relay.absorb id conn r).1 (relay.absorb id conn r).2 := by
  refine readInv_absorb h hconn htenant ?_ ?_ hdelivered
  · intro id' conn' hc ho
    obtain ⟨key, hk, ha⟩ := h.active id' conn' hc ho
    exact ⟨key, hk, hkeeps _ _ ha⟩
  · intro ho
    obtain ⟨key, hk, ha⟩ := h.active id conn hconn (hopen ho)
    refine ⟨key, ?_, hkeeps _ _ ha⟩
    rw [← hk, Session.authenticatedPubkey, Session.authenticatedPubkey, hauth]

/-- A leave event that the guard allows keeps the open readers active. -/
theorem activeMember_leave {relay : Relay} (h : ReadInv relay) {id : ℕ} {conn : Conn}
    {value : Value} {env : Env} {event : NostrEvent} {bytes : List UInt8}
    (hconn : relay.conns id = some conn) (hok : relay.KeepsAccess (.message id (.event value) env))
    (hread : NostrEvent.fromValue value = some event)
    (hcheck : conn.session.checkEvent env event = .ok ()) (hkind : event.kind = nip43LeaveKind)
    (hbytes : Hex.decode event.pubkey = some bytes) :
    ∀ id' conn', relay.conns id' = some conn' → OpenReader conn'.session →
      ActiveMember (Session.handleLeave event conn.tenantId bytes env.now relay.repos.memberships).2
        conn'.tenantId conn'.session := by
  intro id' conn' hc ho
  obtain ⟨key, hk, ha⟩ := h.active id' conn' hc ho
  refine ⟨key, hk, activeKey_handleLeave ha ?_⟩
  by_cases hsame : conn'.tenantId = conn.tenantId
  · rw [← hbytes]
    exact Or.inr (hok conn event hconn hread hcheck hkind id' conn' key hc hsame ho hk)
  · exact Or.inl hsame

/-- A join or leave event. -/
theorem readInv_membership {relay : Relay} (h : ReadInv relay) {id : ℕ} {conn : Conn}
    {value : Value} {env : Env} {event : NostrEvent} {r : Reaction Events}
    (hconn : relay.conns id = some conn) (hok : relay.KeepsAccess (.message id (.event value) env))
    (hread : NostrEvent.fromValue value = some event)
    (hcheck : conn.session.checkEvent env event = .ok ())
    (hkind : event.kind = nip43JoinKind ∨ event.kind = nip43LeaveKind)
    (hsession : ∃ limiter, r.session = { conn.session with rateLimiter := limiter })
    (hmem : r.repos.memberships =
      (conn.session.membershipAnswer event env.now relay.repos.memberships).2)
    (hdelivered : ∀ message ∈ r.replies ++ r.dispatched, message.delivered = none) :
    ReadInv (relay.absorb id conn r).1 ∧
      DeliversToMember (relay.absorb id conn r).1 (relay.absorb id conn r).2 := by
  obtain ⟨limiter, hsession⟩ := hsession
  have hquiet : ∀ message ∈ r.replies ++ r.dispatched, ∀ e, message.delivered = some e →
      ∃ (k : String) (state : SubscriptionState), r.session.registry[k]? = some state := by
    intro message hm e hd
    rw [hdelivered message hm] at hd
    cases hd
  rcases conn.session.membershipAnswer_cases event env.now relay.repos.memberships with
    ⟨text, hans⟩ | ⟨t, bytes, code, -, -, -, -, hans⟩ | ⟨t, bytes, ht, hb, hnot, hans⟩
  · refine readInv_absorb_idle h hconn (by rw [hsession]) (by rw [hsession])
      (by rw [hsession]; exact fun ho => ho) ?_ hquiet
    rw [hmem, hans]
    exact KeepsActive.refl _
  · refine readInv_absorb_idle h hconn (by rw [hsession]) (by rw [hsession])
      (by rw [hsession]; exact fun ho => ho) ?_ hquiet
    rw [hmem, hans]
    exact keepsActive_handleJoin _ _ _ _ _ _
  · rw [h.tenant id conn hconn, Option.some.injEq] at ht
    subst ht
    have hactive := activeMember_leave h hconn hok hread hcheck (hkind.resolve_left hnot) hb
    rw [← show _ = Prod.snd _ from congrArg Prod.snd hans, ← hmem] at hactive
    refine readInv_absorb h hconn (by rw [hsession]) hactive ?_ hquiet
    intro ho
    rw [hsession] at ho ⊢
    exact hactive id conn hconn ho

theorem readInv_handle {relay : Relay} (h : ReadInv relay) {id : ℕ} {conn : Conn}
    {msg : ClientMessage} {env : Env} (hconn : relay.conns id = some conn)
    (hok : relay.KeepsAccess (.message id msg env)) :
    ReadInv (relay.handle id conn msg env).1 ∧
      DeliversToMember (relay.handle id conn msg env).1 (relay.handle id conn msg env).2 := by
  unfold handle
  have heff := Session.effect_handleMessage conn.session (RepositoryStore.eventStore conn.tenantId)
    env relay.repos msg
  generalize conn.session.handleMessage (RepositoryStore.eventStore conn.tenantId) env relay.repos
    msg = r at heff
  cases heff with
  | answered limiter message hquiet =>
    refine readInv_absorb_idle h hconn rfl rfl (fun ho => ho) (KeepsActive.refl _) ?_
    intro m hm event hd
    rw [List.append_nil, List.mem_singleton] at hm
    rw [hm, hquiet] at hd
    cases hd
  | closed sub hmsg =>
    refine readInv_absorb_idle h hconn rfl rfl ?_ (KeepsActive.refl _) (by simp)
    rintro ⟨hreq, k, state, hk⟩
    simp only [Map.get_erase] at hk
    split_ifs at hk
    exact ⟨hreq, k, state, hk⟩
  | opened limiter sub filters parsed events m' hmsg hcheck =>
    obtain ⟨hread, hsame⟩ := of_checkReq hcheck
    have hkeeps := keepsActive_of_eq hsame
    have hreg : ∃ state, (SubscriptionRegistry.markEose
        (conn.session.registry.insert sub ⟨false, parsed⟩) sub)[sub]? = some state := by
      unfold SubscriptionRegistry.markEose
      rw [Map.get_insert_self]
      exact ⟨_, Map.get_insert_self _ _ _⟩
    refine readInv_absorb h hconn rfl ?_ ?_ fun _ _ _ _ => ⟨sub, hreg⟩
    · intro id' conn' hc ho
      obtain ⟨key, hk, ha⟩ := h.active id' conn' hc ho
      exact ⟨key, hk, hkeeps _ _ ha⟩
    · rintro ⟨hreq, -⟩
      unfold Session.ensureReadMembership at hread
      rw [if_pos hreq] at hread
      obtain ⟨key, hk, ha⟩ := activeMember_of_requireMember (h.tenant id conn hconn) hread
      exact ⟨key, hk, hkeeps _ _ ha⟩
  | membership limiter value event hmsg hread hcheck hkind =>
    subst hmsg
    refine readInv_membership h hconn hok hread hcheck hkind ⟨limiter, rfl⟩ rfl ?_
    intro message hm
    rw [List.append_nil, List.mem_singleton] at hm
    rw [hm]
    exact (conn.session.isAnswer_membershipAnswer event env.now relay.repos.memberships).delivered
  | stored limiter value event hmsg hread hcheck hother hwrite =>
    obtain ⟨hsession, hmem, hdel⟩ := Session.storeEvent_frame
      { conn.session with rateLimiter := limiter } (RepositoryStore.eventStore conn.tenantId) env
      relay.repos event
    refine readInv_absorb_idle h hconn (by rw [hsession]) (by rw [hsession])
      (by rw [hsession]; exact fun ho => ho) (by rw [hmem]; exact KeepsActive.refl _) ?_
    intro message hm e hd
    obtain ⟨k, state, -, hk, -⟩ := hdel message hm e hd
    rw [hsession]
    exact ⟨k, state, hk⟩
  | authenticated value event auth hmsg hread hauth =>
    subst hmsg
    refine readInv_absorb h hconn rfl h.active ?_ ?_
    · intro ho
      exact ⟨event.pubkey, Session.checkAuth_eq_ok hauth, hok conn event auth hconn hread hauth ho⟩
    · intro m hm e hd
      rw [List.append_nil, List.mem_singleton] at hm
      rw [hm] at hd
      cases hd

theorem keepsActive_seeded (relay : Relay) (tenant : TenantContext) (now : ℤ) :
    KeepsActive relay.repos.memberships (relay.seeded tenant now) := by
  unfold seeded
  split
  · exact keepsActive_upsert _ rfl
  · exact KeepsActive.refl _

/-- A new connection has no subscription yet. -/
theorem readInv_connect {relay : Relay} (h : ReadInv relay) (id : ℕ) (tenant : TenantContext)
    (challenge : String) (env : Env) : ReadInv (relay.connect id tenant challenge env).1 := by
  have hget : ∀ id', (relay.connect id tenant challenge env).1.conns id' =
      if id' = id then some ⟨tenant.tenantId, relay.newSession tenant challenge env,
        relay.channel.length⟩ else relay.conns id' := by
    intro id'
    exact Function.update_apply _ _ _ _
  constructor
  · intro id' conn hc
    rw [hget] at hc
    split_ifs at hc
    · cases hc
      rfl
    · exact h.tenant id' conn hc
  · rintro id' conn hc ⟨hreq, k, state, hk⟩
    rw [hget] at hc
    split_ifs at hc
    · cases hc
      simp [newSession] at hk
    · obtain ⟨key, hkey, ha⟩ := h.active id' conn hc ⟨hreq, k, state, hk⟩
      exact ⟨key, hkey, keepsActive_seeded relay tenant env.now _ _ ha⟩

/-- Moving a connection along the channel changes no session. -/
theorem readInv_advance {relay : Relay} (h : ReadInv relay) {id : ℕ} {conn : Conn}
    (hconn : relay.conns id = some conn) (count : ℕ) : ReadInv (relay.advance id conn count) := by
  have hget : ∀ id', (relay.advance id conn count).conns id' =
      if id' = id then some { conn with cursor := conn.cursor + count } else relay.conns id' := by
    intro id'
    exact Function.update_apply _ _ _ _
  constructor
  · intro id' conn' hc
    rw [hget] at hc
    split_ifs at hc
    · cases hc
      exact h.tenant id conn hconn
    · exact h.tenant id' conn' hc
  · intro id' conn' hc ho
    rw [hget] at hc
    split_ifs at hc
    · cases hc
      exact h.active id conn hconn ho
    · exact h.active id' conn' hc ho

theorem readInv_disconnect {relay : Relay} (h : ReadInv relay) (id : ℕ) :
    ReadInv { relay with conns := relay.setConn id none } := by
  have hget : ∀ id' conn, relay.setConn id none id' = some conn → relay.conns id' = some conn := by
    intro id' conn hc
    rw [setConn, Function.update_apply] at hc
    split_ifs at hc
    exact hc
  exact ⟨fun id' conn hc => h.tenant id' conn (hget id' conn hc),
    fun id' conn hc => h.active id' conn (hget id' conn hc)⟩

/-- Every guarded step keeps the invariant and delivers to active members only. -/
theorem readInv_step {relay relay' : Relay} {action : RelayAction} {output : RelayOutput}
    (h : ReadInv relay) (hok : relay.KeepsAccess action)
    (hstep : relay.step action = some (relay', output)) :
    ReadInv relay' ∧ DeliversToMember relay' output := by
  have htrans := transition_of_step hstep
  generalize hr : (relay', output) = r at htrans
  cases htrans with
  | connect hfree =>
    cases hr
    refine ⟨readInv_connect h _ _ _ _, ?_⟩
    intro message hm event hd
    rw [List.append_nil] at hm
    obtain ⟨auth, -, rfl⟩ := List.mem_map.1 hm
    cases hd
  | message conn hconn =>
    have hinv := readInv_handle h hconn hok
    rwa [← hr] at hinv
  | receive conn entry hconn hentry =>
    cases hr
    refine ⟨readInv_advance h hconn 1, ?_⟩
    intro message hm event hd
    obtain ⟨-, k, state, -, hk, -⟩ := Session.of_mem_dispatchEvent hm hd
    refine ⟨{ conn with cursor := conn.cursor + 1 }, Function.update_self _ _ _, fun hreq => ?_⟩
    exact h.active _ conn hconn ⟨hreq, k, state, hk⟩
  | lag conn hconn =>
    cases hr
    exact ⟨readInv_advance h hconn _, by simp [DeliversToMember]⟩
  | disconnect conn hconn =>
    cases hr
    exact ⟨readInv_disconnect h _, by simp [DeliversToMember]⟩

/-- In every run whose steps keep membership with the open subscriptions, every event sent to a
session that needs membership to read, as a reply or dispatched, is sent while its authenticated key
is an active member of the tenant. -/
theorem delivered_while_member {relay relay' : Relay} {action : RelayAction} {output : RelayOutput}
    (hreach : Runs.Reach step KeepsAccess Fresh relay) (hok : relay.KeepsAccess action)
    (hstep : relay.step action = some (relay', output)) :
    ∀ message ∈ output.replies ++ output.dispatched, ∀ event, message.delivered = some event →
      ∃ conn, relay'.conns output.id = some conn ∧
        (conn.session.readMembershipRequired = true →
          ActiveMember relay'.repos.memberships conn.tenantId conn.session) := by
  have hinv : ReadInv relay := hreach.invariant (fun _ hf => hf.readInv)
    fun _ _ _ _ hi ho hs => (readInv_step hi ho hs).1
  exact (readInv_step hinv hok hstep).2

/-! ### A run with a leave -/

/-- The owner's answer to the challenge. -/
def authEvent : NostrEvent where
  id := "58a03e7902d81ffeb3eaa74f25711bf3df29d0eb77b53da05e9c44b35ccfb41c"
  pubkey := note.pubkey
  createdAt := 10
  kind := authKind
  tags := [["relay", "wss://gamma.example"], ["challenge", "c1"]]
  content := ""
  sig := "449ed8493be7b71361b637786bbaa5919ee9b50b68e1bfa19da2de7fffba9bd3" ++
    "9923e7ae94174b89d6253d618143a1802949a9cf993f202d1f5180c4790326f4"

/-- The owner leaves. -/
def leaveEvent : NostrEvent where
  id := "ca2acaa328ab428052dbeaec09e56e361ab6af535a75e244baeb16879b50839b"
  pubkey := note.pubkey
  createdAt := 11
  kind := nip43LeaveKind
  tags := [["-"]]
  content := ""
  sig := "9a50ba4c0fccbb679a23204949575528d5eae6dafd23539b479bb649ad302810" ++
    "88b61c9c7d5b179e8b1d3d913583464513e6a4601035e768fc8eb306204e23ba"

def memberEnv : Env := { noteEnv with crypto := NostrEvent.signedBy [note, authEvent, leaveEvent] }

/-- A tenant that only members can read, owned by the author of the note. -/
def privateTenant : TenantContext where
  tenantId := "gamma"
  tenant := some {
    id := "gamma", host := "gamma.example", relayPubkey := (Hex.decode note.pubkey).getD []
    relaySecret := List.replicate 32 3
    authRequired := false, publicRead := false, publicWrite := true }

/-- A session of the owner, and another one that publishes the note. -/
def publishPrivately : List RelayAction :=
  [.connect 0 privateTenant "c1" memberEnv, .connect 1 privateTenant "c2" memberEnv,
    .message 1 (.event note.toValue) memberEnv]

def authenticate : RelayAction := .message 0 (.auth authEvent.toValue) memberEnv

def requestNotes : RelayAction :=
  .message 0 (.req "notes" [.object [("kinds", .array [.number (.posInt 1)])]]) memberEnv

theorem keepsAccess_publishPrivately :
    ∀ action ∈ publishPrivately, ∀ relay, KeepsAccess relay action := by
  intro action ha relay
  simp only [publishPrivately, List.mem_cons, List.not_mem_nil, or_false] at ha
  rcases ha with rfl | rfl | rfl
  · trivial
  · trivial
  · intro conn event hconn hread _ hkind
    have hnote : NostrEvent.fromValue note.toValue = some note := by decide +kernel
    rw [hnote, Option.some.injEq] at hread
    rw [← hread] at hkind
    cases hkind

theorem delivered_while_member_sample :
    ∃ relay relay' output, Runs.Reach step KeepsAccess Fresh relay ∧
      relay.KeepsAccess requestNotes ∧ relay.step requestNotes = some (relay', output) ∧
      .event "notes" note ∈ output.replies ∧
      ∃ conn, relay'.conns output.id = some conn ∧
        (conn.session.readMembershipRequired = true →
          ActiveMember relay'.repos.memberships conn.tenantId conn.session) := by
  have hrun : (Runs.exec step emptyRelay publishPrivately).map (fun r =>
      ((r.1.conns 0).map fun conn => conn.session.registry.isEmpty,
        (r.1.step authenticate).map fun q => (q.1.step requestNotes).map fun z => z.2.replies)) =
      some (some true, some (some [.event "notes" note, .eose "notes"])) := by decide +kernel
  obtain ⟨⟨relay, outputs⟩, hexec, hfacts⟩ := Option.map_eq_some_iff.1 hrun
  simp only [Prod.mk.injEq] at hfacts
  obtain ⟨hempty, hlast⟩ := hfacts
  have hreach : Runs.Reach step KeepsAccess Fresh relay :=
    Runs.Reach.of_exec (.start fresh_emptyRelay) keepsAccess_publishPrivately hexec
  have hauth : relay.KeepsAccess authenticate := by
    rintro conn event auth hconn - - ⟨-, k, state, hk⟩
    rw [hconn, Option.map_some, Option.some.injEq, Std.ExtTreeMap.isEmpty_iff] at hempty
    rw [hempty] at hk
    simp at hk
  obtain ⟨⟨relay1, output1⟩, hstep1, hlast⟩ := Option.map_eq_some_iff.1 hlast
  obtain ⟨⟨relay2, output2⟩, hstep2, hreplies⟩ := Option.map_eq_some_iff.1 hlast
  have hreach1 : Runs.Reach step KeepsAccess Fresh relay1 := .step hreach hauth hstep1
  have hmem : ServerMessage.event "notes" note ∈ output2.replies := by
    rw [show output2.replies = _ from hreplies]
    exact List.mem_cons_self
  have hreq : relay1.KeepsAccess requestNotes := trivial
  exact ⟨relay1, relay2, output2, hreach1, hreq, hstep2, hmem,
    delivered_while_member hreach1 hreq hstep2 _ (List.mem_append_left _ hmem) note rfl⟩

set_option synthInstance.maxSize 400 in
/-- After the answer that access is revoked, the session is still sent a note. -/
theorem delivered_after_leave :
    Fresh emptyRelay ∧
      (Runs.exec step emptyRelay
        [.connect 0 privateTenant "c1" memberEnv, .connect 1 privateTenant "c2" memberEnv,
          authenticate, requestNotes, .message 0 (.event leaveEvent.toValue) memberEnv,
          .message 1 (.event note.toValue) memberEnv, .receive 0]).map
        (fun r => (r.2.drop 4 |>.map fun o => (o.id, o.replies, o.dispatched),
          (r.1.conns 0).map fun conn =>
            (conn.session.readMembershipRequired, conn.session.authenticatedPubkey),
          (r.1.repos.memberships.membershipByPubkey "gamma"
            ((Hex.decode note.pubkey).getD [])).map (·.status))) =
      some ([(0, [.ok leaveEvent.id true "info: access revoked."], []),
        (1, [.ok note.id true "saved"], []), (0, [], [.event "notes" note])],
        some (true, some note.pubkey), some "left") := by
  constructor
  · exact fresh_emptyRelay
  · decide +kernel

end Relay
end Gittree
