import Gittree.Relay.System

/-!
# Tenants and live delivery

One broadcast channel serves the sessions of every tenant, and `dispatch_event` looks only at the
subscriptions of the session that receives.  So an event reaches sessions of other tenants, unless
every broadcast is received by sessions of the tenant it was published in or by sessions without a
matching subscription.  The publisher itself is sent its event even where the store has refused it
as superseded.

* `inv_step`: what every guarded step keeps;
* `dispatched_was_accepted`: under the guard, what a session dispatches was accepted in its tenant;
* `foreign_event_dispatched`: without it, a run in which a session is sent another tenant's event.
-/

namespace Gittree
namespace Relay

open Rust
open Rust.Json (Value)

/-- The event is stored for the tenant under its id. -/
def StoredFor (relay : Relay) (tenantId : String) (event : NostrEvent) : Prop :=
  ∃ bytes record, Hex.decode event.id = some bytes ∧
    relay.repos.store.getEvent tenantId bytes = some record

/-- A stored event of the tenant with the same replaceable key is not older. -/
def SupersededFor (relay : Relay) (tenantId : String) (event : NostrEvent) : Prop :=
  ∃ key, replaceableKey event = some key ∧
    RepositoryStore.superseded tenantId relay.repos.store event key = true

/-- The steps that keep deliveries inside a tenant: a broadcast comes from the receiver's tenant or
matches none of its open subscriptions, and a published event that passes the gates is stored already,
not superseded, or matches none of the publisher's open subscriptions. -/
def KeepsTenant (relay : Relay) : RelayAction → Prop
  | .receive id => ∀ conn entry, relay.conns id = some conn →
      relay.channel[conn.cursor]? = some entry →
      entry.1 = conn.tenantId ∨ ¬ conn.session.Subscribed entry.2
  | .message id (.event value) env => ∀ conn event, relay.conns id = some conn →
      NostrEvent.fromValue value = some event → conn.session.checkEvent env event = .ok () →
      conn.session.checkWrite (RepositoryStore.eventStore conn.tenantId) env relay.repos event =
        .ok () →
      relay.StoredFor conn.tenantId event ∨ ¬ relay.SupersededFor conn.tenantId event ∨
        ¬ conn.session.Subscribed event
  | _ => True

/-- What is stored or was sent to the channel was accepted in its tenant. -/
structure Inv (relay : Relay) : Prop where
  stored : ∀ (k : String) (record : EventRecord), relay.repos.store.table[k]? = some record →
    (record.tenantId, k) ∈ relay.accepted
  sent : ∀ entry ∈ relay.channel, (entry.1, entry.2.id) ∈ relay.accepted

theorem Fresh.inv {relay : Relay} (h : Fresh relay) : Inv relay where
  stored := h.accepted
  sent := by simp [h.channel]

/-! ### The store under a message -/

theorem within_applyRetention (s : Session) (tenantId : String) (now : ℤ) (events : Events) :
    (s.applyRetention (RepositoryStore.eventStore tenantId) now events).Within events :=
  Session.applyRetention_of_delete (P := fun kept : Events => kept.Within events)
    (fun _ _ _ hw hd => (Events.Within.of_without (RepositoryStore.without_delete hd)).trans hw)
    s now (Events.Within.refl events)

/-- A verified event has the id that its record is stored under. -/
theorem eventKey_of_verified {env : Env} {s : Session} {event : NostrEvent} {tenantId : String}
    {record : EventRecord} (hcheck : s.checkEvent env event = .ok ())
    (hrec : RecordOf event tenantId record) : eventKey record.id = event.id := by
  unfold Session.checkEvent NostrEvent.verify at hcheck
  simp only [Result.bind_eq_ok, Result.mapError_eq_ok, Result.ensure_eq_ok, exists_const] at hcheck
  have hid := hcheck.1.1
  unfold eventKey
  rw [Hex.encode_of_decode hrec.id, hid]
  exact Hex.isLower_encode _

/-! ### One step -/

/-- What a step dispatches was accepted in the tenant of the session it is sent to. -/
def Accepts (relay : Relay) (output : RelayOutput) : Prop :=
  ∀ message ∈ output.dispatched, ∀ event, message.delivered = some event →
    (output.tenantId, event.id) ∈ relay.accepted

/-- What a reaction must satisfy for the invariant to survive it. -/
theorem inv_absorb {relay : Relay} (h : Inv relay) (id : ℕ) (conn : Conn) {r : Reaction Events}
    (hstore : ∀ (k : String) (record : EventRecord), r.repos.store.table[k]? = some record →
      relay.repos.store.table[k]? = some record ∨
        ∃ e, r.insertion = some (e, .inserted) ∧ record.tenantId = conn.tenantId ∧ k = e.id)
    (hpub : ∀ e ∈ r.published, r.insertion = some (e, .inserted))
    (hdis : ∀ message ∈ r.dispatched, ∀ e, message.delivered = some e →
      (conn.tenantId, e.id) ∈ relay.accepted ∨ r.insertion = some (e, .inserted)) :
    Inv (relay.absorb id conn r).1 ∧
      Accepts (relay.absorb id conn r).1 (relay.absorb id conn r).2 := by
  have hold : ∀ x ∈ relay.accepted, x ∈ (relay.absorb id conn r).1.accepted :=
    fun x hx => List.mem_append_left _ hx
  have hnew : ∀ e, r.insertion = some (e, .inserted) →
      (conn.tenantId, e.id) ∈ (relay.absorb id conn r).1.accepted := by
    intro e he
    unfold absorb
    simp [he]
  refine ⟨⟨?_, ?_⟩, ?_⟩
  · intro k record hk
    rcases hstore k record hk with hk | ⟨e, he, ht, rfl⟩
    · exact hold _ (h.stored k record hk)
    · rw [ht]
      exact hnew e he
  · intro entry he
    rcases List.mem_append.1 he with he | he
    · exact hold _ (h.sent entry he)
    · obtain ⟨e, hpe, rfl⟩ := List.mem_map.1 he
      exact hnew e (hpub e (Option.mem_toList.1 hpe))
  · intro message hm e he
    rcases hdis message hm e he with hacc | hins
    · exact hold _ hacc
    · exact hnew e hins

/-- A reaction that keeps the store, inserts and dispatches nothing. -/
theorem inv_absorb_idle {relay : Relay} (h : Inv relay) (id : ℕ) (conn : Conn) {r : Reaction Events}
    (hstore : r.repos.store = relay.repos.store) (hpub : r.published = none)
    (hdis : r.dispatched = []) :
    Inv (relay.absorb id conn r).1 ∧
      Accepts (relay.absorb id conn r).1 (relay.absorb id conn r).2 := by
  apply inv_absorb h
  · intro k record hk
    rw [hstore] at hk
    exact Or.inl hk
  · simp [hpub]
  · simp [hdis]

/-- An event handed to the store: what is stored and sent stays accepted, and the event itself is
accepted or not dispatched. -/
theorem inv_absorb_storeEvent {relay : Relay} (h : Inv relay) (id : ℕ) (conn : Conn) (s : Session)
    (env : Env) (event : NostrEvent) (hcheck : s.checkEvent env event = .ok ())
    (hguard : relay.StoredFor conn.tenantId event ∨ ¬ relay.SupersededFor conn.tenantId event ∨
      ¬ s.Subscribed event) {r : Reaction Events}
    (hr : r = s.storeEvent (RepositoryStore.eventStore conn.tenantId) env relay.repos event) :
    Inv (relay.absorb id conn r).1 ∧
      Accepts (relay.absorb id conn r).1 (relay.absorb id conn r).2 := by
  unfold Session.storeEvent at hr
  cases hins : (RepositoryStore.eventStore conn.tenantId).insert relay.repos.store event with
  | mk answer events =>
  cases answer with
  | error err =>
    rw [hins, RepositoryStore.atomic_eventStore _ _ _ _ _ hins] at hr
    subst hr
    exact inv_absorb_idle h id conn rfl rfl rfl
  | ok outcome =>
    obtain ⟨record, hrec, hinsertion⟩ :=
      RepositoryStore.insert_eq_ok (Result.settle_eq_ok.1 hins)
    have hrec := eventToRecord_eq_ok.1 hrec
    have hkey := eventKey_of_verified hcheck hrec
    have haccepted : ∀ found, relay.repos.store.getEvent conn.tenantId record.id = some found →
        (conn.tenantId, event.id) ∈ relay.accepted := by
      intro found hget
      obtain ⟨htab, htenant⟩ := Events.getEvent_eq_some.1 hget
      rw [← htenant, ← hkey]
      exact h.stored _ _ htab
    rw [hins] at hr
    cases hinsertion with
    | stored found hget =>
      subst hr
      apply inv_absorb h
      · exact fun k record hk => Or.inl hk
      · simp
      · intro message hm e he
        rw [(Session.of_mem_dispatchEvent hm he).1]
        exact Or.inl (haccepted found hget)
    | superseded key hget hk hsup =>
      subst hr
      apply inv_absorb h
      · exact fun k record hk => Or.inl hk
      · simp
      · intro message hm e he
        obtain ⟨rfl, hsub⟩ := Session.of_mem_dispatchEvent hm he
        rcases hguard with ⟨bytes, found, hbytes, hfound⟩ | hnot | hnot
        · rw [hrec.id, Option.some.injEq] at hbytes
          subst hbytes
          exact Or.inl (haccepted found hfound)
        · exact absurd ⟨key, hk, hsup⟩ hnot
        · exact absurd hsub hnot
    | added kept hget hsup hkept =>
      have hkept := Events.Within.of_without hkept
      subst hr
      apply inv_absorb h
      · intro k found hk
        have hk := within_applyRetention s conn.tenantId env.now _ k found hk
        rw [Events.get_insertEvent] at hk
        split_ifs at hk with hkk
        · cases hold : kept.table[eventKey record.id]? with
          | none =>
            rw [hold, Option.getD_none, Option.some.injEq] at hk
            subst hk
            refine Or.inr ⟨event, rfl, by rw [hrec.rest], by rw [← hkk, hkey]⟩
          | some old =>
            rw [hold, Option.getD_some, Option.some.injEq] at hk
            subst hk
            exact Or.inl (hkk ▸ hkept _ _ hold)
        · exact Or.inl (hkept _ _ hk)
      · intro e he
        simp only [Option.mem_def, Option.ite_none_right_eq_some, Option.some.injEq] at he
        rw [he.2]
      · intro message hm e he
        rw [(Session.of_mem_dispatchEvent hm he).1]
        exact Or.inr rfl

theorem inv_handle {relay : Relay} (h : Inv relay) (id : ℕ) (conn : Conn) (msg : ClientMessage)
    (env : Env) (hconn : relay.conns id = some conn) (hok : relay.KeepsTenant (.message id msg env)) :
    Inv (relay.handle id conn msg env).1 ∧
      Accepts (relay.handle id conn msg env).1 (relay.handle id conn msg env).2 := by
  unfold handle
  have heff := Session.effect_handleMessage conn.session (RepositoryStore.eventStore conn.tenantId)
    env relay.repos msg
  generalize conn.session.handleMessage (RepositoryStore.eventStore conn.tenantId) env relay.repos
    msg = r at heff
  cases heff with
  | answered limiter message hquiet => exact inv_absorb_idle h id conn rfl rfl rfl
  | closed sub hmsg => exact inv_absorb_idle h id conn rfl rfl rfl
  | opened limiter sub filters parsed events m hmsg hcheck =>
    exact inv_absorb_idle h id conn rfl rfl rfl
  | membership limiter value event hmsg hread hcheck hkind =>
    exact inv_absorb_idle h id conn rfl rfl rfl
  | stored limiter value event hmsg hread hcheck hother hwrite =>
    subst hmsg
    exact inv_absorb_storeEvent h id conn { conn.session with rateLimiter := limiter } env event
      hcheck (hok conn event hconn hread hcheck hwrite) rfl
  | authenticated value event auth hmsg hread hauth => exact inv_absorb_idle h id conn rfl rfl rfl

/-- Every guarded step keeps the invariant and dispatches accepted events only. -/
theorem inv_step {relay relay' : Relay} {action : RelayAction} {output : RelayOutput}
    (h : Inv relay) (hok : relay.KeepsTenant action)
    (hstep : relay.step action = some (relay', output)) : Inv relay' ∧ Accepts relay' output := by
  have htrans := transition_of_step hstep
  generalize hr : (relay', output) = r at htrans
  cases htrans with
  | connect hfree =>
    cases hr
    exact ⟨⟨h.stored, h.sent⟩, by simp [Accepts]⟩
  | message conn hconn =>
    have hinv := inv_handle h _ conn _ _ hconn hok
    rwa [← hr] at hinv
  | receive conn entry hconn hentry =>
    cases hr
    refine ⟨⟨h.stored, h.sent⟩, ?_⟩
    intro message hm event hd
    obtain ⟨rfl, hsub⟩ := Session.of_mem_dispatchEvent hm hd
    rcases hok conn entry hconn hentry with htenant | hnot
    · rw [← htenant]
      exact h.sent entry (List.mem_of_getElem? hentry)
    · exact absurd hsub hnot
  | lag conn hconn =>
    cases hr
    exact ⟨⟨h.stored, h.sent⟩, by simp [Accepts]⟩
  | disconnect conn hconn =>
    cases hr
    exact ⟨⟨h.stored, h.sent⟩, by simp [Accepts]⟩

/-- In every run whose steps keep deliveries inside a tenant, an event that a session dispatches was
accepted in the tenant of that session. -/
theorem dispatched_was_accepted {relay relay' : Relay} {action : RelayAction} {output : RelayOutput}
    (hreach : Runs.Reach step KeepsTenant Fresh relay) (hok : relay.KeepsTenant action)
    (hstep : relay.step action = some (relay', output)) :
    ∀ message ∈ output.dispatched, ∀ event, message.delivered = some event →
      (output.tenantId, event.id) ∈ relay'.accepted := by
  have hinv : Inv relay := hreach.invariant (fun _ hf => hf.inv)
    fun _ _ _ _ hi ho hs => (inv_step hi ho hs).1
  exact (inv_step hinv hok hstep).2

/-! ### A run over two tenants -/

/-- A signed note. -/
def note : NostrEvent where
  id := "fdfbe689761a8342469c87d75ba28fb8469b65fde3fb124ed57fe15d2f9ddfb7"
  pubkey := "f9308a019258c31049344f85f89d5229b531c845836f99b08601f113bce036f9"
  createdAt := 1
  kind := 1
  tags := []
  content := "hello"
  sig := "9ad9fe980c8bcec90528fa2ee934e73012db6903f3613f5935a93c67ac296f0c" ++
    "8bd6a5153c679cfdc456be0157749a2cf0dbd20718e32dd20256ff6f6b1e5690"

def noteEnv : Env where
  crypto := NostrEvent.signedBy [note]
  now := 10
  instant := 0
  inviteCode := ""
  decide := fun _ => .accept

/-- A tenant that anyone can read and write. -/
def publicTenant (id : String) : TenantContext where
  tenantId := id
  tenant := some {
    id, host := id ++ ".example", relayPubkey := List.replicate 32 17
    relaySecret := List.replicate 32 1
    authRequired := false, publicRead := true, publicWrite := true }

/-- A relay with nothing stored. -/
def emptyRelay : Relay where
  policy := {}
  authRequired := false
  admission := false
  repos := ⟨∅, ∅⟩
  conns := fun _ => none
  channel := []
  accepted := []

theorem fresh_emptyRelay : Fresh emptyRelay where
  conns := fun _ => rfl
  channel := rfl
  accepted := by simp [emptyRelay]

/-- A session of `alpha` subscribes to notes; a session of the given tenant publishes one. -/
def publishTo (tenant : String) : List RelayAction :=
  [.connect 0 (publicTenant "alpha") "" noteEnv,
    .connect 1 (publicTenant tenant) "" noteEnv,
    .message 0 (.req "notes" [.object [("kinds", .array [.number (.posInt 1)])]]) noteEnv,
    .message 1 (.event note.toValue) noteEnv]

theorem keepsTenant_publishTo (tenant : String) :
    ∀ action ∈ publishTo tenant, ∀ relay, KeepsTenant relay action := by
  intro action ha relay
  simp only [publishTo, List.mem_cons, List.not_mem_nil, or_false] at ha
  rcases ha with rfl | rfl | rfl | rfl
  · trivial
  · trivial
  · trivial
  · intro conn event hconn hread _ _
    have : event = note := by
      have hnote : NostrEvent.fromValue note.toValue = some note := by decide +kernel
      rw [hnote] at hread
      exact (Option.some.inj hread).symm
    subst this
    refine Or.inr (Or.inl ?_)
    rintro ⟨key, hkey, -⟩
    cases hkey

theorem dispatched_was_accepted_sample :
    ∃ relay relay' output, Runs.Reach step KeepsTenant Fresh relay ∧
      relay.KeepsTenant (.receive 0) ∧ relay.step (.receive 0) = some (relay', output) ∧
      .event "notes" note ∈ output.dispatched ∧ (output.tenantId, note.id) ∈ relay'.accepted := by
  have hrun : (Runs.exec step emptyRelay (publishTo "alpha")).map (fun r =>
      ((r.1.conns 0).map Conn.tenantId, r.1.channel,
        (r.1.step (.receive 0)).map fun q => q.2.dispatched)) =
      some (some "alpha", [("alpha", note)], some [.event "notes" note]) := by decide +kernel
  obtain ⟨⟨relay, outputs⟩, hexec, hfacts⟩ := Option.map_eq_some_iff.1 hrun
  simp only [Prod.mk.injEq] at hfacts
  obtain ⟨htenant, hchannel, hdispatched⟩ := hfacts
  have hreach : Runs.Reach step KeepsTenant Fresh relay :=
    Runs.Reach.of_exec (.start fresh_emptyRelay) (keepsTenant_publishTo "alpha") hexec
  have hok : relay.KeepsTenant (.receive 0) := by
    intro conn entry hconn hentry
    rw [hconn, Option.map_some, Option.some.injEq] at htenant
    rw [hchannel] at hentry
    have := List.mem_singleton.1 (List.mem_of_getElem? hentry)
    exact Or.inl (by rw [this, htenant])
  obtain ⟨⟨relay', output⟩, hstep, hd⟩ := Option.map_eq_some_iff.1 hdispatched
  have hmem : ServerMessage.event "notes" note ∈ output.dispatched := by
    rw [show output.dispatched = _ from hd]
    exact List.mem_singleton.2 rfl
  exact ⟨relay, relay', output, hreach, hok, hstep, hmem,
    dispatched_was_accepted hreach hok hstep _ hmem note rfl⟩

/-- The session of `alpha` is sent a note that only `beta` accepted. -/
theorem foreign_event_dispatched :
    Fresh emptyRelay ∧
      (Runs.exec step emptyRelay (publishTo "beta" ++ [.receive 0])).map
        (fun r => ((r.2.getLast?.map fun o => (o.tenantId, o.dispatched)), r.1.accepted)) =
      some (some ("alpha", [.event "notes" note]), [("beta", note.id)]) := by
  constructor
  · exact fresh_emptyRelay
  · decide +kernel

end Relay
end Gittree
