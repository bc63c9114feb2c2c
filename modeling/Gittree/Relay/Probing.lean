import Gittree.Relay.Dialogue

/-!
# What a probe finds out

`probe_write_read` of `crates/relay-adapter/src/lib.rs` publishes an event and asks for it by its
id.  Frames arrive in the order in which the session sends them, so that the end of the stored
events is read behind the events themselves.

* `Relay.inv_of_reach`: in every run of the relay, what is stored or was sent to the channel was
  accepted;
* `Dialogue.Found`: what the frames in flight say about the stored events;
* `probe_truthful`: a probe succeeds only where its event has been accepted, and misses it only
  where the session has answered its request without it.
-/

namespace Gittree

open Rust
open Rust.Json (Value)

/-! ### What the relay has accepted -/

namespace Relay

variable {relay relay' : Relay}

theorem Inv.congr (h : Inv relay) (hstore : relay'.repos.store = relay.repos.store)
    (hchannel : relay'.channel = relay.channel) (haccepted : relay'.accepted = relay.accepted) :
    Inv relay' where
  stored := by
    rw [hstore, haccepted]
    exact h.stored
  sent := by
    rw [hchannel, haccepted]
    exact h.sent

/-- A session without subscriptions dispatches nothing. -/
theorem not_subscribed_of_empty {s : Session} (h : s.registry = ∅) (event : NostrEvent) :
    ¬ s.Subscribed event := by
  rintro ⟨id, state, tags, hget, -⟩
  rw [h] at hget
  simp at hget

/-- Whatever a session does with a message keeps the invariant. -/
theorem inv_absorb_handleMessage (h : Inv relay) (id : ℕ) (conn : Conn) (msg : ClientMessage)
    (env : Env) :
    Inv (relay.absorb id conn (conn.session.handleMessage
      (RepositoryStore.eventStore conn.tenantId) env relay.repos msg)).1 := by
  have heff := Session.effect_handleMessage conn.session
    (RepositoryStore.eventStore conn.tenantId) env relay.repos msg
  generalize conn.session.handleMessage (RepositoryStore.eventStore conn.tenantId) env relay.repos
    msg = r at heff
  cases heff with
  | answered limiter message hquiet => exact (inv_absorb_idle h id conn rfl rfl rfl).1
  | closed sub hmsg => exact (inv_absorb_idle h id conn rfl rfl rfl).1
  | opened limiter sub filters parsed events m hmsg hcheck =>
    exact (inv_absorb_idle h id conn rfl rfl rfl).1
  | membership limiter value event hmsg hread hcheck hkind =>
    exact (inv_absorb_idle h id conn rfl rfl rfl).1
  | authenticated value event auth hmsg hread hauth =>
    exact (inv_absorb_idle h id conn rfl rfl rfl).1
  | stored limiter value event hmsg hread hcheck hother hwrite =>
    -- the subscriptions of the session do not matter for what is stored and sent
    have hinv := (inv_absorb_storeEvent h id conn
      { conn.session with rateLimiter := limiter, registry := ∅ } env event hcheck
      (Or.inr (Or.inr (not_subscribed_of_empty rfl event))) rfl).1
    apply hinv.congr
    · unfold absorb Session.storeEvent
      rcases (RepositoryStore.eventStore conn.tenantId).insert relay.repos.store event with
        ⟨err | _ | _, events⟩ <;> rfl
    · unfold absorb Session.storeEvent
      rcases (RepositoryStore.eventStore conn.tenantId).insert relay.repos.store event with
        ⟨err | _ | _, events⟩ <;> rfl
    · unfold absorb Session.storeEvent
      rcases (RepositoryStore.eventStore conn.tenantId).insert relay.repos.store event with
        ⟨err | _ | _, events⟩ <;> rfl

/-- Every step keeps the invariant. -/
theorem inv_of_step {action : RelayAction} {output : RelayOutput} (h : Inv relay)
    (hstep : relay.step action = some (relay', output)) : Inv relay' := by
  have htrans := transition_of_step hstep
  generalize hr : (relay', output) = r at htrans
  cases htrans with
  | connect hfree =>
    cases hr
    exact h.congr rfl rfl rfl
  | message conn hconn =>
    obtain ⟨rfl, rfl⟩ := Prod.mk.inj hr
    exact inv_absorb_handleMessage h _ conn _ _
  | receive conn entry hconn hentry =>
    cases hr
    exact h.congr rfl rfl rfl
  | lag conn hconn =>
    cases hr
    exact h.congr rfl rfl rfl
  | disconnect conn hconn =>
    cases hr
    exact h.congr rfl rfl rfl

theorem inv_of_reach (h : Runs.Reach step (fun _ _ => True) Fresh relay) : Inv relay :=
  h.invariant (fun _ hf => hf.inv) fun _ _ _ _ hi _ hs => inv_of_step hi hs

/-- What has been accepted stays accepted. -/
theorem accepted_of_step {action : RelayAction} {output : RelayOutput}
    (hstep : relay.step action = some (relay', output)) :
    ∀ x ∈ relay.accepted, x ∈ relay'.accepted := by
  have htrans := transition_of_step hstep
  generalize hr : (relay', output) = r at htrans
  intro x hx
  cases htrans with
  | connect hfree =>
    cases hr
    exact hx
  | message conn hconn =>
    obtain ⟨rfl, rfl⟩ := Prod.mk.inj hr
    exact List.mem_append_left _ hx
  | receive conn entry hconn hentry =>
    cases hr
    exact hx
  | lag conn hconn =>
    cases hr
    exact hx
  | disconnect conn hconn =>
    cases hr
    exact hx

end Relay

/-! ### The request of a probe -/

namespace Handling

open RelayAdapter (Client)

variable {limit : Option ℕ} {h : Handling} {c : Client}

/-- The filter of a probe is read as a filter on the id. -/
theorem parseFilters_probe (id : String) :
    parseFilters [.object [("ids", .array [.string id])]] =
      .ok [({ ids := [id] } : Filter)] := rfl

/-- What the session answers to the request: something that is neither an event nor the end of the
stored events, or the events of the tenant's table and then their end. -/
theorem req_cases (hm : h.message = c.reqMessage) :
    (∃ session message, h.reaction limit =
        { session, repos := h.repos, replies := [message] } ∧
      message.delivered = none ∧ ∀ id, message ≠ .eose id) ∨
    ∃ events : List NostrEvent, (h.reaction limit).responses =
        events.map (.event c.subId) ++ [.eose c.subId] ∧
      ∀ event ∈ events, ∃ record : EventRecord,
        h.repos.store.table[eventKey record.id]? = some record ∧
          record.tenantId = h.conn.tenantId ∧ event = recordToEvent record := by
  have hframed : h.message.Framed [] := by
    rw [hm]
    exact ⟨by simp, rfl⟩
  rcases @reaction_cases limit h hframed with ⟨text, hr⟩ | hr
  · exact Or.inl ⟨_, .notice text, hr, rfl, fun id heq => by cases heq⟩
  rw [hr, hm]
  show (∃ session message, h.conn.session.handleReq _ h.env h.repos c.subId _ = _ ∧ _) ∨
    ∃ events, (h.conn.session.handleReq _ h.env h.repos c.subId _).responses = _ ∧ _
  unfold Session.handleReq
  obtain ⟨hit, limiter, hlimit⟩ := h.conn.session.exists_rateLimitRequest h.env.instant
  rw [hlimit]
  cases hit with
  | true => exact Or.inl ⟨_, .notice "rate limited", rfl, rfl, fun id heq => by cases heq⟩
  | false =>
    simp only
    unfold Session.acceptReq
    cases hcheck : Session.checkReq { h.conn.session with rateLimiter := limiter }
        (RepositoryStore.eventStore h.conn.tenantId) h.env h.repos c.subId
        [.object [("ids", .array [.string c.event.id])]] with
    | error message =>
      refine Or.inl ⟨_, message, rfl, ?_⟩
      exact Session.failsWith_checkReq_of (P := fun m => m.delivered = none ∧ ∀ id, m ≠ .eose id)
        _ _ _ _ (fun text => ⟨rfl, fun id heq => by cases heq⟩)
        (fun text => ⟨rfl, fun id heq => by cases heq⟩) message hcheck
    | ok r =>
      obtain ⟨parsed, events, memberships⟩ := r
      refine Or.inr ⟨events, by simp [Reaction.responses], ?_⟩
      unfold Session.checkReq Session.checkRead at hcheck
      simp only [Result.bind_eq_ok, Result.pure_eq_ok, Result.mapError_eq_ok, Prod.mk.injEq,
        parseFilters_probe, Except.ok.injEq] at hcheck
      obtain ⟨filters, ⟨-, -, -, -, filters', rfl, -, -, rfl⟩, -, -, found, hquery,
        ⟨virtual, memberships'⟩, hvirtual, rfl, rfl, rfl⟩ := hcheck
      -- the filter asks for no kind, so no event is made up for it
      cases hvirtual
      intro event hevent
      have hfound : event ∈ found ++ [] := hevent
      rw [List.append_nil] at hfound
      exact RepositoryStore.mem_query hquery hfound

/-- The events in the answer to the request are stored. -/
theorem stored_of_req (hm : h.message = c.reqMessage) {subId : String} {event : NostrEvent}
    (hin : .event subId event ∈ (h.reaction limit).responses) : ∃ record : EventRecord,
      h.repos.store.table[eventKey record.id]? = some record ∧ event = recordToEvent record := by
  rcases @req_cases limit h c hm with ⟨session, message, hr, hdelivered, -⟩ | ⟨events, hr, hstored⟩
  · rw [hr] at hin
    rw [← List.mem_singleton.1 hin] at hdelivered
    cases hdelivered
  · rw [hr] at hin
    rcases List.mem_append.1 hin with hin | hin
    · obtain ⟨e, he, heq⟩ := List.mem_map.1 hin
      cases heq
      obtain ⟨record, hrecord, -, hevent⟩ := hstored event he
      exact ⟨record, hrecord, hevent⟩
    · cases List.mem_singleton.1 hin

/-- The end of the stored events comes last in the answer to the request. -/
theorem responses_of_eose (hm : h.message = c.reqMessage) {subId : String}
    (hin : .eose subId ∈ (h.reaction limit).responses) : ∃ events : List NostrEvent,
      (h.reaction limit).responses = events.map (.event c.subId) ++ [.eose c.subId] := by
  rcases @req_cases limit h c hm with ⟨session, message, hr, -, heose⟩ | ⟨events, hr, -⟩
  · rw [hr] at hin
    exact absurd (List.mem_singleton.1 hin).symm (heose subId)
  · exact ⟨events, hr⟩

end Handling

namespace Dialogue

open RelayAdapter (Client)

variable {id : ℕ} {limit : Option ℕ} {x y : Dialogue}

/-- The relay has accepted an event with the id of the client's event. -/
def Accepted (x : Dialogue) (eventId : String) : Prop :=
  ∃ tenantId, (tenantId, eventId) ∈ x.relay.accepted

/-- The request of the client has been handled. -/
def Requested (x : Dialogue) : Prop := ∃ h ∈ x.handled, h.message = x.client.reqMessage

/-- The session has ended its answer to the request with the end of the stored events. -/
def Ended (limit : Option ℕ) (x : Dialogue) : Prop :=
  ∃ h ∈ x.handled, h.message = x.client.reqMessage ∧
    .eose x.client.subId ∈ (h.reaction limit).responses

theorem Ended.requested (h : x.Ended limit) : x.Requested := by
  obtain ⟨g, hg, hm, -⟩ := h
  exact ⟨g, hg, hm⟩

/-- The event is among those that the session has found for the request. -/
def Lists (limit : Option ℕ) (x : Dialogue) (event : NostrEvent) : Prop :=
  event.id = x.client.event.id ∧ ∃ h ∈ x.handled, h.message = x.client.reqMessage ∧
    .event x.client.subId event ∈ (h.reaction limit).responses

/-- The events in flight are accepted ones, and while the client looks for its event, the end of the
stored events is behind those with its id. -/
structure Found (id : ℕ) (limit : Option ℕ) (x : Dialogue) : Prop where
  relay : Relay.Inv x.relay
  silent : ¬ x.Requested → ∀ conn, x.relay.conns id = some conn → conn.session.registry = ∅
  events : ∀ subId event, some (.event subId event) ∈ x.toClient → x.Accepted event.id
  ended : ∀ subId, some (.eose subId) ∈ x.toClient → x.Ended limit
  ordered : x.client.phase = .waitingEvent →
    ∀ before after, x.toClient = before ++ some (.eose x.client.subId) :: after → ∀ event,
      x.Lists limit event → some (.event x.client.subId event) ∈ before
  found : x.client.phase = .sendingClose ∨
    (x.client.probe = true ∧ x.client.phase = .finished (.ok ())) → x.Accepted x.client.event.id
  missing : x.client.phase = .finished (.error (.protocol "probe event not found")) →
    x.Ended limit ∧ ∀ event, ¬ x.Lists limit event

theorem Start.found (h : Start id x) : Found id limit x where
  relay := Relay.inv_of_reach h.relay
  silent := by simp [h.free]
  events := by simp [h.toClient]
  ended := by simp [h.toClient]
  ordered := by simp [h.phase]
  found := by simp [h.phase]
  missing := by simp [h.phase]

/-! ### The order of the frames -/

theorem nodup_messages (c : Client) :
    [c.eventMessage, c.reqMessage, c.closeMessage].Nodup := by
  simp [Client.eventMessage, Client.reqMessage, Client.closeMessage]

/-- A frame that is still to be handled has not been handled. -/
theorem Inv.not_handled (h : Inv limit x) {message : ClientMessage} (hm : message ∈ x.toRelay) :
    ∀ g ∈ x.handled, g.message ≠ message := by
  intro g hg heq
  have hnodup := (nodup_messages x.client).sublist (h.sent.trans x.client.written_sublist)
  exact (List.nodup_append.1 hnodup).2.2 _ (List.mem_map_of_mem hg) _ hm heq

/-- Nothing has been handled before the event. -/
theorem Inv.handled_eq_nil (h : Inv limit x) {rest : List ClientMessage}
    (hqueue : x.toRelay = x.client.eventMessage :: rest) : x.handled = [] := by
  have hsent := h.sent.trans x.client.written_sublist
  rw [hqueue] at hsent
  cases hhandled : x.handled with
  | nil => rfl
  | cons g others =>
    rw [hhandled] at hsent
    have hlater : (others.map Handling.message ++ x.client.eventMessage :: rest).Sublist
        [x.client.reqMessage, x.client.closeMessage] := by
      rcases List.sublist_cons_iff.1 hsent with hs | ⟨tail, heq, hs⟩
      · exact (List.sublist_cons_self _ _).trans hs
      · obtain ⟨-, rfl⟩ := List.cons.inj heq
        exact hs
    have hmem := hlater.subset (List.mem_append_right _ List.mem_cons_self)
    simp [Client.eventMessage, Client.reqMessage, Client.closeMessage] at hmem

/-- An element that is not behind a place is before it. -/
theorem split_of_append {α : Type} {l frames before after : List α} {a : α} (ha : a ∉ frames)
    (h : l ++ frames = before ++ a :: after) : ∃ rest, l = before ++ a :: rest := by
  rcases List.append_eq_append_iff.1 h with ⟨middle, -, hframes⟩ | ⟨middle, hl, hafter⟩
  · exact (ha (by simp [hframes])).elim
  · cases middle with
    | nil =>
      rw [List.nil_append] at hafter
      exact (ha (hafter ▸ List.mem_cons_self)).elim
    | cons b rest =>
      obtain ⟨rfl, -⟩ := List.cons.inj hafter
      exact ⟨rest, hl⟩

/-- The one place of the last element of a list. -/
theorem before_of_append {α : Type} {l before after : List α} {a : α} (ha : a ∉ l)
    (h : l ++ [a] = before ++ a :: after) : before = l := by
  rcases List.append_eq_append_iff.1 h with ⟨middle, hbefore, hlast⟩ | ⟨middle, hl, hafter⟩
  · cases middle with
    | nil => rw [hbefore, List.append_nil]
    | cons b rest => simp at hlast
  · cases middle with
    | nil => rw [hl, List.append_nil]
    | cons b rest =>
      obtain ⟨rfl, -⟩ := List.cons.inj hafter
      exact (ha (by simp [hl])).elim

/-- More frames come in, none of them the end of the stored events. -/
theorem Found.append (h : Found id limit x) (relay : Relay)
    (frames : List (Option ServerMessage)) (hrelay : Relay.Inv relay)
    (hold : ∀ a ∈ x.relay.accepted, a ∈ relay.accepted)
    (hsilent : ¬ x.Requested → ∀ conn, relay.conns id = some conn → conn.session.registry = ∅)
    (hevents : ∀ subId event, some (.event subId event) ∈ frames →
      ∃ tenantId, (tenantId, event.id) ∈ relay.accepted)
    (heose : ∀ subId, some (.eose subId) ∉ frames) :
    Found id limit { x with relay, toClient := x.toClient ++ frames } where
  relay := hrelay
  silent := hsilent
  events := by
    intro subId event hm
    rcases List.mem_append.1 hm with hm | hm
    · obtain ⟨tenantId, ha⟩ := h.events subId event hm
      exact ⟨tenantId, hold _ ha⟩
    · exact hevents subId event hm
  ended := by
    intro subId hm
    rcases List.mem_append.1 hm with hm | hm
    · exact h.ended subId hm
    · exact absurd hm (heose subId)
  ordered := by
    intro hphase before after hsplit event hlists
    obtain ⟨rest, hl⟩ := split_of_append (heose _) hsplit
    exact h.ordered hphase before rest hl event hlists
  found := by
    intro hphase
    obtain ⟨tenantId, ha⟩ := h.found hphase
    exact ⟨tenantId, hold _ ha⟩
  missing := h.missing

/-- The frames of a foreign step: accepted events, and no end of stored events. -/
theorem frames_of_foreign {relay : Relay} {action : RelayAction} {r : Relay × RelayOutput}
    (hinv : Relay.Inv relay) (hforeign : foreign id action = true)
    (hstep : relay.step action = some r) :
    (∀ subId event, some (.event subId event) ∈ framesFor id r.2 →
        ∃ tenantId, (tenantId, event.id) ∈ relay.accepted) ∧
      ∀ subId, some (.eose subId) ∉ framesFor id r.2 := by
  have hmem : ∀ message, some message ∈ framesFor id r.2 →
      ∃ (conn : Conn) (entry : String × NostrEvent),
      relay.channel[conn.cursor]? = some entry ∧
        message ∈ conn.session.dispatchEvent entry.2 := by
    intro message hm
    unfold framesFor at hm
    split_ifs at hm with hid
    · obtain ⟨m, hin, heq⟩ := List.mem_map.1 hm
      obtain rfl := Option.some.inj heq
      have htrans := Relay.transition_of_step hstep
      cases htrans with
      | connect hfree =>
        simp only [foreign, ne_eq, decide_eq_true_eq] at hforeign
        exact absurd hid hforeign
      | message conn hconn =>
        simp only [foreign, ne_eq, decide_eq_true_eq] at hforeign
        exact absurd hid hforeign
      | receive conn entry hconn hentry => exact ⟨conn, entry, hentry, hin⟩
      | lag conn hconn => cases hin
      | disconnect conn hconn => cases hin
    · cases hm
  constructor
  · intro subId event hm
    obtain ⟨conn, entry, hentry, hd⟩ := hmem _ hm
    rw [(Session.of_mem_dispatchEvent hd rfl).1]
    exact ⟨entry.1, hinv.sent entry (List.mem_of_getElem? hentry)⟩
  · intro subId hm
    obtain ⟨conn, entry, -, hd⟩ := hmem _ hm
    unfold Session.dispatchEvent at hd
    split at hd
    · cases List.mem_singleton.1 hd
    · obtain ⟨sub, -, heq⟩ := List.mem_map.1 hd
      cases heq

/-- A foreign step leaves the subscriptions on the connection as they are. -/
theorem registry_of_foreign {relay : Relay} {action : RelayAction} {r : Relay × RelayOutput}
    (hforeign : foreign id action = true) (hstep : relay.step action = some r) {conn : Conn}
    (hconn : r.1.conns id = some conn) : ∃ conn', relay.conns id = some conn' ∧
      conn'.session.registry = conn.session.registry := by
  have htrans := Relay.transition_of_step hstep
  have hupdate : ∀ (i : ℕ) (c : Option Conn), relay.setConn i c id = some conn → i ≠ id →
      relay.conns id = some conn := by
    intro i c hset hne
    unfold Relay.setConn at hset
    rwa [Function.update_of_ne (Ne.symm hne)] at hset
  cases htrans with
  | connect hfree =>
    simp only [foreign, ne_eq, decide_eq_true_eq] at hforeign
    exact ⟨conn, hupdate _ _ hconn hforeign, rfl⟩
  | message conn' hconn' =>
    simp only [foreign, ne_eq, decide_eq_true_eq] at hforeign
    exact ⟨conn, hupdate _ _ hconn hforeign, rfl⟩
  | @receive i conn' entry hconn' hentry =>
    by_cases hi : i = id
    · subst hi
      have hset : relay.setConn i (some { conn' with cursor := conn'.cursor + 1 }) i = some conn :=
        hconn
      unfold Relay.setConn at hset
      rw [Function.update_self, Option.some.injEq] at hset
      exact ⟨conn', hconn', by rw [← hset]⟩
    · exact ⟨conn, hupdate _ _ hconn hi, rfl⟩
  | @lag i count conn' hconn' =>
    by_cases hi : i = id
    · subst hi
      have hset : relay.setConn i (some { conn' with cursor := conn'.cursor + count }) i =
          some conn := hconn
      unfold Relay.setConn at hset
      rw [Function.update_self, Option.some.injEq] at hset
      exact ⟨conn', hconn', by rw [← hset]⟩
    · exact ⟨conn, hupdate _ _ hconn hi, rfl⟩
  | @disconnect i conn' hconn' =>
    by_cases hi : i = id
    · subst hi
      have hset : relay.setConn i none i = some conn := hconn
      unfold Relay.setConn at hset
      rw [Function.update_self] at hset
      cases hset
    · exact ⟨conn, hupdate _ _ hconn hi, rfl⟩

/-! ### A frame is handled -/

theorem relay_handle (h : Relay.Inv x.relay) {handling : Handling}
    (hrepos : handling.repos = x.relay.repos) (hframed : handling.message.Framed []) :
    Relay.Inv (x.handle id limit handling).relay := by
  show Relay.Inv (x.relay.absorb id handling.conn (handling.reaction limit)).1
  rcases @Handling.reaction_cases limit handling hframed with ⟨text, hr⟩ | hr
  · rw [hr]
    exact (Relay.inv_absorb_idle h id handling.conn (by rw [hrepos]) rfl rfl).1
  · rw [hr, hrepos]
    exact Relay.inv_absorb_handleMessage h id handling.conn handling.message handling.env

/-- The event is handled before there is any subscription. -/
theorem events_of_event {h : Handling} (hm : h.message = x.client.eventMessage)
    (hempty : h.conn.session.registry = ∅) :
    (h.reaction limit).session.registry = ∅ ∧
      (∀ subId event, .event subId event ∉ (h.reaction limit).responses) ∧
      ∀ subId, .eose subId ∉ (h.reaction limit).responses := by
  have hanswer := @Handling.answer limit h _ hm
  have hone : ∀ (session : Session) (repos : Repos Events) (message : ServerMessage),
      session.registry = ∅ → message.delivered = none → (∀ id, message ≠ .eose id) →
      session.registry = ∅ ∧
        (∀ subId event, .event subId event ∉
          ({ session, repos, replies := [message] } : Reaction Events).responses) ∧
        ∀ subId, .eose subId ∉
          ({ session, repos, replies := [message] } : Reaction Events).responses := by
    intro session repos message hregistry hdelivered heose
    refine ⟨hregistry, fun subId event hin => ?_, fun subId hin => ?_⟩
    · rw [← List.mem_singleton.1 hin] at hdelivered
      cases hdelivered
    · exact heose subId (List.mem_singleton.1 hin).symm
  generalize h.reaction limit = r at hanswer
  cases hanswer with
  | refused limiter message hrefusal =>
    rcases hrefusal with ⟨text, rfl⟩ | ⟨text, rfl⟩
    · exact hone _ _ _ hempty rfl fun id heq => by cases heq
    · exact hone _ _ _ hempty rfl fun id heq => by cases heq
  | member limiter text hkind hans => exact hone _ _ _ hempty rfl fun id heq => by cases heq
  | stored limiter outcome text r hsession hinsertion hreplies hdispatched =>
    unfold Reaction.responses
    rw [hsession, hreplies, hdispatched]
    refine ⟨hempty, fun subId event hin => ?_, fun subId hin => ?_⟩
    · rcases List.mem_append.1 hin with hin | hin
      · cases List.mem_singleton.1 hin
      · exact Relay.not_subscribed_of_empty hempty _ (Session.of_mem_dispatchEvent hin rfl).2
    · rcases List.mem_append.1 hin with hin | hin
      · cases List.mem_singleton.1 hin
      · unfold Session.dispatchEvent at hin
        split at hin
        · cases List.mem_singleton.1 hin
        · obtain ⟨sub, -, heq⟩ := List.mem_map.1 hin
          cases heq

/-- The end of the subscription is not answered. -/
theorem events_of_close {h : Handling} (hm : h.message = x.client.closeMessage) :
    (∀ subId event, .event subId event ∉ (h.reaction limit).responses) ∧
      (∀ subId, .eose subId ∉ (h.reaction limit).responses) ∧
        (h.conn.session.registry = ∅ → (h.reaction limit).session.registry = ∅) := by
  have hframed : h.message.Framed [] := by
    rw [hm]
    trivial
  rcases @Handling.reaction_cases limit h hframed with ⟨text, hr⟩ | hr
  · rw [hr]
    exact ⟨fun subId event hin => (by cases List.mem_singleton.1 hin),
      fun subId hin => (by cases List.mem_singleton.1 hin), id⟩
  · rw [hr, hm]
    refine ⟨fun subId event hin => (by cases hin), fun subId hin => (by cases hin), ?_⟩
    intro hempty
    show h.conn.session.registry.erase x.client.subId = ∅
    rw [hempty]
    simp

/-- A frame other than the request has been handled. -/
theorem Found.of_handled (h : Found id limit x) {handling : Handling}
    (hm : handling.message ≠ x.client.reqMessage) (toRelay : List ClientMessage) :
    Found id limit { x with toRelay, handled := x.handled ++ [handling] } := by
  have hrequested : Requested { x with toRelay, handled := x.handled ++ [handling] } ↔
      x.Requested := by
    constructor
    · rintro ⟨g, hg, hreq⟩
      rcases List.mem_append.1 hg with hg | hg
      · exact ⟨g, hg, hreq⟩
      · rw [List.mem_singleton.1 hg] at hreq
        exact absurd hreq hm
    · rintro ⟨g, hg, hreq⟩
      exact ⟨g, List.mem_append_left _ hg, hreq⟩
  have hend : x.Ended limit →
      Ended limit { x with toRelay, handled := x.handled ++ [handling] } := by
    rintro ⟨g, hg, hreq, heose⟩
    exact ⟨g, List.mem_append_left _ hg, hreq, heose⟩
  have hlists : ∀ event, Lists limit { x with toRelay, handled := x.handled ++ [handling] } event →
      x.Lists limit event := by
    rintro event ⟨hid, g, hg, hreq, hin⟩
    rcases List.mem_append.1 hg with hg | hg
    · exact ⟨hid, g, hg, hreq, hin⟩
    · rw [List.mem_singleton.1 hg] at hreq
      exact absurd hreq hm
  exact ⟨h.relay, fun hnot => h.silent fun hreq => hnot (hrequested.2 hreq), h.events,
    fun subId hin => hend (h.ended subId hin),
    fun hphase before after hsplit event hl =>
      h.ordered hphase before after hsplit event (hlists event hl),
    h.found, fun hphase => ⟨hend (h.missing hphase).1,
      fun event hl => (h.missing hphase).2 event (hlists event hl)⟩⟩

/-- The session handles a frame other than the request. -/
theorem Found.handle_other (h : Found id limit x) {handling : Handling}
    (hm : handling.message ≠ x.client.reqMessage) (hrepos : handling.repos = x.relay.repos)
    (hframed : handling.message.Framed [])
    (hsilent : ¬ x.Requested → (handling.reaction limit).session.registry = ∅)
    (hevents : ∀ subId event, .event subId event ∉ (handling.reaction limit).responses)
    (heose : ∀ subId, .eose subId ∉ (handling.reaction limit).responses) :
    Found id limit (x.handle id limit handling) := by
  have hframes : ∀ message, some message ∈
      framesFor id (x.relay.absorb id handling.conn (handling.reaction limit)).2 →
        message ∈ (handling.reaction limit).responses := by
    intro message hin
    rw [framesFor_absorb] at hin
    obtain ⟨m, hin, heq⟩ := List.mem_map.1 hin
    rwa [← Option.some.inj heq]
  refine (h.append _ _ (relay_handle h.relay hrepos hframed)
    (fun a ha => List.mem_append_left _ ha) ?_
    (fun subId event hin => absurd (hframes _ hin) (hevents subId event))
    (fun subId hin => heose subId (hframes _ hin))).of_handled hm x.toRelay.tail
  intro hnot conn hconn
  have hset : x.relay.setConn id
      (some { handling.conn with session := (handling.reaction limit).session }) id = some conn :=
    hconn
  unfold Relay.setConn at hset
  rw [Function.update_self, Option.some.injEq] at hset
  rw [← hset]
  exact hsilent hnot

/-- The session handles the request. -/
theorem Found.handle_req (h : Found id limit x) {handling : Handling}
    (hm : handling.message = x.client.reqMessage) (hrepos : handling.repos = x.relay.repos)
    (hframed : handling.message.Framed []) (hnew : ¬ x.Requested) :
    Found id limit (x.handle id limit handling) := by
  have hrequested : (x.handle id limit handling).Requested :=
    ⟨handling, List.mem_append_right _ (List.mem_singleton.2 rfl), hm⟩
  have hold : ∀ a ∈ x.relay.accepted, a ∈ (x.handle id limit handling).relay.accepted :=
    fun a ha => List.mem_append_left _ ha
  have hframes : (x.handle id limit handling).toClient =
      x.toClient ++ (handling.reaction limit).responses.map some :=
    congrArg (x.toClient ++ ·) (framesFor_absorb _ _ _)
  have harrived : ∀ message, some message ∈ (x.handle id limit handling).toClient →
      some message ∈ x.toClient ∨ message ∈ (handling.reaction limit).responses := by
    intro message hin
    rw [hframes] at hin
    refine (List.mem_append.1 hin).imp_right fun hin => ?_
    obtain ⟨m, hin, heq⟩ := List.mem_map.1 hin
    rwa [← Option.some.inj heq]
  have hquiet : ∀ subId, some (.eose subId) ∉ x.toClient := fun subId hin =>
    hnew (h.ended subId hin).requested
  have hlists : ∀ event, Lists limit (x.handle id limit handling) event →
      .event x.client.subId event ∈ (handling.reaction limit).responses := by
    rintro event ⟨-, g, hg, hreq, hin⟩
    rcases List.mem_append.1 hg with hg | hg
    · exact absurd ⟨g, hg, hreq⟩ hnew
    · rwa [List.mem_singleton.1 hg] at hin
  constructor
  · exact relay_handle h.relay hrepos hframed
  · exact fun hnot => absurd hrequested hnot
  · intro subId event hin
    rcases harrived _ hin with hin | hin
    · obtain ⟨tenantId, ha⟩ := h.events subId event hin
      exact ⟨tenantId, hold _ ha⟩
    · obtain ⟨record, hrecord, rfl⟩ := Handling.stored_of_req hm hin
      rw [hrepos] at hrecord
      exact ⟨record.tenantId, hold _ (h.relay.stored _ _ hrecord)⟩
  · intro subId hin
    obtain ⟨events, hr⟩ := Handling.responses_of_eose hm
      ((harrived _ hin).resolve_left (hquiet subId))
    refine ⟨handling, List.mem_append_right _ (List.mem_singleton.2 rfl), hm, ?_⟩
    show ServerMessage.eose x.client.subId ∈ (handling.reaction limit).responses
    rw [hr]
    exact List.mem_append_right _ List.mem_cons_self
  · intro hphase before after hsplit event hl
    have hin := hlists event hl
    have hmem : some (ServerMessage.eose x.client.subId) ∈
        (x.handle id limit handling).toClient := by
      rw [hsplit]
      exact List.mem_append_right _ List.mem_cons_self
    -- the end of the stored events was not in flight, so it is the last of the answer
    obtain ⟨events, hr⟩ := Handling.responses_of_eose hm
      ((harrived _ hmem).resolve_left (hquiet _))
    rw [hframes, hr, List.map_append, ← List.append_assoc] at hsplit
    have hbefore := before_of_append (by
      intro hmem
      rcases List.mem_append.1 hmem with hmem | hmem
      · exact hquiet _ hmem
      · simp at hmem) hsplit
    rw [hr] at hin
    rw [hbefore]
    rcases List.mem_append.1 hin with hin | hin
    · exact List.mem_append_right _ (List.mem_map_of_mem hin)
    · cases List.mem_singleton.1 hin
  · intro hphase
    obtain ⟨tenantId, ha⟩ := h.found hphase
    exact ⟨tenantId, hold _ ha⟩
  · exact fun hphase => absurd (h.missing hphase).1.requested hnew

/-- The session handles a frame. -/
theorem Found.handle (h : Found id limit x) (hinv : Inv limit x) {handling : Handling}
    {rest : List ClientMessage} (hconn : x.relay.conns id = some handling.conn)
    (hrepos : handling.repos = x.relay.repos) (hqueue : x.toRelay = handling.message :: rest) :
    Found id limit (x.handle id limit handling) := by
  have hnext : handling.message ∈ x.toRelay := by
    rw [hqueue]
    exact List.mem_cons_self
  have hmem := (hinv.sent.trans x.client.written_sublist).subset (List.mem_append_right _ hnext)
  simp only [List.mem_cons, List.not_mem_nil, or_false] at hmem
  rcases hmem with hm | hm | hm
  · have hnil : x.handled = [] := hinv.handled_eq_nil (by rw [hqueue, hm])
    have hnot : ¬ x.Requested := by
      rintro ⟨g, hg, -⟩
      rw [hnil] at hg
      cases hg
    obtain ⟨hregistry, hevents, heose⟩ :=
      @events_of_event limit x handling hm (h.silent hnot _ hconn)
    refine h.handle_other ?_ hrepos ?_ (fun _ => hregistry) hevents heose
    · rw [hm]
      exact fun heq => by cases heq
    · rw [hm]
      trivial
  · refine h.handle_req hm hrepos ?_ ?_
    · rw [hm]
      exact ⟨by simp, rfl⟩
    · rintro ⟨g, hg, hreq⟩
      exact hinv.not_handled hnext g hg (hreq.trans hm.symm)
  · have hframes : (∀ subId event, .event subId event ∉ (handling.reaction limit).responses) ∧
        (∀ subId, .eose subId ∉ (handling.reaction limit).responses) ∧
          (handling.conn.session.registry = ∅ →
            (handling.reaction limit).session.registry = ∅) := events_of_close hm
    refine h.handle_other ?_ hrepos ?_ (fun hnot => hframes.2.2 (h.silent hnot _ hconn))
      hframes.1 hframes.2.1
    · rw [hm]
      exact fun heq => by cases heq
    · rw [hm]
      trivial

/-! ### A step of the client -/

/-- A call that goes on with the frames it has not read yet. -/
theorem Found.of_phase (h : Found id limit x) {phase : RelayAdapter.Phase}
    {rest : List (Option ServerMessage)} (hrest : ∀ frame ∈ rest, frame ∈ x.toClient)
    (hordered : phase = .waitingEvent → ∀ before after,
      rest = before ++ some (.eose x.client.subId) :: after → ∀ event,
        x.Lists limit event → some (.event x.client.subId event) ∈ before)
    (hfound : phase = .sendingClose ∨ (x.client.probe = true ∧ phase = .finished (.ok ())) →
      x.Accepted x.client.event.id)
    (hmissing : phase = .finished (.error (.protocol "probe event not found")) →
      x.Ended limit ∧ ∀ event, ¬ x.Lists limit event) (toRelay : List ClientMessage) :
    Found id limit { x with client := { x.client with phase }, toRelay, toClient := rest } :=
  ⟨h.relay, h.silent, fun subId e hin => h.events subId e (hrest _ hin),
    fun subId hin => h.ended subId (hrest _ hin), hordered, hfound, hmissing⟩

/-- A call fails in transport. -/
theorem Found.transport (h : Found id limit x) (error : String) :
    Found id limit { x with
      client := { x.client with phase := .finished (.error (.transport error)) } } :=
  h.of_phase (fun _ hf => hf) (fun hp => (by cases hp)) (by simp) (fun hp => (by cases hp))
    x.toRelay

/-- As long as the request has not been sent, it has not been handled. -/
theorem Inv.not_requested (h : Inv limit x) (hreq : x.client.reqMessage ∉ x.client.written) :
    ¬ x.Requested := by
  rintro ⟨g, hg, hm⟩
  have hmem := h.sent.subset (List.mem_append_left _ (List.mem_map_of_mem hg))
  rw [hm] at hmem
  exact hreq hmem

theorem not_lists_of_not_requested (h : ¬ x.Requested) (event : NostrEvent) :
    ¬ x.Lists limit event :=
  fun ⟨_, g, hg, hm, _⟩ => h ⟨g, hg, hm⟩

/-- The client reads a frame. -/
theorem Found.read (h : Found id limit x) {frame : Option ServerMessage}
    {rest : List (Option ServerMessage)} (hqueue : x.toClient = frame :: rest) {c : Client}
    (hreads : x.client.Reads frame c) :
    Found id limit { x with client := c, toClient := rest } := by
  have hrest : ∀ f ∈ rest, f ∈ x.toClient := by
    intro f hf
    rw [hqueue]
    exact List.mem_cons_of_mem _ hf
  have hhead : frame ∈ x.toClient := by
    rw [hqueue]
    exact List.mem_cons_self
  cases hreads with
  | acknowledged text hphase hframe =>
    refine h.of_phase hrest ?_ ?_ ?_ x.toRelay
    · intro hp
      cases hprobe : x.client.probe <;> simp [hprobe] at hp
    · intro hp
      cases hprobe : x.client.probe <;> simp [hprobe] at hp
    · intro hp
      cases hprobe : x.client.probe <;> simp [hprobe] at hp
  | rejected text hphase hframe =>
    refine h.of_phase hrest (fun hp => (by cases hp))
      (by simp) ?_ x.toRelay
    intro hp
    simp only [RelayAdapter.Phase.finished.injEq, Except.error.injEq,
      RelayAdapter.Error.protocol.injEq] at hp
    have hchar := congrArg (fun t => t.toList.head?) hp
    simp [String.toList_append] at hchar
  | found event hphase hframe hid =>
    rw [hframe] at hhead
    have haccepted := h.events _ _ hhead
    rw [hid] at haccepted
    exact h.of_phase hrest (fun hp => (by cases hp))
      (fun _ => haccepted) (fun hp => (by cases hp)) x.toRelay
  | missing hphase hframe =>
    subst hframe
    refine h.of_phase hrest (fun hp => (by cases hp))
      (by simp) (fun _ => ⟨h.ended _ hhead, ?_⟩) x.toRelay
    -- the end of the stored events is at the head, so that none of them has the id
    intro event hl
    cases h.ordered hphase [] rest hqueue event hl
  | skipped hok hevent heose =>
    refine h.of_phase hrest ?_ h.found h.missing x.toRelay
    intro hphase before after hsplit event hl
    have hin := h.ordered hphase (frame :: before) after
      (by rw [hqueue, hsplit, List.cons_append]) event hl
    rcases List.mem_cons.1 hin with hin | hin
    · exact absurd hl.1 (hevent hphase event hin.symm)
    · exact hin

/-- Every step keeps what the frames say. -/
theorem Found.step (h : Found id limit x) (hinv : Inv limit x) (hmoves : Moves id limit x y) :
    Found id limit y := by
  cases hmoves with
  | connected tenant challenge env hphase hfree =>
    have hinitial : ∀ message, some message ∈
        framesFor id (x.relay.connect id tenant challenge env).2 →
          ∃ text, message = .auth text := by
      intro message hm
      unfold framesFor at hm
      split_ifs at hm
      · simp only [Relay.connect, Relay.initialMessages, List.append_nil, List.map_map,
          List.mem_map, Function.comp_apply, Option.some.injEq] at hm
        obtain ⟨auth, -, rfl⟩ := hm
        exact ⟨_, rfl⟩
      · cases hm
    have happend := h.append (x.relay.connect id tenant challenge env).1
      (framesFor id (x.relay.connect id tenant challenge env).2)
      (h.relay.congr rfl rfl rfl) (fun _ ha => ha) ?_
      (fun subId event hin => by obtain ⟨text, ht⟩ := hinitial _ hin; cases ht)
      (fun subId hin => by obtain ⟨text, ht⟩ := hinitial _ hin; cases ht)
    · exact happend.of_phase (fun _ hf => hf) (fun hp => (by cases hp)) (by simp)
        (fun hp => (by cases hp)) x.toRelay
    · intro _ conn hconn
      have hset : x.relay.setConn id (some ⟨tenant.tenantId,
          x.relay.newSession tenant challenge env, x.relay.channel.length⟩) id = some conn := hconn
      unfold Relay.setConn at hset
      rw [Function.update_self, Option.some.injEq] at hset
      rw [← hset]
      rfl
  | refused error hphase => exact h.transport error
  | wrote message hout =>
    have hevent := x.client.sent_event
    have hphases : x.client.phase = .sendingEvent ∨ x.client.phase = .sendingReq ∨
        x.client.phase = .sendingClose := by
      unfold Client.outgoing at hout
      split at hout
      · exact Or.inl ‹_›
      · exact Or.inr (Or.inl ‹_›)
      · exact Or.inr (Or.inr ‹_›)
      · cases hout
    rcases hphases with hphase | hphase | hphase
    · have hsent : x.client.sent = { x.client with phase := .waitingOk } := by
        unfold Client.sent
        rw [hphase]
      rw [hsent]
      exact h.of_phase (fun _ hf => hf)
        (fun hp => (by cases hp)) (by simp) (fun hp => (by cases hp)) _
    · have hsent : x.client.sent = { x.client with phase := .waitingEvent } := by
        unfold Client.sent
        rw [hphase]
      have hnot : ¬ x.Requested := hinv.not_requested (by
        unfold Client.written
        rw [hphase]
        simp [Client.eventMessage, Client.reqMessage])
      rw [hsent]
      exact h.of_phase (fun _ hf => hf)
        (fun _ _ _ _ event hl => absurd hl (not_lists_of_not_requested hnot event)) (by simp)
        (fun hp => (by cases hp)) _
    · have hsent : x.client.sent = { x.client with phase := .finished (.ok ()) } := by
        unfold Client.sent
        rw [hphase]
      rw [hsent]
      exact h.of_phase (fun _ hf => hf)
        (fun hp => (by cases hp)) (fun _ => h.found (Or.inl hphase)) (fun hp => (by cases hp)) _
  | failed message error hout =>
    by_cases hclose : x.client.phase = .sendingClose
    · have hclient : x.client.sendFailed error =
          { x.client with phase := .finished (.ok ()) } := by
        unfold Client.sendFailed
        rw [hclose]
      rw [hclient]
      exact h.of_phase (fun _ hf => hf)
        (fun hp => (by cases hp)) (fun _ => h.found (Or.inl hclose)) (fun hp => (by cases hp))
        x.toRelay
    · have hclient : x.client.sendFailed error =
          { x.client with phase := .finished (.error (.transport error)) } := by
        unfold Client.sendFailed
        split
        · exact absurd ‹_› hclose
        · rfl
      rw [hclient]
      exact h.transport error
  | delivered handling rest hconn hrepos hqueue => exact h.handle hinv hconn hrepos hqueue
  | other action r hforeign hstep =>
    obtain ⟨hevents, heose⟩ := @frames_of_foreign id _ _ _ h.relay hforeign hstep
    refine h.append _ _ (Relay.inv_of_step h.relay hstep) (Relay.accepted_of_step hstep) ?_ ?_ heose
    · intro hnot conn hconn
      obtain ⟨conn', hconn', hregistry⟩ := registry_of_foreign hforeign hstep hconn
      rw [← hregistry]
      exact h.silent hnot conn' hconn'
    · intro subId event hin
      obtain ⟨tenantId, ha⟩ := hevents subId event hin
      exact ⟨tenantId, Relay.accepted_of_step hstep _ ha⟩
  | control =>
    exact h.append x.relay _ h.relay (fun _ ha => ha) h.silent
      (fun subId event hin => (by cases List.mem_singleton.1 hin))
      (fun subId hin => (by cases List.mem_singleton.1 hin))
  | read frame rest hwaits hqueue => exact h.read hqueue (Client.reads_receive hwaits)
  | interrupted interruption hwaits =>
    obtain ⟨error, he⟩ := Client.receive_interrupted hwaits interruption
    rw [he]
    exact h.transport error

/-- What a finished probe says about the relay. -/
structure Truthful (limit : Option ℕ) (x : Dialogue) : Prop where
  honest : Honest limit x
  found : x.client.phase = .finished (.ok ()) → x.Accepted x.client.event.id
  missing : x.client.phase = .finished (.error (.protocol "probe event not found")) →
    x.Ended limit ∧ ∀ event, ¬ x.Lists limit event

/-- In every run, a probe that succeeds has been sent an event that the relay has accepted under
the id of its own, and one that misses its event has had its request answered without it, to the
last of the stored events. -/
theorem probe_truthful (h : Runs.Reach (step id limit) (fun _ _ => True) (Start id) x)
    (hprobe : x.client.probe = true) : Truthful limit x := by
  obtain ⟨hinv, hfound⟩ : Inv limit x ∧ Found id limit x :=
    h.invariant (I := fun y => Inv limit y ∧ Found id limit y)
      (fun _ hs => ⟨hs.inv, hs.found⟩) fun _ _ _ _ hi _ hs =>
        ⟨hi.1.step (moves_of_step hs), hi.2.step hi.1 (moves_of_step hs)⟩
  exact ⟨hinv.honest, fun hphase => hfound.found (Or.inr ⟨hprobe, hphase⟩), hfound.missing⟩

/-- The note is published, found and its subscription closed. -/
def probeNote : List Action :=
  publishNote ++ [.write, .deliver Relay.noteEnv, .read, .write]

theorem probe_truthful_note : ∃ x : Dialogue,
    Runs.Reach (step 0 none) (fun _ _ => True) (Start 0) x ∧ x.client.probe = true ∧
      x.client.phase = .finished (.ok ()) ∧ x.Accepted x.client.event.id := by
  have hrun : (Runs.exec (step 0 none) (noteCall true) probeNote).map
      (fun r => (r.1.client.probe, r.1.client.phase)) = some (true, .finished (.ok ())) := by
    decide +kernel
  obtain ⟨⟨x, outputs⟩, hexec, hfacts⟩ := Option.map_eq_some_iff.1 hrun
  obtain ⟨hprobe, hphase⟩ := Prod.mk.inj hfacts
  have hreach : Runs.Reach (step 0 none) (fun _ _ => True) (Start 0) x :=
    Runs.Reach.of_exec (.start (start_noteCall true)) (fun _ _ _ => trivial) hexec
  exact ⟨x, hreach, hprobe, hphase, (probe_truthful hreach hprobe).found hphase⟩

end Dialogue
end Gittree
