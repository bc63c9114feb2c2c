import Gittree.Relay.MemorySession

/-!
# Replayed membership events

Join and leave events are neither stored nor checked for their age or an earlier use.  A join spends
an invite, but nothing is spent by a leave: the same signed event takes the membership away again
after the member has re-joined.

* `Enrols`, `members_of_not_enrols`: the messages that can change the memberships;
* `members_membershipAnswer_iff`: when a join or leave event changes them;
* `effects_nodup`: an event takes effect once if it is not delivered again where it would apply, and
  no longer than that;
* `leave_takes_effect_twice`: a leave that is replayed.
-/

namespace Gittree

open Rust
open Rust.Json (Value)

namespace Session

/-! ### Messages that change the memberships -/

section Enrolment

variable {σ : Type} (s : Session) (store : EventStore σ) (env : Env) (repos : Repos σ)

/-- A message carries a join or leave event that passes the gates before `handle_membership_event`. -/
structure Enrols (msg : ClientMessage) (event : NostrEvent) : Prop where
  read : ∃ value, msg = .event value ∧ NostrEvent.fromValue value = some event
  limit : (s.rateLimitEvent env.instant).1 = false
  check : s.checkEvent env event = .ok ()
  kind : event.kind = nip43JoinKind ∨ event.kind = nip43LeaveKind

variable {s store env repos}

theorem Enrols.memberships_eq {msg : ClientMessage} {event : NostrEvent} (h : s.Enrols env msg event) :
    (s.handleMessage store env repos msg).repos.memberships =
      (s.membershipAnswer event env.now repos.memberships).2 := by
  obtain ⟨⟨value, rfl, hread⟩, hlimit, hcheck, hkind⟩ := h
  obtain ⟨hit, limiter, hhit⟩ := s.exists_rateLimitEvent env.instant
  show (s.handleEvent store env repos value).repos.memberships = _
  unfold handleEvent
  rw [hhit] at hlimit
  obtain rfl : hit = false := hlimit
  rw [hread, hhit]
  show (acceptEvent { s with rateLimiter := limiter } store env repos event).repos.memberships = _
  have hcheck' : checkEvent { s with rateLimiter := limiter } env event = .ok () := hcheck
  unfold acceptEvent handleMembershipEvent
  simp only [hcheck', if_pos hkind]
  rfl

theorem Enrols.unique {msg : ClientMessage} {event event' : NostrEvent} (h : s.Enrols env msg event)
    (h' : s.Enrols env msg event') : event = event' := by
  obtain ⟨value, rfl, hread⟩ := h.read
  obtain ⟨value', hmsg, hread'⟩ := h'.read
  cases hmsg
  exact Option.some.inj (hread.symm.trans hread')

/-- A message that carries no such event leaves the memberships as they are. -/
theorem members_of_not_enrols {msg : ClientMessage} (h : ∀ event, ¬ s.Enrols env msg event) :
    (s.handleMessage store env repos msg).repos.memberships.members = repos.memberships.members := by
  have heff := effect_handleMessage s store env repos msg
  generalize hr : s.handleMessage store env repos msg = r at heff
  cases heff with
  | membership limiter value event hmsg hread hcheck hkind =>
    subst hmsg
    -- the event passes the other gates, so the rate limit stops it
    have hlimit : (s.rateLimitEvent env.instant).1 = true := by
      by_contra hfalse
      exact h event ⟨⟨value, rfl, hread⟩, Bool.eq_false_iff.2 hfalse, hcheck, hkind⟩
    have hlimited : s.handleMessage store env repos (.event value) = _ :=
      handleEvent_of_limited s store env repos hread hlimit
    rw [← hr, hlimited]
  | opened limiter id filters parsed events m hmsg hcheck => exact members_of_checkReq hcheck
  | stored limiter value event hmsg hread hcheck hother hwrite =>
    rw [(storeEvent_frame _ store env repos event).2.1]
  | answered => rfl
  | closed => rfl
  | authenticated => rfl

end Enrolment

/-! ### When they change -/

/-- The event names a usable invite and its key is not an active member yet. -/
def Joins (event : NostrEvent) (tenantId : String) (pubkey : List UInt8) (now : ℤ) (m : Memberships) :
    Prop :=
  ∃ code invite, findTagValue event.tags "claim" = some code ∧
    m.inviteByCode tenantId code = some invite ∧ (∀ t ∈ invite.expiresAt, now ≤ t) ∧
    (∀ invitee ∈ invite.inviteePubkey, invitee = pubkey) ∧
    ∀ record ∈ m.membershipByPubkey tenantId pubkey, record.status ≠ "active"

/-- The key of the event is an active member. -/
def Leaves (tenantId : String) (pubkey : List UInt8) (m : Memberships) : Prop :=
  ∃ record, m.membershipByPubkey tenantId pubkey = some record ∧ record.status = "active"

/-- A join or leave event applies to the memberships as they are. -/
def Applies (s : Session) (event : NostrEvent) (now : ℤ) (m : Memberships) : Prop :=
  s.membership = true ∧ hasTag event.tags "-" = true ∧ ∃ tenantId pubkey,
    s.tenantId = some tenantId ∧ Hex.decode event.pubkey = some pubkey ∧
    if event.kind = nip43JoinKind then Joins event tenantId pubkey now m
    else Leaves tenantId pubkey m

/-- A membership that is written with another status is a change. -/
theorem members_upsert_ne {m : Memberships} {record : RelayMembershipRecord}
    (h : ∀ old ∈ m.membershipByPubkey record.tenantId record.pubkey, old.status ≠ record.status) :
    (m.upsertMembership record).members ≠ m.members := by
  intro heq
  have hget : m.membershipByPubkey record.tenantId record.pubkey = some record := by
    unfold Memberships.membershipByPubkey
    rw [← heq]
    exact (m.membershipByPubkey_upsert record _ _).trans (if_pos ⟨rfl, rfl⟩)
  exact h record hget rfl

theorem members_handleJoin_iff {event : NostrEvent} {tenantId : String} {pubkey : List UInt8}
    {now : ℤ} {code : String} {m : Memberships} (hcode : findTagValue event.tags "claim" = some code) :
    (handleJoin event tenantId pubkey now code m).2.members ≠ m.members ↔
      Joins event tenantId pubkey now m := by
  have hinvite : ∀ invite, checkInvite event pubkey now (m.inviteByCode tenantId code) = .ok invite ↔
      m.inviteByCode tenantId code = some invite ∧ (∀ t ∈ invite.expiresAt, now ≤ t) ∧
        ∀ invitee ∈ invite.inviteePubkey, invitee = pubkey := by
    intro invite
    unfold checkInvite
    simp only [Result.bind_eq_ok, Result.okOr_eq_ok, Result.ensure_eq_ok, Result.pure_eq_ok,
      exists_const]
    constructor
    · rintro ⟨_, hfound, hexpires, hinvitee, rfl⟩
      exact ⟨hfound, hexpires, hinvitee⟩
    · rintro ⟨hfound, hexpires, hinvitee⟩
      exact ⟨invite, hfound, hexpires, hinvitee, rfl⟩
  unfold handleJoin
  cases hcheck : checkInvite event pubkey now (m.inviteByCode tenantId code) with
  | error message =>
    refine iff_of_false (fun h => h rfl) ?_
    rintro ⟨code', invite, hcode', hfound, hexpires, hinvitee, -⟩
    obtain rfl : code = code' := Option.some.inj (hcode.symm.trans hcode')
    rw [(hinvite invite).2 ⟨hfound, hexpires, hinvitee⟩] at hcheck
    cases hcheck
  | ok invite =>
    obtain ⟨hfound, hexpires, hinvitee⟩ := (hinvite invite).1 hcheck
    simp only [joinRecord, Result.ensure]
    by_cases hactive : ∀ record ∈ m.membershipByPubkey tenantId pubkey, record.status ≠ "active"
    · simp only [if_pos hactive]
      refine iff_of_true (members_upsert_ne hactive)
        ⟨code, invite, hcode, hfound, hexpires, hinvitee, hactive⟩
    · simp only [if_neg hactive]
      refine iff_of_false (fun h => h rfl) ?_
      rintro ⟨-, -, -, -, -, -, h⟩
      exact hactive h

theorem members_handleLeave_iff {event : NostrEvent} {tenantId : String} {pubkey : List UInt8}
    {now : ℤ} {m : Memberships} :
    (handleLeave event tenantId pubkey now m).2.members ≠ m.members ↔ Leaves tenantId pubkey m := by
  unfold handleLeave Leaves
  cases hm : m.membershipByPubkey tenantId pubkey with
  | none => simp
  | some record =>
    by_cases ha : record.status = "active"
    · obtain ⟨ht, hp⟩ := Memberships.of_membershipByPubkey hm
      simp only [ha, ne_eq, not_true, if_false]
      refine iff_of_true (members_upsert_ne ?_) ⟨record, rfl, ha⟩
      intro old hold
      simp only at hold
      rw [ht, hp, hm] at hold
      cases hold
      rw [ha]
      show "active" ≠ "left"
      decide
    · simp [ha]

/-- A join or leave event changes the memberships if and only if it applies. -/
theorem members_membershipAnswer_iff {s : Session} {event : NostrEvent} {now : ℤ} {m : Memberships} :
    (s.membershipAnswer event now m).2.members ≠ m.members ↔ s.Applies event now m := by
  have hsame : ¬ m.members ≠ m.members := fun h => h rfl
  unfold membershipAnswer Applies
  by_cases hm : s.membership = false
  · rw [if_pos hm]
    exact iff_of_false hsame fun h => by simp [hm] at h
  rw [if_neg hm]
  cases ht : s.tenantId with
  | none =>
    refine iff_of_false hsame ?_
    rintro ⟨-, -, _, _, ⟨⟩, -⟩
  | some tenantId =>
    by_cases htag : hasTag event.tags "-" = false
    · simp only [if_pos htag]
      exact iff_of_false hsame fun h => by simp [htag] at h
    simp only [if_neg htag]
    cases hp : Hex.decode event.pubkey with
    | none =>
      refine iff_of_false hsame ?_
      rintro ⟨-, -, _, _, -, ⟨⟩, -⟩
    | some pubkey =>
      have happlies : (s.membership = true ∧ hasTag event.tags "-" = true ∧ ∃ t p,
          some tenantId = some t ∧ some pubkey = some p ∧
          if event.kind = nip43JoinKind then Joins event t p now m else Leaves t p m) ↔
            if event.kind = nip43JoinKind then Joins event tenantId pubkey now m
            else Leaves tenantId pubkey m := by
        rw [Bool.not_eq_false] at hm htag
        simp [hm, htag]
      rw [happlies]
      by_cases hk : event.kind = nip43JoinKind
      · simp only [if_pos hk]
        cases hc : findTagValue event.tags "claim" with
        | none =>
          refine iff_of_false hsame ?_
          rintro ⟨_, _, hc', -⟩
          rw [hc] at hc'
          cases hc'
        | some code => exact members_handleJoin_iff hc
      · simp only [if_neg hk]
        exact members_handleLeave_iff

end Session

/-! ### Runs -/

/-- The memberships, and the ids of the join and leave events that have changed them. -/
structure Roll where
  memberships : Memberships
  effects : List String

/-- What happens next to the memberships of a tenant. -/
inductive RollAction (σ : Type)
  /-- A session handles a message, over the store as it is then. -/
  | message (s : Session) (msg : ClientMessage) (env : Env) (state : σ)
  /-- `seed_owner_membership` for a new connection. -/
  | seed (relayPubkey : List UInt8) (now : ℤ)

namespace Roll

variable {σ : Type} (store : EventStore σ) (tenantId : String)

/-- The event of a message. -/
def eventOf : ClientMessage → Option NostrEvent
  | .event value => NostrEvent.fromValue value
  | _ => none

/-- The roll after a message; the id of its event is noted if the memberships have changed. -/
def absorb (roll : Roll) (msg : ClientMessage) (m : Memberships) : Roll where
  memberships := m
  effects := roll.effects ++
    if m.members = roll.memberships.members then [] else (eventOf msg).toList.map NostrEvent.id

/-- One step; only sessions of the tenant take part. -/
def step (roll : Roll) : RollAction σ → Option (Roll × List ServerMessage)
  | .message s msg env state =>
    if s.tenantId = some tenantId then
      let r := s.handleMessage store env ⟨state, roll.memberships⟩ msg
      some (roll.absorb msg r.repos.memberships, r.responses)
    else none
  | .seed relayPubkey now =>
    some ({ roll with
      memberships := seedOwnerMembership roll.memberships tenantId relayPubkey now }, [])

/-- The steps in which no event that has taken effect is delivered where it would apply again. -/
def Unspent (roll : Roll) : RollAction σ → Prop
  | .message s msg env _ => ∀ event, s.Enrols env msg event → event.id ∈ roll.effects →
      ¬ s.Applies event env.now roll.memberships
  | .seed _ _ => True

/-- The steps in which an event has an effect. -/
theorem effects_step {roll roll' : Roll} {s : Session} {msg : ClientMessage} {env : Env} {state : σ}
    {o : List ServerMessage}
    (hstep : step store tenantId roll (.message s msg env state) = some (roll', o)) :
    (∃ event, s.Enrols env msg event ∧ s.Applies event env.now roll.memberships ∧
      roll'.effects = roll.effects ++ [event.id]) ∨
      (∀ event, s.Enrols env msg event → ¬ s.Applies event env.now roll.memberships) ∧
        roll'.effects = roll.effects ∧ roll'.memberships.members = roll.memberships.members := by
  simp only [step] at hstep
  split_ifs at hstep
  cases hstep
  by_cases hevent : ∃ event, s.Enrols env msg event
  · obtain ⟨event, hevent⟩ := hevent
    have hm : (s.handleMessage store env ⟨state, roll.memberships⟩ msg).repos.memberships =
        (s.membershipAnswer event env.now roll.memberships).2 := hevent.memberships_eq
    have heventOf : eventOf msg = some event := by
      obtain ⟨value, rfl, hread⟩ := hevent.read
      exact hread
    by_cases happlies : s.Applies event env.now roll.memberships
    · refine Or.inl ⟨event, hevent, happlies, ?_⟩
      have hne := Session.members_membershipAnswer_iff.2 happlies
      simp only [absorb, hm, if_neg hne, heventOf]
      rfl
    · have hsame := not_not.1 (mt Session.members_membershipAnswer_iff.1 happlies)
      refine Or.inr ⟨fun event' h' => hevent.unique h' ▸ happlies, ?_, ?_⟩
      · simp only [absorb, hm, if_pos hsame, List.append_nil]
      · simp only [absorb, hm]
        exact hsame
  · have hnone := not_exists.1 hevent
    have hsame : (s.handleMessage store env ⟨state, roll.memberships⟩ msg).repos.memberships.members =
        roll.memberships.members := Session.members_of_not_enrols hnone
    refine Or.inr ⟨fun event h => absurd h (hnone event), ?_, hsame⟩
    simp only [absorb, if_pos hsame, List.append_nil]

/-- In every run in which no event that has taken effect is delivered where it would apply again,
every event takes effect once, and one that is delivered again changes nothing; the next step keeps
this if and only if it delivers no such event. -/
theorem effects_nodup {roll : Roll}
    (hreach : Runs.Reach (step store tenantId) Unspent (fun roll => roll.effects = []) roll) :
    roll.effects.Nodup ∧ ∀ action roll' o, step store tenantId roll action = some (roll', o) →
      (roll'.effects.Nodup ↔ Unspent roll action) ∧
      ∀ s msg env state event, action = .message s msg env state → Unspent roll action →
        s.Enrols env msg event → event.id ∈ roll.effects →
          roll'.memberships.members = roll.memberships.members := by
  have hiff : ∀ (roll : Roll), roll.effects.Nodup → ∀ action roll' o,
      step store tenantId roll action = some (roll', o) →
        (roll'.effects.Nodup ↔ Unspent roll action) := by
    intro roll hnodup action roll' o hstep
    cases action with
    | seed relayPubkey now =>
      cases hstep
      exact iff_of_true hnodup trivial
    | message s msg env state =>
      rcases effects_step store tenantId hstep with ⟨event, hevent, happlies, heffects⟩ |
        ⟨hnone, heffects, -⟩
      · rw [heffects, List.nodup_append]
        constructor
        · rintro ⟨-, -, hdisjoint⟩ event' hevent' hmem
          rw [← hevent.unique hevent'] at hmem
          exact absurd rfl (hdisjoint _ hmem _ (List.mem_singleton.2 rfl))
        · intro hok
          refine ⟨hnodup, List.nodup_singleton _, ?_⟩
          rintro id hid _ hid' rfl
          rw [List.mem_singleton.1 hid'] at hid
          exact hok event hevent hid happlies
      · rw [heffects]
        exact iff_of_true hnodup fun event hevent _ => hnone event hevent
  have hnodup : roll.effects.Nodup := by
    refine hreach.invariant (I := fun roll => roll.effects.Nodup) ?_ ?_
    · intro roll h
      rw [h]
      exact List.nodup_nil
    · intro roll action roll' o h hok hstep
      exact (hiff roll h action roll' o hstep).2 hok
  refine ⟨hnodup, fun action roll' o hstep => ⟨hiff roll hnodup action roll' o hstep, ?_⟩⟩
  rintro s msg env state event rfl hok hevent hspent
  rcases effects_step store tenantId hstep with ⟨event', hevent', happlies, -⟩ | ⟨-, -, hsame⟩
  · rw [hevent.unique hevent'] at hspent
    exact absurd happlies (hok event' hevent' hspent)
  · exact hsame

/-! ### Two runs -/

/-- A signed request to leave. -/
def leaveEvent : NostrEvent where
  id := "cf628b41a1254e096b0e1fc36f27d72b87334f38193add4ac06c6ccc8b62cb19"
  pubkey := "f9308a019258c31049344f85f89d5229b531c845836f99b08601f113bce036f9"
  createdAt := 5
  kind := 28936
  tags := [["-"]]
  content := ""
  sig := "2e7880895ba5110bbbda8fa9edf4f6312882667d083a197844333268462afc09" ++
    "43d03483a052b2ee14978d81aba5c8c24faa868cc0a371c8393e53da6ae06bf7"

/-- A signed request to join with an invite. -/
def joinEvent : NostrEvent where
  id := "72fd5da6074e3881c554c98abe2eddc80aa88e069ed35edee3a80ada0a59061b"
  pubkey := "f9308a019258c31049344f85f89d5229b531c845836f99b08601f113bce036f9"
  createdAt := 6
  kind := 28934
  tags := [["-"], ["claim", "c0de"]]
  content := ""
  sig := "bad6006a627f0272269f4562d180b794246ff5a783d8a87de51860313e771f53" ++
    "e0457baa0e00ca4ac1708c1426693e689708f915bab5a80ae65220537f648cb4"

/-- The key of the two events. -/
def memberKey : List UInt8 := (Hex.decode leaveEvent.pubkey).getD []

/-- A tenant with one member and one open invite. -/
def oneMember : Roll where
  memberships := ((∅ : Memberships).upsertMembership
    ⟨"alpha", memberKey, "member", "active", 1, 1⟩).insertInvite
      ⟨"alpha", "c0de", "member", [], none, none, 1⟩
  effects := []

/-- A session of the tenant is sent an event. -/
def deliver (event : NostrEvent) : RollAction MemoryStore :=
  .message { membership := true, tenantId := some "alpha" } (.event event.toValue)
    { Relay.noteEnv with crypto := NostrEvent.signedBy [leaveEvent, joinEvent] } MemoryStore.new

/-- A delivery of an event that has had no effect yet. -/
theorem unspent_deliver {roll : Roll} {event : NostrEvent}
    (hread : NostrEvent.fromValue event.toValue = some event) (h : event.id ∉ roll.effects) :
    Unspent roll (deliver event) := by
  intro event' hevent hspent
  obtain ⟨value, ⟨⟩, hread'⟩ := hevent.read
  obtain rfl : event = event' := Option.some.inj (hread.symm.trans hread')
  exact absurd hspent h

theorem effects_nodup_leave :
    ∃ roll, Runs.Reach (step MemoryStore.eventStore "alpha") Unspent (fun roll => roll.effects = [])
        roll ∧ roll.effects = [leaveEvent.id, joinEvent.id] ∧ roll.effects.Nodup ∧
      ∀ action roll' o, step MemoryStore.eventStore "alpha" roll action = some (roll', o) →
        (roll'.effects.Nodup ↔ Unspent roll action) ∧
        ∀ s msg env state event, action = .message s msg env state → Unspent roll action →
          s.Enrols env msg event → event.id ∈ roll.effects →
            roll'.memberships.members = roll.memberships.members := by
  have hfirst : (step MemoryStore.eventStore "alpha" oneMember (deliver leaveEvent)).map
      (fun r => (r.1.effects, (step MemoryStore.eventStore "alpha" r.1 (deliver joinEvent)).map
        fun q => q.1.effects)) =
      some ([leaveEvent.id], some [leaveEvent.id, joinEvent.id]) := by decide +kernel
  obtain ⟨⟨left, o⟩, hleave, hfacts⟩ := Option.map_eq_some_iff.1 hfirst
  obtain ⟨heffects, hsecond⟩ := Prod.mk.inj hfacts
  obtain ⟨⟨joined, o'⟩, hjoin, heffects'⟩ := Option.map_eq_some_iff.1 hsecond
  have hreach : Runs.Reach (step MemoryStore.eventStore "alpha") Unspent
      (fun roll => roll.effects = []) left :=
    .step (.start rfl) (unspent_deliver (by decide +kernel) (by simp [oneMember])) hleave
  have hreach' := Runs.Reach.step hreach
    (unspent_deliver (by decide +kernel) (by rw [heffects]; decide)) hjoin
  exact ⟨joined, hreach', heffects', effects_nodup _ _ hreach'⟩

/-- A member leaves, joins again with an invite, and is made to leave by the first event. -/
theorem leave_takes_effect_twice :
    ¬ ∀ roll, Runs.Reach (step MemoryStore.eventStore "alpha") (fun _ _ => True)
      (fun roll => roll.effects = []) roll → roll.effects.Nodup := by
  intro h
  have hrun : (Runs.exec (step MemoryStore.eventStore "alpha") oneMember
      [deliver leaveEvent, deliver joinEvent, deliver leaveEvent]).map (fun r => r.1.effects) =
        some [leaveEvent.id, joinEvent.id, leaveEvent.id] := by decide +kernel
  obtain ⟨⟨roll, o⟩, hexec, heffects⟩ := Option.map_eq_some_iff.1 hrun
  have hnodup := h roll (.of_exec (.start rfl) (fun _ _ _ => trivial) hexec)
  rw [show roll.effects = _ from heffects] at hnodup
  simp at hnodup

end Roll
end Gittree
