import Gittree.Relay.Handlers

/-!
# Answers to events

How a session answers the messages of a client: an `EVENT` is answered by one message, and that
message says what has become of the event.

* `Answer`, `answer_handleEvent`: an `OK` that accepts an event stands for a call of `store.insert`
  that succeeded, or for a join or leave; a refusal or a notice, for nothing at all;
* `noOk_handleReq`: the answers to a request are no answers to an event.
-/

namespace Gittree

open Rust
open Rust.Json (Value)

namespace Session

/-- A notice, or a refusal of the event. -/
def Refusal (event : NostrEvent) (message : ServerMessage) : Prop :=
  (∃ text, message = .notice text) ∨ ∃ text, message = refused event.id text

/-- What a session may do with an event. -/
inductive Answer {σ : Type} (s : Session) (env : Env) (event : NostrEvent) (repos : Repos σ) :
    Reaction σ → Prop
  /-- Nothing, and a notice or a refusal says so. -/
  | refused (limiter : Option RateLimiter) (message : ServerMessage) (h : Refusal event message) :
    Answer s env event repos
      { session := { s with rateLimiter := limiter }, repos, replies := [message] }
  /-- The store has taken the event or had it. -/
  | stored (limiter : Option RateLimiter) (outcome : StoreOutcome) (text : String) (r : Reaction σ)
    (hsession : r.session = { s with rateLimiter := limiter })
    (hinsertion : r.insertion = some (event, outcome))
    (hreplies : r.replies = [.ok event.id true text])
    (hdispatched : r.dispatched = s.dispatchEvent event) :
    Answer s env event repos r
  /-- The author joins or leaves, or is a member already. -/
  | member (limiter : Option RateLimiter) (text : String)
    (hkind : event.kind = nip43JoinKind ∨ event.kind = nip43LeaveKind)
    (hanswer : (s.membershipAnswer event env.now repos.memberships).1 = .ok event.id true text) :
    Answer s env event repos
      { session := { s with rateLimiter := limiter }
        repos := { repos with
          memberships := (s.membershipAnswer event env.now repos.memberships).2 }
        replies := [.ok event.id true text] }

variable {s : Session} {env : Env} {event : NostrEvent}

theorem Refusal.notice (text : String) : Refusal event (.notice text) := Or.inl ⟨text, rfl⟩

theorem Refusal.refused (text : String) : Refusal event (Gittree.refused event.id text) :=
  Or.inr ⟨text, rfl⟩

/-! ### Gates -/

theorem refusal_checkEvent : FailsWith (Refusal event) (s.checkEvent env event) :=
  failsWith_bind (failsWith_mapError fun _ => .refused _) fun _ =>
    failsWith_bind (failsWith_mapError fun _ => .refused _) fun _ => failsWith_ensure (.refused _)

theorem refusal_checkWriteAuth : FailsWith (Refusal event) (s.checkWriteAuth event) := by
  unfold checkWriteAuth
  split_ifs
  · exact failsWith_bind (failsWith_okOr (.refused _)) fun _ => failsWith_ensure (.refused _)
  · exact failsWith_ok ()

theorem refusal_checkRelated {σ : Type} (store : EventStore σ) (state : σ)
    (filters : List EventFilter) :
    FailsWith (Refusal event) (checkRelated store state event filters) := by
  induction filters with
  | nil => exact failsWith_ok ()
  | cons filter rest ih =>
    exact failsWith_bind (failsWith_mapError fun _ => .notice _) fun _ =>
      failsWith_bind (failsWith_ensure (.refused _)) fun _ => ih

theorem refusal_checkAdmission {σ : Type} (store : EventStore σ) (state : σ) :
    FailsWith (Refusal event) (s.checkAdmission store env state event) := by
  unfold checkAdmission
  split_ifs
  · split
    · exact failsWith_ok ()
    · intro message h
      cases h
      exact .refused _
    · exact refusal_checkRelated store state _
  · exact failsWith_ok ()

theorem refusal_checkWrite {σ : Type} (store : EventStore σ) (repos : Repos σ) :
    FailsWith (Refusal event) (s.checkWrite store env repos event) :=
  failsWith_bind refusal_checkWriteAuth fun _ =>
    failsWith_bind (failsWith_mapError fun _ => .refused _) fun _ =>
      refusal_checkAdmission store _

/-! ### Memberships -/

/-- What `handle_membership_event` answers: a refusal that changes nothing, or an `OK`. -/
def Settles (event : NostrEvent) (m : Memberships) (answer : ServerMessage × Memberships) : Prop :=
  (∃ text, answer = (Gittree.refused event.id text, m)) ∨ ∃ text, answer.1 = .ok event.id true text

theorem refuses_checkInvite (pubkey : List UInt8) (now : ℤ) (invite : Option RelayInviteRecord) :
    FailsWith (fun message => ∃ text, message = Gittree.refused event.id text)
      (checkInvite event pubkey now invite) :=
  failsWith_bind (failsWith_okOr ⟨_, rfl⟩) fun _ =>
    failsWith_bind (failsWith_ensure ⟨_, rfl⟩) fun _ =>
      failsWith_bind (failsWith_ensure ⟨_, rfl⟩) fun _ => failsWith_ok _

theorem settles_handleJoin (tenantId : String) (pubkey : List UInt8) (now : ℤ) (code : String)
    (m : Memberships) : Settles event m (handleJoin event tenantId pubkey now code m) := by
  have hjoined : ∀ invite existing,
      FailsWith (fun message => ∃ text, message = .ok event.id true text)
        (joinRecord event tenantId pubkey now invite existing) := fun invite existing =>
    failsWith_bind (failsWith_ensure ⟨_, rfl⟩) fun _ => failsWith_ok _
  unfold handleJoin
  split
  · rename_i message h
    obtain ⟨text, rfl⟩ := refuses_checkInvite pubkey now _ message h
    exact Or.inl ⟨text, rfl⟩
  · split
    · rename_i message h
      exact Or.inr (hjoined _ _ message h)
    · exact Or.inr ⟨_, rfl⟩

theorem settles_handleLeave (tenantId : String) (pubkey : List UInt8) (now : ℤ) (m : Memberships) :
    Settles event m (handleLeave event tenantId pubkey now m) := by
  unfold handleLeave
  split
  · exact Or.inl ⟨_, rfl⟩
  · split_ifs
    · exact Or.inl ⟨_, rfl⟩
    · exact Or.inr ⟨_, rfl⟩

theorem settles_membershipAnswer (now : ℤ) (m : Memberships) :
    Settles event m (s.membershipAnswer event now m) := by
  rcases s.membershipAnswer_cases event now m with
    ⟨text, h⟩ | ⟨tenantId, pubkey, code, -, -, -, -, h⟩ | ⟨tenantId, pubkey, -, -, -, h⟩
  · exact Or.inl ⟨text, h⟩
  · rw [h]
    exact settles_handleJoin tenantId pubkey now code m
  · rw [h]
    exact settles_handleLeave tenantId pubkey now m

/-! ### Messages -/

section

variable {σ : Type} (store : EventStore σ) (repos : Repos σ)

theorem answer_storeEvent (hatomic : store.Atomic) :
    Answer s env event repos (s.storeEvent store env repos event) := by
  unfold storeEvent
  split
  · rename_i err state h
    rw [hatomic _ _ _ _ h]
    exact .refused s.rateLimiter _ (.notice _)
  · exact .stored s.rateLimiter .inserted "saved" _ rfl rfl rfl rfl
  · exact .stored s.rateLimiter .duplicate "duplicate" _ rfl rfl rfl rfl

theorem answer_acceptEvent (hatomic : store.Atomic) :
    Answer s env event repos (s.acceptEvent store env repos event) := by
  unfold acceptEvent
  cases hcheck : s.checkEvent env event with
  | error message => exact .refused s.rateLimiter message (refusal_checkEvent message hcheck)
  | ok u =>
    simp only
    unfold handleMembershipEvent
    split_ifs with hkind
    · rcases @settles_membershipAnswer s event env.now repos.memberships with
        ⟨text, h⟩ | ⟨text, h⟩
      · rw [h]
        exact .refused s.rateLimiter _ (.refused text)
      · simp only [h]
        exact .member s.rateLimiter text hkind h
    · cases hwrite : s.checkWrite store env repos event with
      | error message =>
        exact .refused s.rateLimiter message (refusal_checkWrite store repos message hwrite)
      | ok u => exact answer_storeEvent store repos hatomic

/-- The rate limiter of a session does not matter for its answer. -/
theorem Answer.of_limiter {limiter : Option RateLimiter} {r : Reaction σ}
    (h : Answer { s with rateLimiter := limiter } env event repos r) :
    Answer s env event repos r := by
  cases h with
  | refused limiter' message h => exact .refused limiter' message h
  | stored limiter' outcome text r hsession hinsertion hreplies hdispatched =>
    exact .stored limiter' outcome text r hsession hinsertion hreplies hdispatched
  | member limiter' text hkind hanswer => exact .member limiter' text hkind hanswer

/-- An event that is read is answered by one message, which says what has become of it. -/
theorem answer_handleEvent (hatomic : store.Atomic) {value : Value}
    (hread : NostrEvent.fromValue value = some event) :
    Answer s env event repos (s.handleEvent store env repos value) := by
  unfold handleEvent
  rw [hread]
  obtain ⟨hit, limiter, hlimit⟩ := s.exists_rateLimitEvent env.instant
  rw [hlimit]
  cases hit with
  | true => exact .refused limiter _ (.notice _)
  | false => exact (answer_acceptEvent store repos hatomic).of_limiter

end

/-- No answer to an event. -/
def NoOk (message : ServerMessage) : Prop := ∀ id accepted text, message ≠ .ok id accepted text

theorem noOk_notice (text : String) : NoOk (.notice text) := fun _ _ _ h => by cases h

theorem noOk_closed (id text : String) : NoOk (.closed id text) := fun _ _ _ h => by cases h

section

variable {σ : Type} (store : EventStore σ) (repos : Repos σ) (id : String) (filters : List Value)

/-- A request that is refused is refused by a notice or by closing the subscription. -/
theorem failsWith_checkReq_of {P : ServerMessage → Prop} (hnotice : ∀ text, P (.notice text))
    (hclosed : ∀ text, P (.closed id text)) :
    FailsWith P (s.checkReq store env repos id filters) := by
  have hread : FailsWith P (s.checkRead repos.memberships id filters) :=
    failsWith_bind (failsWith_ensure (hclosed _)) fun _ =>
      failsWith_bind (failsWith_mapError fun _ => hclosed _) fun _ =>
        failsWith_bind (failsWith_mapError fun _ => hnotice _) fun _ =>
          failsWith_bind (failsWith_ensure (hnotice _)) fun _ => failsWith_ok _
  exact failsWith_bind hread fun _ => failsWith_bind (failsWith_ensure (hnotice _)) fun _ =>
    failsWith_bind (failsWith_mapError fun _ => hnotice _) fun _ =>
      failsWith_bind (failsWith_mapError fun _ => hclosed _) fun _ => failsWith_ok _

theorem noOk_handleReq :
    ∀ message ∈ (s.handleReq store env repos id filters).responses, NoOk message := by
  have hone : ∀ (session : Session) (reply : ServerMessage), NoOk reply →
      ∀ message ∈ ({ session, repos, replies := [reply] } : Reaction σ).responses,
        NoOk message := by
    intro session reply hreply message hm
    rwa [List.mem_singleton.1 hm]
  unfold handleReq
  obtain ⟨hit, limiter, hlimit⟩ := s.exists_rateLimitRequest env.instant
  rw [hlimit]
  cases hit with
  | true => exact hone _ _ (noOk_notice _)
  | false =>
    simp only
    unfold acceptReq
    cases hcheck : checkReq { s with rateLimiter := limiter } store env repos id filters with
    | error err =>
      exact hone _ _
        (failsWith_checkReq_of store repos id filters noOk_notice (noOk_closed id) err hcheck)
    | ok r =>
      intro message hm i accepted text heq
      subst heq
      rcases List.mem_append.1 hm with hm | hm
      · rcases List.mem_append.1 hm with hm | hm
        · obtain ⟨event, -, he⟩ := List.mem_map.1 hm
          cases he
        · cases List.mem_singleton.1 hm
      · cases hm

end

theorem noOk_dispatchEvent (s : Session) (event : NostrEvent) :
    ∀ message ∈ s.dispatchEvent event, NoOk message := by
  unfold dispatchEvent
  intro message hm i accepted text heq
  subst heq
  split at hm
  · cases List.mem_singleton.1 hm
  · obtain ⟨entry, -, he⟩ := List.mem_map.1 hm
    cases he

end Session
end Gittree
