import Gittree.Core.Admission
import Gittree.Relay.Protocol
import Gittree.Storage.Memberships

/-!
# Sessions of the relay

`services/relay/src/session.rs` with `policy.rs` and `subscription.rs`: one client's session, and
what it does with each client message and with each event that another session broadcasts.  The
session is generic in its event store.  What a message needs from outside, the clocks, a fresh
invite code, the answer of the admission service and the cryptography, comes with it as an `Env`.

A handler answers with a `Reaction`: the new session and repositories, the replies, the events
dispatched to the session's own subscriptions, the call of `store.insert` if there was one, and the
event sent to the other sessions.
-/

namespace Gittree

open Rust
open Rust.Json (Value)

def authKind : ℕ := 22242
def nip43MembershipKind : ℕ := 13534
def nip43JoinKind : ℕ := 28934
def nip43InviteKind : ℕ := 28935
def nip43LeaveKind : ℕ := 28936
def authRequiredReason : String := "auth-required"
def authPubkeyMismatchReason : String := "auth-pubkey-mismatch"
def authMaxSkewSecs : ℤ := 600
def inviteTtlSecs : ℤ := 86400

/-- `i64::MAX`. -/
def i64Max : ℤ := 2 ^ 63 - 1

/-- `i64::MIN`. -/
def i64Min : ℤ := -2 ^ 63

/-- The value of an `i64` operation that wraps around, as a release build does. -/
def wrapI64 (n : ℤ) : ℤ := (n + 2 ^ 63) % 2 ^ 64 - 2 ^ 63

/-! ### Policy -/

/-- `Policy`. -/
structure Policy where
  maxContentLen : ℕ := 8192
  maxTags : ℕ := 128
  maxTagValues : ℕ := 16
  maxTagValueLen : ℕ := 512
  maxFutureSeconds : ℤ := 60
  maxSubscriptions : Option ℕ := none
  maxLimit : Option ℕ := none
  maxEventsPerMin : Option ℕ := none
  maxRequestsPerMin : Option ℕ := none
  retentionMaxAgeSeconds : Option ℤ := none

/-- `PolicyError`. -/
inductive PolicyError
  | contentTooLong
  | tooManyTags
  | tooManyTagValues
  | tagValueTooLong
  | eventInFuture
  deriving DecidableEq, Repr

def PolicyError.display : PolicyError → String
  | .contentTooLong => "content too long"
  | .tooManyTags => "too many tags"
  | .tooManyTagValues => "too many tag values"
  | .tagValueTooLong => "tag value too long"
  | .eventInFuture => "event timestamp too far in future"

namespace Policy

/-- The loop of `validate_event` over the tags. -/
def checkTags (policy : Policy) : List (List String) → Except PolicyError Unit
  | [] => .ok ()
  | tag :: rest => do
    Result.ensure (tag.length - 1 ≤ policy.maxTagValues) .tooManyTagValues
    Result.ensure (∀ value ∈ tag.drop 1, Str.len value ≤ policy.maxTagValueLen) .tagValueTooLong
    checkTags policy rest

/-- `validate_event`. -/
def validateEvent (policy : Policy) (event : NostrEvent) (now : ℤ) : Except PolicyError Unit := do
  Result.ensure (Str.len event.content ≤ policy.maxContentLen) .contentTooLong
  Result.ensure (event.tags.length ≤ policy.maxTags) .tooManyTags
  policy.checkTags event.tags
  Result.ensure (event.createdAt ≤ wrapI64 (now + policy.maxFutureSeconds)) .eventInFuture

end Policy

/-! ### Rate limiter -/

/-- `RateLimitCounter`; instants are in nanoseconds. -/
structure RateLimitCounter where
  count : ℕ
  windowStart : ℕ

/-- `hit_limit`. -/
def RateLimitCounter.hitLimit (counter : RateLimitCounter) (limit : Option ℕ) (window now : ℕ) :
    Bool × RateLimitCounter :=
  match limit with
  | none => (false, counter)
  | some limit =>
    if limit = 0 then (false, counter)
    else
      let counter := if window ≤ now - counter.windowStart then ⟨0, now⟩ else counter
      if limit ≤ counter.count then (true, counter)
      else (false, { counter with count := counter.count + 1 })

/-- `RateLimiter`, with its configuration. -/
structure RateLimiter where
  maxEventsPerMin : Option ℕ
  maxRequestsPerMin : Option ℕ
  window : ℕ
  events : RateLimitCounter
  requests : RateLimitCounter

namespace RateLimiter

/-- `RateLimitConfig::from_policy` and `RateLimiter::new`. -/
def fromPolicy (policy : Policy) (now : ℕ) : Option RateLimiter :=
  if policy.maxEventsPerMin = none ∧ policy.maxRequestsPerMin = none then none
  else some {
    maxEventsPerMin := policy.maxEventsPerMin
    maxRequestsPerMin := policy.maxRequestsPerMin
    window := 60 * 10 ^ 9
    events := ⟨0, now⟩
    requests := ⟨0, now⟩ }

/-- `check_event`. -/
def checkEvent (limiter : RateLimiter) (now : ℕ) : Bool × RateLimiter :=
  let hit := limiter.events.hitLimit limiter.maxEventsPerMin limiter.window now
  (hit.1, { limiter with events := hit.2 })

/-- `check_request`. -/
def checkRequest (limiter : RateLimiter) (now : ℕ) : Bool × RateLimiter :=
  let hit := limiter.requests.hitLimit limiter.maxRequestsPerMin limiter.window now
  (hit.1, { limiter with requests := hit.2 })

end RateLimiter

/-! ### Session state -/

/-- `SubscriptionState`. -/
structure SubscriptionState where
  eoseSent : Bool
  filters : List Filter

/-- `SubscriptionRegistry`. -/
abbrev SubscriptionRegistry := Map SubscriptionState

/-- `mark_eose`. -/
def SubscriptionRegistry.markEose (registry : SubscriptionRegistry) (id : String) :
    SubscriptionRegistry :=
  match registry[id]? with
  | none => registry
  | some state => registry.insert id { state with eoseSent := true }

/-- `AuthState`. -/
structure AuthState where
  challenge : String
  authenticatedPubkey : Option String

/-- `TenantSigner`. -/
structure TenantSigner where
  pubkey : String
  secretKey : List UInt8

/-- `TenantSigner::new`. -/
def TenantSigner.new (crypto : Crypto) (relayPubkey relaySecret : List UInt8) :
    Option TenantSigner :=
  if relayPubkey.length = 32 ∧ crypto.isSecretKey relaySecret = true then
    some ⟨Hex.encode relayPubkey, relaySecret⟩
  else none

/-- `Session`, without its handles: the store and the membership repository are passed to the
handlers, `membership`, `admission` and `broadcast` say whether the session has one. -/
structure Session where
  registry : SubscriptionRegistry := ∅
  policy : Policy := {}
  admission : Bool := false
  broadcast : Bool := false
  auth : Option AuthState := none
  tenantId : Option String := none
  membership : Bool := false
  tenantSigner : Option TenantSigner := none
  relayUrl : Option String := none
  readAuthRequired : Bool := false
  writeAuthRequired : Bool := false
  readMembershipRequired : Bool := false
  writeMembershipRequired : Bool := false
  rateLimiter : Option RateLimiter := none

/-- `EventStore`, state passing.  An insertion that fails may have changed the store.  `size` bounds
the rounds of the retention loop. -/
structure EventStore (σ : Type) where
  insert : σ → NostrEvent → Except StoreError StoreOutcome × σ
  get : σ → String → Except StoreError (Option NostrEvent)
  delete : σ → String → Except StoreError (Bool × σ)
  query : σ → List Filter → Except StoreError (List NostrEvent)
  size : σ → ℕ

/-- An insertion that fails changes nothing. -/
def EventStore.Atomic {σ : Type} (store : EventStore σ) : Prop :=
  ∀ state event err state', store.insert state event = (.error err, state') → state' = state

/-- The repositories behind a session: its store and the shared membership tables. -/
structure Repos (σ : Type) where
  store : σ
  memberships : Memberships

/-- `RelayEvent` of the admission client: what the admission service is asked about. -/
structure Admission.RelayEvent where
  kind : ℕ
  pubkey : String
  eventId : String
  tags : List (List String)
  relayUrl : Option String

/-- What a message needs from outside. -/
structure Env where
  crypto : Crypto
  now : ℤ
  instant : ℕ
  inviteCode : String
  decide : Admission.RelayEvent → AdmissionDecision

/-- What a session does with one message. -/
structure Reaction (σ : Type) where
  session : Session
  repos : Repos σ
  replies : List ServerMessage := []
  dispatched : List ServerMessage := []
  insertion : Option (NostrEvent × StoreOutcome) := none
  published : Option NostrEvent := none

/-- The messages sent to the client. -/
def Reaction.responses {σ : Type} (r : Reaction σ) : List ServerMessage := r.replies ++ r.dispatched

/-! ### Tags and hosts -/

/-- `find_tag_value`: the value of the first tag with the name, if that tag has one. -/
def findTagValue (tags : List (List String)) (name : String) : Option String :=
  (tags.find? fun tag => tag.head? == some name).bind fun tag => tag[1]?

/-- `has_tag`. -/
def hasTag (tags : List (List String)) (name : String) : Bool :=
  tags.any fun tag => tag.head? == some name

/-- `relay_host_from_url`. -/
def relayHostFromUrl (value : String) : Option String :=
  let value := Str.trim value
  if value = "" then none
  else
    let withoutScheme := ((Str.stripPrefix value "ws://").or ((Str.stripPrefix value "wss://").or
      ((Str.stripPrefix value "http://").or (Str.stripPrefix value "https://")))).getD value
    let host := (Str.split withoutScheme '/').headD ""
    if host = "" then none
    else
      let host := Str.trimEndMatches host '.'
      match (Str.stripPrefix host "[").bind fun inner =>
          Str.splitAtFirst "]".toList (Str.chars inner) with
      | some (inner, _) => some (Str.toAsciiLowercase (String.ofList inner))
      | none => some (Str.toAsciiLowercase ((Str.split host ':').headD host))

/-- `filters_request_kind`. -/
def filtersRequestKind (filters : List Filter) (kind : ℕ) : Bool :=
  filters.any fun filter => filter.kinds.contains kind

/-- `event_matches_filters`. -/
def eventMatchesFilters (event : NostrEvent) (filters : List Filter) : Bool :=
  filters.isEmpty ||
    match TagIndex.fromTags event.tags with
    | .error _ => false
    | .ok tags => filters.any fun filter => filter.matches event tags

/-- `filter_from_event_filter`. -/
def filterFromEventFilter (filter : EventFilter) : Filter where
  ids := filter.ids
  kinds := filter.kinds
  authors := filter.authors
  tags := filter.tags
  limit := filter.limit

/-- `sign_event`. -/
def signEvent (crypto : Crypto) (signer : TenantSigner) (event : NostrEvent) : NostrEvent :=
  { event with
    id := event.computeId crypto
    sig := Hex.encode (crypto.signSchnorr signer.secretKey (crypto.sha256 event.canonicalJson)) }

end Gittree
