import Gittree.Lib.Json
import Gittree.Lib.Result

/-!
# NIP-98 authorisation

`crates/app-core/src/nip98.rs` signs an event for one HTTP request, `crates/nostr-auth/src/lib.rs`
checks such an event against the request that carries it, and the server takes the hash of the body
from `payload_hash` of `services/git-http/src/lib.rs`.  Hashing, keys and signatures are fields of
`Nip98Crypto`; `Lawful` is what the two sides rely on.

* `tagValue_eq_some_iff`: the value that the validator reads is the first one under the name;
* `validateNip98_eq_ok_iff`: the events that are accepted, and what is answered for them;
* `nip98SignEvent_eq_ok`: the event that is signed;
* `validates_signed`: the two sides agree.
-/

namespace Gittree

open Rust

/-- `AppCoreError`. -/
inductive AppCoreError
  | invalidPubkey
  | invalidSecretKey
  | invalidEventEncoding (message : String)
  | invalidSignature
  deriving DecidableEq, Repr

def AppCoreError.display : AppCoreError → String
  | .invalidPubkey => "invalid pubkey"
  | .invalidSecretKey => "invalid secret key"
  | .invalidEventEncoding message => "invalid event encoding: " ++ message
  | .invalidSignature => "invalid signature"

/-- What the two crates take from `sha2`, `k256` and `secp256k1`: the digest of some bytes, the
bytes that are a signing key, its public key and its signature of a digest, and on the other side
the bytes that are a public key and whether a signature of a digest verifies under it. -/
structure Nip98Crypto where
  sha256 : List UInt8 → List UInt8
  isSigningKey : List UInt8 → Bool
  verifyingKey : List UInt8 → List UInt8
  signPrehash : List UInt8 → List UInt8 → List UInt8
  isXOnlyKey : List UInt8 → Bool
  verifySchnorr : List UInt8 → List UInt8 → List UInt8 → Bool

/-- Digests and keys have 32 bytes, signatures 64, and what a key signs verifies under its public
key. -/
structure Nip98Crypto.Lawful (crypto : Nip98Crypto) : Prop where
  length_sha256 : ∀ message, (crypto.sha256 message).length = 32
  length_verifyingKey : ∀ key, crypto.isSigningKey key = true →
    (crypto.verifyingKey key).length = 32
  length_signPrehash : ∀ key digest, crypto.isSigningKey key = true → digest.length = 32 →
    (crypto.signPrehash key digest).length = 64
  isXOnlyKey_verifyingKey : ∀ key, crypto.isSigningKey key = true →
    crypto.isXOnlyKey (crypto.verifyingKey key) = true
  verify_sign : ∀ key digest, crypto.isSigningKey key = true → digest.length = 32 →
    crypto.verifySchnorr (crypto.signPrehash key digest) digest (crypto.verifyingKey key) = true

/-- `NIP98_KIND`. -/
def nip98Kind : ℕ := 27235

/-- `Nip98UnsignedEvent`. -/
structure Nip98UnsignedEvent where
  pubkey : String
  createdAt : ℤ
  kind : ℕ
  tags : List (List String)
  content : String
  deriving DecidableEq, Repr

/-- `Nip98Event`, of either crate. -/
structure Nip98Event where
  id : String
  pubkey : String
  createdAt : ℤ
  kind : ℕ
  tags : List (List String)
  content : String
  sig : String
  deriving DecidableEq, Repr

/-! ### The signer -/

/-- `nip98_payload_hash`. -/
def nip98PayloadHash (crypto : Nip98Crypto) (payload : List UInt8) : Option String :=
  if payload.isEmpty then none else some (Hex.encode (crypto.sha256 payload))

/-- `nip98_tags`. -/
def nip98Tags (method url : String) (payloadSha256 : Option String) : List (List String) :=
  let tags := [["u", url], ["method", method]]
  match payloadSha256 with
  | some payload => tags ++ [["payload", payload]]
  | none => tags

/-- `nip98_unsigned_event`. -/
def nip98UnsignedEvent (pubkey method url : String) (payloadSha256 : Option String)
    (createdAt : ℤ) : Nip98UnsignedEvent where
  pubkey := pubkey
  createdAt := createdAt
  kind := nip98Kind
  tags := nip98Tags method url payloadSha256
  content := ""

/-- The text that `nip98_event_id_bytes` hashes. -/
def Nip98UnsignedEvent.serialized (unsigned : Nip98UnsignedEvent) : String :=
  (Json.Value.array [.number (.posInt 0), .string unsigned.pubkey, Json.ofI64 unsigned.createdAt,
    .number (.posInt unsigned.kind), .array (unsigned.tags.map fun tag => .array (tag.map .string)),
    .string unsigned.content]).toText

/-- `nip98_event_id_bytes`. -/
def nip98EventIdBytes (crypto : Nip98Crypto) (unsigned : Nip98UnsignedEvent) : List UInt8 :=
  crypto.sha256 (Str.asBytes unsigned.serialized)

/-- `nip98_sign_event`. -/
def nip98SignEvent (crypto : Nip98Crypto) (secretKey : List UInt8) (method url : String)
    (payloadSha256 : Option String) (createdAt : ℤ) : Except AppCoreError Nip98Event := do
  Result.ensure (crypto.isSigningKey secretKey = true) .invalidSecretKey
  let pubkeyHex := Hex.encode (crypto.verifyingKey secretKey)
  let unsigned := nip98UnsignedEvent pubkeyHex method url payloadSha256 createdAt
  let idBytes := nip98EventIdBytes crypto unsigned
  let sig := crypto.signPrehash secretKey idBytes
  return {
    id := Hex.encode idBytes
    pubkey := unsigned.pubkey
    createdAt := unsigned.createdAt
    kind := unsigned.kind
    tags := unsigned.tags
    content := unsigned.content
    sig := Hex.encode sig }

/-! ### The validator -/

/-- `payload_hash` of the server. -/
def payloadHash (crypto : Nip98Crypto) (body : List UInt8) : Option String :=
  if body.isEmpty then none else some (Hex.encode (crypto.sha256 body))

/-- `Nip98Request`. -/
structure Nip98Request where
  method : String
  url : String
  payloadSha256 : Option String
  now : ℤ
  maxSkewSeconds : ℤ
  deriving DecidableEq, Repr

/-- `Nip98Auth`. -/
structure Nip98Auth where
  pubkey : String
  pubkeyBytes : List UInt8
  eventId : String
  deriving DecidableEq, Repr

/-- `Nip98Error`. -/
inductive Nip98Error
  | invalidKind (kind : ℕ)
  | missingTag (tag : String)
  | invalidHex (field value : String)
  | invalidMethod (expected found : String)
  | invalidUrl (expected found : String)
  | payloadMismatch (expected found : String)
  | timeSkew (createdAt now maxSkew : ℤ)
  | invalidEventId (expected found : String)
  | invalidSignature
  | invalidPublicKey
  | invalidSignatureEncoding
  | invalidEventIdEncoding
  deriving DecidableEq, Repr

def Nip98Error.display : Nip98Error → String
  | .invalidKind kind => s!"invalid kind: {kind}"
  | .missingTag tag => "missing tag: " ++ tag
  | .invalidHex field value => "invalid hex for " ++ field ++ ": " ++ value
  | .invalidMethod expected found =>
    "method mismatch (expected " ++ expected ++ ", got " ++ found ++ ")"
  | .invalidUrl expected found => "url mismatch (expected " ++ expected ++ ", got " ++ found ++ ")"
  | .payloadMismatch expected found =>
    "payload mismatch (expected " ++ expected ++ ", got " ++ found ++ ")"
  | .timeSkew createdAt now maxSkew =>
    s!"created_at outside skew (created_at {createdAt}, now {now}, max {maxSkew})"
  | .invalidEventId expected found =>
    "event id mismatch (expected " ++ expected ++ ", got " ++ found ++ ")"
  | .invalidSignature => "invalid signature"
  | .invalidPublicKey => "invalid public key"
  | .invalidSignatureEncoding => "invalid signature encoding"
  | .invalidEventIdEncoding => "invalid event id encoding"

/-- `require_hex`. -/
def requireHex (field value : String) (len : ℕ) : Except Nip98Error Unit :=
  Result.ensure (Str.isHexLen value len = true) (.invalidHex field value)

/-- `tag_value`. -/
def tagValue : List (List String) → String → Option String
  | [], _ => none
  | (tagKey :: value :: _) :: tags, key => if tagKey = key then some value else tagValue tags key
  | _ :: tags, key => tagValue tags key

/-- The text that `build_event_id` hashes. -/
def Nip98Event.serialized (event : Nip98Event) : String :=
  (Json.Value.array [.number (.posInt 0), .string event.pubkey, Json.ofI64 event.createdAt,
    .number (.posInt event.kind), .array (event.tags.map fun tag => .array (tag.map .string)),
    .string event.content]).toText

/-- `build_event_id`. -/
def buildEventId (crypto : Nip98Crypto) (event : Nip98Event) : String :=
  Hex.encode (crypto.sha256 (Str.asBytes event.serialized))

/-- `verify_signature`. -/
def verifySignature (crypto : Nip98Crypto) (event : Nip98Event) :
    Except Nip98Error (List UInt8) := do
  let eventId ← Result.okOr (Hex.decode event.id) .invalidEventIdEncoding
  Result.ensure (eventId.length = 32) .invalidEventIdEncoding
  let sigBytes ← Result.okOr (Hex.decode event.sig) .invalidSignatureEncoding
  Result.ensure (sigBytes.length = 64) .invalidSignatureEncoding
  let pubkeyBytes ← Result.okOr (Hex.decode event.pubkey) .invalidPublicKey
  Result.ensure (pubkeyBytes.length = 32) .invalidPublicKey
  Result.ensure (crypto.isXOnlyKey pubkeyBytes = true) .invalidPublicKey
  Result.ensure (crypto.verifySchnorr sigBytes eventId pubkeyBytes = true) .invalidSignature
  return pubkeyBytes

/-- The part of `validate_nip98` about the hash of the body, for a request that has one. -/
def validatePayload (event : Nip98Event) : Option String → Except Nip98Error Unit
  | some expectedPayload => do
    let payload ← Result.okOr (tagValue event.tags "payload") (.missingTag "payload")
    Result.ensure (payload = expectedPayload) (.payloadMismatch expectedPayload payload)
  | none => .ok ()

/-- `validate_nip98`. -/
def validateNip98 (crypto : Nip98Crypto) (event : Nip98Event) (request : Nip98Request) :
    Except Nip98Error Nip98Auth := do
  Result.ensure (event.kind = nip98Kind) (.invalidKind event.kind)
  requireHex "event.id" event.id 64
  requireHex "event.pubkey" event.pubkey 64
  requireHex "event.sig" event.sig 128
  let url ← Result.okOr (tagValue event.tags "u") (.missingTag "u")
  Result.ensure (url = request.url) (.invalidUrl request.url url)
  let method ← Result.okOr (tagValue event.tags "method") (.missingTag "method")
  Result.ensure (Str.toAsciiLowercase method = Str.toAsciiLowercase request.method)
    (.invalidMethod request.method method)
  validatePayload event request.payloadSha256
  -- the difference is taken in `i128`, where it cannot overflow
  Result.ensure (|request.now - event.createdAt| ≤ request.maxSkewSeconds)
    (.timeSkew event.createdAt request.now request.maxSkewSeconds)
  let expectedId := buildEventId crypto event
  Result.ensure (Str.toAsciiLowercase expectedId = Str.toAsciiLowercase event.id)
    (.invalidEventId expectedId event.id)
  let pubkeyBytes ← verifySignature crypto event
  return { pubkey := event.pubkey, pubkeyBytes := pubkeyBytes, eventId := event.id }

/-! ### What is accepted -/

/-- The value of the first tag of two entries or more whose first entry is the key. -/
def FirstValue (tags : List (List String)) (key value : String) : Prop :=
  ∃ before rest more, tags = before ++ (key :: value :: more) :: rest ∧
    ∀ tag ∈ before, ∀ value' more', tag ≠ key :: value' :: more'

theorem FirstValue.cons_iff {tag : List String} {tags : List (List String)} {key value : String}
    (h : ∀ value' more', tag ≠ key :: value' :: more') :
    FirstValue (tag :: tags) key value ↔ FirstValue tags key value := by
  constructor
  · rintro ⟨before, rest, more, heq, hbefore⟩
    cases before with
    | nil => exact absurd (List.cons.inj heq).1 (h _ _)
    | cons first before =>
      obtain ⟨rfl, rfl⟩ := List.cons.inj heq
      exact ⟨before, rest, more, rfl, fun tag ht => hbefore tag (List.mem_cons_of_mem _ ht)⟩
  · rintro ⟨before, rest, more, rfl, hbefore⟩
    refine ⟨tag :: before, rest, more, rfl, ?_⟩
    intro tag' ht'
    rcases List.mem_cons.1 ht' with rfl | ht'
    · exact h
    · exact hbefore tag' ht'

theorem FirstValue.head_iff {tags : List (List String)} {key value found : String}
    {more : List String} :
    FirstValue ((key :: found :: more) :: tags) key value ↔ found = value := by
  constructor
  · rintro ⟨before, rest, more', heq, hbefore⟩
    cases before with
    | nil =>
      simp only [List.nil_append, List.cons.injEq] at heq
      exact heq.1.2.1
    | cons first before =>
      obtain ⟨rfl, -⟩ := List.cons.inj heq
      exact absurd rfl (hbefore _ List.mem_cons_self found more)
  · rintro rfl
    exact ⟨[], tags, more, rfl, fun _ h => by cases h⟩

/-- `tag_value` reads the first value under the key. -/
theorem tagValue_eq_some_iff {tags : List (List String)} {key value : String} :
    tagValue tags key = some value ↔ FirstValue tags key value := by
  induction tags with
  | nil =>
    constructor
    · intro h
      cases h
    · rintro ⟨before, rest, more, heq, -⟩
      cases before <;> cases heq
  | cons tag tags ih =>
    rcases tag with _ | ⟨tagKey, _ | ⟨found, more⟩⟩
    · rw [tagValue, ih, FirstValue.cons_iff (by simp)]
      rintro _ _ _ h
      cases h
    · rw [tagValue, ih, FirstValue.cons_iff (by simp)]
      rintro _ _ _ h
      cases h
    · rw [tagValue]
      by_cases hkey : tagKey = key
      · rw [if_pos hkey, hkey, FirstValue.head_iff, Option.some.injEq]
      · rw [if_neg hkey, ih, FirstValue.cons_iff]
        intro _ _ h
        exact hkey (List.cons.inj h).1

/-- What is in the hexadecimal texts of an event with a signature by a key. -/
structure Verifies (crypto : Nip98Crypto) (event : Nip98Event) (key : List UInt8) : Prop where
  pubkey : Hex.decode event.pubkey = some key
  length_key : key.length = 32
  isXOnlyKey : crypto.isXOnlyKey key = true
  signed : ∃ digest sig, Hex.decode event.id = some digest ∧ digest.length = 32 ∧
    Hex.decode event.sig = some sig ∧ sig.length = 64 ∧
      crypto.verifySchnorr sig digest key = true

section
variable {crypto : Nip98Crypto} {event : Nip98Event} {request : Nip98Request} {auth : Nip98Auth}
  {key : List UInt8}

theorem verifySignature_eq_ok : verifySignature crypto event = .ok key ↔
    Verifies crypto event key := by
  unfold verifySignature
  simp only [Result.bind_eq_ok, Result.ensure_eq_ok, Result.okOr_eq_ok, Result.pure_eq_ok]
  constructor
  · rintro ⟨digest, hid, -, hdigest, sig, hsig, -, hlength, _, hpubkey, -, hkey, -, hx, -, hverify, rfl⟩
    exact ⟨hpubkey, hkey, hx, digest, sig, hid, hdigest, hsig, hlength, hverify⟩
  · rintro ⟨hpubkey, hkey, hx, digest, sig, hid, hdigest, hsig, hlength, hverify⟩
    exact ⟨digest, hid, (), hdigest, sig, hsig, (), hlength, key, hpubkey, (), hkey, (), hx, (),
      hverify, rfl⟩

/-- The texts of an event with a signature pass the checks of their form. -/
theorem Verifies.requireHex (h : Verifies crypto event key) :
    Str.isHexLen event.id 64 = true ∧ Str.isHexLen event.pubkey 64 = true ∧
      Str.isHexLen event.sig 128 = true := by
  obtain ⟨digest, sig, hid, hdigest, hsig, hlength, -⟩ := h.signed
  exact ⟨Hex.isHexLen_iff_decode.2 ⟨digest, hid, hdigest⟩,
    Hex.isHexLen_iff_decode.2 ⟨key, h.pubkey, h.length_key⟩,
    Hex.isHexLen_iff_decode.2 ⟨sig, hsig, hlength⟩⟩

/-- A text is that of a digest up to case when it is read as the digest. -/
theorem toAsciiLowercase_encode_eq_iff {digest : List UInt8} {id : String} :
    Str.toAsciiLowercase (Hex.encode digest) = Str.toAsciiLowercase id ↔
      Hex.decode id = some digest := by
  constructor
  · intro h
    rw [← Hex.decode_toAsciiLowercase, ← h, Hex.decode_toAsciiLowercase, Hex.decode_encode]
  · intro h
    rw [← Hex.encode_of_decode h]
    exact Hex.isLower_encode digest

theorem validatePayload_eq_ok {payloadSha256 : Option String} {u : Unit} :
    validatePayload event payloadSha256 = .ok u ↔
      ∀ payload, payloadSha256 = some payload → FirstValue event.tags "payload" payload := by
  cases payloadSha256 with
  | none => simp [validatePayload]
  | some expected =>
    simp only [validatePayload, Result.bind_eq_ok, Result.okOr_eq_ok, Result.ensure_eq_ok,
      tagValue_eq_some_iff, Option.some.injEq]
    constructor
    · rintro ⟨payload, hfirst, rfl⟩ _ rfl
      exact hfirst
    · intro h
      exact ⟨expected, h expected rfl, rfl⟩

/-- An event that authorises a request, and what is answered for it. -/
structure Authorises (crypto : Nip98Crypto) (request : Nip98Request) (event : Nip98Event)
    (auth : Nip98Auth) : Prop where
  kind : event.kind = nip98Kind
  url : FirstValue event.tags "u" request.url
  method : ∃ method, FirstValue event.tags "method" method ∧
    Str.toAsciiLowercase method = Str.toAsciiLowercase request.method
  payload : ∀ payload, request.payloadSha256 = some payload →
    FirstValue event.tags "payload" payload
  time : |request.now - event.createdAt| ≤ request.maxSkewSeconds
  id : Hex.decode event.id = some (crypto.sha256 (Str.asBytes event.serialized))
  verifies : Verifies crypto event auth.pubkeyBytes
  pubkey : auth.pubkey = event.pubkey
  eventId : auth.eventId = event.id

/-- The events that are accepted are those that authorise the request. -/
theorem validateNip98_eq_ok_iff : validateNip98 crypto event request = .ok auth ↔
    Authorises crypto request event auth := by
  unfold validateNip98 requireHex buildEventId
  simp only [Result.bind_eq_ok, Result.ensure_eq_ok, Result.okOr_eq_ok, Result.pure_eq_ok,
    tagValue_eq_some_iff, validatePayload_eq_ok, verifySignature_eq_ok,
    toAsciiLowercase_encode_eq_iff]
  constructor
  · rintro ⟨-, hkind, -, -, -, -, -, -, url, hurl, -, rfl, method, hmethod, -, hcase, -, hpayload,
      -, htime, -, hid, key, hverifies, rfl⟩
    exact ⟨hkind, hurl, ⟨method, hmethod, hcase⟩, hpayload, htime, hid, hverifies, rfl, rfl⟩
  · rintro ⟨hkind, hurl, ⟨method, hmethod, hcase⟩, hpayload, htime, hid, hverifies, hpubkey, hevent⟩
    obtain ⟨hhexId, hhexPubkey, hhexSig⟩ := hverifies.requireHex
    refine ⟨(), hkind, (), hhexId, (), hhexPubkey, (), hhexSig, _, hurl, (), rfl, method, hmethod, (),
      hcase, (), hpayload, (), htime, (), hid, _, hverifies, ?_⟩
    rw [← hpubkey, ← hevent]

end

/-! ### The signed event -/

theorem payloadHash_of_ne_nil {crypto : Nip98Crypto} {body : List UInt8} (h : body ≠ []) :
    payloadHash crypto body = some (Hex.encode (crypto.sha256 body)) := by
  unfold payloadHash
  rw [if_neg (by simpa using h)]

theorem firstValue_nip98Tags (method url : String) (payloadSha256 : Option String) :
    FirstValue (nip98Tags method url payloadSha256) "u" url ∧
      FirstValue (nip98Tags method url payloadSha256) "method" method ∧
        ∀ payload, payloadSha256 = some payload →
          FirstValue (nip98Tags method url payloadSha256) "payload" payload := by
  simp only [← tagValue_eq_some_iff]
  cases payloadSha256 with
  | none =>
    refine ⟨rfl, rfl, fun _ h => ?_⟩
    cases h
  | some hash =>
    refine ⟨rfl, rfl, fun _ h => ?_⟩
    cases h
    rfl

section
variable {crypto : Nip98Crypto} {secretKey : List UInt8}

/-- A signing key makes an event that authorises the request it is made for. -/
theorem authorises_signed (hcrypto : crypto.Lawful) (hkey : crypto.isSigningKey secretKey = true)
    (request : Nip98Request) {createdAt : ℤ}
    (htime : |request.now - createdAt| ≤ request.maxSkewSeconds) :
    ∃ event, nip98SignEvent crypto secretKey request.method request.url request.payloadSha256
        createdAt = .ok event ∧
      Authorises crypto request event
        ⟨Hex.encode (crypto.verifyingKey secretKey), crypto.verifyingKey secretKey, event.id⟩ := by
  obtain ⟨hurl, hmethod, hpayload⟩ :=
    firstValue_nip98Tags request.method request.url request.payloadSha256
  let unsigned := nip98UnsignedEvent (Hex.encode (crypto.verifyingKey secretKey)) request.method
    request.url request.payloadSha256 createdAt
  have hid : (nip98EventIdBytes crypto unsigned).length = 32 := hcrypto.length_sha256 _
  refine ⟨⟨Hex.encode (nip98EventIdBytes crypto unsigned), unsigned.pubkey, createdAt, nip98Kind,
    unsigned.tags, "", Hex.encode (crypto.signPrehash secretKey (nip98EventIdBytes crypto unsigned))⟩,
    ?_, rfl, hurl, ⟨_, hmethod, rfl⟩, hpayload, htime, ?_, ?_, rfl, rfl⟩
  · rw [nip98SignEvent, Result.ensure, if_pos hkey]
    rfl
  · exact Hex.decode_encode _
  · exact ⟨Hex.decode_encode _, hcrypto.length_verifyingKey _ hkey,
      hcrypto.isXOnlyKey_verifyingKey _ hkey, _, _, Hex.decode_encode _, hid, Hex.decode_encode _,
      hcrypto.length_signPrehash _ _ hkey hid, hcrypto.verify_sign _ _ hkey hid⟩

end


/-! ### A signed request -/

/-- A URL of the git server. -/
def signupUrl : String := "http://localhost:8089/v1/signup"

/-- The event that the key `01 01 … 01` signs for a request to the URL with the body `hello`. -/
def signupEvent : Nip98Event where
  id := "e5259dedcb29d50dde73a99b474e76417877d527dda76ff5c07efb81b4b89550"
  pubkey := "1b84c5567b126440995d3ed5aaba0565d71e1834604819ff9c17f5e9d5dd078f"
  createdAt := 1700000000
  kind := 27235
  tags := [["u", "http://localhost:8089/v1/signup"], ["method", "POST"],
    ["payload", "2cf24dba5fb0a30e26e83b2ac5b9e29e1b161e5c1fa7425e73043362938b9824"]]
  content := ""
  sig := "65ca80b81429fa6a18b33f026ef62de08fbdc6eb6f4f559c02ff328c3309b84b" ++
    "d21c4ac16a64f9482619e695eb7ab026cd8e76faaf4a75bf7a4176f75a4e8da7"

/-- The text that is hashed for the event. -/
def signupText : String :=
  "[0,\"1b84c5567b126440995d3ed5aaba0565d71e1834604819ff9c17f5e9d5dd078f\",1700000000,27235," ++
    "[[\"u\",\"http://localhost:8089/v1/signup\"],[\"method\",\"POST\"],[\"payload\"," ++
      "\"2cf24dba5fb0a30e26e83b2ac5b9e29e1b161e5c1fa7425e73043362938b9824\"]],\"\"]"

/-- The cryptography of one key that knows the digests and the signature of the event. -/
def signupCrypto : Nip98Crypto where
  sha256 := fun message =>
    if message = Str.asBytes "hello" then
      (Hex.decode "2cf24dba5fb0a30e26e83b2ac5b9e29e1b161e5c1fa7425e73043362938b9824").getD []
    else if message = Str.asBytes signupText then (Hex.decode signupEvent.id).getD []
    else List.replicate 32 0
  isSigningKey := fun key => key == List.replicate 32 1
  verifyingKey := fun _ => (Hex.decode signupEvent.pubkey).getD []
  signPrehash := fun _ digest =>
    if Hex.decode signupEvent.id = some digest then (Hex.decode signupEvent.sig).getD []
    else List.replicate 64 0
  isXOnlyKey := fun key => Hex.decode signupEvent.pubkey == some key
  verifySchnorr := fun sig digest key =>
    Hex.decode signupEvent.pubkey == some key &&
      if Hex.decode signupEvent.id = some digest then Hex.decode signupEvent.sig == some sig
      else sig == List.replicate 64 0

theorem signupCrypto_lawful : signupCrypto.Lawful where
  length_sha256 := by
    intro message
    unfold signupCrypto
    simp only
    split_ifs
    · decide +kernel
    · decide +kernel
    · exact List.length_replicate
  length_verifyingKey := by
    intro key _
    change (signupCrypto.verifyingKey []).length = 32
    decide +kernel
  length_signPrehash := by
    intro _ digest _ _
    unfold signupCrypto
    simp only
    split_ifs
    · decide +kernel
    · exact List.length_replicate
  isXOnlyKey_verifyingKey := by
    intro key _
    change signupCrypto.isXOnlyKey (signupCrypto.verifyingKey []) = true
    decide +kernel
  verify_sign := by
    intro _ digest _ _
    by_cases hdigest : Hex.decode signupEvent.id = some digest
    · simp only [signupCrypto, if_pos hdigest]
      decide +kernel
    · simp only [signupCrypto, if_neg hdigest]
      decide +kernel

/-- The signer and the validator agree. What a valid key signs for a method, a URL and a body is
accepted within the skew for the same method, URL and body, with the key's public key as the answer;
and whatever is accepted is an event of the kind for this URL, this method, this body and this time,
under the hash of its canonical text. -/
theorem validates_signed {crypto : Nip98Crypto} (hcrypto : crypto.Lawful) :
    (∀ (secretKey : List UInt8) (method url : String) (body : List UInt8) (createdAt now maxSkew : ℤ),
      crypto.isSigningKey secretKey = true → |now - createdAt| ≤ maxSkew →
        ∃ event auth,
          nip98SignEvent crypto secretKey method url (nip98PayloadHash crypto body) createdAt =
              .ok event ∧
            validateNip98 crypto event ⟨method, url, payloadHash crypto body, now, maxSkew⟩ =
                .ok auth ∧
              auth.pubkey = Hex.encode (crypto.verifyingKey secretKey) ∧
                auth.pubkeyBytes = crypto.verifyingKey secretKey) ∧
    ∀ (event : Nip98Event) (method url : String) (body : List UInt8) (now maxSkew : ℤ)
      (auth : Nip98Auth),
      validateNip98 crypto event ⟨method, url, payloadHash crypto body, now, maxSkew⟩ = .ok auth →
        event.kind = 27235 ∧ FirstValue event.tags "u" url ∧
          (∃ found, FirstValue event.tags "method" found ∧
            Str.toAsciiLowercase found = Str.toAsciiLowercase method) ∧
          (body ≠ [] →
            FirstValue event.tags "payload" (Hex.encode (crypto.sha256 body))) ∧
          |now - event.createdAt| ≤ maxSkew ∧
          Hex.decode event.id = some (crypto.sha256 (Str.asBytes event.serialized)) := by
  refine ⟨?_, ?_⟩
  · intro secretKey method url body createdAt now maxSkew hkey htime
    obtain ⟨event, hsigned, hauthorises⟩ := authorises_signed hcrypto hkey
      ⟨method, url, payloadHash crypto body, now, maxSkew⟩ htime
    exact ⟨event, _, hsigned, validateNip98_eq_ok_iff.2 hauthorises, rfl, rfl⟩
  · intro event method url body now maxSkew auth hvalid
    have h := validateNip98_eq_ok_iff.1 hvalid
    refine ⟨h.kind, h.url, h.method, fun hbody => ?_, h.time, h.id⟩
    exact h.payload _ (payloadHash_of_ne_nil hbody)

theorem validates_signed_signup :
    nip98SignEvent signupCrypto (List.replicate 32 1) "POST" signupUrl
        (nip98PayloadHash signupCrypto (Str.asBytes "hello")) 1700000000 = .ok signupEvent ∧
      (∃ auth, validateNip98 signupCrypto signupEvent ⟨"POST", signupUrl,
          payloadHash signupCrypto (Str.asBytes "hello"), 1700000060, 60⟩ = .ok auth ∧
        auth.pubkey = signupEvent.pubkey) ∧
      FirstValue signupEvent.tags "u" signupUrl := by
  obtain ⟨event, auth, hsigned, hvalid, hpubkey, -⟩ :=
    (validates_signed signupCrypto_lawful).1 (List.replicate 32 1) "POST" signupUrl
      (Str.asBytes "hello") 1700000000 1700000060 60 (by decide +kernel) (by decide)
  have hevent : nip98SignEvent signupCrypto (List.replicate 32 1) "POST" signupUrl
      (nip98PayloadHash signupCrypto (Str.asBytes "hello")) 1700000000 = .ok signupEvent := by
    decide +kernel
  obtain rfl := Except.ok.inj (hsigned.symm.trans hevent)
  have hkey : Hex.encode (signupCrypto.verifyingKey (List.replicate 32 1)) = signupEvent.pubkey := by
    decide +kernel
  have haccepted := (validates_signed signupCrypto_lawful).2 _ _ _ _ _ _ auth hvalid
  exact ⟨hevent, ⟨auth, hvalid, hpubkey.trans hkey⟩, haccepted.2.1⟩

end Gittree
