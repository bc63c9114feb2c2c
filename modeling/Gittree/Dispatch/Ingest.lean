import Gittree.Dispatch.Handlers
import Gittree.Relay.Protocol

/-!
# Commands from relays

`services/dispatch/src/ingest.rs` and the message handling of `lib.rs`: a text message is read as an
event of a relay, filtered, parsed as a command and executed in the name of the event's key.
`serde_json::from_str` is a parameter.

`applied_command`: what is known of every message that ends in `Applied`.  `unsigned_command_applied`:
neither the id nor a signature is looked at.
-/

namespace Gittree

open Rust
open Rust.Json (Value)

/-- `RelayEventEnvelope`. -/
structure RelayEventEnvelope where
  id : String
  pubkey : String
  kind : ℕ
  createdAt : ℤ
  content : String
  tags : Tags
  relayUrl : String

/-- `DispatchFilterConfig`. -/
structure DispatchFilterConfig where
  adminPubkey : String
  relayAllowlist : List String

/-- `IngestRejectReason`. -/
inductive IngestRejectReason
  | wrongKind
  | missingPrefix
  | missingAdminTag
  | relayNotAllowed
  deriving DecidableEq, Repr

/-- `DispatchEventOutcome`. -/
inductive DispatchEventOutcome
  | ignored (reason : IngestRejectReason)
  | rejected (message : String)
  | applied (output : Command.Output)
  deriving DecidableEq, Repr

namespace Dispatch

/-- `has_admin_tag`. -/
def hasAdminTag (tags : Tags) (adminPubkey : String) : Bool :=
  tags.any fun tag =>
    match tag with
    | name :: value :: _ => name == "p" && value == adminPubkey
    | _ => false

/-- `is_dispatch_command_event`. -/
def isDispatchCommandEvent (config : DispatchFilterConfig) (event : RelayEventEnvelope) :
    Except IngestRejectReason Unit := do
  Result.ensure (event.kind = 1) .wrongKind
  Result.ensure (Str.startsWith (Str.trimStart event.content) "gittree " = true) .missingPrefix
  Result.ensure (event.relayUrl ∈ config.relayAllowlist) .relayNotAllowed
  Result.ensure (hasAdminTag event.tags config.adminPubkey = true) .missingAdminTag

/-- `parse_event_tags`. -/
def parseEventTags (value : Value) : Option Tags := do
  (← value.asArray).mapM NostrEvent.readStrings

/-- The event object of an `EVENT` message. -/
def eventObject (value : Value) : Option (List (String × Value)) := do
  let parts ← value.asArray
  match parts with
  | first :: _ :: event :: _ =>
    if (← first.asStr) ≠ "EVENT" then none else event.asObject
  | _ => none

/-- `parse_relay_event_message`, from the JSON value on; `as u32` keeps the low 32 bits. -/
def parseRelayEvent (value : Value) (relayUrl : String) : Option RelayEventEnvelope := do
  let event ← eventObject value
  let id ← (← event.lookup "id").asStr
  let pubkey ← (← event.lookup "pubkey").asStr
  let kind ← (← event.lookup "kind").asU64
  let createdAt ← (← event.lookup "created_at").asI64
  let content ← (← event.lookup "content").asStr
  let tags ← parseEventTags (← event.lookup "tags")
  return { id, pubkey, kind := kind % 2 ^ 32, createdAt, content, tags, relayUrl }

/-- `parse_relay_event_message`. -/
def parseRelayEventMessage (fromStr : String → Option Value) (message relayUrl : String) :
    Option RelayEventEnvelope := do
  parseRelayEvent (← fromStr message) relayUrl

/-- `decode_fixed_hex`. -/
def decodeFixedHex (value field : String) : Except String (List UInt8) :=
  match Hex.decode value with
  | some bytes =>
    if bytes.length = 32 then .ok bytes
    else .error ("invalid " ++ field ++ ": expected 32-byte hex")
  | none => .error ("invalid " ++ field ++ ": expected hex")

/-- The command of an event that passed the filter, or why it is rejected. -/
def readCommand (envelope : RelayEventEnvelope) : Except String Command.Input := do
  let parsed ← (CommandCli.parseCliCommand envelope.content).mapError CommandParseError.display
  let eventId ← decodeFixedHex envelope.id "event id"
  let actorPubkey ← decodeFixedHex envelope.pubkey "pubkey"
  return { eventId, actorPubkey, parsed, createdAt := envelope.createdAt }

/-- `process_event_envelope`. -/
def processEventEnvelope (b : Bech32) (filter : DispatchFilterConfig)
    (envelope : RelayEventEnvelope) : Command DispatchEventOutcome :=
  match isDispatchCommandEvent filter envelope with
  | .error reason => return .ignored reason
  | .ok () =>
    match readCommand envelope with
    | .error message => return .rejected message
    | .ok input => do
      let output ← Command.executeCommand b input
      return .applied output

/-- `process_event_message`. -/
def processEventMessage (b : Bech32) (fromStr : String → Option Value)
    (filter : DispatchFilterConfig) (relayUrl message : String) :
    Command (Option DispatchEventOutcome) :=
  match parseRelayEventMessage fromStr message relayUrl with
  | none => return none
  | some envelope => do
    let outcome ← processEventEnvelope b filter envelope
    return some outcome

/-! ### What an applied message went through -/

theorem hasAdminTag_iff {tags : Tags} {adminPubkey : String} :
    hasAdminTag tags adminPubkey = true ↔ ∃ rest, ("p" :: adminPubkey :: rest) ∈ tags := by
  unfold hasAdminTag
  rw [List.any_eq_true]
  constructor
  · rintro ⟨tag, hmem, htag⟩
    match tag, htag with
    | name :: value :: rest, htag =>
      simp only [Bool.and_eq_true, beq_iff_eq] at htag
      exact ⟨rest, htag.1 ▸ htag.2 ▸ hmem⟩
  · rintro ⟨rest, hmem⟩
    exact ⟨_, hmem, by simp⟩

theorem isDispatchCommandEvent_eq_ok {config : DispatchFilterConfig} {event : RelayEventEnvelope} :
    isDispatchCommandEvent config event = .ok () ↔
      event.kind = 1 ∧ Str.startsWith (Str.trimStart event.content) "gittree " = true ∧
        event.relayUrl ∈ config.relayAllowlist ∧
        ∃ rest, ("p" :: config.adminPubkey :: rest) ∈ event.tags := by
  unfold isDispatchCommandEvent
  simp only [Result.bind_eq_ok, Result.ensure_eq_ok, exists_const, hasAdminTag_iff]

theorem decodeFixedHex_eq_ok {value field : String} {bytes : List UInt8} :
    decodeFixedHex value field = .ok bytes ↔
      Str.isHexLen value 64 = true ∧ Hex.decode value = some bytes := by
  unfold decodeFixedHex
  constructor
  · intro h
    split at h
    · rename_i data hd
      split_ifs at h with hl
      cases h
      exact ⟨Hex.isHexLen_iff_decode.2 ⟨bytes, hd, by omega⟩, hd⟩
    · cases h
  · rintro ⟨hx, hd⟩
    have hl := Hex.length_of_decode hd
    rw [(Str.isHexLen_iff.1 hx).1] at hl
    rw [hd]
    exact if_pos (by omega)

theorem readCommand_eq_ok {envelope : RelayEventEnvelope} {input : Command.Input} :
    readCommand envelope = .ok input ↔
      CommandCli.parseCliCommand envelope.content = .ok input.parsed ∧
        Str.isHexLen envelope.id 64 = true ∧ Hex.decode envelope.id = some input.eventId ∧
        Str.isHexLen envelope.pubkey 64 = true ∧ Hex.decode envelope.pubkey = some input.actorPubkey ∧
        input.createdAt = envelope.createdAt := by
  unfold readCommand
  simp only [Result.bind_eq_ok, Result.mapError_eq_ok, decodeFixedHex_eq_ok, Result.pure_eq_ok]
  constructor
  · rintro ⟨parsed, hparsed, eventId, hid, actor, hactor, rfl⟩
    exact ⟨hparsed, hid.1, hid.2, hactor.1, hactor.2, rfl⟩
  · rintro ⟨hparsed, hid, hid', hactor, hactor', hcreated⟩
    exact ⟨_, hparsed, _, ⟨hid, hid'⟩, _, ⟨hactor, hactor'⟩, by rw [← hcreated]⟩

/-- An envelope that is read from the event object of a message. -/
structure ReadFrom (event : List (String × Value)) (relayUrl : String)
    (envelope : RelayEventEnvelope) : Prop where
  id : event.lookup "id" = some (.string envelope.id)
  pubkey : event.lookup "pubkey" = some (.string envelope.pubkey)
  kind : ∃ n, event.lookup "kind" = some (.number (.posInt n)) ∧ (n < 2 ^ 32 → envelope.kind = n)
  createdAt : (event.lookup "created_at").bind Value.asI64 = some envelope.createdAt
  content : event.lookup "content" = some (.string envelope.content)
  tags : (event.lookup "tags").bind parseEventTags = some envelope.tags
  relayUrl : envelope.relayUrl = relayUrl

theorem asStr_eq_some {value : Value} {text : String} (h : value.asStr = some text) :
    value = .string text := by
  cases value <;> cases h
  rfl

theorem asU64_eq_some {value : Value} {n : ℕ} (h : value.asU64 = some n) :
    value = .number (.posInt n) := by
  cases value with
  | number number =>
    cases number <;> cases h
    rfl
  | _ => cases h

theorem parseRelayEvent_eq_some {value : Value} {relayUrl : String}
    {envelope : RelayEventEnvelope} (h : parseRelayEvent value relayUrl = some envelope) :
    ∃ event, eventObject value = some event ∧ ReadFrom event relayUrl envelope := by
  unfold parseRelayEvent at h
  simp only [Option.bind_eq_bind, Option.bind_eq_some_iff, Option.pure_def, Option.some.injEq] at h
  obtain ⟨event, hevent, vid, hvid, id, hid, vpub, hvpub, pubkey, hpub, vkind, hvkind, kind, hkind,
    vcreated, hvcreated, created, hcreated, vcontent, hvcontent, content, hcontent, vtags, hvtags,
    tags, htags, rfl⟩ := h
  refine ⟨event, hevent, ?_⟩
  exact
    { id := by rw [hvid, asStr_eq_some hid]
      pubkey := by rw [hvpub, asStr_eq_some hpub]
      kind := ⟨kind, by rw [hvkind, asU64_eq_some hkind], Nat.mod_eq_of_lt⟩
      createdAt := by rw [hvcreated, Option.bind_some, hcreated]
      content := by rw [hvcontent, asStr_eq_some hcontent]
      tags := by rw [hvtags, Option.bind_some, htags]
      relayUrl := rfl }

/-- An event of a relay and the command that is executed for it. -/
structure Commands (filter : DispatchFilterConfig) (relayUrl : String)
    (event : List (String × Value)) (envelope : RelayEventEnvelope) (input : Command.Input) :
    Prop where
  read : ReadFrom event relayUrl envelope
  kind : ∀ n, event.lookup "kind" = some (.number (.posInt n)) → n < 2 ^ 32 → n = 1
  allowed : relayUrl ∈ filter.relayAllowlist
  admin : ∃ rest, ("p" :: filter.adminPubkey :: rest) ∈ envelope.tags
  command : Str.startsWith (Str.trimStart envelope.content) "gittree " = true ∧
    CommandCli.parseCliCommand envelope.content = .ok input.parsed
  eventId : Str.isHexLen envelope.id 64 = true ∧ Hex.decode envelope.id = some input.eventId
  actor : Str.isHexLen envelope.pubkey 64 = true ∧ Hex.decode envelope.pubkey = some input.actorPubkey
  createdAt : input.createdAt = envelope.createdAt

section

variable {σ : Type} {handler : (call : StoreCall) → σ → call.Response × σ} {b : Bech32}
  {filter : DispatchFilterConfig}

theorem of_applied {envelope : RelayEventEnvelope} {output : Command.Output} {s s' : σ}
    (h : (processEventEnvelope b filter envelope).run.run handler s = (.ok (.applied output), s')) :
    isDispatchCommandEvent filter envelope = .ok () ∧ ∃ input, readCommand envelope = .ok input ∧
      (Command.executeCommand b input).run.run handler s = (.ok output, s') := by
  unfold processEventEnvelope at h
  split at h
  · cases h
  · rename_i hok
    split at h
    · cases h
    · rename_i input hinput
      obtain ⟨out, t, hexec, hdone⟩ := Prog.run_bind_ok h
      cases hdone
      exact ⟨hok, input, hinput, hexec⟩

/-- Every message that ends in `Applied` is an `EVENT` message of an allowed relay whose event names
the administrator in a `p` tag, has kind 1 when its kind fits in 32 bits, and carries a command; that
command is executed with the event's id and in the name of the event's key. -/
theorem applied_command {fromStr : String → Option Value} {relayUrl message : String}
    {output : Command.Output} {s s' : σ}
    (h : (processEventMessage b fromStr filter relayUrl message).run.run handler s =
      (.ok (some (.applied output)), s')) :
    ∃ value event envelope input, fromStr message = some value ∧ eventObject value = some event ∧
      Commands filter relayUrl event envelope input ∧
      (Command.executeCommand b input).run.run handler s = (.ok output, s') := by
  unfold processEventMessage at h
  split at h
  · cases h
  · rename_i envelope hparse
    obtain ⟨outcome, t, happlied, hdone⟩ := Prog.run_bind_ok h
    cases hdone
    obtain ⟨value, hvalue, hread⟩ := Option.bind_eq_some_iff.1 hparse
    obtain ⟨event, hevent, hfields⟩ := parseRelayEvent_eq_some hread
    obtain ⟨hok, input, hinput, hexec⟩ := of_applied happlied
    obtain ⟨hkind, hcommand, hrelay, hadmin⟩ := isDispatchCommandEvent_eq_ok.1 hok
    obtain ⟨hparsed, hid, hid', hpub, hpub', hcreated⟩ := readCommand_eq_ok.1 hinput
    refine ⟨value, event, envelope, input, hvalue, hevent, ?_, hexec⟩
    exact
      { read := hfields
        kind := by
          intro n hn hlt
          obtain ⟨m, hm, hmod⟩ := hfields.kind
          cases hn.symm.trans hm
          exact (hmod hlt).symm.trans hkind
        allowed := hfields.relayUrl ▸ hrelay
        admin := hadmin
        command := ⟨hcommand, hparsed⟩
        eventId := ⟨hid, hid'⟩
        actor := ⟨hpub, hpub'⟩
        createdAt := hcreated }

end

/-! ### A command nobody signed -/

/-- A store of accounts that answers every call. -/
def accountStore (call : StoreCall) (accounts : List AccountStateRecord) :
    call.Response × List AccountStateRecord :=
  match call with
  | .insertCommandLog _ => (.ok true, accounts)
  | .updateCommandLogOutcome _ _ _ _ => (.ok (), accounts)
  | .accountState pubkey => (.ok (accounts.find? fun record => record.pubkey == pubkey), accounts)
  | .upsertAccountState record =>
    (.ok (), accounts.filter (fun old => old.pubkey != record.pubkey) ++ [record])
  | .profileState _ => (.ok none, accounts)
  | .upsertProfileState _ => (.ok (), accounts)
  | .repoState _ _ => (.ok none, accounts)
  | .upsertRepoState _ => (.ok (), accounts)
  | .setRepoMaintainer _ => (.ok (), accounts)
  | .listActiveRepoMaintainers _ _ => (.ok [], accounts)

/-- The event of a test of `lib.rs`: an id that is no hash, and no signature at all. -/
def unsignedEvent : List (String × Value) :=
  [("content", .string "gittree account create"), ("created_at", .number (.posInt 321)),
    ("id", .string (Hex.encode (List.replicate 32 17))), ("kind", .number (.posInt 1)),
    ("pubkey", .string (Hex.encode (List.replicate 32 34))),
    ("tags", .array [.array [.string "p", .string "npub1admin"]])]

def unsignedMessage : Value :=
  .array [.string "EVENT", .string "gittree-dispatch", .object unsignedEvent]

/-- A reader of that message. -/
def readUnsigned (text : String) : Option Value :=
  if text = unsignedMessage.toText then some unsignedMessage else none

def sampleFilter : DispatchFilterConfig := ⟨"npub1admin", ["wss://gittr.ee"]⟩

/-- The account that the message creates. -/
def createdAccount : AccountStateRecord := ⟨List.replicate 32 34, .active, 321, 321, none⟩

theorem run_unsignedMessage :
    (processEventMessage sampleBech32 readUnsigned sampleFilter "wss://gittr.ee"
        unsignedMessage.toText).run.run accountStore [] =
      (.ok (some (.applied (Command.ok "account_created" "account created"))), [createdAccount]) := by
  decide +kernel

theorem applied_command_sample :
    ∃ envelope input, Commands sampleFilter "wss://gittr.ee" unsignedEvent envelope input ∧
      input.actorPubkey = createdAccount.pubkey := by
  obtain ⟨value, event, envelope, input, hvalue, hevent, hcommands, -⟩ :=
    applied_command run_unsignedMessage
  unfold readUnsigned at hvalue
  rw [if_pos rfl] at hvalue
  cases hvalue
  have hobject : eventObject unsignedMessage = some unsignedEvent := rfl
  cases hobject.symm.trans hevent
  have hpubkey : some (Value.string (Hex.encode (List.replicate 32 34))) =
      some (.string envelope.pubkey) := hcommands.read.pubkey
  obtain hpubkey := Value.string.inj (Option.some.inj hpubkey)
  have hactor := hcommands.actor.2
  rw [← hpubkey, Hex.decode_encode] at hactor
  exact ⟨envelope, input, hcommands, (Option.some.inj hactor).symm⟩

/-- A command is applied in the name of a key although its event carries no signature: it is no
event that any signature check could accept. -/
theorem unsigned_command_applied :
    (processEventMessage sampleBech32 readUnsigned sampleFilter "wss://gittr.ee"
        unsignedMessage.toText).run.run accountStore [] =
      (.ok (some (.applied (Command.ok "account_created" "account created"))), [createdAccount]) ∧
    ∀ crypto : Crypto, ¬ ∃ event, NostrEvent.fromValue (.object unsignedEvent) = some event ∧
      event.verify crypto = .ok () := by
  refine ⟨run_unsignedMessage, ?_⟩
  rintro crypto ⟨event, hevent, -⟩
  have hnone : NostrEvent.fromValue (.object unsignedEvent) = none := by decide +kernel
  rw [hnone] at hevent
  cases hevent

end Dispatch
end Gittree
