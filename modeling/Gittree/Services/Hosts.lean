import Gittree.Relay.System
import Gittree.Services.Control

/-!
# Host names

Three functions bring a host to its normal form: `normalize_host` of
`services/control/src/lib.rs` when a tenant is created, `normalize_host` of
`services/relay/src/server.rs` on the `Host` header of a connection, and `relay_host_from_url` of
`services/relay/src/session.rs` on the `relay` tag of an authentication event.  They agree on the
hosts that are already plain: no brackets, no port, no dot at the end, no white space around.

* `Control.normalizeHost_eq_ok_iff`, `Relay.normalizeHost_eq`, `relayHostFromUrl_wss`: the three
  functions in terms of `hostText`;
* `Control.normalizeHost_self_iff`: a normal form is its own normal form when it is plain;
* `sameTenant_iff`: the hosts that mean the same tenant to all of them.
-/

namespace Gittree

open Rust

/-- An address without its scheme. -/
def stripScheme (address : String) : String :=
  ((Str.stripPrefix address "https://").or (Str.stripPrefix address "http://")).getD address

/-- The host of an address without scheme, in lower case. -/
def Control.addressHost (value : String) : Except ControlHttpError String :=
  match Str.stripPrefix value "[" with
  | some value =>
    match Str.splitAtFirst "]".toList (Str.chars value) with
    | some (host, _) => .ok (Str.toAsciiLowercase (String.ofList host))
    | none => .error (.badRequest "invalid host")
  | none => .ok (Str.toAsciiLowercase ((Str.split value ':').headD value))

/-- `normalize_host` of the control service. -/
def Control.normalizeHost (value : String) : Except ControlHttpError String := do
  let value := stripScheme (Str.trimEndMatches (Str.trim value) '.')
  Result.ensure (Str.containsChar value '/' = false) (.badRequest "invalid host")
  let normalized ← Control.addressHost value
  Result.ensure (Str.trim normalized ≠ "") (.badRequest "invalid host")
  return normalized

/-- `normalize_host` of the relay. -/
def Relay.normalizeHost (value : String) : String :=
  let value := Str.trimEndMatches (Str.trim value) '.'
  match (Str.stripPrefix value "[").bind fun inner =>
      Str.splitAtFirst "]".toList (Str.chars inner) with
  | some (host, _) => Str.toAsciiLowercase (String.ofList host)
  | none =>
    Str.toAsciiLowercase (Str.trimEndMatches ((Str.split value ':').headD value) '.')

/-! ### The text that names the host -/

/-- A host as a `Host` header carries it: without white space around it and without its scheme. -/
def withoutScheme (h : String) : String := stripScheme (Str.trim h)

/-- What the brackets of an address hold; without brackets, what stands before its port. -/
def hostText (address : String) : String :=
  match (Str.stripPrefix address "[").bind fun inner =>
      Str.splitAtFirst "]".toList (Str.chars inner) with
  | some (host, _) => String.ofList host
  | none => (Str.split address ':').headD address

/-- The texts that none of the three functions changes but for the case of letters. -/
structure PlainHost (text : String) : Prop where
  trimmed : Str.trim text = text
  undotted : Str.trimEndMatches text '.' = text
  noPort : ':' ∉ text.toList
  noBracket : Str.startsWith text "[" = false

/-- The name of a host, as a function of what the user has written. -/
def hostName (h : String) : String := hostText (Str.trimEndMatches (withoutScheme h) '.')

theorem hostText_of_bracket {address inner : String} {host rest : List Char}
    (h : Str.stripPrefix address "[" = some inner)
    (hsplit : Str.splitAtFirst "]".toList (Str.chars inner) = some (host, rest)) :
    hostText address = String.ofList host := by
  unfold hostText
  rw [h, Option.bind_some, hsplit]

theorem hostText_of_not_bracket {address : String} (h : Str.startsWith address "[" = false) :
    hostText address = String.ofList (address.toList.takeWhile (· != ':')) := by
  unfold hostText
  rw [Str.stripPrefix_eq_none.2 h, Option.bind_none]
  exact Str.headD_split _ _ _

/-- A plain text names the host by itself. -/
theorem PlainHost.hostText_eq {text : String} (h : PlainHost text) : hostText text = text := by
  rw [hostText_of_not_bracket h.noBracket, List.takeWhile_eq_self_iff.2, String.ofList_toList]
  intro c hc
  rw [bne_iff_ne]
  rintro rfl
  exact h.noPort hc

theorem hostText_within (address : String) : (hostText address).toList <:+: address.toList := by
  unfold hostText
  cases hb : (Str.stripPrefix address "[").bind fun inner =>
      Str.splitAtFirst "]".toList (Str.chars inner) with
  | none =>
    simp only [Str.headD_split, String.toList_ofList]
    exact (List.takeWhile_prefix _).isInfix
  | some r =>
    obtain ⟨inner, hstrip, hsplit⟩ := Option.bind_eq_some_iff.1 hb
    obtain ⟨hinner, -⟩ := Str.splitAtFirst_append hsplit
    rw [Str.chars_eq_toList] at hinner
    rw [Str.stripPrefix_eq_some.1 hstrip, String.toList_append, hinner]
    simp only [String.toList_ofList]
    exact ⟨"[".toList, r.2, by simp⟩

/-! ### Schemes -/

/-- An address is its own rest, or the rest follows one of the schemes. -/
theorem stripScheme_cases (address : String) :
    address = "https://" ++ stripScheme address ∨ address = "http://" ++ stripScheme address ∨
      Str.startsWith address "https://" = false ∧ Str.startsWith address "http://" = false ∧
        stripScheme address = address := by
  unfold stripScheme
  cases hs : Str.stripPrefix address "https://" with
  | some rest => exact .inl (Str.stripPrefix_eq_some.1 hs)
  | none =>
    cases hp : Str.stripPrefix address "http://" with
    | some rest => exact .inr (.inl (Str.stripPrefix_eq_some.1 hp))
    | none => exact .inr (.inr ⟨Str.stripPrefix_eq_none.1 hs, Str.stripPrefix_eq_none.1 hp, rfl⟩)

theorem stripScheme_of_not_startsWith {address : String}
    (hs : Str.startsWith address "https://" = false)
    (hp : Str.startsWith address "http://" = false) : stripScheme address = address := by
  unfold stripScheme
  rw [Str.stripPrefix_eq_none.2 hs, Str.stripPrefix_eq_none.2 hp]
  rfl

theorem stripScheme_https (rest : String) : stripScheme ("https://" ++ rest) = rest := by
  unfold stripScheme
  rw [Str.stripPrefix_append]
  rfl

theorem stripScheme_http (rest : String) : stripScheme ("http://" ++ rest) = rest := by
  have hs : Str.stripPrefix ("http://" ++ rest) "https://" = none := by
    rw [Str.stripPrefix_eq_none, ← Bool.not_eq_true, Str.startsWith_iff]
    rintro ⟨r, hr⟩
    have hlist := congrArg String.toList hr
    simp at hlist
  unfold stripScheme
  rw [hs, Str.stripPrefix_append]
  rfl

theorem stripScheme_suffix (address : String) : (stripScheme address).toList <:+ address.toList := by
  rcases stripScheme_cases address with h | h | ⟨-, -, h⟩
  · conv_rhs => rw [h, String.toList_append]
    exact List.suffix_append _ _
  · conv_rhs => rw [h, String.toList_append]
    exact List.suffix_append _ _
  · rw [h]

/-- Scheme and trailing dots are removed in either order. -/
theorem stripScheme_trimEndMatches (address : String) :
    stripScheme (Str.trimEndMatches address '.') = Str.trimEndMatches (stripScheme address) '.' := by
  rcases stripScheme_cases address with h | h | ⟨hs, hp, h⟩
  · conv_lhs => rw [h]
    rw [Str.trimEndMatches_append (by decide +kernel), stripScheme_https]
  · conv_lhs => rw [h]
    rw [Str.trimEndMatches_append (by decide +kernel), stripScheme_http]
  · rw [h]
    have hpre := Str.trimEndMatches_prefix address '.'
    apply stripScheme_of_not_startsWith
    · exact Bool.eq_false_iff.2 fun hc => Bool.false_ne_true (hs ▸ Str.startsWith_of_prefix hpre hc)
    · exact Bool.eq_false_iff.2 fun hc => Bool.false_ne_true (hp ▸ Str.startsWith_of_prefix hpre hc)

/-- What is left of a host does not end in white space. -/
theorem getLast_withoutScheme (h : String) :
    ∀ c ∈ (withoutScheme h).toList.getLast?, Str.isWhitespace c = false := by
  intro c hc
  obtain ⟨scheme, hscheme⟩ := stripScheme_suffix (Str.trim h)
  refine (Str.trim_eq_self_iff.1 (Str.trim_trim h)).2 c ?_
  rw [← hscheme]
  exact List.mem_getLast?_append_of_mem_getLast? hc

/-! ### The three functions -/

/-- An address whose bracket, if it opens one, is closed. -/
def Closed (address : String) : Prop :=
  ∀ inner, Str.stripPrefix address "[" = some inner →
    (Str.splitAtFirst "]".toList (Str.chars inner)).isSome = true

theorem Control.addressHost_eq_ok_iff {address n : String} :
    Control.addressHost address = .ok n ↔
      Closed address ∧ n = Str.toAsciiLowercase (hostText address) := by
  unfold Control.addressHost Closed
  cases hb : Str.stripPrefix address "[" with
  | none =>
    have htext : hostText address = (Str.split address ':').headD address := by
      rw [hostText, hb, Option.bind_none]
    rw [htext]
    constructor
    · rintro ⟨⟩
      exact ⟨nofun, rfl⟩
    · rintro ⟨-, rfl⟩
      rfl
  | some inner =>
    simp only [Option.some.injEq, forall_eq']
    cases hsplit : Str.splitAtFirst "]".toList (Str.chars inner) with
    | none => simp
    | some r =>
      rw [hostText_of_bracket hb hsplit]
      constructor
      · rintro ⟨⟩
        exact ⟨rfl, rfl⟩
      · rintro ⟨-, rfl⟩
        rfl

/-- The hosts that the control service accepts, and their normal forms. -/
theorem Control.normalizeHost_eq_ok_iff {h n : String} :
    Control.normalizeHost h = .ok n ↔
      '/' ∉ (Str.trimEndMatches (withoutScheme h) '.').toList ∧
      Closed (Str.trimEndMatches (withoutScheme h) '.') ∧
      n = Str.toAsciiLowercase (hostName h) ∧ Str.trim n ≠ "" := by
  unfold Control.normalizeHost hostName withoutScheme
  rw [← stripScheme_trimEndMatches]
  simp only [Result.bind_eq_ok, Result.ensure_eq_ok, Result.pure_eq_ok, exists_const,
    Control.addressHost_eq_ok_iff, Str.containsChar, Str.chars_eq_toList, List.contains_eq_mem,
    decide_eq_false_iff_not]
  constructor
  · rintro ⟨hslash, _, ⟨hclosed, rfl⟩, hne, rfl⟩
    exact ⟨hslash, hclosed, rfl, hne⟩
  · rintro ⟨hslash, hclosed, rfl, hne⟩
    exact ⟨hslash, _, ⟨hclosed, rfl⟩, hne, rfl⟩

/-- The relay removes the dots before a port as well. -/
theorem Relay.normalizeHost_eq {value : String} (hvalue : Str.trim value = value)
    (hdot : Str.trimEndMatches (hostText (Str.trimEndMatches value '.')) '.' =
      hostText (Str.trimEndMatches value '.')) :
    Relay.normalizeHost value =
      Str.toAsciiLowercase (hostText (Str.trimEndMatches value '.')) := by
  unfold Relay.normalizeHost
  rw [hvalue]
  unfold hostText at hdot ⊢
  cases hb : (Str.stripPrefix (Str.trimEndMatches value '.') "[").bind fun inner =>
      Str.splitAtFirst "]".toList (Str.chars inner) with
  | none =>
    simp only [hb] at hdot ⊢
    rw [hdot]
  | some r => simp only [hb]

/-- The host of a `wss` URL without a path. -/
theorem relayHostFromUrl_wss {address : String} (hne : address ≠ "")
    (hslash : '/' ∉ address.toList)
    (hlast : ∀ c ∈ address.toList.getLast?, Str.isWhitespace c = false) :
    relayHostFromUrl ("wss://" ++ address) =
      some (Str.toAsciiLowercase (hostText (Str.trimEndMatches address '.'))) := by
  have htrim : Str.trim ("wss://" ++ address) = "wss://" ++ address := by
    rw [Str.trim_eq_self_iff, String.toList_append]
    refine ⟨by simp; decide, fun c hc => hlast c ?_⟩
    rw [List.getLast?_append_of_ne_nil _ (by simpa using hne)] at hc
    exact hc
  have hws : Str.stripPrefix ("wss://" ++ address) "ws://" = none := by
    rw [Str.stripPrefix_eq_none, ← Bool.not_eq_true, Str.startsWith_iff]
    rintro ⟨r, hr⟩
    have hlist := congrArg String.toList hr
    simp at hlist
  unfold relayHostFromUrl
  simp only [htrim, hws, Str.stripPrefix_append, Option.none_or, Option.some_or, Option.getD_some,
    Str.split_eq_singleton hslash, List.headD_cons]
  rw [if_neg (by simp), if_neg hne]
  unfold hostText
  cases hb : (Str.stripPrefix (Str.trimEndMatches address '.') "[").bind fun inner =>
      Str.splitAtFirst "]".toList (Str.chars inner) with
  | none => rfl
  | some r => rfl

/-! ### Plain hosts -/

theorem startsWith_bracket_iff {text : String} :
    Str.startsWith text "[" = true ↔ text.toList.head? = some '[' := by
  unfold Str.startsWith
  rw [Str.chars_eq_toList, Str.chars_eq_toList, List.isPrefixOf_iff_prefix]
  exact List.singleton_prefix_iff_head?_eq_some

/-- The case of letters does not matter. -/
theorem plainHost_toAsciiLowercase_iff {text : String} :
    PlainHost (Str.toAsciiLowercase text) ↔ PlainHost text := by
  have hbracket : Str.startsWith (Str.toAsciiLowercase text) "[" = false ↔
      Str.startsWith text "[" = false := by
    rw [← Bool.not_eq_true, ← Bool.not_eq_true, startsWith_bracket_iff, startsWith_bracket_iff,
      Str.toList_toAsciiLowercase, List.head?_map, Option.map_eq_some_iff]
    simp only [Str.toLower_eq_iff (show '['.isAlpha = false from rfl), exists_eq_right]
  constructor
  · rintro ⟨htrim, hdot, hport, hb⟩
    exact ⟨Str.trim_toAsciiLowercase_eq_self_iff.1 htrim,
      (Str.trimEndMatches_toAsciiLowercase_eq_self_iff rfl).1 hdot,
      fun hm => hport ((Str.mem_toAsciiLowercase_iff rfl).2 hm), hbracket.1 hb⟩
  · rintro ⟨htrim, hdot, hport, hb⟩
    exact ⟨Str.trim_toAsciiLowercase_eq_self_iff.2 htrim,
      (Str.trimEndMatches_toAsciiLowercase_eq_self_iff rfl).2 hdot,
      fun hm => hport ((Str.mem_toAsciiLowercase_iff rfl).1 hm), hbracket.2 hb⟩

/-- A closed bracket or a port is not part of the name. -/
theorem plain_of_hostText_eq {text : String} (hclosed : Closed text)
    (h : hostText text = text) : ':' ∉ text.toList ∧ Str.startsWith text "[" = false := by
  cases hb : Str.stripPrefix text "[" with
  | some inner =>
    exfalso
    obtain ⟨r, hsplit⟩ := Option.isSome_iff_exists.1 (hclosed inner hb)
    obtain ⟨hinner, -⟩ := Str.splitAtFirst_append hsplit
    rw [Str.chars_eq_toList] at hinner
    have hlen := congrArg (fun t : String => t.toList.length)
      ((hostText_of_bracket hb hsplit).symm.trans h)
    simp only [String.toList_ofList, Str.stripPrefix_eq_some.1 hb, String.toList_append, hinner,
      List.length_append] at hlen
    have : "[".toList.length = 1 := rfl
    omega
  | none =>
    have hbracket := Str.stripPrefix_eq_none.1 hb
    refine ⟨fun hport => ?_, hbracket⟩
    have htake : text.toList.takeWhile (· != ':') = text.toList := by
      rw [hostText_of_not_bracket hbracket] at h
      simpa using congrArg String.toList h
    have := List.takeWhile_eq_self_iff.1 htake ':' hport
    simp at this

theorem withoutScheme_of_not_mem {n : String} (hslash : '/' ∉ n.toList) :
    withoutScheme n = Str.trim n := by
  have htrim : '/' ∉ (Str.trim n).toList := fun hm => hslash ((Str.trim_infix n).subset hm)
  apply stripScheme_of_not_startsWith
  · exact Str.startsWith_eq_false_of_not_mem htrim (by decide)
  · exact Str.startsWith_eq_false_of_not_mem htrim (by decide)

/-- A host in lower case is its own normal form when it is plain. -/
theorem Control.normalizeHost_self_iff {n : String} (hslash : '/' ∉ n.toList)
    (hne : Str.trim n ≠ "") (hlower : Str.toAsciiLowercase n = n) :
    Control.normalizeHost n = .ok n ↔ PlainHost n := by
  rw [Control.normalizeHost_eq_ok_iff, hostName, withoutScheme_of_not_mem hslash]
  constructor
  · rintro ⟨-, hclosed, hn, -⟩
    -- no step of the normalisation may shorten the text
    have hlen : n.toList.length =
        (hostText (Str.trimEndMatches (Str.trim n) '.')).toList.length := by
      conv_lhs => rw [hn]
      rw [Str.toList_toAsciiLowercase, List.length_map]
    have h1 := (hostText_within (Str.trimEndMatches (Str.trim n) '.')).length_le
    have h2 := (Str.trimEndMatches_prefix (Str.trim n) '.').length_le
    have htrim : Str.trim n = n := Str.eq_of_infix_of_length (Str.trim_infix n) (by omega)
    rw [htrim] at h1 h2 hlen hclosed
    have hdot : Str.trimEndMatches n '.' = n :=
      Str.eq_of_infix_of_length (Str.trimEndMatches_prefix n '.').isInfix (by omega)
    rw [hdot] at h1 hlen hclosed
    have htext : hostText n = n := Str.eq_of_infix_of_length (hostText_within n) (by omega)
    obtain ⟨hport, hbracket⟩ := plain_of_hostText_eq hclosed htext
    exact ⟨htrim, hdot, hport, hbracket⟩
  · intro h
    rw [h.trimmed, h.undotted, h.hostText_eq, hlower]
    refine ⟨hslash, ?_, rfl, h.trimmed ▸ hne⟩
    intro inner hinner
    rw [Str.stripPrefix_eq_none.2 h.noBracket] at hinner
    cases hinner

/-- An address with a plain name does not begin with white space. -/
theorem head_of_plain {address : String} (hne : hostText address ≠ "")
    (hplain : PlainHost (hostText address)) :
    ∃ c, address.toList.head? = some c ∧ Str.isWhitespace c = false := by
  cases hb : Str.startsWith address "[" with
  | true => exact ⟨'[', startsWith_bracket_iff.1 hb, by decide⟩
  | false =>
    have htext := hostText_of_not_bracket hb
    cases haddress : address.toList with
    | nil =>
      rw [htext, haddress] at hne
      exact absurd rfl hne
    | cons a rest =>
      refine ⟨a, rfl, (Str.trim_eq_self_iff.1 hplain.trimmed).1 a ?_⟩
      rw [haddress, List.takeWhile_cons] at htext
      split_ifs at htext with ha
      · rw [htext]
        simp
      · rw [htext] at hne
        exact absurd rfl hne

/-- A `Host` header whose name is plain needs no trimming. -/
theorem trim_withoutScheme {h : String} (hne : hostName h ≠ "") (hplain : PlainHost (hostName h)) :
    Str.trim (withoutScheme h) = withoutScheme h := by
  rw [Str.trim_eq_self_iff]
  refine ⟨fun c hc => ?_, getLast_withoutScheme h⟩
  obtain ⟨dots, hdots⟩ := Str.trimEndMatches_prefix (withoutScheme h) '.'
  obtain ⟨a, ha, hspace⟩ := head_of_plain hne hplain
  rw [← hdots, List.head?_append, ha, Option.some_or] at hc
  cases hc
  exact hspace

/-! ### One tenant under all names -/

/-- The services agree that `h`, whose normal form is `n`, means the tenant of `record`. -/
structure SameTenant (h n : String) (record : StoredTenant) : Prop where
  /-- The `Host` header is brought to the same form. -/
  header : Relay.normalizeHost (withoutScheme h) = n
  /-- The tenant is found under the `Host` header. -/
  found : ∀ tenants : Tenants,
    (tenants.upsertTenant record).tenantByHost (Relay.normalizeHost (withoutScheme h)) = some record
  /-- The URL made of the normal form leads back to it. -/
  url : relayHostFromUrl (relayUrlFromHost n) = some n
  /-- The URL made of what the user has written leads to the normal form. -/
  tag : relayHostFromUrl ("wss://" ++ withoutScheme h) = some n
  /-- An event that names the relay by `h` passes the check of its `relay` tag. -/
  check : relayHostFromUrl ("wss://" ++ withoutScheme h) =
    relayHostFromUrl (relayUrlFromHost record.host)
  /-- The normal form is its own normal form. -/
  again : Control.normalizeHost n = .ok n

theorem relayUrlFromHost_of_not_mem {n : String} (hslash : '/' ∉ n.toList) :
    relayUrlFromHost n = "wss://" ++ Str.trim n := by
  have htrim : '/' ∉ (Str.trim n).toList := fun hm => hslash ((Str.trim_infix n).subset hm)
  have hws := Str.startsWith_eq_false_of_not_mem htrim (show '/' ∈ "ws://".toList by decide)
  have hwss := Str.startsWith_eq_false_of_not_mem htrim (show '/' ∈ "wss://".toList by decide)
  unfold relayUrlFromHost
  simp only [hws, hwss, Bool.or_self, Bool.false_eq_true, if_false]

/-- The URL of a plain host in lower case. -/
theorem relayHostFromUrl_relayUrlFromHost {n : String} (hslash : '/' ∉ n.toList) (hne : n ≠ "")
    (hlower : Str.toAsciiLowercase n = n) (hplain : PlainHost n) :
    relayHostFromUrl (relayUrlFromHost n) = some n := by
  rw [relayUrlFromHost_of_not_mem hslash, hplain.trimmed,
    relayHostFromUrl_wss hne hslash (Str.trim_eq_self_iff.1 hplain.trimmed).2, hplain.undotted,
    hplain.hostText_eq, hlower]

/-- The URL of a host that the control service accepts leads to its normal form. -/
theorem relayHostFromUrl_of_normalizeHost {h n : String} (hn : Control.normalizeHost h = .ok n) :
    relayHostFromUrl ("wss://" ++ withoutScheme h) = some n := by
  obtain ⟨hslash, -, rfl, hne⟩ := Control.normalizeHost_eq_ok_iff.1 hn
  refine relayHostFromUrl_wss ?_ ?_ (getLast_withoutScheme h)
  · intro hempty
    rw [hostName, hempty] at hne
    exact hne (by decide +kernel)
  · exact fun hm => hslash (Str.mem_trimEndMatches hm (by decide))

section

variable {h n id relayPubkey relaySecretKid : String} {relaySecret relaySecretNonce : List UInt8}
  {name description icon banner contact : Option String}
  {authRequired publicRead publicWrite : Bool} {createdAt updatedAt : ℤ} {record : StoredTenant}

/-- A host that is accepted means the same tenant everywhere when its name is plain. -/
theorem sameTenant_iff (hn : Control.normalizeHost h = .ok n)
    (hrecord : RelayTenantRecord.new id n relayPubkey relaySecret relaySecretNonce relaySecretKid
      name description icon banner contact authRequired publicRead publicWrite createdAt updatedAt =
        .ok record) :
    SameTenant h n record ↔ PlainHost (hostName h) := by
  obtain ⟨hslash, -, rfl, hne⟩ := Control.normalizeHost_eq_ok_iff.1 hn
  have hlower := Str.toAsciiLowercase_toAsciiLowercase (hostName h)
  have hname : hostName h ≠ "" := by
    intro hempty
    rw [hempty] at hne
    exact hne (by decide +kernel)
  have hname' : Str.toAsciiLowercase (hostName h) ≠ "" := by
    intro hempty
    rw [hempty] at hne
    exact hne (by decide +kernel)
  have hnslash : '/' ∉ (Str.toAsciiLowercase (hostName h)).toList := by
    rw [Str.mem_toAsciiLowercase_iff rfl]
    exact fun hm => hslash ((hostText_within _).subset hm)
  rw [← plainHost_toAsciiLowercase_iff]
  constructor
  · intro hsame
    exact (Control.normalizeHost_self_iff hnslash hne hlower).1 hsame.again
  · intro hplain
    have hplain' := plainHost_toAsciiLowercase_iff.1 hplain
    have hheader : Relay.normalizeHost (withoutScheme h) = Str.toAsciiLowercase (hostName h) :=
      Relay.normalizeHost_eq (trim_withoutScheme hname hplain') hplain'.undotted
    have hhost : record.host = Str.toAsciiLowercase (hostName h) := by
      rw [(fields_of_new hrecord).2.1, hplain.trimmed, hlower]
    have hurl := relayHostFromUrl_relayUrlFromHost hnslash hname' hlower hplain
    have htag := relayHostFromUrl_of_normalizeHost hn
    refine ⟨hheader, fun tenants => ?_, hurl, htag, ?_,
      (Control.normalizeHost_self_iff hnslash hne hlower).2 hplain⟩
    · rw [hheader, ← hhost, Tenants.tenantByHost_upsertTenant_self]
    · rw [htag, hhost, hurl]

end

/-- The record of a tenant with the given host, as the control service makes it. -/
def sampleTenant (host : String) : Except StorageError StoredTenant :=
  RelayTenantRecord.new host host "f9308a019258c31049344f85f89d5229b531c845836f99b08601f113bce036f9"
    [7] [1] "local" none none none none none true false false 0 0

/-- A host with scheme, capitals, a port and a trailing dot. -/
theorem sameTenant_iff_example :
    ∃ record, sampleTenant "org.example" = .ok record ∧
      (SameTenant " https://Org.Example:8080." "org.example" record ↔
        PlainHost (hostName " https://Org.Example:8080.")) ∧
      PlainHost (hostName " https://Org.Example:8080.") := by
  cases hrecord : sampleTenant "org.example" with
  | error err =>
    exfalso
    have hok : (sampleTenant "org.example").isOk = true := by decide +kernel
    rw [hrecord] at hok
    cases hok
  | ok record =>
    refine ⟨record, rfl, sameTenant_iff (by decide +kernel) hrecord, ?_⟩
    constructor <;> decide +kernel

/-- The address of an IPv6 host: the URL made of its normal form leads to another host, and the
normal form is not its own. -/
theorem not_sameTenant_ipv6 :
    ∃ record, Control.normalizeHost "[::1]" = .ok "::1" ∧ sampleTenant "::1" = .ok record ∧
      ¬ SameTenant "[::1]" "::1" record ∧ relayHostFromUrl (relayUrlFromHost "::1") = some "" ∧
      Control.normalizeHost "::1" = .error (.badRequest "invalid host") := by
  cases hrecord : sampleTenant "::1" with
  | error err =>
    exfalso
    have hok : (sampleTenant "::1").isOk = true := by decide +kernel
    rw [hrecord] at hok
    cases hok
  | ok record =>
    refine ⟨record, by decide +kernel, rfl, fun h => ?_, by decide +kernel, by decide +kernel⟩
    have hurl : relayHostFromUrl (relayUrlFromHost "::1") ≠ some "::1" := by decide +kernel
    exact hurl h.url

end Gittree
