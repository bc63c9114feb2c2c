import Gittree.Relay.WriteGate

/-!
# How a session is authenticated

The key that a session is authenticated with comes from an `AUTH` message that has passed the gates
of `handle_auth`.  Its last gate compares `(now - created_at).abs()` with the allowed skew in 64-bit
arithmetic, where the subtraction wraps around and `abs` leaves `i64::MIN` as it is: an event that is
dated exactly `2 ^ 63` seconds before or after the clock passes.

* `skew_le_iff`: the distances that the last gate lets through;
* `authenticatedPubkey_exchange`: the only step that changes the key;
* `earned_of_reach`: while no event is dated at such a distance, the key was earned;
* `not_earned`: an event of the far past that authenticates.
-/

namespace Gittree

open Rust
open Rust.Json (Value)

/-- The values of an `i64`. -/
def IsI64 (n : ℤ) : Prop := i64Min ≤ n ∧ n ≤ i64Max

/-- The distances from the clock that `handle_auth` accepts. -/
theorem skew_le_iff {now createdAt : ℤ} (hnow : IsI64 now) (hcreated : IsI64 createdAt) :
    wrapI64 |wrapI64 (now - createdAt)| ≤ authMaxSkewSecs ↔
      |now - createdAt| ≤ authMaxSkewSecs ∨ |now - createdAt| = 2 ^ 63 ∨
        2 ^ 64 - authMaxSkewSecs ≤ |now - createdAt| := by
  unfold IsI64 i64Min i64Max at hnow hcreated
  unfold wrapI64 authMaxSkewSecs
  rcases abs_cases (now - createdAt) with ⟨h1, h2⟩ | ⟨h1, h2⟩ <;>
    rcases abs_cases ((now - createdAt + 2 ^ 63) % 2 ^ 64 - 2 ^ 63) with ⟨h3, h4⟩ | ⟨h3, h4⟩ <;>
    rw [h1, h3] <;> omega

namespace Session

variable {σ : Type}

/-! ### One step -/

/-- The gates of `handle_auth` depend on the fixed parts of the session only. -/
theorem AuthGates.of_frame {s t : Session} (hframe : t.frame = s.frame) {env : Env}
    {event : NostrEvent} (h : s.AuthGates env event) : t.AuthGates env event := by
  have hurl : t.frame.relayUrl = s.frame.relayUrl := congrArg Session.relayUrl hframe
  have hauth : t.frame.auth = s.frame.auth := congrArg Session.auth hframe
  obtain ⟨auth, hs, hchallenge⟩ := h.challenge
  have hrelay := h.relay
  rw [show s.relayUrl = t.relayUrl from hurl.symm] at hrelay
  refine ⟨h.kind, h.verified, ?_, hrelay⟩
  simp only [frame, hs, Option.map_some, Option.map_eq_some_iff, AuthState.mk.injEq] at hauth
  obtain ⟨auth', ht, hc, -⟩ := hauth
  exact ⟨auth', ht, by rw [hchallenge, hc]⟩

/-- The one message that changes the key of a session. -/
structure Authenticates (s : Session) (env : Env) (msg : ClientMessage) (event : NostrEvent) :
    Prop where
  read : ∃ value, msg = .auth value ∧ NostrEvent.fromValue value = some event
  gates : s.AuthGates env event
  clock : wrapI64 |wrapI64 (env.now - event.createdAt)| ≤ authMaxSkewSecs

/-- A message authenticates the session and is accepted, or it leaves the key as it is. -/
theorem authenticatedPubkey_handleMessage (s : Session) (store : EventStore σ) (env : Env)
    (repos : Repos σ) (msg : ClientMessage) :
    (∃ event, s.Authenticates env msg event ∧
      (s.handleMessage store env repos msg).session.authenticatedPubkey = some event.pubkey ∧
      (s.handleMessage store env repos msg).replies = [.ok event.id true "authenticated"]) ∨
      (∀ event, ¬ s.Authenticates env msg event) ∧
        (s.handleMessage store env repos msg).session.authenticatedPubkey =
          s.authenticatedPubkey := by
  by_cases hauth : ∃ event, s.Authenticates env msg event
  · obtain ⟨event, hauth⟩ := hauth
    obtain ⟨value, rfl, hread⟩ := hauth.read
    obtain ⟨old, hold, -⟩ := hauth.gates.challenge
    have hcheck := checkAuth_eq_ok_iff.2 ⟨hauth.gates, hauth.clock, old, hold, rfl⟩
    refine Or.inl ⟨event, hauth, ?_⟩
    show (s.handleAuth env repos value).session.authenticatedPubkey = _ ∧
      (s.handleAuth env repos value).replies = _
    unfold handleAuth
    simp only [hread, hcheck]
    exact ⟨rfl, trivial⟩
  · refine Or.inr ⟨not_exists.1 hauth, ?_⟩
    have heff := effect_handleMessage s store env repos msg
    generalize s.handleMessage store env repos msg = r at heff
    cases heff with
    | authenticated value event auth hmsg hread hcheck =>
      obtain ⟨hgates, hclock, -⟩ := checkAuth_eq_ok_iff.1 hcheck
      exact absurd ⟨event, ⟨value, hmsg, hread⟩, hgates, hclock⟩ hauth
    | stored limiter value event hmsg hread hcheck hother hwrite =>
      rw [(storeEvent_frame _ store env repos event).1]
      rfl
    | answered => rfl
    | closed => rfl
    | opened => rfl
    | membership => rfl

/-! ### Runs -/

/-- A step of a session, with the action as its output. -/
def act (store : EventStore σ) (s : Session) (action : SessionAction σ) :
    Option (Session × SessionAction σ) :=
  (s.exchange store action).map fun r => (r.1, action)

/-- A session that is not authenticated and has handled nothing. -/
structure Anonymous (run : Session × List (SessionAction σ)) : Prop where
  key : run.1.authenticatedPubkey = none
  history : run.2 = []

/-- The key of the session was the author of an event in an earlier `AUTH` message that has passed
the gates, dated within the allowed skew of the clock of that moment. -/
def Earned (run : Session × List (SessionAction σ)) : Prop :=
  ∀ pubkey, run.1.authenticatedPubkey = some pubkey → ∃ value env repos event,
    .message (.auth value) env repos ∈ run.2 ∧ NostrEvent.fromValue value = some event ∧
    event.pubkey = pubkey ∧ run.1.AuthGates env event ∧
    |env.now - event.createdAt| ≤ authMaxSkewSecs

/-- The steps whose `AUTH` event, if it passes the other gates, is not dated at a distance from the
clock at which 64-bit arithmetic fails; clocks and dates are 64-bit. -/
def Datable (run : Session × List (SessionAction σ)) : SessionAction σ → Prop
  | .message (.auth value) env _ => ∀ event, NostrEvent.fromValue value = some event →
      run.1.AuthGates env event → IsI64 env.now ∧ IsI64 event.createdAt ∧
        |env.now - event.createdAt| ≠ 2 ^ 63 ∧
        |env.now - event.createdAt| < 2 ^ 64 - authMaxSkewSecs
  | _ => True

theorem frame_exchange {store : EventStore σ} {s t : Session} {action : SessionAction σ}
    {x : Exchange} (h : s.exchange store action = some (t, x)) : t.frame = s.frame := by
  cases action with
  | message msg env repos =>
    cases h
    exact frame_handleMessage s store env repos msg
  | dispatch event =>
    cases h
    rfl

/-- What was earned before a step and keeps the key stays earned. -/
theorem Earned.mono {s t : Session} {history : List (SessionAction σ)} {action : SessionAction σ}
    (h : Earned (s, history)) (hframe : t.frame = s.frame)
    (hkey : t.authenticatedPubkey = s.authenticatedPubkey) : Earned (t, history ++ [action]) := by
  intro pubkey hp
  obtain ⟨value, env, repos, event, hmem, hread, hpub, hgates, hclock⟩ := h pubkey (hkey ▸ hp)
  exact ⟨value, env, repos, event, List.mem_append_left _ hmem, hread, hpub, hgates.of_frame hframe,
    hclock⟩

theorem Earned.act {store : EventStore σ} {s t : Session} {history : List (SessionAction σ)}
    {action : SessionAction σ} {x : Exchange} (h : Earned (s, history))
    (hok : Datable (s, history) action) (hstep : s.exchange store action = some (t, x)) :
    Earned (t, history ++ [action]) := by
  have hframe := frame_exchange hstep
  cases action with
  | dispatch event =>
    cases hstep
    exact h.mono hframe rfl
  | message msg env repos =>
    cases hstep
    rcases s.authenticatedPubkey_handleMessage store env repos msg with
      ⟨event, hauth, hkey, -⟩ | ⟨-, hkey⟩
    · obtain ⟨value, rfl, hread⟩ := hauth.read
      obtain ⟨hnow, hcreated, hne, hlt⟩ := hok event hread hauth.gates
      have hclock := (skew_le_iff hnow hcreated).1 hauth.clock
      intro pubkey hp
      obtain rfl : event.pubkey = pubkey := Option.some.inj (hkey.symm.trans hp)
      refine ⟨value, env, repos, event, by simp, hread, rfl, hauth.gates.of_frame hframe, ?_⟩
      exact hclock.resolve_right fun hfar => hfar.elim hne hlt.not_ge
    · exact h.mono hframe hkey

/-- In every run whose `AUTH` events are not dated at such a distance, the key of the session was
earned, and only an accepted `AUTH` changes it. -/
theorem earned_of_reach {store : EventStore σ} {run : Session × List (SessionAction σ)}
    (hreach : Runs.Reach (Runs.recorded (act store)) Datable Anonymous run) :
    Earned run ∧
      ∀ msg env repos, (run.1.handleMessage store env repos msg).session.authenticatedPubkey =
          run.1.authenticatedPubkey ∨
        ∃ value event, msg = .auth value ∧ NostrEvent.fromValue value = some event ∧
          (run.1.handleMessage store env repos msg).session.authenticatedPubkey =
            some event.pubkey ∧
          (run.1.handleMessage store env repos msg).replies = [.ok event.id true "authenticated"] := by
  constructor
  · refine hreach.invariant (I := Earned) ?_ ?_
    · intro run h pubkey hp
      rw [h.key] at hp
      cases hp
    · rintro ⟨s, history⟩ action ⟨t, history'⟩ o h hok hstep
      obtain ⟨hstep, rfl⟩ := Runs.recorded_eq_some.1 hstep
      obtain ⟨⟨t', x⟩, hx, heq⟩ := Option.map_eq_some_iff.1 hstep
      cases heq
      exact h.act hok hx
  · intro msg env repos
    rcases run.1.authenticatedPubkey_handleMessage store env repos msg with
      ⟨event, hauth, hkey, hreplies⟩ | ⟨-, hkey⟩
    · obtain ⟨value, rfl, hread⟩ := hauth.read
      exact Or.inr ⟨value, event, rfl, hread, hkey, hreplies⟩
    · exact Or.inl hkey

/-! ### Two runs -/

/-- A session that asks for authentication. -/
def challenged : Session where
  auth := some ⟨"0f", none⟩
  relayUrl := some "wss://alpha.example"
  readAuthRequired := true
  writeAuthRequired := true

theorem anonymous_challenged :
    Anonymous ((challenged, []) : Session × List (SessionAction MemoryStore)) := ⟨rfl, rfl⟩

/-- A signed answer to the challenge, at time 10. -/
def authEvent : NostrEvent where
  id := "271ea23655db1e708bb43db70bc0ee8f8952fe1ed9809b77b6935d51b2b3ffbc"
  pubkey := "f9308a019258c31049344f85f89d5229b531c845836f99b08601f113bce036f9"
  createdAt := 10
  kind := 22242
  tags := [["relay", "wss://alpha.example"], ["challenge", "0f"]]
  content := ""
  sig := "cc1815c28fd10cdeddec8a946edd162c1f0de2daf9ffbdf38ef77fc3a1ac4947" ++
    "cba8de41e54e3cc0f108ca1692f2343ca0b77af0351d9a50b95512ec01a3952a"

/-- A signed answer to the challenge, dated `2 ^ 63` seconds before time 10. -/
def farEvent : NostrEvent where
  id := "f73082c1a146cd0b1ef0fc4e35b18aeac3985977b4802e3cb15b38325e02a9d2"
  pubkey := "f9308a019258c31049344f85f89d5229b531c845836f99b08601f113bce036f9"
  createdAt := 10 - 2 ^ 63
  kind := 22242
  tags := [["relay", "wss://alpha.example"], ["challenge", "0f"]]
  content := ""
  sig := "c1020e972ad6006698228e968be97184907af74b9d279ba5839a33d7f03c5b38" ++
    "8ba8e2bf8c3de26c59811eb607eb21415c8c9341dba2d2153b84a55f73e3d896"

/-- An `AUTH` message at time 10. -/
def authenticateWith (event : NostrEvent) : SessionAction MemoryStore :=
  .message (.auth event.toValue)
    { Relay.noteEnv with crypto := NostrEvent.signedBy [authEvent, farEvent] } ⟨MemoryStore.new, ∅⟩

theorem datable_authEvent :
    Datable ((challenged, []) : Session × List (SessionAction MemoryStore))
      (authenticateWith authEvent) := by
  intro event hread _
  have hown : NostrEvent.fromValue authEvent.toValue = some authEvent := by decide +kernel
  obtain rfl : authEvent = event := Option.some.inj (hown.symm.trans hread)
  refine ⟨?_, ?_, ?_, ?_⟩ <;>
    norm_num [IsI64, i64Min, i64Max, Relay.noteEnv, authEvent, authMaxSkewSecs]

theorem earned_of_reach_authEvent :
    ∃ run, Runs.Reach (Runs.recorded (act MemoryStore.eventStore)) Datable Anonymous run ∧
      run.1.authenticatedPubkey = some authEvent.pubkey ∧ Earned run ∧ ∀ msg env repos,
        (run.1.handleMessage MemoryStore.eventStore env repos msg).session.authenticatedPubkey =
            run.1.authenticatedPubkey ∨
          ∃ value event, msg = .auth value ∧ NostrEvent.fromValue value = some event ∧
            (run.1.handleMessage MemoryStore.eventStore env repos msg).session.authenticatedPubkey =
              some event.pubkey ∧
            (run.1.handleMessage MemoryStore.eventStore env repos msg).replies =
              [.ok event.id true "authenticated"] := by
  have hrun : (Runs.recorded (act MemoryStore.eventStore) (challenged, [])
      (authenticateWith authEvent)).map (fun r => r.1.1.authenticatedPubkey) =
        some (some authEvent.pubkey) := by decide +kernel
  obtain ⟨⟨run, o⟩, hstep, hkey⟩ := Option.map_eq_some_iff.1 hrun
  have hreach := Runs.Reach.step (.start anonymous_challenged) datable_authEvent hstep
  exact ⟨run, hreach, hkey, earned_of_reach hreach⟩

/-- An event of the far past authenticates the session. -/
theorem not_earned :
    ¬ ∀ run, Runs.Reach (Runs.recorded (act MemoryStore.eventStore)) (fun _ _ => True) Anonymous
      run → Earned run := by
  intro h
  have hrun : (Runs.recorded (act MemoryStore.eventStore) (challenged, [])
      (authenticateWith farEvent)).map (fun r => r.1.1.authenticatedPubkey) =
        some (some farEvent.pubkey) := by decide +kernel
  obtain ⟨⟨run, o⟩, hstep, hkey⟩ := Option.map_eq_some_iff.1 hrun
  have hreach : Runs.Reach (Runs.recorded (act MemoryStore.eventStore)) (fun _ _ => True) Anonymous
      run := .step (.start anonymous_challenged) trivial hstep
  obtain ⟨value, env, repos, event, hmem, hread, -, -, hclock⟩ := h run hreach farEvent.pubkey hkey
  have hhistory : run.2 = [authenticateWith farEvent] := by
    obtain ⟨hs, hhistory⟩ := Runs.recorded_eq_some.1 hstep
    obtain ⟨r, -, heq⟩ := Option.map_eq_some_iff.1 hs
    rw [hhistory, ← (Prod.mk.inj heq).2]
    rfl
  rw [hhistory, List.mem_singleton] at hmem
  cases hmem
  have hown : NostrEvent.fromValue farEvent.toValue = some farEvent := by decide +kernel
  obtain rfl : farEvent = event := Option.some.inj (hown.symm.trans hread)
  norm_num [Relay.noteEnv, farEvent, authMaxSkewSecs] at hclock

end Session
end Gittree
