import Gittree.Lib.Windows
import Gittree.Relay.Session

/-!
# What the rate limiter lets through

A session counts its events and its requests in windows of a minute.  A window opens at the first
check after the last one has run out, so a minute of the clock may see the end of one window and
the beginning of the next.

* `hitLimit_some`: what one check does;
* `Tracks`, `tracks_run`: what holds of every run of checks;
* `RateLimiter.checksOf_run`: each counter sees its own checks only;
* `RateLimiter.throughput`: the limit is the bound in every window, and twice the limit in every
  minute.
-/

namespace Gittree

open Windows

/-! ### One counter -/

namespace RateLimitCounter

/-- The checks of one counter at the given times. -/
def run (counter : RateLimitCounter) (limit : Option ℕ) (window : ℕ) : List ℕ → List Entry
  | [] => []
  | now :: times =>
    let hit := counter.hitLimit limit window now
    ⟨now, hit.2.windowStart, !hit.1⟩ :: hit.2.run limit window times

/-- What one check does: it opens a window, it is counted, or it is rejected. -/
theorem hitLimit_some {limit window now : ℕ} (hlimit : 0 < limit) (counter : RateLimitCounter) :
    counter.hitLimit (some limit) window now =
      if window ≤ now - counter.windowStart then (false, ⟨1, now⟩)
      else if limit ≤ counter.count then (true, counter)
      else (false, ⟨counter.count + 1, counter.windowStart⟩) := by
  unfold hitLimit
  simp only [if_neg hlimit.ne']
  by_cases hwindow : window ≤ now - counter.windowStart
  · simp only [if_pos hwindow]
    rw [if_neg (Nat.not_le.2 hlimit)]
  · simp only [if_neg hwindow]

/-- What is known of the checks of a counter. -/
structure Tracks (counter : RateLimitCounter) (limit window : ℕ) (times : List ℕ)
    (log : List Entry) : Prop where
  /-- The checks are made in the order of the times. -/
  times_eq : log.map Entry.time = times
  /-- Their windows follow one another. -/
  spaced : Spaced window log
  /-- A window is the counter's own, or it opens later, at a check. -/
  opened : ∀ e ∈ log, e.opened = counter.windowStart ∨
    (counter.windowStart + window ≤ e.opened ∧ e.opened ∈ times)
  /-- The counter's own window has room for the rest of its limit. -/
  room : passes (inWindow counter.windowStart) log + counter.count ≤ limit
  /-- Every other window has room for the limit. -/
  within : ∀ start, start ≠ counter.windowStart → passes (inWindow start) log ≤ limit
  /-- A check is rejected in a window that is still open and used up. -/
  rejected : ∀ before e after, log = before ++ e :: after → e.passed = false →
    e.time < e.opened + window ∧
      passes (inWindow e.opened) before +
        (if e.opened = counter.windowStart then counter.count else 0) = limit

theorem tracks_nil {counter : RateLimitCounter} {limit : ℕ} (hcount : counter.count ≤ limit)
    (window : ℕ) : Tracks counter limit window [] [] where
  times_eq := rfl
  spaced := ⟨fun e he => absurd he List.not_mem_nil, .nil⟩
  opened := fun e he => absurd he List.not_mem_nil
  room := by simpa using hcount
  within := fun start _ => Nat.zero_le limit
  rejected := by
    intro before e after h
    simp at h

section

variable {counter : RateLimitCounter} {limit window now : ℕ} {times : List ℕ} {log : List Entry}

/-- The check opens a window. -/
theorem Tracks.reopen (hwindow : 0 < window) (hcount : counter.count ≤ limit)
    (hover : window ≤ now - counter.windowStart)
    (htail : Tracks ⟨1, now⟩ limit window times log) :
    Tracks counter limit window (now :: times) (⟨now, now, true⟩ :: log) := by
  have hstart : counter.windowStart + window ≤ now := by omega
  have hlater : ∀ e ∈ log, now ≤ e.opened := by
    intro e he
    rcases htail.opened e he with heq | ⟨hle, -⟩
    · exact heq.ge
    · exact (Nat.le_add_right now window).trans hle
  have hroom : passes (inWindow now) log + 1 ≤ limit := htail.room
  -- No later check lies in the window that has run out.
  have hnone : passes (inWindow counter.windowStart) log = 0 := by
    refine passes_eq_zero ?_
    intro e he
    have := hlater e he
    exact decide_eq_false (by omega)
  refine ⟨?_, ⟨?_, ?_⟩, ?_, ?_, ?_, ?_⟩
  · rw [List.map_cons, htail.times_eq]
  · intro e he
    rcases List.mem_cons.1 he with rfl | he
    · exact le_rfl
    · exact htail.spaced.opened_le e he
  · refine List.pairwise_cons.2 ⟨?_, htail.spaced.follows⟩
    intro e he
    rcases htail.opened e he with heq | ⟨hle, -⟩
    · exact Or.inl heq
    · exact Or.inr ⟨hle, (Nat.le_add_right now window).trans hle⟩
  · intro e he
    rcases List.mem_cons.1 he with rfl | he
    · exact Or.inr ⟨hstart, List.mem_cons_self⟩
    · rcases htail.opened e he with heq | ⟨hle, hmem⟩
      · exact Or.inr ⟨hstart.trans heq.ge, heq ▸ List.mem_cons_self⟩
      · exact Or.inr ⟨hstart.trans (hlater e he), List.mem_cons_of_mem now hmem⟩
  · rw [passes_inWindow_cons, hnone, if_neg (by show now ≠ counter.windowStart; omega)]
    simpa using hcount
  · intro start _
    rw [passes_inWindow_cons]
    by_cases hnow : now = start
    · subst hnow
      simpa using hroom
    · rw [if_neg hnow]
      exact htail.within start (Ne.symm hnow)
  · intro before e after hsplit hfail
    cases before with
    | nil =>
      obtain ⟨rfl, -⟩ := List.cons.inj hsplit
      cases hfail
    | cons first before =>
      obtain ⟨rfl, hrest⟩ := List.cons.inj hsplit
      obtain ⟨hopen, hfull⟩ := htail.rejected before e after hrest hfail
      have hlate := hlater e (hrest ▸ List.mem_append_right before List.mem_cons_self)
      refine ⟨hopen, ?_⟩
      rw [passes_inWindow_cons, if_neg (by omega : ¬ e.opened = counter.windowStart)]
      by_cases hnow : now = e.opened
      · rw [if_pos hnow.symm] at hfull
        simpa [hnow] using hfull
      · rw [if_neg (Ne.symm hnow)] at hfull
        simpa [hnow] using hfull

/-- The check is made in the window that is open. -/
theorem Tracks.stay {passed : Bool} {count : ℕ}
    (hsorted : (counter.windowStart :: now :: times).Pairwise (· ≤ ·))
    (hopen : now < counter.windowStart + window)
    (hcount : count = counter.count + if passed then 1 else 0)
    (hfull : passed = false → counter.count = limit)
    (htail : Tracks ⟨count, counter.windowStart⟩ limit window times log) :
    Tracks counter limit window (now :: times)
      (⟨now, counter.windowStart, passed⟩ :: log) := by
  obtain ⟨hstart, hsorted⟩ := List.pairwise_cons.1 hsorted
  refine ⟨?_, ⟨?_, ?_⟩, ?_, ?_, ?_, ?_⟩
  · rw [List.map_cons, htail.times_eq]
  · intro e he
    rcases List.mem_cons.1 he with rfl | he
    · exact hstart now List.mem_cons_self
    · exact htail.spaced.opened_le e he
  · refine List.pairwise_cons.2 ⟨?_, htail.spaced.follows⟩
    intro e he
    rcases htail.opened e he with heq | ⟨hle, hmem⟩
    · exact Or.inl heq
    · exact Or.inr ⟨hle, (List.pairwise_cons.1 hsorted).1 _ hmem⟩
  · intro e he
    rcases List.mem_cons.1 he with rfl | he
    · exact Or.inl rfl
    · rcases htail.opened e he with heq | ⟨hle, hmem⟩
      · exact Or.inl heq
      · exact Or.inr ⟨hle, List.mem_cons_of_mem now hmem⟩
  · have hroom : passes (inWindow counter.windowStart) log + count ≤ limit := htail.room
    rw [passes_inWindow_cons, if_pos rfl]
    show passes _ log + (if passed then 1 else 0) + counter.count ≤ limit
    omega
  · intro start hne
    rw [passes_inWindow_cons, if_neg (Ne.symm hne)]
    exact htail.within start hne
  · intro before e after hsplit hfail
    cases before with
    | nil =>
      obtain ⟨rfl, -⟩ := List.cons.inj hsplit
      refine ⟨hopen, ?_⟩
      rw [passes_nil, Nat.zero_add, if_pos rfl]
      exact hfull hfail
    | cons first before =>
      obtain ⟨rfl, hrest⟩ := List.cons.inj hsplit
      obtain ⟨hlate, hused⟩ := htail.rejected before e after hrest hfail
      refine ⟨hlate, ?_⟩
      rw [passes_inWindow_cons]
      by_cases hown : e.opened = counter.windowStart
      · rw [if_pos hown] at hused ⊢
        rw [if_pos hown.symm]
        show passes (inWindow e.opened) before + (if passed then 1 else 0) + counter.count = limit
        change _ + count = limit at hused
        omega
      · rw [if_neg hown] at hused ⊢
        rw [if_neg (Ne.symm hown)]
        exact hused

/-- Every run of checks at times in order is tracked. -/
theorem tracks_run (hlimit : 0 < limit) (hwindow : 0 < window) (times : List ℕ)
    (counter : RateLimitCounter) (hcount : counter.count ≤ limit)
    (hsorted : (counter.windowStart :: times).Pairwise (· ≤ ·)) :
    Tracks counter limit window times (counter.run (some limit) window times) := by
  induction times generalizing counter with
  | nil => exact tracks_nil hcount window
  | cons now times ih =>
    unfold run
    rw [hitLimit_some hlimit]
    obtain ⟨hstart, htimes⟩ := List.pairwise_cons.1 hsorted
    by_cases hover : window ≤ now - counter.windowStart
    · rw [if_pos hover]
      exact Tracks.reopen hwindow hcount hover (ih ⟨1, now⟩ hlimit htimes)
    · rw [if_neg hover]
      have hopen : now < counter.windowStart + window := by omega
      have hrest : (counter.windowStart :: times).Pairwise (· ≤ ·) :=
        List.pairwise_cons.2 ⟨fun t ht => hstart t (List.mem_cons_of_mem now ht),
          (List.pairwise_cons.1 htimes).2⟩
      by_cases hfull : limit ≤ counter.count
      · rw [if_pos hfull]
        exact Tracks.stay hsorted hopen rfl (fun _ => hcount.antisymm hfull) (ih counter hcount hrest)
      · rw [if_neg hfull]
        have hnext : counter.count + 1 ≤ limit := Nat.lt_of_not_le hfull
        exact Tracks.stay hsorted hopen rfl (fun h => nomatch h) (ih ⟨_, _⟩ hnext hrest)

end

end RateLimitCounter

/-! ### Both counters -/

/-- The two kinds of check. -/
inductive LimitKind
  | event
  | request
  deriving DecidableEq

/-- What belongs to one kind. -/
def checksOf {α : Type} (kind : LimitKind) (checks : List (LimitKind × α)) : List α :=
  (checks.filter fun check => decide (check.1 = kind)).map Prod.snd

namespace RateLimiter

def limit (limiter : RateLimiter) : LimitKind → Option ℕ
  | .event => limiter.maxEventsPerMin
  | .request => limiter.maxRequestsPerMin

def counter (limiter : RateLimiter) : LimitKind → RateLimitCounter
  | .event => limiter.events
  | .request => limiter.requests

def check (limiter : RateLimiter) : LimitKind → ℕ → Bool × RateLimiter
  | .event => limiter.checkEvent
  | .request => limiter.checkRequest

/-- The checks of a session, each at its time. -/
def run (limiter : RateLimiter) : List (LimitKind × ℕ) → List (LimitKind × Entry)
  | [] => []
  | (kind, now) :: checks =>
    let hit := limiter.check kind now
    (kind, ⟨now, (hit.2.counter kind).windowStart, !hit.1⟩) :: hit.2.run checks

@[simp]
theorem limit_check (limiter : RateLimiter) (kind other : LimitKind) (now : ℕ) :
    (limiter.check kind now).2.limit other = limiter.limit other := by
  cases kind with
  | event => cases other <;> rfl
  | request => cases other <;> rfl

@[simp]
theorem window_check (limiter : RateLimiter) (kind : LimitKind) (now : ℕ) :
    (limiter.check kind now).2.window = limiter.window := by
  cases kind with
  | event => rfl
  | request => rfl

/-- A check goes by the counter of its kind. -/
theorem check_eq_hitLimit (limiter : RateLimiter) (kind : LimitKind) (now : ℕ) :
    ((limiter.check kind now).1, (limiter.check kind now).2.counter kind) =
      (limiter.counter kind).hitLimit (limiter.limit kind) limiter.window now := by
  cases kind with
  | event => rfl
  | request => rfl

theorem counter_check_of_ne (limiter : RateLimiter) {kind other : LimitKind} (h : other ≠ kind)
    (now : ℕ) : (limiter.check other now).2.counter kind = limiter.counter kind := by
  cases kind with
  | event =>
    cases other with
    | event => exact absurd rfl h
    | request => rfl
  | request =>
    cases other with
    | event => rfl
    | request => exact absurd rfl h

/-- The checks of one kind are those of its counter alone. -/
theorem checksOf_run (kind : LimitKind) (checks : List (LimitKind × ℕ)) (limiter : RateLimiter) :
    checksOf kind (limiter.run checks) =
      (limiter.counter kind).run (limiter.limit kind) limiter.window (checksOf kind checks) := by
  induction checks generalizing limiter with
  | nil => rfl
  | cons head checks ih =>
    obtain ⟨other, now⟩ := head
    have htail := ih (limiter.check other now).2
    rw [limit_check, window_check] at htail
    unfold run
    by_cases h : other = kind
    · subst h
      have hhit := limiter.check_eq_hitLimit other now
      simp only [checksOf, List.filter_cons, decide_true, if_true, List.map_cons] at htail ⊢
      rw [RateLimitCounter.run, ← hhit, htail]
    · rw [limiter.counter_check_of_ne h now] at htail
      simpa [checksOf, h] using htail

/-- A minute, in nanoseconds. -/
def minute : ℕ := 60 * 10 ^ 9

theorem fresh_of_fromPolicy {policy : Policy} {start : ℕ} {limiter : RateLimiter}
    (h : fromPolicy policy start = some limiter) (kind : LimitKind) :
    limiter.window = minute ∧ limiter.counter kind = ⟨0, start⟩ := by
  unfold fromPolicy at h
  split_ifs at h
  obtain rfl := Option.some.inj h
  cases kind with
  | event => exact ⟨rfl, rfl⟩
  | request => exact ⟨rfl, rfl⟩

/-- The checks of one kind, among checks in order. -/
theorem pairwise_checksOf {start : ℕ} {checks : List (LimitKind × ℕ)}
    (h : (start :: checks.map Prod.snd).Pairwise (· ≤ ·)) (kind : LimitKind) :
    (start :: checksOf kind checks).Pairwise (· ≤ ·) :=
  h.sublist ((List.filter_sublist.map Prod.snd).cons_cons start)

/-- For each kind of check with a limit: no window and no two windows in a row let more pass than
they should, a check is rejected only when its window is used up and not over, and the checks of
the other kind make no difference. -/
theorem throughput {policy : Policy} {start : ℕ} {limiter : RateLimiter}
    (hlimiter : fromPolicy policy start = some limiter) {kind : LimitKind} {limit : ℕ}
    (hlimit : limiter.limit kind = some limit) (hpos : 0 < limit)
    (checks : List (LimitKind × ℕ)) (hsorted : (start :: checks.map Prod.snd).Pairwise (· ≤ ·)) :
    let log := checksOf kind (limiter.run checks)
    (∀ opened, passes (inWindow opened) log ≤ limit) ∧
    (∀ a, passes (fun e => decide (a ≤ e.time ∧ e.time < a + minute)) log ≤ 2 * limit ∧
      passes (fun e => decide (a < e.time ∧ e.time ≤ a + minute)) log ≤ 2 * limit) ∧
    (∀ before e after, log = before ++ e :: after → e.passed = false →
      e.time < e.opened + minute ∧
        passes (fun f => decide (f.opened = e.opened ∧ e.opened ≤ f.time)) before = limit) ∧
    (∀ (other : RateLimiter) (checks' : List (LimitKind × ℕ)),
      other.counter kind = limiter.counter kind → other.limit kind = limiter.limit kind →
      other.window = limiter.window → checksOf kind checks' = checksOf kind checks →
      checksOf kind (other.run checks') = log) := by
  intro log
  obtain ⟨hwindow, hcounter⟩ := fresh_of_fromPolicy hlimiter kind
  have hlog : log = RateLimitCounter.run ⟨0, start⟩ (some limit) minute (checksOf kind checks) := by
    rw [← hwindow, ← hcounter, ← hlimit]
    exact checksOf_run kind checks limiter
  have htracks : RateLimitCounter.Tracks ⟨0, start⟩ limit minute (checksOf kind checks) log := by
    rw [hlog]
    exact RateLimitCounter.tracks_run hpos (by decide) _ _ (Nat.zero_le limit)
      (pairwise_checksOf hsorted kind)
  have hwithin : ∀ opened, passes (inWindow opened) log ≤ limit := by
    intro opened
    by_cases hfirst : opened = start
    · exact hfirst ▸ htracks.room
    · exact htracks.within opened hfirst
  refine ⟨hwithin, ?_, ?_, ?_⟩
  · intro a
    constructor
    · refine passes_le_two_mul htracks.spaced hwithin ?_
      intro e f he hf
      have := of_decide_eq_true he
      have := of_decide_eq_true hf
      omega
    · refine passes_le_two_mul htracks.spaced hwithin ?_
      intro e f he hf
      have := of_decide_eq_true he
      have := of_decide_eq_true hf
      omega
  · intro before e after hsplit hfail
    obtain ⟨hopen, hused⟩ := htracks.rejected before e after hsplit hfail
    have hsince : passes (fun f => decide (f.opened = e.opened ∧ e.opened ≤ f.time)) before =
        passes (inWindow e.opened) before := by
      refine List.countP_congr ?_
      intro f hf
      have hle : f.opened ≤ f.time :=
        htracks.spaced.opened_le f (hsplit ▸ List.mem_append_left _ hf)
      have hiff : (f.opened = e.opened ∧ e.opened ≤ f.time) ↔ f.opened = e.opened :=
        and_iff_left_of_imp fun heq => heq ▸ hle
      simp [inWindow, hiff]
    refine ⟨hopen, hsince.trans ?_⟩
    simpa using hused
  · intro other checks' hsame hlimit' hwindow' hchecks
    rw [checksOf_run, hsame, hlimit', hwindow', hchecks]
    exact (checksOf_run kind checks limiter).symm

/-- Three events, with a request between them, where two may be sent in a minute. -/
theorem throughput_twoEvents :
    ∃ limiter, fromPolicy { maxEventsPerMin := some 2 } 0 = some limiter ∧
      ∀ a, passes (fun e => decide (a ≤ e.time ∧ e.time < a + minute)) (checksOf .event
        (limiter.run [(.event, 1), (.request, 2), (.event, 3), (.event, 4)])) ≤ 2 * 2 := by
  have hlimiter : fromPolicy { maxEventsPerMin := some 2 } 0 =
      some ⟨some 2, none, minute, ⟨0, 0⟩, ⟨0, 0⟩⟩ := rfl
  refine ⟨_, hlimiter, ?_⟩
  intro a
  have hlimit : limit ⟨some 2, none, minute, ⟨0, 0⟩, ⟨0, 0⟩⟩ .event = some 2 := rfl
  exact ((throughput hlimiter hlimit (by decide)
    [(.event, 1), (.request, 2), (.event, 3), (.event, 4)] (by decide)).2.1 a).1

end RateLimiter

end Gittree
