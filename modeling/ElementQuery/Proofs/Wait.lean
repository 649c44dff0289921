import ElementQuery.Proofs.Settings.Bounds
import ElementQuery.Search
import ElementQuery.ValueAccess
import ElementQuery.Wait
import Mathlib.Algebra.Order.Floor.Div

/-!
# Runs of a wait and their end

A wait is followed attempt by attempt. By a clock that moves on, it ends.
-/

namespace ElementQuery

/-! ## Runs of a wait

A run follows its attempts: the first one either ends it, with a result, a failure or the time that
has passed, or is followed by a pause and the run of the remaining ones. So what a run returns comes
from one of its attempts, and a run whose first attempt fails has no other.
-/

section

variable {σ ε α : Type} {clock : Clock σ} {attempt : σ → Except ε (Option α) × σ}
  {timeout poll : Duration} {limit : Nat} {s s' : σ} {e : ε} {r : WaitRun σ ε α}

theorem waitForSome_of_error (clock : Clock σ) (timeout poll : Duration) (limit : Nat)
    (hfails : attempt s = (.error e, s')) :
    waitForSome clock attempt timeout poll (limit + 1) s = some ⟨[], .failed e, s'⟩ := by
  rw [waitForSome, hfails]

theorem waitForSome_cases (hrun : waitForSome clock attempt timeout poll (limit + 1) s = some r) :
    (∃ e s', attempt s = (.error e, s') ∧ r = ⟨[], .failed e, s'⟩) ∨
      (∃ a s', attempt s = (.ok (some a), s') ∧ r = ⟨[], .found a, s'⟩) ∨
      ∃ s' elapsed s'', attempt s = (.ok none, s') ∧ clock.elapsed s' = (elapsed, s'') ∧
        (timeout ≤ elapsed ∧ r = ⟨[], .expired elapsed, s''⟩ ∨
          elapsed < timeout ∧ ∃ rest,
            waitForSome clock attempt timeout poll limit
              (clock.sleep (min poll (timeout - elapsed)) s'') = some rest ∧
            r = { rest with pauses := ⟨elapsed, min poll (timeout - elapsed)⟩ :: rest.pauses }) := by
  rw [waitForSome] at hrun
  rcases hattempt : attempt s with ⟨_ | _ | a, s'⟩ <;> rw [hattempt] at hrun
  case error e => exact .inl ⟨e, s', rfl, (Option.some.inj hrun).symm⟩
  case ok.some => exact .inr (.inl ⟨a, s', rfl, (Option.some.inj hrun).symm⟩)
  case ok.none =>
    refine .inr (.inr ⟨s', _, _, rfl, rfl, ?_⟩)
    simp only at hrun
    split at hrun
    · next hexpired => exact .inl ⟨hexpired, (Option.some.inj hrun).symm⟩
    · next hrunning =>
      obtain ⟨rest, hrest, hcons⟩ := Option.map_eq_some_iff.mp hrun
      exact .inr ⟨Nat.lt_of_not_le hrunning, rest, hrest, hcons.symm⟩

/-- A wait fails only with an error that one of its attempts failed with. -/
theorem exists_attempt_of_error (hrun : waitForSome clock attempt timeout poll limit s = some r)
    (he : r.result = .error e) : ∃ w, (attempt w).1 = .error e := by
  induction limit generalizing s r with
  | zero => contradiction
  | succ limit ih =>
    rcases waitForSome_cases hrun with ⟨e', s', hattempt, rfl⟩ | ⟨a, s', -, rfl⟩ |
      ⟨s', elapsed, s'', -, -, ⟨-, rfl⟩ | ⟨-, rest, hrest, rfl⟩⟩
    · obtain rfl := Except.error.inj he
      exact ⟨s, congrArg Prod.fst hattempt⟩
    · contradiction
    · contradiction
    · exact ih hrest he

end

/-! ## Waits come to an end

If a sleep takes at least as long as it was asked to, each pause brings the reading of the clock nearer
to the timeout by a whole poll interval, or else to the timeout itself, since only a sleep that would
go beyond the timeout is shortened. What is left of the timeout, in poll intervals, therefore bounds
the attempts that are still to come. It does not matter how long an attempt takes, nor by how much a
sleep overruns: both only bring the end nearer.

In settings that can occur the timeout is twenty-four days at most and the poll interval a millisecond
at least, so the attempts of a wait can be counted in thirty-two bits.
-/

section

/-- Holds of a clock by which a sleep takes at least its length, whatever is done after it; the calls
are what is done between a sleep and the next reading. -/
def Clock.Advances {σ ω : Type} (clock : Clock σ) (call : σ → ω × σ) : Prop :=
  ∀ s length, (clock.elapsed s).1 + length ≤
    (clock.elapsed (call (clock.sleep length (clock.elapsed s).2)).2).1

/-- By the simulated clock a sleep takes its length, unless the calls turn the time back. -/
theorem Clock.simulated_advances {σ ω : Type} {call : Timed σ → ω × Timed σ} (tick : Duration)
    (hcall : ∀ s, s.now ≤ (call s).2.now) : (simulated tick).Advances call := by
  intro s length
  calc s.now + tick + length
      ≤ (call { s with now := s.now + tick + length }).2.now := hcall ⟨s.world, _⟩
    _ ≤ _ := Nat.le_add_right _ tick

variable {σ ε α : Type} {clock : Clock σ} {attempt : σ → Except ε (Option α) × σ}
  {timeout poll : Duration} {limit n : Nat} {s : σ} {r : WaitRun σ ε α}

theorem attempts_le (hrun : waitForSome clock attempt timeout poll limit s = some r) :
    r.attempts ≤ limit := by
  induction limit generalizing s r with
  | zero => nomatch hrun
  | succ limit ih =>
    rcases waitForSome_cases hrun with ⟨e, s', -, rfl⟩ | ⟨a, s', -, rfl⟩ |
      ⟨s', elapsed, s'', -, -, ⟨-, rfl⟩ | ⟨-, rest, hrest, rfl⟩⟩
    · exact Nat.le_add_left 1 limit
    · exact Nat.le_add_left 1 limit
    · exact Nat.le_add_left 1 limit
    · exact Nat.succ_le_succ (ih hrest)

/-- The first attempt of a wait ends it, or the clock shows that there is time left and the wait goes
on after a sleep. -/
theorem ends_or_pauses (clock : Clock σ) (attempt : σ → Except ε (Option α) × σ)
    (timeout poll : Duration) (s : σ) :
    (∀ limit, ∃ r, waitForSome clock attempt timeout poll (limit + 1) s = some r) ∨
      (clock.elapsed (attempt s).2).1 < timeout ∧ ∀ limit rest,
        waitForSome clock attempt timeout poll limit
          (clock.sleep (min poll (timeout - (clock.elapsed (attempt s).2).1))
            (clock.elapsed (attempt s).2).2) = some rest →
        ∃ r, waitForSome clock attempt timeout poll (limit + 1) s = some r := by
  simp only [waitForSome]
  rcases attempt s with ⟨e | _ | a, s'⟩
  · exact .inl fun limit => ⟨_, rfl⟩
  · by_cases hexpired : timeout ≤ (clock.elapsed s').1
    · exact .inl fun limit => ⟨_, if_pos hexpired⟩
    · refine .inr ⟨Nat.lt_of_not_le hexpired, fun limit rest hrest => ?_⟩
      simp only [if_neg hexpired, hrest]
      exact ⟨_, rfl⟩
  · exact .inl fun limit => ⟨_, rfl⟩

theorem le_of_slept {timeout poll elapsed later n : Nat}
    (hleft : timeout ≤ elapsed + (n + 1) * poll)
    (hslept : elapsed + min poll (timeout - elapsed) ≤ later) : timeout ≤ later + n * poll := by
  rw [Nat.succ_mul] at hleft
  generalize n * poll = left at hleft ⊢
  omega

/-- A wait ends within so many attempts after the first as there are poll intervals left by then. -/
theorem exists_run_of_left (hclock : clock.Advances attempt)
    (hleft : timeout ≤ (clock.elapsed (attempt s).2).1 + n * poll) :
    ∃ r, waitForSome clock attempt timeout poll (n + 1) s = some r := by
  induction n generalizing s with
  | zero =>
    rcases ends_or_pauses clock attempt timeout poll s with hends | ⟨hrunning, -⟩
    · exact hends 0
    · rw [Nat.zero_mul] at hleft
      exact absurd hleft (Nat.not_le_of_lt hrunning)
  | succ n ih =>
    rcases ends_or_pauses clock attempt timeout poll s with hends | ⟨-, hpauses⟩
    · exact hends (n + 1)
    · obtain ⟨rest, hrest⟩ := ih (le_of_slept hleft (hclock _ _))
      exact hpauses (n + 1) rest hrest

/-- A wait ends within one attempt more than there are poll intervals in the timeout. -/
theorem exists_run_of_advances (hpoll : 0 < poll) (hclock : clock.Advances attempt) (s : σ) :
    ∃ r, r.attempts ≤ timeout ⌈/⌉ poll + 1 ∧ ∀ limit, timeout ⌈/⌉ poll + 1 ≤ limit →
      waitForSome clock attempt timeout poll limit s = some r := by
  have hceil : timeout ≤ timeout ⌈/⌉ poll * poll := by
    rw [Nat.mul_comm]
    exact le_smul_ceilDiv hpoll
  obtain ⟨r, hrun⟩ := exists_run_of_left (n := timeout ⌈/⌉ poll) hclock
    (hceil.trans (Nat.le_add_left _ _))
  exact ⟨r, attempts_le hrun, fun limit hlimit => waitForSome_mono hlimit hrun⟩

/-- A sleep takes its length before the attempt that stands for a test if it does before the test. -/
theorem Clock.Advances.of_test {test : σ → Except ε Bool × σ} (hclock : clock.Advances test) :
    clock.Advances (attemptTest test) := by
  have hworld : ∀ s, (attemptTest test s).2 = (test s).2 := by
    intro s
    rw [attemptTest]
    rcases test s with ⟨e | _ | _, s'⟩ <;> rfl
  intro s length
  rw [hworld]
  exact hclock s length

/-- In settings that can occur, the attempts of a wait can be counted in thirty-two bits. -/
theorem Settings.Built.exists_run {settings : Settings} (hs : settings.Built)
    (hclock : clock.Advances attempt) (s : σ) :
    ∃ r, r.attempts < 2 ^ 32 ∧ ∀ limit, 2 ^ 32 ≤ limit →
      waitForSome clock attempt settings.timeout settings.pollInterval limit s = some r := by
  obtain ⟨-, htimeout, hpause⟩ := hs.adjusted.withinBounds
  have hpoll : 0 < settings.pollInterval := Nat.lt_of_lt_of_le (by decide) hpause
  have hceil : settings.timeout ⌈/⌉ settings.pollInterval ≤ 24 * 24 * 3600 * 1000 := by
    rw [ceilDiv_le_iff_le_smul hpoll]
    calc settings.timeout ≤ minPollInterval * (24 * 24 * 3600 * 1000) := htimeout
      _ ≤ settings.pollInterval * (24 * 24 * 3600 * 1000) := Nat.mul_le_mul_right _ hpause
  obtain ⟨r, hattempts, hrun⟩ := exists_run_of_advances hpoll hclock s
  have hfew : settings.timeout ⌈/⌉ settings.pollInterval + 1 < 2 ^ 32 :=
    Nat.lt_of_le_of_lt (Nat.succ_le_succ hceil) (by decide)
  exact ⟨r, Nat.lt_of_le_of_lt hattempts hfew,
    fun limit hlimit => hrun limit (Nat.le_trans (Nat.le_of_lt hfew) hlimit)⟩

/-- By a clock on which sleeps take at least their length every wait ends. It makes at most one attempt
more than there are poll intervals in the timeout, a part of one counted as a whole. In settings that
can occur the attempts of a wait for an element, and those of a wait for the text of one, can therefore
be counted in thirty-two bits. -/
theorem waits_end :
    (∀ {σ ε α : Type} (clock : Clock σ) (attempt : σ → Except ε (Option α) × σ)
      (timeout poll : Duration), 0 < poll → clock.Advances attempt → ∀ s,
      ∃ r, r.attempts ≤ timeout ⌈/⌉ poll + 1 ∧ ∀ limit, timeout ⌈/⌉ poll + 1 ≤ limit →
        waitForSome clock attempt timeout poll limit s = some r) ∧
    ∀ {settings : Settings}, settings.Built →
      (∀ {σ : Type} (p : Provider σ) (clock : Clock σ) (parent : Handle) (scope : Scope)
        (query : Query), clock.Advances (fun w => (Search.find parent scope query).run p w) → ∀ w,
        ∃ r, r.attempts < 2 ^ 32 ∧ ∀ limit, 2 ^ 32 ≤ limit →
          Search.waitFor p clock settings parent scope query limit w = some r) ∧
      ∀ {σ : Type} (p : Provider σ) (clock : Clock σ) (h : Handle) (expected : String),
        clock.Advances (fun w => (ValueAccess.reads h expected).run p w) → ∀ w,
        ∃ r, r.attempts < 2 ^ 32 ∧ ∀ limit, 2 ^ 32 ≤ limit →
          ValueAccess.waitForValue p clock settings h expected limit w = some r := by
  refine ⟨fun _ _ _ _ hpoll hclock s => exists_run_of_advances hpoll hclock s, fun hs => ⟨?_, ?_⟩⟩
  · intro σ p clock parent scope query hclock w
    exact hs.exists_run hclock w
  · intro σ p clock h expected hclock w
    exact hs.exists_run hclock.of_test w

/-- A wait for what never shows, whose attempts take three units of time each, a wait for an element
that is there, and a wait for a text in place of none. -/
theorem waits_end_simulated :
    (∃ r, r.attempts ≤ 4 ∧
      waitForSome (Clock.simulated 1) (fun s : Timed Unit =>
        ((.ok none : Except Error (Option Handle)), { s with now := s.now + 3 })) 10 4 4 ⟨(), 0⟩ =
        some r) ∧
    (∃ r, r.attempts < 2 ^ 32 ∧
      Search.waitFor ((Provider.minimal []).within Timed.world fun s w => { w with world := s })
        (Clock.simulated 1) .initial 7 .element ⟨[]⟩ (2 ^ 32) ⟨(), 0⟩ = some r) ∧
    ∃ r, r.attempts < 2 ^ 32 ∧
      ValueAccess.waitForValue
        ((Provider.minimal []).within Timed.world fun s w => { w with world := s })
        (Clock.simulated 1) .initial 7 "OK" (2 ^ 32) ⟨(), 0⟩ = some r := by
  obtain ⟨hsome, hsettings⟩ := waits_end
  obtain ⟨hfind, hvalue⟩ := hsettings .initial
  refine ⟨?_, ?_, ?_⟩
  · obtain ⟨r, hattempts, hrun⟩ := hsome (Clock.simulated 1) (fun s : Timed Unit =>
      ((.ok none : Except Error (Option Handle)), { s with now := s.now + 3 })) 10 4 (by decide)
      (Clock.simulated_advances 1 fun s => Nat.le_add_right s.now 3) ⟨(), 0⟩
    exact ⟨r, hattempts, hrun 4 (by decide)⟩
  · obtain ⟨r, hattempts, hrun⟩ := hfind
      ((Provider.minimal []).within Timed.world fun s w => { w with world := s })
      (Clock.simulated 1) 7 .element ⟨[]⟩ (Clock.simulated_advances 1 fun _ => Nat.le_refl _) ⟨(), 0⟩
    exact ⟨r, hattempts, hrun _ (Nat.le_refl _)⟩
  · obtain ⟨r, hattempts, hrun⟩ := hvalue
      ((Provider.minimal []).within Timed.world fun s w => { w with world := s })
      (Clock.simulated 1) 7 "OK" (Clock.simulated_advances 1 fun _ => Nat.le_refl _) ⟨(), 0⟩
    exact ⟨r, hattempts, hrun _ (Nat.le_refl _)⟩

end

end ElementQuery
