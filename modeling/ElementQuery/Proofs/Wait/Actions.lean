import ElementQuery.Proofs.Wait
import ElementQuery.Search

/-!
# What a wait does

A wait is watched in a world that notes everything that is done in it: each call with its outcome,
each reading of the clock and each sleep. Watching changes nothing, since the attempts and the clock
act on the world as before, so every run of a wait is the run of a watched one with the notes left out.

What the notes show is the same for all waits. The calls are empty but for the last, and its outcome
is the result. If that is empty too, the clock was read after it and showed that the time was up. A
sleep follows right after a reading that was below the timeout; it takes no longer than the poll
interval and, from that reading on, ends no later than the timeout. Nothing of this needs a clock that
keeps time: it holds whatever the readings are.

A wait for a condition is a wait for a result in disguise, and does the same step by step.
-/

namespace ElementQuery

/-- What a wait can do, where the outcomes of its calls are in `ω`. -/
inductive WaitAction (ω : Type) where
  | call (outcome : ω)
  | read (elapsed : Duration)
  | sleep (length : Duration)

namespace WaitAction

variable {ω ω' : Type}

def map (f : ω → ω') : WaitAction ω → WaitAction ω'
  | .call outcome => .call (f outcome)
  | .read elapsed => .read elapsed
  | .sleep length => .sleep length

def outcome? : WaitAction ω → Option ω
  | .call outcome => some outcome
  | .read _ => none
  | .sleep _ => none

def outcomes (actions : List (WaitAction ω)) : List ω :=
  actions.filterMap outcome?

end WaitAction

/-- A world with what was done in it so far. -/
structure Watched (σ ω : Type) where
  world : σ
  actions : List (WaitAction ω)

namespace Watched

variable {σ ω ω' : Type}

def start (s : σ) : Watched σ ω :=
  ⟨s, []⟩

def call (f : σ → ω × σ) (w : Watched σ ω) : ω × Watched σ ω :=
  ((f w.world).1, ⟨(f w.world).2, w.actions ++ [.call (f w.world).1]⟩)

def map (f : ω → ω') (w : Watched σ ω) : Watched σ ω' :=
  ⟨w.world, w.actions.map (WaitAction.map f)⟩

end Watched

/-- The clock whose readings and sleeps are noted. -/
def Clock.watched {σ ω : Type} (clock : Clock σ) : Clock (Watched σ ω) where
  elapsed w :=
    ((clock.elapsed w.world).1,
      ⟨(clock.elapsed w.world).2, w.actions ++ [.read (clock.elapsed w.world).1]⟩)
  sleep length w := ⟨clock.sleep length w.world, w.actions ++ [.sleep length]⟩

def WaitRun.inWorld {σ τ ε α : Type} (r : WaitRun σ ε α) (w : τ) : WaitRun τ ε α :=
  ⟨r.pauses, r.ending, w⟩

/-- The run as it ends in a watched world. -/
def WaitRun.noting {σ ω ε α : Type} (r : WaitRun σ ε α) (actions : List (WaitAction ω)) :
    WaitRun (Watched σ ω) ε α :=
  r.inWorld ⟨r.world, actions⟩

/-- Holds of the actions of a wait that stops at the first outcome that is not empty, or at the first
one after the time is up; `last` is the outcome of its last call. -/
structure Polls {ω : Type} (empty : ω) (timeout poll : Duration) (actions : List (WaitAction ω))
    (last : ω) : Prop where
  calls : ∃ n, WaitAction.outcomes actions = List.replicate n empty ++ [last]
  expired : last = empty →
    ∃ elapsed, actions.getLast? = some (.read elapsed) ∧ timeout ≤ elapsed
  sleeps : ∀ before length after, actions = before ++ .sleep length :: after →
    ∃ earlier elapsed, before = earlier ++ [.read elapsed] ∧ elapsed < timeout ∧ length ≤ poll ∧
      elapsed + length ≤ timeout

def mapOutcome {σ ω ω' : Type} (g : ω → ω') (f : σ → ω × σ) (s : σ) : ω' × σ :=
  (g (f s).1, (f s).2)

/-- The outcome of the attempt that stands for a test. -/
def yieldOf {ε : Type} (outcome : Except ε Bool) : Except ε (Option Unit) :=
  outcome.map fun holds => if holds then some () else none

variable {σ τ ω ω' ε α : Type} {clock : Clock σ} {timeout poll elapsed : Duration} {limit : Nat}
  {empty last : ω} {actions : List (WaitAction ω)}

/-! ### The same wait in another world -/

/-- A wait depends on its world through its attempts and its clock only. -/
theorem waitForSome_map {clock' : Clock τ} {attempt : σ → Except ε (Option α) × σ}
    {attempt' : τ → Except ε (Option α) × τ} (f : τ → σ)
    (hattempt : ∀ w, attempt (f w) = ((attempt' w).1, f (attempt' w).2))
    (helapsed : ∀ w, clock.elapsed (f w) = ((clock'.elapsed w).1, f (clock'.elapsed w).2))
    (hsleep : ∀ length w, clock.sleep length (f w) = f (clock'.sleep length w)) (w : τ) :
    waitForSome clock attempt timeout poll limit (f w) =
      (waitForSome clock' attempt' timeout poll limit w).map fun r => r.inWorld (f r.world) := by
  induction limit generalizing w with
  | zero => rfl
  | succ limit ih =>
    rw [waitForSome, waitForSome, hattempt]
    rcases attempt' w with ⟨e | _ | a, w'⟩
    · rfl
    · simp only [helapsed, hsleep, ih]
      split
      · rfl
      · rw [Option.map_map, Option.map_map]
        rfl
    · rfl

theorem exists_watched {f : σ → ω × σ} {decode : ω → Except ε (Option α)} {s : σ}
    {r : WaitRun σ ε α}
    (hrun : waitForSome clock (mapOutcome decode f) timeout poll limit s = some r) :
    ∃ actions, waitForSome clock.watched (mapOutcome decode (Watched.call f)) timeout poll limit
      (.start s) = some (r.noting actions) := by
  have hmap : waitForSome clock (mapOutcome decode f) timeout poll limit s =
      (waitForSome clock.watched (mapOutcome decode (Watched.call f)) timeout poll limit
        (.start s)).map fun r => r.inWorld r.world.world :=
    waitForSome_map Watched.world (fun _ => rfl) (fun _ => rfl) (fun _ _ => rfl) (.start s)
  obtain ⟨r', hwatched, hr⟩ := Option.map_eq_some_iff.mp (hmap.symm.trans hrun)
  exact ⟨r'.world.actions, by rw [hwatched, ← hr]; rfl⟩

/-- It does not matter where the outcomes of the calls are brought into another form. -/
theorem waitForSome_call_mapOutcome (f : σ → ω × σ) (g : ω → ω')
    (decode : ω' → Except ε (Option α)) (s : σ) :
    waitForSome clock.watched (mapOutcome decode (Watched.call (mapOutcome g f))) timeout poll limit
        (.start s) =
      (waitForSome clock.watched (mapOutcome (decode ∘ g) (Watched.call f)) timeout poll limit
        (.start s)).map fun r => r.inWorld (r.world.map g) := by
  refine waitForSome_map (Watched.map g) (fun w => ?_) (fun w => ?_) (fun length w => ?_) (.start s)
  · simp [mapOutcome, Watched.call, Watched.map, WaitAction.map]
  · simp [Clock.watched, Watched.map, WaitAction.map]
  · simp [Clock.watched, Watched.map, WaitAction.map]

/-! ### One round after another -/

namespace Polls

theorem one (hlast : last ≠ empty) : Polls empty timeout poll [.call last] last where
  calls := ⟨0, rfl⟩
  expired hempty := absurd hempty hlast
  sleeps before length after hsplit := by
    have hmem : WaitAction.sleep length ∈ [WaitAction.call last] := by simp [hsplit]
    simp at hmem

theorem up (helapsed : timeout ≤ elapsed) :
    Polls empty timeout poll [.call empty, .read elapsed] empty where
  calls := ⟨0, rfl⟩
  expired _ := ⟨elapsed, rfl, helapsed⟩
  sleeps before length after hsplit := by
    have hmem : WaitAction.sleep length ∈ [WaitAction.call empty, .read elapsed] := by simp [hsplit]
    simp at hmem

theorem again (helapsed : elapsed < timeout) (hrest : Polls empty timeout poll actions last) :
    Polls empty timeout poll
      (.call empty :: .read elapsed :: .sleep (min poll (timeout - elapsed)) :: actions) last where
  calls := by
    obtain ⟨n, hcalls⟩ := hrest.calls
    refine ⟨n + 1, ?_⟩
    rw [List.replicate_succ, List.cons_append, ← hcalls]
    rfl
  expired hempty := by
    obtain ⟨latest, hlatest, hle⟩ := hrest.expired hempty
    refine ⟨latest, ?_, hle⟩
    obtain ⟨earlier, rfl⟩ := List.getLast?_eq_some_iff.mp hlatest
    exact List.getLast?_eq_some_iff.mpr ⟨_ :: _ :: _ :: earlier, rfl⟩
  sleeps before length after hsplit := by
    rcases before with _ | ⟨a, _ | ⟨b, _ | ⟨c, before⟩⟩⟩
    · nomatch hsplit
    · nomatch hsplit
    · simp only [List.cons_append, List.nil_append, List.cons.injEq, WaitAction.sleep.injEq]
        at hsplit
      obtain ⟨rfl, rfl, rfl, -⟩ := hsplit
      exact ⟨[.call empty], elapsed, rfl, helapsed, Nat.min_le_left ..,
        Nat.add_le_of_le_sub' (Nat.le_of_lt helapsed) (Nat.min_le_right ..)⟩
    · simp only [List.cons_append, List.cons.injEq] at hsplit
      obtain ⟨rfl, rfl, rfl, hlater⟩ := hsplit
      obtain ⟨earlier, latest, rfl, hbound⟩ := hrest.sleeps before length after hlater
      exact ⟨_ :: _ :: _ :: earlier, latest, rfl, hbound⟩

end Polls

/-- What a watched wait does, where `decode` says how the outcomes of the calls are understood. -/
theorem polls_of_watched {f : σ → ω × σ} {decode : ω → Except ε (Option α)}
    (hempty : ∀ outcome, decode outcome = .ok none ↔ outcome = empty) {w : Watched σ ω}
    {r : WaitRun (Watched σ ω) ε α}
    (hrun : waitForSome clock.watched (mapOutcome decode (Watched.call f)) timeout poll limit w =
      some r) :
    ∃ actions last, r.world.actions = w.actions ++ actions ∧
      (WaitAction.outcomes actions).length = r.attempts ∧
      Polls empty timeout poll actions last ∧ r.result = decode last := by
  induction limit generalizing w r with
  | zero => nomatch hrun
  | succ limit ih =>
    have hlast : ∀ {result : Except ε (Option α)}, decode (f w.world).1 = result →
        result ≠ .ok none → (f w.world).1 ≠ empty := by
      rintro _ rfl hresult hcall
      exact hresult ((hempty _).mpr hcall)
    rcases waitForSome_cases hrun with ⟨e, s', hattempt, rfl⟩ | ⟨a, s', hattempt, rfl⟩ |
      ⟨s', elapsed, s'', hattempt, hread, hrest⟩
    · obtain ⟨hdecode, rfl⟩ := Prod.mk.inj hattempt
      exact ⟨[.call _], _, rfl, rfl, .one (hlast hdecode nofun), hdecode.symm⟩
    · obtain ⟨hdecode, rfl⟩ := Prod.mk.inj hattempt
      exact ⟨[.call _], _, rfl, rfl, .one (hlast hdecode nofun), hdecode.symm⟩
    · obtain ⟨hdecode, rfl⟩ := Prod.mk.inj hattempt
      obtain ⟨rfl, rfl⟩ := Prod.mk.inj hread
      have hcall : (f w.world).1 = empty := (hempty _).mp hdecode
      rcases hrest with ⟨hexpired, rfl⟩ | ⟨hrunning, rest, hrest, rfl⟩
      · refine ⟨[.call empty, .read _], empty, ?_, rfl, .up hexpired, ((hempty _).mpr rfl).symm⟩
        simp [Watched.call, hcall]
      · obtain ⟨actions, last, hactions, hlength, hpolls, hresult⟩ := ih hrest
        refine ⟨.call empty :: .read _ :: .sleep _ :: actions, last, ?_,
          congrArg Nat.succ hlength, .again hrunning hpolls, hresult⟩
        simp [hactions, Clock.watched, Watched.call, hcall]

theorem exists_polls {f : σ → ω × σ} (decode : ω → Except ε (Option α))
    (hempty : ∀ outcome, decode outcome = .ok none ↔ outcome = empty) {s : σ} {r : WaitRun σ ε α}
    (hrun : waitForSome clock (mapOutcome decode f) timeout poll limit s = some r) :
    ∃ actions last, waitForSome clock.watched (mapOutcome decode (Watched.call f)) timeout poll limit
        (.start s) = some (r.noting actions) ∧
      (WaitAction.outcomes actions).length = r.attempts ∧
      Polls empty timeout poll actions last ∧ r.result = decode last := by
  obtain ⟨actions, hwatched⟩ := exists_watched hrun
  obtain ⟨_, last, hactions, hlength, hpolls, hresult⟩ := polls_of_watched hempty hwatched
  obtain rfl : actions = _ := hactions
  exact ⟨_, last, hwatched, hlength, hpolls, hresult⟩

theorem polls_waitForSome {attempt : σ → Except ε (Option α) × σ} {s : σ} {r : WaitRun σ ε α}
    (hrun : waitForSome clock attempt timeout poll limit s = some r) :
    ∃ actions, waitForSome clock.watched (Watched.call attempt) timeout poll limit (.start s) =
        some (r.noting actions) ∧
      (WaitAction.outcomes actions).length = r.attempts ∧
      Polls (.ok none) timeout poll actions r.result := by
  obtain ⟨actions, last, hwatched, hlength, hpolls, rfl⟩ :=
    exists_polls (f := attempt) id (fun _ => Iff.rfl) hrun
  exact ⟨actions, hwatched, hlength, hpolls⟩

/-! ### Waits for a condition -/

theorem attemptTest_eq (test : σ → Except ε Bool × σ) :
    attemptTest test = mapOutcome yieldOf test := by
  funext s
  rw [attemptTest, mapOutcome]
  rcases test s with ⟨e | _ | _, s'⟩ <;> rfl

theorem tryWaitUntil_eq (test : σ → Except ε Bool × σ) (s : σ) :
    tryWaitUntil clock test timeout poll limit s =
      waitForSome clock (mapOutcome yieldOf test) timeout poll limit s := by
  rw [tryWaitUntil, attemptTest_eq]

theorem waitUntil_eq (test : σ → Bool × σ) (s : σ) :
    waitUntil clock test timeout poll limit s =
      waitForSome clock (mapOutcome (yieldOf ∘ .ok) test) timeout poll limit s :=
  tryWaitUntil_eq (mapOutcome .ok test) s

theorem yieldOf_eq_none_iff (outcome : Except ε Bool) :
    yieldOf outcome = .ok none ↔ outcome = .ok false := by
  rcases outcome with e | _ | _ <;> simp [yieldOf, Except.map]

theorem satisfied_of_result {r : WaitRun σ ε Unit} {outcome : Except ε Bool}
    (hresult : r.result = yieldOf outcome) : r.satisfied = outcome := by
  rw [WaitRun.satisfied, hresult]
  rcases outcome with e | _ | _ <;> rfl

theorem isSatisfied_of_satisfied {r : WaitRun σ Empty Unit} {holds : Bool}
    (hsatisfied : r.satisfied = .ok holds) : r.isSatisfied = holds := by
  rw [WaitRun.satisfied, WaitRun.result] at hsatisfied
  rw [WaitRun.isSatisfied]
  cases hending : r.ending with
  | found =>
    rw [hending] at hsatisfied
    exact Except.ok.inj hsatisfied
  | failed e => exact e.elim
  | expired =>
    rw [hending] at hsatisfied
    exact Except.ok.inj hsatisfied

theorem polls_tryWaitUntil {test : σ → Except ε Bool × σ} {s : σ} {r : WaitRun σ ε Unit}
    (hrun : tryWaitUntil clock test timeout poll limit s = some r) :
    ∃ actions, tryWaitUntil clock.watched (Watched.call test) timeout poll limit (.start s) =
        some (r.noting actions) ∧
      waitForSome clock.watched (Watched.call (attemptTest test)) timeout poll limit (.start s) =
        some (r.noting (actions.map (WaitAction.map yieldOf))) ∧
      Polls (.ok false) timeout poll actions r.satisfied := by
  rw [tryWaitUntil_eq] at hrun
  obtain ⟨actions, last, hwatched, -, hpolls, hresult⟩ := exists_polls _ yieldOf_eq_none_iff hrun
  obtain rfl := satisfied_of_result hresult
  refine ⟨actions, (tryWaitUntil_eq _ _).trans hwatched, ?_, hpolls⟩
  rw [attemptTest_eq]
  refine (waitForSome_call_mapOutcome test yieldOf id s).trans ?_
  rw [Function.id_comp, hwatched]
  rfl

theorem polls_waitUntil {test : σ → Bool × σ} {s : σ} {r : WaitRun σ Empty Unit}
    (hrun : waitUntil clock test timeout poll limit s = some r) :
    ∃ actions, waitUntil clock.watched (Watched.call test) timeout poll limit (.start s) =
        some (r.noting actions) ∧
      tryWaitUntil clock.watched (Watched.call (mapOutcome .ok test)) timeout poll limit (.start s) =
        some (r.noting (actions.map (WaitAction.map .ok))) ∧
      Polls false timeout poll actions r.isSatisfied := by
  rw [waitUntil_eq] at hrun
  have hempty : ∀ holds, (yieldOf ∘ Except.ok (ε := Empty)) holds = .ok none ↔ holds = false :=
    fun holds => (yieldOf_eq_none_iff _).trans (by rw [Except.ok.injEq])
  obtain ⟨actions, last, hwatched, -, hpolls, hresult⟩ := exists_polls _ hempty hrun
  obtain rfl := isSatisfied_of_satisfied (satisfied_of_result hresult)
  refine ⟨actions, (waitUntil_eq _ _).trans hwatched, ?_, hpolls⟩
  refine (tryWaitUntil_eq _ _).trans ((waitForSome_call_mapOutcome test .ok yieldOf s).trans ?_)
  rw [hwatched]
  rfl

/-- A wait for a result, for a condition whose test can fail, for one whose test cannot, and for an
element: of the calls all but the last are empty, the last one gives the result, and the clock is read
and the sleeps are taken as `Polls` says. A wait for a condition makes the same calls and takes the
same sleeps as the wait for a result that stands for it. -/
theorem polls_of_wait (timeout poll : Duration) :
    (∀ {σ ε α : Type} (clock : Clock σ) (attempt : σ → Except ε (Option α) × σ) (limit : Nat) (s : σ)
      (r : WaitRun σ ε α), waitForSome clock attempt timeout poll limit s = some r →
      ∃ actions,
        waitForSome clock.watched (Watched.call attempt) timeout poll limit (.start s) =
          some (r.noting actions) ∧
        (WaitAction.outcomes actions).length = r.attempts ∧
        Polls (.ok none) timeout poll actions r.result) ∧
    (∀ {σ ε : Type} (clock : Clock σ) (test : σ → Except ε Bool × σ) (limit : Nat) (s : σ)
      (r : WaitRun σ ε Unit), tryWaitUntil clock test timeout poll limit s = some r →
      ∃ actions,
        tryWaitUntil clock.watched (Watched.call test) timeout poll limit (.start s) =
          some (r.noting actions) ∧
        waitForSome clock.watched (Watched.call (attemptTest test)) timeout poll limit (.start s) =
          some (r.noting (actions.map (WaitAction.map yieldOf))) ∧
        Polls (.ok false) timeout poll actions r.satisfied) ∧
    (∀ {σ : Type} (clock : Clock σ) (test : σ → Bool × σ) (limit : Nat) (s : σ)
      (r : WaitRun σ Empty Unit), waitUntil clock test timeout poll limit s = some r →
      ∃ actions,
        waitUntil clock.watched (Watched.call test) timeout poll limit (.start s) =
          some (r.noting actions) ∧
        tryWaitUntil clock.watched (Watched.call (mapOutcome .ok test)) timeout poll limit
          (.start s) = some (r.noting (actions.map (WaitAction.map .ok))) ∧
        Polls false timeout poll actions r.isSatisfied) ∧
    ∀ {σ : Type} (p : Provider σ) (clock : Clock σ) (settings : Settings) (parent : Handle)
      (scope : Scope) (query : Query) (limit : Nat) (w : σ) (r : WaitRun σ Error Handle),
      Search.waitFor p clock settings parent scope query limit w = some r →
      ∃ actions,
        waitForSome clock.watched (Watched.call fun w => (Search.find parent scope query).run p w)
          settings.timeout settings.pollInterval limit (.start w) = some (r.noting actions) ∧
        (WaitAction.outcomes actions).length = r.attempts ∧
        Polls (.ok none) settings.timeout settings.pollInterval actions r.result :=
  ⟨fun _ _ _ _ _ hrun => polls_waitForSome hrun, fun _ _ _ _ _ hrun => polls_tryWaitUntil hrun,
    fun _ _ _ _ _ hrun => polls_waitUntil hrun, fun _ _ _ _ _ _ _ _ _ hrun => polls_waitForSome hrun⟩

/-- A wait for what shows after six units of time, a test that fails then, a test that never holds, and
a wait for an element that is there at once. -/
theorem polls_of_wait_simulated :
    (∃ r, ∃ actions : List (WaitAction (Except Error (Option Duration))),
      waitForSome (Clock.simulated 1) (fun s : Timed Unit =>
        ((.ok (if 6 ≤ s.now then some s.now else none) : Except Error (Option Duration)), s))
        10 4 9 ⟨(), 0⟩ = some r ∧
      (WaitAction.outcomes actions).length = 3 ∧ Polls (.ok none) 10 4 actions (.ok (some 10)) ∧
      r.result = .ok (some 10)) ∧
    (∃ r, ∃ actions : List (WaitAction (Except Error Bool)),
      tryWaitUntil (Clock.simulated 1) (fun s : Timed Unit =>
        ((if 6 ≤ s.now then .error (.platform "gone") else .ok false : Except Error Bool), s))
        10 4 9 ⟨(), 0⟩ = some r ∧
      Polls (.ok false) 10 4 actions (.error (.platform "gone")) ∧
      r.satisfied = .error (.platform "gone")) ∧
    (∃ r actions,
      waitUntil (Clock.simulated 1) (fun s : Timed Unit => (decide (20 ≤ s.now), s)) 10 4 9
        ⟨(), 0⟩ = some r ∧
      Polls false 10 4 actions false ∧ r.isSatisfied = false ∧ r.attempts = 3) ∧
    ∃ r, ∃ actions : List (WaitAction (Except Error (Option Handle))),
      Search.waitFor ((Provider.minimal []).within Timed.world fun s w => { w with world := s })
        (Clock.simulated 1) .initial 7 .element ⟨[]⟩ 9 ⟨(), 0⟩ = some r ∧
      (WaitAction.outcomes actions).length = 1 ∧
      Polls (.ok none) Settings.initial.timeout Settings.initial.pollInterval actions
        (.ok (some 7)) := by
  obtain ⟨hsome, htest, hsure, hfind⟩ := polls_of_wait 10 4
  refine ⟨?_, ?_, ?_, ?_⟩
  · obtain ⟨actions, -, hlength, hpolls⟩ := hsome (Clock.simulated 1) (fun s : Timed Unit =>
      ((.ok (if 6 ≤ s.now then some s.now else none) : Except Error (Option Duration)), s)) 9
      ⟨(), 0⟩ _ rfl
    exact ⟨_, actions, rfl, hlength, hpolls, rfl⟩
  · obtain ⟨actions, -, -, hpolls⟩ := htest (Clock.simulated 1) (fun s : Timed Unit =>
      ((if 6 ≤ s.now then .error (.platform "gone") else .ok false : Except Error Bool), s)) 9
      ⟨(), 0⟩ _ rfl
    exact ⟨_, actions, rfl, hpolls, rfl⟩
  · obtain ⟨actions, -, -, hpolls⟩ := hsure (Clock.simulated 1)
      (fun s : Timed Unit => (decide (20 ≤ s.now), s)) 9 ⟨(), 0⟩ _ rfl
    exact ⟨_, actions, rfl, hpolls, rfl, rfl⟩
  · obtain ⟨actions, -, hlength, hpolls⟩ := hfind
      ((Provider.minimal []).within Timed.world fun s w => { w with world := s })
      (Clock.simulated 1) .initial 7 .element ⟨[]⟩ 9 ⟨(), 0⟩ _ rfl
    exact ⟨_, actions, rfl, hlength, hpolls⟩

end ElementQuery
