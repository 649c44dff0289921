import ElementQuery.Binary64
import ElementQuery.Text

/-!
# Waits

A wait repeats an attempt until something comes of it or the time is up. Nothing is assumed of the
time that attempts and sleeps take; lengths of time and the readings of a clock are whole numbers of
nanoseconds.
-/

namespace ElementQuery

open Text

/-! ## Lengths of time

Timeouts, polling intervals and clock readings are whole numbers of nanoseconds. A length is written
in the largest of the units second, millisecond, microsecond and nanosecond that is not above it,
with as many decimal places as it needs. A number of seconds given as a double is rounded to the
nearest nanosecond, a tie going to the even one.
-/

/-- A length of time in nanoseconds. -/
abbrev Duration := Nat

namespace Duration

def perSecond : Nat := Nat.pow 10 9

def ofSeconds (n : Nat) : Duration := n * perSecond

def ofMilliseconds (n : Nat) : Duration := n * Nat.pow 10 6

def seconds (d : Duration) : Nat := d / perSecond

def subsecond (d : Duration) : Nat := d % perSecond

/-- The nearest length to a number of seconds given in the units of a double. -/
def ofUnits (units : Nat) : Duration :=
  roundToEven (units * perSecond) Binary64.unitsPerOne

/-- The decimal places of a remainder below `10^places`, without the zeros at the end. -/
def fractionDigits (remainder places : Nat) : List Char :=
  let digits := writeNat remainder
  let padded := List.replicate (places - digits.length) '0' ++ digits
  (padded.reverse.dropWhile (· == '0')).reverse

/-- A length in a unit of `10^places` nanoseconds. -/
def inUnit (d : Duration) (places : Nat) (unit : String) : String :=
  let fraction := fractionDigits (d % Nat.pow 10 places) places
  let point := if fraction.isEmpty then [] else '.' :: fraction
  String.ofList (writeNat (d / Nat.pow 10 places) ++ point) ++ unit

def text (d : Duration) : String :=
  if Nat.pow 10 9 ≤ d then inUnit d 9 "s"
  else if Nat.pow 10 6 ≤ d then inUnit d 6 "ms"
  else if Nat.pow 10 3 ≤ d then inUnit d 3 "µs"
  else inUnit d 0 "ns"

end Duration

/-! ## Waits

A wait makes attempts until one of them yields something, fails, or comes back empty when the time
is up. After an empty attempt the clock is read; if the timeout has not passed, the wait sleeps for the
poll interval, or for what is left of the timeout if that is less, and tries again. So there is
always one attempt, and a last one after the time is up.

The world is whatever attempts, clock readings and sleeps change. A run records the pause after each
empty attempt, which is everything a wait does between its attempts. Nothing bounds the number of
attempts but the clock, so a run is computed up to a given number of them. A simulated clock, which
moves on by a tick at each reading and by the whole of each sleep, gives such a number.
-/

/-- What reading the time since the start of a wait gives, and what sleeping does, in a world. -/
structure Clock (σ : Type) where
  elapsed : σ → Duration × σ
  sleep : Duration → σ → σ

/-- How a wait ended: with a result, with a failure, or with the time that had passed. -/
inductive WaitEnd (ε α : Type) where
  | found (result : α)
  | failed (error : ε)
  | expired (elapsed : Duration)
  deriving DecidableEq

/-- The reading of the clock after an empty attempt, and the sleep that followed. -/
structure Pause where
  elapsed : Duration
  length : Duration
  deriving DecidableEq

/-- A finished wait: its pauses in order, its end, and the world it left. -/
structure WaitRun (σ ε α : Type) where
  pauses : List Pause
  ending : WaitEnd ε α
  world : σ

namespace WaitRun

variable {σ ε α : Type}

def attempts (r : WaitRun σ ε α) : Nat :=
  r.pauses.length + 1

/-- The result of a wait; running out of time is no failure. -/
def result (r : WaitRun σ ε α) : Except ε (Option α) :=
  match r.ending with
  | .found a => .ok (some a)
  | .failed e => .error e
  | .expired _ => .ok none

end WaitRun

/-! ### Running a wait -/

/-- The run of a wait for a result, if it ends within so many attempts. -/
def waitForSome {σ ε α : Type} (clock : Clock σ) (attempt : σ → Except ε (Option α) × σ)
    (timeout poll : Duration) : (limit : Nat) → σ → Option (WaitRun σ ε α)
  | 0, _ => none
  | limit + 1, s =>
    match attempt s with
    | (.error e, s) => some ⟨[], .failed e, s⟩
    | (.ok (some a), s) => some ⟨[], .found a, s⟩
    | (.ok none, s) =>
      let (elapsed, s) := clock.elapsed s
      if timeout ≤ elapsed then some ⟨[], .expired elapsed, s⟩
      else
        let length := min poll (timeout - elapsed)
        (waitForSome clock attempt timeout poll limit (clock.sleep length s)).map fun r =>
          { r with pauses := ⟨elapsed, length⟩ :: r.pauses }

theorem waitForSome_mono {σ ε α : Type} {clock : Clock σ} {attempt : σ → Except ε (Option α) × σ}
    {timeout poll : Duration} {limit more : Nat} (hle : limit ≤ more) {s : σ} {r : WaitRun σ ε α}
    (hrun : waitForSome clock attempt timeout poll limit s = some r) :
    waitForSome clock attempt timeout poll more s = some r := by
  induction limit generalizing more s r with
  | zero => simp [waitForSome] at hrun
  | succ limit ih =>
    obtain ⟨more, rfl⟩ : ∃ m, more = m + 1 := ⟨more - 1, by omega⟩
    rw [waitForSome] at hrun ⊢
    split at hrun
    · exact hrun
    · exact hrun
    · next s' _ =>
      by_cases hexpired : timeout ≤ (clock.elapsed s').1
      · simpa [hexpired] using hrun
      · simp only [hexpired, if_false, Option.map_eq_some_iff] at hrun ⊢
        obtain ⟨rest, hrest, hcons⟩ := hrun
        exact ⟨rest, ih (by omega) hrest, hcons⟩

/-- The attempt of a wait for a condition yields no more than that the condition holds. -/
def attemptTest {σ ε : Type} (test : σ → Except ε Bool × σ) (s : σ) : Except ε (Option Unit) × σ :=
  match test s with
  | (.ok true, s) => (.ok (some ()), s)
  | (.ok false, s) => (.ok none, s)
  | (.error e, s) => (.error e, s)

/-- The run of a wait for a condition whose test can fail. -/
def tryWaitUntil {σ ε : Type} (clock : Clock σ) (test : σ → Except ε Bool × σ)
    (timeout poll : Duration) (limit : Nat) (s : σ) : Option (WaitRun σ ε Unit) :=
  waitForSome clock (attemptTest test) timeout poll limit s

/-- The run of a wait for a condition whose test cannot fail. -/
def waitUntil {σ : Type} (clock : Clock σ) (test : σ → Bool × σ)
    (timeout poll : Duration) (limit : Nat) (s : σ) : Option (WaitRun σ Empty Unit) :=
  tryWaitUntil clock (fun s => (.ok (test s).1, (test s).2)) timeout poll limit s

namespace WaitRun

variable {σ ε : Type}

def satisfied (r : WaitRun σ ε Unit) : Except ε Bool :=
  r.result.map Option.isSome

def isSatisfied (r : WaitRun σ Empty Unit) : Bool :=
  match r.ending with
  | .found _ => true
  | .expired _ => false

end WaitRun

/-! ### A simulated clock -/

/-- A world with the time that has passed in it. -/
structure Timed (σ : Type) where
  world : σ
  now : Duration

namespace Clock

/-- The clock that moves on by a tick at each reading and by the whole of each sleep. -/
def simulated {σ : Type} (tick : Duration) : Clock (Timed σ) :=
  { elapsed := fun s => (s.now + tick, { s with now := s.now + tick })
    sleep := fun length s => { s with now := s.now + length } }

/-- A number of attempts within which a wait ends by the simulated clock, for a tick above zero. -/
def attemptLimit (timeout tick : Duration) : Nat :=
  timeout / tick + 1

end Clock

end ElementQuery
