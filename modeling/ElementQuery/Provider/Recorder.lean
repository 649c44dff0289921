import ElementQuery.Provider.Request

/-!
# Recording providers

A recorder stands before a provider, notes every request and passes it on. It can be told to
interfere with a request to come, the first of its kind, the second and so on: either the request
fails without being passed on, or something happens to the provider's state just before it is.
Several interferences are counted apart, each from the moment that it is set up, and each takes
place once. Those that fall due at one request all take place, in the order in which they were set
up: a failure among them keeps the request back and leaves the changes of the others in force.
-/

namespace ElementQuery

/-- What happens when an interference is due: the request fails, or the state changes before it. -/
inductive Disturbance (σ : Type) where
  | failure
  | change (f : σ → σ)

namespace Disturbance

variable {σ : Type}

def fails : Disturbance σ → Bool
  | .failure => true
  | .change _ => false

def act : Disturbance σ → σ → σ
  | .failure, world => world
  | .change f, world => f world

end Disturbance

/-- An interference with a request of one kind that is still so many requests away. -/
structure Interference (σ : Type) where
  kind : String
  countdown : Nat
  disturbance : Disturbance σ

/--
The state of a recorder: the provider's, the requests noted, the latest first, and the interferences
to come.
-/
structure Recording (σ : Type) where
  world : σ
  requests : List Request
  interferences : List (Interference σ)

namespace Recording

variable {σ : Type}

def start (world : σ) : Recording σ :=
  ⟨world, [], []⟩

def noted (s : Recording σ) : List Request :=
  s.requests.reverse

def forget (s : Recording σ) : Recording σ :=
  { s with requests := [] }

def interfere (s : Recording σ) (i : Interference σ) : Recording σ :=
  { s with interferences := s.interferences ++ [i] }

/-- The disturbances that a request of some kind brings about, and the interferences that remain. -/
def dueAt (kind : String) :
    List (Interference σ) → List (Disturbance σ) × List (Interference σ)
  | [] => ([], [])
  | i :: is =>
    let (due, remaining) := dueAt kind is
    if i.kind = kind then
      if i.countdown ≤ 1 then (i.disturbance :: due, remaining)
      else (due, { i with countdown := i.countdown - 1 } :: remaining)
    else (due, i :: remaining)

/-- The state after the changes among disturbances, in order; a failure takes none of them back. -/
def disturb (due : List (Disturbance σ)) (world : σ) : σ :=
  due.foldl (fun w d => d.act w) world

end Recording

namespace Provider

variable {σ : Type}

/-- The provider with a recorder before it. -/
def recorded (p : Provider σ) : Provider (Recording σ) :=
  { root := p.root
    answer := fun r s =>
      let (due, remaining) := Recording.dueAt r.name s.interferences
      let world := Recording.disturb due s.world
      if due.any Disturbance.fails then
        (.error (.platform ("injected " ++ r.name)), ⟨world, r :: s.requests, remaining⟩)
      else
        let (result, world) := p.answer r world
        (result, ⟨world, r :: s.requests, remaining⟩) }

end Provider

end ElementQuery
