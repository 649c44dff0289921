import ElementQuery.Provider.Request

/-!
# Dialogues with a provider

A search and an access to a value are dialogues: requests whose choice may depend on the answers to
those before. A dialogue is data, so that one can speak about the requests that it makes, whatever
the provider answers. It ends with a result or an error, and an error from the provider ends it at
once.
-/

namespace ElementQuery

/-- Requests to a provider that end with a result or an error. -/
inductive Dialogue (α : Type) where
  | done (result : α)
  | fail (error : Error)
  | ask (request : Request) (next : request.Answer → Dialogue α)

/-- A request with its answer. -/
structure Call where
  request : Request
  answer : Except Error request.Answer

namespace Dialogue

variable {α β σ : Type}

def andThen (d : Dialogue α) (f : α → Dialogue β) : Dialogue β :=
  match d with
  | .done a => f a
  | .fail e => .fail e
  | .ask r next => .ask r fun answer => andThen (next answer) f

instance : Monad Dialogue where
  pure := .done
  bind := andThen

def request (r : Request) : Dialogue r.Answer :=
  .ask r .done

/-- The dialogue without requests that has a given outcome. -/
def ofExcept : Except Error α → Dialogue α
  | .ok a => .done a
  | .error e => .fail e

/-- The outcome of a dialogue with a provider, and the state that it leaves the provider in. -/
def run (p : Provider σ) : Dialogue α → σ → Except Error α × σ
  | .done a, s => (.ok a, s)
  | .fail e, s => (.error e, s)
  | .ask r next, s =>
    match p.answer r s with
    | (.ok answer, s) => run p (next answer) s
    | (.error e, s) => (.error e, s)

/-- The requests that a dialogue makes of a provider, with their answers, in order. -/
def calls (p : Provider σ) : Dialogue α → σ → List Call
  | .done _, _ => []
  | .fail _, _ => []
  | .ask r next, s =>
    match p.answer r s with
    | (.ok answer, s) => ⟨r, .ok answer⟩ :: calls p (next answer) s
    | (.error e, _) => [⟨r, .error e⟩]

def result (p : Provider σ) (d : Dialogue α) (s : σ) : Except Error α :=
  (d.run p s).1

def after (p : Provider σ) (d : Dialogue α) (s : σ) : σ :=
  (d.run p s).2

@[simp] theorem pure_eq (a : α) : (pure a : Dialogue α) = .done a := rfl

@[simp] theorem done_bind (a : α) (f : α → Dialogue β) : (.done a : Dialogue α) >>= f = f a := rfl

@[simp] theorem fail_bind (e : Error) (f : α → Dialogue β) :
    (.fail e : Dialogue α) >>= f = .fail e := rfl

@[simp] theorem ask_bind (r : Request) (next : r.Answer → Dialogue α) (f : α → Dialogue β) :
    (.ask r next : Dialogue α) >>= f = .ask r fun answer => next answer >>= f := rfl

private theorem bind_done (d : Dialogue α) : (d >>= fun a => .done a) = d := by
  induction d with
  | done => rfl
  | fail => rfl
  | ask r next ih => exact congrArg (Dialogue.ask r) (funext ih)

private theorem bind_bind {γ : Type} (d : Dialogue α) (f : α → Dialogue β) (g : β → Dialogue γ) :
    (d >>= f) >>= g = d >>= fun a => f a >>= g := by
  induction d with
  | done => rfl
  | fail => rfl
  | ask r next ih => exact congrArg (Dialogue.ask r) (funext ih)

instance : LawfulMonad Dialogue :=
  LawfulMonad.mk' Dialogue bind_done (fun _ _ => rfl) bind_bind

theorem run_bind (p : Provider σ) (d : Dialogue α) (f : α → Dialogue β) (s : σ) :
    (d >>= f).run p s =
      match d.run p s with
      | (.ok a, s) => (f a).run p s
      | (.error e, s) => (.error e, s) := by
  induction d generalizing s with
  | done => rfl
  | fail => rfl
  | ask r next ih =>
    simp only [ask_bind, run]
    split
    · exact ih _ _
    · rfl

theorem calls_bind (p : Provider σ) (d : Dialogue α) (f : α → Dialogue β) (s : σ) :
    (d >>= f).calls p s =
      d.calls p s ++
        match d.run p s with
        | (.ok a, s) => (f a).calls p s
        | (.error _, _) => [] := by
  induction d generalizing s with
  | done => rfl
  | fail => rfl
  | ask r next ih =>
    simp only [ask_bind, calls, run]
    split
    · simp [ih]
    · rfl

end Dialogue

end ElementQuery
