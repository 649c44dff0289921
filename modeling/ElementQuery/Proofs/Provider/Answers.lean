import ElementQuery.Proofs.Provider.Discipline
import ElementQuery.Proofs.Tree.Requests
import ElementQuery.Provider.Recorder

/-!
# Answers that stay the same

A dialogue that asks questions only has the same outcome whenever it takes place, as long as the answers
of the provider stay the same. A tree in memory is a provider of that kind.
-/

namespace ElementQuery

/-! ## Providers whose answers stay the same

A provider may change whenever it is asked, if only to note that it was. What matters is whether its
answers change: if they do not, however often it is asked and in whichever order, then some function
says what it answers, and a dialogue that only asks questions has the outcome that it has under that
function. So it does not matter when such a dialogue takes place, or what was asked before.
-/

/-- An answer to every request. -/
abbrev Answering : Type := (r : Request) → Except Error r.Answer

namespace Provider

variable {σ : Type}

/-- The state of a provider after several requests, whatever it answered. -/
def asked (p : Provider σ) (requests : List Request) (s : σ) : σ :=
  requests.foldl (fun s r => (p.answer r s).2) s

/-- Holds of a provider that gives certain answers to questions, as long as it is asked nothing else. -/
def Answers (p : Provider σ) (f : Answering) (s : σ) : Prop :=
  ∀ (before : List Request) (r : Request), (∀ q ∈ before, q.mutates = false) → r.mutates = false →
    (p.answer r (p.asked before s)).1 = f r

variable {p : Provider σ} {f : Answering} {s : σ} {r : Request}

theorem Answers.answer_eq (hs : p.Answers f s) (hr : r.mutates = false) :
    (p.answer r s).1 = f r :=
  hs [] r (by simp) hr

theorem Answers.next (hs : p.Answers f s) (hr : r.mutates = false) :
    p.Answers f (p.answer r s).2 := by
  intro before q hbefore hq
  refine hs (r :: before) q ?_ hq
  rw [List.forall_mem_cons]
  exact ⟨hr, hbefore⟩

theorem answers_of_unchanged
    (hunchanged : ∀ r : Request, r.mutates = false → (p.answer r s).2 = s) :
    p.Answers (fun r => (p.answer r s).1) s := by
  intro before r hbefore _
  have hsame : p.asked before s = s := by
    induction before with
    | nil => rfl
    | cons q before ih =>
      rw [List.forall_mem_cons] at hbefore
      rw [asked, List.foldl_cons, hunchanged q hbefore.1]
      exact ih hbefore.2
  rw [hsame]

/-- A recorder that is to interfere with nothing gives the answers of the provider behind it. -/
theorem Answers.recorded (hs : p.Answers f s) (noted : List Request) :
    p.recorded.Answers f ⟨s, noted, []⟩ := by
  have hasked : ∀ (before : List Request) (s : σ) (noted : List Request),
      p.recorded.asked before ⟨s, noted, []⟩ = ⟨p.asked before s, before.reverse ++ noted, []⟩ := by
    intro before
    induction before with
    | nil => exact fun _ _ => rfl
    | cons q before ih =>
      intro s noted
      rw [List.reverse_cons, List.append_assoc]
      exact ih (p.answer q s).2 (q :: noted)
  intro before r hbefore hr
  rw [hasked]
  exact hs before r hbefore hr

end Provider

namespace Dialogue

variable {α β σ : Type} {p : Provider σ} {f : Answering} {s : σ}

def eval (f : Answering) : Dialogue α → Except Error α
  | .done a => .ok a
  | .fail e => .error e
  | .ask r next =>
    match f r with
    | .ok answer => eval f (next answer)
    | .error e => .error e

/-- Holds of a dialogue that makes no request in order to change something. -/
def Inquires (d : Dialogue α) : Prop :=
  ∀ history, Obeys (fun _ r => r.mutates = false) (fun _ _ => True) d history

theorem inquires_pure (a : α) : Inquires (pure a : Dialogue α) := fun _ => trivial

theorem inquires_request {r : Request} (hr : r.mutates = false) : Inquires (request r) :=
  fun _ => ⟨hr, fun _ => trivial⟩

theorem Inquires.bind {d : Dialogue α} {next : α → Dialogue β} (hd : Inquires d)
    (hnext : ∀ a, Inquires (next a)) : Inquires (d >>= next) :=
  fun history => obeys_bind.mpr ((hd history).mono fun later a _ _ => hnext a later)

theorem eval_bind (f : Answering) (d : Dialogue α) (next : α → Dialogue β) :
    (d >>= next).eval f = d.eval f >>= fun a => (next a).eval f := by
  induction d with
  | done a => rfl
  | fail e => rfl
  | ask r rest ih =>
    rw [ask_bind, eval, eval]
    cases f r with
    | ok answer => exact ih answer
    | error e => rfl

theorem eval_request (f : Answering) (r : Request) : (request r).eval f = f r := by
  rw [request, eval]
  cases f r <;> rfl

/-- With a provider whose answers stay the same, a dialogue of questions has the outcome that it has
under the answers, and they are the same afterwards. -/
theorem Obeys.result_eq_and_answers {d : Dialogue α} {history : List Call} {ends : List Call → α → Prop}
    (hd : Obeys (fun _ r => r.mutates = false) ends d history) (hs : p.Answers f s) :
    d.result p s = d.eval f ∧ p.Answers f (d.after p s) := by
  rw [result, after]
  induction d generalizing s history with
  | done a => exact ⟨rfl, hs⟩
  | fail e => exact ⟨rfl, hs⟩
  | ask r next ih =>
    obtain ⟨hr, hnext⟩ := hd
    have hanswer := hs.answer_eq hr
    have hlater := hs.next hr
    rw [run, eval, ← hanswer]
    revert hlater
    rcases p.answer r s with ⟨e | answer, s₁⟩
    · exact fun hlater => ⟨rfl, hlater⟩
    · exact fun hlater => ih answer (hnext answer) hlater

theorem Inquires.result_eq {d : Dialogue α} (hd : Inquires d) (hs : p.Answers f s) :
    d.result p s = d.eval f :=
  ((hd []).result_eq_and_answers hs).1

theorem Inquires.answers_after {d : Dialogue α} (hd : Inquires d) (hs : p.Answers f s) :
    p.Answers f (d.after p s) :=
  ((hd []).result_eq_and_answers hs).2

end Dialogue

/-! ## Questions to a tree

A tree answers questions without being changed by them, the refused ones included. So it is a provider
whose answers stay the same for as long as it is asked nothing else, and what is read of an element is
a matter of the element alone.
-/

namespace Edit

theorem perform_readGrid_unchanged {α : Type} (h : Handle) (f : Grid → α) (t : Tree) :
    ((do return f (← grid h) : Edit α).perform t).2 = t := by
  have hgrid := perform_grid h t
  rw [perform_bind]
  revert hgrid
  rcases (grid h).perform t with ⟨e | g, s⟩
  · exact id
  · exact id

theorem perform_question {r : Request} (hr : r.mutates = false) (t : Tree) :
    ((ofRequest r).perform t).2 = t := by
  cases r with
  | findFirst parent scope c => exact congrArg Prod.snd (Dialogue.answer_findFirst parent scope c t)
  | selectedItems h => exact congrArg Prod.snd (Dialogue.answer_selectedItems h t)
  | property | parent | supports | value | isValueReadOnly | rangeValue | rangeBounds
  | isRangeReadOnly | text | toggleState | canSelectMultiple | isSelected | legacyValue =>
    exact congrArg Prod.snd (perform_read _ _ t)
  | rowCount | columnCount | gridItem | rowHeaders | columnHeaders =>
    exact perform_readGrid_unchanged _ _ t
  | _ => contradiction

end Edit

namespace Tree

def answering (t : Tree) : Answering :=
  fun r => (provider.answer r t).1

theorem answers_provider (t : Tree) : provider.Answers t.answering t :=
  Provider.answers_of_unchanged fun _ hr => Edit.perform_question hr t

theorem answering_read {t : Tree} {h : Handle} {n : Node} (hn : t.node h = .ok n) {r : Request}
    (f : Node → r.Answer) (hr : Edit.ofRequest r = do return f (← Edit.node h)) :
    t.answering r = .ok (f n) := by
  rw [answering, Dialogue.answer_provider, hr, Edit.perform_read, hn]
  rfl

end Tree

end ElementQuery
