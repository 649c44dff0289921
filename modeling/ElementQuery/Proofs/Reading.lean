import ElementQuery.Proofs.Provider.Answers
import ElementQuery.Proofs.Reselection

/-!
# Reading and the list of capabilities

The capabilities of an element are listed in the order in which they are tried for reading, and the
legacy one, which is not read through, comes last. So the list tells how the element is read: through
its first capability, or, if there is none besides the legacy one, structurally. What the capability
reads does not matter for that, not even if it reads an empty text.

Listing and reading ask their own questions, each as far as it needs to, so the two agree only for a
provider whose answers stay the same. A tree in memory is such a provider. There the reading of an
element that is in the tree never fails, and a capability always reads some text; only the structural
reading may come to nothing.
-/

namespace ElementQuery

open Dialogue

/-! ### Dialogues of questions -/

namespace Capability

theorem inquires_applies (c : Capability) (h : Handle) : Inquires (c.applies h) := by
  rw [applies]
  cases c.pattern? with
  | none => exact inquires_pure true
  | some p => exact inquires_request rfl

theorem inquires_elementName (h : Handle) : Inquires (elementName h) :=
  (inquires_request rfl).bind fun _ => inquires_pure _

theorem inquires_namesOf (hs : List Handle) : Inquires (namesOf hs) := by
  induction hs with
  | nil => exact inquires_pure []
  | cons h hs ih =>
    exact (inquires_elementName h).bind fun _ => ih.bind fun _ => inquires_pure _

theorem inquires_structuralText (h : Handle) : Inquires (structuralText h) := by
  refine (inquires_request rfl).bind fun found => ?_
  cases found with
  | none => exact inquires_elementName h
  | some child =>
    refine (inquires_elementName child).bind fun name => ?_
    cases name with
    | none => exact inquires_elementName h
    | some name => exact inquires_pure (some name)

theorem inquires_read (c : Capability) (h : Handle) : Inquires (c.read h) := by
  cases c with
  | selection =>
    refine Inquires.bind ?_ fun _ => inquires_pure _
    refine (inquires_request rfl).bind fun items => ?_
    exact (inquires_namesOf items).bind fun _ => inquires_pure _
  | structural => exact inquires_structuralText h
  | _ => exact (inquires_request rfl).bind fun _ => inquires_pure _

end Capability

namespace ValueAccess

theorem inquires_readThrough (h : Handle) (cs : List Capability) : Inquires (readThrough h cs) := by
  induction cs with
  | nil => exact Capability.inquires_read .structural h
  | cons c cs ih =>
    refine (c.inquires_applies h).bind fun has => ?_
    cases has with
    | true => exact c.inquires_read h
    | false => exact ih

theorem inquires_among (h : Handle) (cs : List Capability) : Inquires (among h cs) := by
  induction cs with
  | nil => exact inquires_pure []
  | cons c cs ih =>
    exact (c.inquires_applies h).bind fun _ => ih.bind fun _ => inquires_pure _

/-! ### Reading by given answers -/

def has (f : Answering) (h : Handle) (c : Capability) : Bool :=
  c.pattern?.all fun pattern => f (.supports h pattern) = .ok true

def listed (f : Answering) (h : Handle) : List Capability :=
  (readOrder ++ [Capability.legacyAccessible]).filter (has f h)

/-- The capability that an element is read through, by the first one in the list of its capabilities. -/
def reader : Option Capability → Capability
  | some c => if c = .legacyAccessible then .structural else c
  | none => .structural

def nameAnswer (f : Answering) (h : Handle) : Except Error (Option String) :=
  (f (.property h .name)).map fun name => name.bind PropertyValue.text?

/-- The name of the first text below an element if that is a text, and else the name of the element
itself if that is one. -/
def structuralAnswer (f : Answering) (h : Handle) : Except Error (Option String) := do
  let found ← f (.findFirst h .descendants (.property .controlType (.controlType .text)))
  let below ← found.elim (.ok none) (nameAnswer f)
  if below.isSome then return below else nameAnswer f h

variable {f : Answering} {h : Handle}

theorem reader_of_legacy {first : Option Capability}
    (hlegacy : ∀ c, first = some c → c = .legacyAccessible) : reader first = .structural := by
  cases first with
  | none => rfl
  | some c => exact if_pos (hlegacy c rfl)

theorem reader_head?_listed (f : Answering) (h : Handle) :
    reader (listed f h).head? = (readOrder.find? (has f h)).getD .structural := by
  rw [listed, List.head?_filter, List.find?_append]
  cases hfind : readOrder.find? (has f h) with
  | some c =>
    have hreads : ∀ c ∈ readOrder, c ≠ .legacyAccessible := by decide
    exact if_neg (hreads c (List.mem_of_find?_eq_some hfind))
  | none =>
    apply reader_of_legacy
    intro c hc
    rw [Option.none_or, List.find?_singleton] at hc
    split at hc
    · exact (Option.some.inj hc).symm
    · contradiction

theorem structural_not_mem_listed (f : Answering) (h : Handle) : .structural ∉ listed f h :=
  fun hmem => absurd (List.mem_filter.mp hmem).1 (by decide)

theorem eval_elementName (f : Answering) (h : Handle) :
    (Capability.elementName h).eval f = nameAnswer f h := by
  rw [Capability.elementName, eval_bind, eval_request, nameAnswer]
  cases f (.property h .name) <;> rfl

theorem eval_read_structural (f : Answering) (h : Handle) :
    (Capability.structural.read h).eval f = structuralAnswer f h := by
  rw [Capability.read, Capability.structuralText, eval_bind, eval_request, structuralAnswer]
  refine bind_congr fun found => ?_
  cases found with
  | none => exact eval_elementName f h
  | some child =>
    show eval f (Capability.elementName child >>= _) = nameAnswer f child >>= _
    rw [eval_bind, eval_elementName]
    refine bind_congr fun name => ?_
    cases name with
    | none => exact eval_elementName f h
    | some name => rfl

/-- Where it is known of every pattern whether the element supports it, it is known of every
capability whether the element has it. -/
theorem eval_applies (hsupports : ∀ pattern, ∃ supported, f (.supports h pattern) = .ok supported)
    (c : Capability) : (c.applies h).eval f = .ok (has f h c) := by
  rw [Capability.applies, has]
  cases c.pattern? with
  | none => rfl
  | some pattern =>
    obtain ⟨supported, hsupported⟩ := hsupports pattern
    show eval f (request (.supports h pattern)) = _
    rw [eval_request, Option.all_some, hsupported]
    cases supported <;> rfl

section Known

variable (hsupports : ∀ pattern, ∃ supported, f (.supports h pattern) = .ok supported)

include hsupports

theorem eval_among (cs : List Capability) : (among h cs).eval f = .ok (cs.filter (has f h)) := by
  induction cs with
  | nil => rfl
  | cons c cs ih =>
    rw [among, eval_bind, eval_applies hsupports, List.filter_cons]
    show eval f (among h cs >>= _) = _
    rw [eval_bind, ih]
    cases has f h c <;> rfl

theorem eval_readThrough (cs : List Capability) :
    (readThrough h cs).eval f = (((cs.find? (has f h)).getD .structural).read h).eval f := by
  induction cs with
  | nil => rfl
  | cons c cs ih =>
    rw [readThrough, eval_bind, eval_applies hsupports, List.find?_cons]
    cases has f h c with
    | true => rfl
    | false => exact ih

variable {σ : Type} {p : Provider σ} {s : σ}

theorem result_capabilities (hs : p.Answers f s) :
    (capabilities h).result p s = .ok (listed f h) := by
  rw [capabilities, (inquires_among h _).result_eq hs, eval_among hsupports, listed]

theorem result_read (hs : p.Answers f s) :
    (read h).result p s = ((reader (listed f h).head?).read h).eval f := by
  rw [read, (inquires_readThrough h _).result_eq hs, eval_readThrough hsupports, reader_head?_listed]

end Known

end ValueAccess

/-! ### Reading from a tree -/

namespace Tree

def firstText? (t : Tree) (h : Handle) : Option Handle :=
  (t.descendants h).find? (t.satisfies (.property .controlType (.controlType .text)))

variable {t : Tree} {h : Handle} {n : Node}

theorem nameAnswer_eq (hn : t.node h = .ok n) :
    ValueAccess.nameAnswer t.answering h = .ok (t.nameOf? h) := by
  rw [ValueAccess.nameAnswer, answering_read hn (fun n => n.spec.properties.get? .name) rfl, nameOf?,
    hn]
  rfl

theorem structuralAnswer_eq (ht : t.WellFormed) (hn : t.node h = .ok n) :
    ValueAccess.structuralAnswer t.answering h =
      .ok (((t.firstText? h).bind t.nameOf?).or (t.nameOf? h)) := by
  have hfound : t.answering (.findFirst h .descendants (.property .controlType (.controlType .text))) =
      .ok (t.firstText? h) := by
    rw [answering, answer_findFirst, ht.findFirst_eq hn]
    rfl
  rw [ValueAccess.structuralAnswer, hfound, nameAnswer_eq hn]
  cases hfirst : t.firstText? h with
  | none => rfl
  | some child =>
    obtain ⟨m, hm⟩ := ht.node_of_mem_descendants (List.mem_of_find?_eq_some hfirst)
    show (ValueAccess.nameAnswer t.answering child >>= _) = _
    rw [nameAnswer_eq hm, Option.bind_some]
    cases t.nameOf? child <;> rfl

end Tree

namespace Capability

variable {t : Tree} {h : Handle} {n : Node}

/-- A capability reads some text of an element that is in the tree, even if it is an empty one. -/
theorem exists_eval_read (ht : t.WellFormed) (hn : t.node h = .ok n) {c : Capability}
    (hc : c ≠ .structural) : ∃ text, (c.read h).eval t.answering = .ok (some text) := by
  rw [← (inquires_read c h).result_eq t.answers_provider, result]
  cases c with
  | selection =>
    rw [run_read_selection (ht.selectedItems_eq hn)]
    · exact ⟨_, rfl⟩
    · intro x hx
      obtain ⟨m, hm⟩ := ht.node_of_mem_descendants (List.mem_filter.mp hx).1
      exact Tree.isLive_iff.mpr ⟨m, hm⟩
  | structural => exact absurd rfl hc
  | _ =>
    simp only [read, request, ask_bind, done_bind, pure_eq, run, answer_provider, Edit.ofRequest,
      Edit.perform_read, hn, Except.map]
    exact ⟨_, rfl⟩

end Capability

namespace ValueAccess

variable {t : Tree} {h : Handle} {n : Node}

theorem supports_answering (hn : t.node h = .ok n) (pattern : Pattern) :
    ∃ supported, t.answering (.supports h pattern) = .ok supported :=
  ⟨_, Tree.answering_read hn (fun n => n.supports pattern) rfl⟩

/-- The reading of an element that is in the tree comes to something, unless it is structural. -/
theorem exists_result_read (ht : t.WellFormed) (hn : t.node h = .ok n) :
    ∃ v, (read h).result Tree.provider t = .ok v ∧
      (v = none → ∀ c, (listed t.answering h).head? = some c → c = .legacyAccessible) ∧
      ((∀ c, (listed t.answering h).head? = some c → c = .legacyAccessible) →
        v = ((t.firstText? h).bind t.nameOf?).or (t.nameOf? h)) := by
  rw [result_read (supports_answering hn) t.answers_provider]
  by_cases hlegacy : ∀ c, (listed t.answering h).head? = some c → c = .legacyAccessible
  · rw [reader_of_legacy hlegacy, eval_read_structural, Tree.structuralAnswer_eq ht hn]
    exact ⟨_, rfl, fun _ => hlegacy, fun _ => rfl⟩
  · push Not at hlegacy
    obtain ⟨c, hhead, hc⟩ := hlegacy
    have hne : c ≠ .structural := fun heq =>
      structural_not_mem_listed _ _ (heq ▸ List.mem_of_mem_head? hhead)
    obtain ⟨text, htext⟩ := Capability.exists_eval_read ht hn hne
    rw [hhead, reader, if_neg hc, htext]
    refine ⟨_, rfl, fun hnone => ?_, fun hlegacy => absurd (hlegacy c rfl) hc⟩
    contradiction

/--
Of an element whose patterns are known, the first capability in the list decides what is read, even if
it reads an empty text, as long as the answers of the provider stay the same. If the list is empty or
begins with the legacy capability, the element is read structurally. In a tree that can occur, an
element that is in the tree can always be read, and only the structural reading comes to nothing.
-/
theorem read_of_capabilities :
    (∀ {σ : Type} (p : Provider σ) (f : Answering) (h : Handle) (s s' : σ),
      p.Answers f s → p.Answers f s' →
      (∀ pattern, ∃ supported, f (.supports h pattern) = .ok supported) →
      (capabilities h).result p s = .ok (listed f h) ∧
        (∀ c, (listed f h).head? = some c → c ≠ .legacyAccessible →
          ∀ u, p.Answers f u → (read h).result p s' = (c.read h).result p u) ∧
        ((∀ c, (listed f h).head? = some c → c = .legacyAccessible) →
          (read h).result p s' = structuralAnswer f h)) ∧
    ∀ (t : Tree) (h : Handle), t.Reachable → t.isLive h = true →
      (capabilities h).result Tree.provider t = .ok (listed t.answering h) ∧
      ∃ v, (read h).result Tree.provider t = .ok v ∧
        (v = none → ∀ c, (listed t.answering h).head? = some c → c = .legacyAccessible) ∧
        ((∀ c, (listed t.answering h).head? = some c → c = .legacyAccessible) →
          v = ((t.firstText? h).bind t.nameOf?).or (t.nameOf? h)) := by
  constructor
  · intro σ p f h s s' hs hs' hsupports
    refine ⟨result_capabilities hsupports hs, fun c hhead hc u hu => ?_, fun hlegacy => ?_⟩
    · rw [result_read hsupports hs', hhead, reader, if_neg hc, (c.inquires_read h).result_eq hu]
    · rw [result_read hsupports hs', reader_of_legacy hlegacy, eval_read_structural]
  · intro t h ht hlive
    obtain ⟨n, hn⟩ := Tree.isLive_iff.mp hlive
    exact ⟨result_capabilities (supports_answering hn) t.answers_provider,
      exists_result_read ht.wellFormed hn⟩

/-- A recorder stands before a tree. A list of which nothing is selected reads as an empty text, not as
the label below it, but an element that has only a legacy value reads as the label below it. -/
theorem read_of_capabilities_recorded :
    let t := Tree.initial.applyAll
      [.add Tree.root ((ElementSpec.ofControlType .list).withSelection false),
        .add 1 ((ElementSpec.ofControlType .text).withName "Colours"),
        .add Tree.root ((ElementSpec.ofControlType .pane).withLegacyValue "Red"),
        .add 3 ((ElementSpec.ofControlType .text).withName "Blue")]
    let p := Tree.provider.recorded
    let s := Recording.start t
    let asked := fun h => (capabilities h).after p s
    t.Reachable ∧ t.isLive 3 = true ∧ (∀ h, p.Answers t.answering (asked h)) ∧
      (asked 1).noted.length = 7 ∧
      (capabilities 1).result p s = .ok [.selection] ∧
      (read 1).result p (asked 1) = .ok (some "") ∧
      (capabilities 3).result p s = .ok [.legacyAccessible] ∧
      (read 3).result p (asked 3) = .ok (some "Blue") ∧
      (read 3).result Tree.provider t = .ok (some "Blue") := by
  intro t p s asked
  have hs : p.Answers t.answering s := t.answers_provider.recorded []
  have hasked : ∀ h, p.Answers t.answering (asked h) := fun h =>
    (inquires_among h _).answers_after hs
  have hsupports : ∀ h, t.isLive h = true → ∀ pattern, ∃ supported,
      t.answering (.supports h pattern) = .ok supported := by
    intro h hlive
    obtain ⟨n, hn⟩ := Tree.isLive_iff.mp hlive
    exact supports_answering hn
  have hreachable : t.Reachable := ⟨_, rfl⟩
  have hlive : t.isLive 3 = true := by decide +kernel
  have hlist : listed t.answering 1 = [.selection] := by decide +kernel
  have hpane : listed t.answering 3 = [.legacyAccessible] := by decide +kernel
  have hlegacy : ∀ c, [Capability.legacyAccessible].head? = some c → c = .legacyAccessible :=
    fun c hc => (Option.some.inj hc).symm
  obtain ⟨hreads, htree⟩ := read_of_capabilities
  obtain ⟨hcs, hfirst, -⟩ :=
    hreads p t.answering 1 s (asked 1) hs (hasked 1) (hsupports 1 (by decide +kernel))
  obtain ⟨hcs', -, hstructural⟩ :=
    hreads p t.answering 3 s (asked 3) hs (hasked 3) (hsupports 3 hlive)
  obtain ⟨-, v, hread, -, hv⟩ := htree t 3 hreachable hlive
  rw [hlist] at hcs hfirst
  rw [hpane] at hcs' hstructural hv
  refine ⟨hreachable, hlive, hasked, by decide +kernel, hcs, ?_, hcs', ?_, ?_⟩
  · rw [hfirst .selection rfl (by decide) s hs]
    decide +kernel
  · rw [hstructural hlegacy]
    decide +kernel
  · rw [hread, hv hlegacy]
    decide +kernel

end ValueAccess

end ElementQuery
