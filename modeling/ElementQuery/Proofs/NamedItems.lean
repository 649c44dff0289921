import ElementQuery.Proofs.Text.Split
import ElementQuery.Proofs.Tree.Traversal
import ElementQuery.Proofs.ValueAccess
import Mathlib.Data.List.Infix

/-!
# Selecting items by name

A container is written by naming items, each name standing for the first element of that name below
the container. The item of the first name is selected, which deselects all others below its nearest
container, and the items of the other names are added. If the first item belongs to the container
that is written then nothing else below that stays selected, and the selected items are those that
were named. They are listed in the order of the walk, so neither the order of the names nor a name
that is given twice can be seen in the answer. Nothing changes outside the container.
-/

namespace ElementQuery

open Dialogue Text

namespace Tree

def nameOf? (t : Tree) (x : Handle) : Option String :=
  match t.node x with
  | .ok n => (n.spec.properties.get? .name).bind PropertyValue.text?
  | .error _ => none

def firstNamed? (t : Tree) (container : Handle) (name : String) : Option Handle :=
  (t.descendants container).find? (t.satisfies (.property .name (.text name)))

/-- The elements that several names stand for, in the order in which they are listed. -/
def named (t : Tree) (container : Handle) (names : List String) : List Handle :=
  (t.descendants container).filter fun x =>
    names.any fun name => t.firstNamed? container name == some x

/-- Holds of a tree before and after the items of several names were selected below a container. -/
structure Selects (t : Tree) (c : Handle) (names : List String) (u : Tree) : Prop where
  found : ∀ name ∈ names, ∃ x, t.firstNamed? c name = some x
  selected : provider.answer (.selectedItems c) u = (.ok (t.named c names), u)
  once : (t.named c names).Nodup
  listed : u.descendants c = t.descendants c
  elsewhere : ∀ x : Handle, x ∉ t.descendants c → u.nodes[x]? = t.nodes[x]?

variable {t : Tree} {c x first : Handle} {n : Node} {names : List String} {items others : List Handle}

theorem nameOf?_eq_some_iff {name : String} :
    t.nameOf? x = some name ↔
      ∃ n, t.node x = .ok n ∧ n.spec.properties.get? .name = some (.text name) := by
  have htext : ∀ v : PropertyValue, v.text? = some name ↔ v = .text name := by
    intro v
    cases v <;> simp [PropertyValue.text?]
  rw [nameOf?]
  cases t.node x <;> simp [Option.bind_eq_some_iff, htext]

theorem satisfies_name_iff {name : String} :
    t.satisfies (.property .name (.text name)) x = true ↔ t.nameOf? x = some name := by
  rw [nameOf?_eq_some_iff, satisfies]
  cases t.node x <;> simp [Condition.holds]

theorem nameOf?_of_firstNamed? {name : String} (hfirst : t.firstNamed? c name = some x) :
    t.nameOf? x = some name :=
  satisfies_name_iff.mp (List.find?_some hfirst)

theorem firstNamed?_of_itemNamed? {name : String} (hitem : t.itemNamed? c name = some x) :
    t.firstNamed? c name = some x :=
  (Option.filter_eq_some_iff.mp hitem).1

theorem exists_itemNamed? (hitems : t.itemsNamed? c names = some items) {name : String}
    (hname : name ∈ names) : ∃ x, t.itemNamed? c name = some x := by
  have hmem : t.itemNamed? c name ∈ items.map some :=
    map_itemNamed? hitems ▸ List.mem_map_of_mem hname
  obtain ⟨x, -, hitem⟩ := List.mem_map.mp hmem
  exact ⟨x, hitem.symm⟩

theorem mem_items_iff (hitems : t.itemsNamed? c names = some items) :
    x ∈ items ↔ ∃ name ∈ names, t.firstNamed? c name = some x := by
  rw [mem_itemsNamed?_iff hitems]
  constructor
  · rintro ⟨name, hname, hitem⟩
    exact ⟨name, hname, firstNamed?_of_itemNamed? hitem⟩
  · rintro ⟨name, hname, hfirst⟩
    obtain ⟨y, hitem⟩ := exists_itemNamed? hitems hname
    obtain rfl := Option.some.inj ((firstNamed?_of_itemNamed? hitem).symm.trans hfirst)
    exact ⟨name, hname, hitem⟩

theorem firstNamed?_head (hitems : t.itemsNamed? c names = some (first :: others)) :
    names.head?.bind (t.firstNamed? c) = some first := by
  have hmap := map_itemNamed? hitems
  cases names with
  | nil => contradiction
  | cons name names => exact firstNamed?_of_itemNamed? (List.cons.inj hmap).1

namespace WellFormed

/-- Below the container of the first item just the items that are asked for are selected. -/
theorem selected_select (ht : t.WellFormed) (hnearest : t.Nearest first c)
    (hitems : t.itemsNamed? c names = some (first :: others)) (hx : x ∈ t.descendants c) :
    (((t.withOnlySelected first).withAlsoSelected others).isSelected x = true ∧
      ((t.withOnlySelected first).withAlsoSelected others).supports x .selectionItem = true) ↔
      x ∈ first :: others := by
  have hagree := agree_select t first others
  rw [isSelected_select ht fun y hy => ht.isLive_of_mem_itemsNamed? hitems hy]
  constructor
  · rintro ⟨hasked | hstays, hsupports⟩
    · exact hasked
    · exact absurd (ht.mem_selectionItems.mpr ⟨hx, hagree.supports hsupports⟩)
        (hstays.2 c hnearest)
  · intro hasked
    exact ⟨.inl hasked, hagree.symm.supports (mem_of_itemsNamed? hitems hasked).2⟩

theorem selects (ht : t.WellFormed) (hn : t.node c = .ok n) (hnearest : t.Nearest first c)
    (hitems : t.itemsNamed? c names = some (first :: others)) :
    t.Selects c names ((t.withOnlySelected first).withAlsoSelected others) := by
  have hagree := agree_select t first others
  have hlisted := (hagree.map Node.place).descendants c
  refine ⟨fun name hname => ?_, ?_, (ht.nodup_descendants c).filter _, hlisted, fun x hx => ?_⟩
  · obtain ⟨x, hitem⟩ := exists_itemNamed? hitems hname
    exact ⟨x, firstNamed?_of_itemNamed? hitem⟩
  · obtain ⟨m, hm, -⟩ := hagree.symm.exists_node hn
    rw [Dialogue.answer_selectedItems,
      ((hagree.map Node.shape).wellFormed ht).selectedItems_eq hm, hlisted]
    refine congrArg (fun found => (Except.ok found, _)) (List.filter_congr fun x hx => ?_)
    rw [Bool.eq_iff_iff, Bool.and_eq_true, ht.selected_select hnearest hitems hx,
      mem_items_iff hitems]
    simp
  · apply getElem?_select
    · exact fun hasked => hx (mem_of_itemsNamed? hitems hasked).1
    · intro d hd hmem
      obtain rfl := ht.nearest_unique hnearest (ht.selectionContainer_eq_some_iff.mp hd)
      exact hx (ht.mem_selectionItems.mp hmem).1

end WellFormed

end Tree

namespace Capability

/-- Holds of a text and the names in it. A container of which one item can be selected takes the whole
text for a name, and one of which several can be selected takes each piece between semicolons. White
space around a name is no part of it, and a piece without a name is passed over. -/
inductive Lists : (multiple : Bool) → String → List String → Prop where
  | whole (v : String) : Lists false v [trimmed v]
  | pieces {v : String} {pieces : List (List Char)} (hne : pieces ≠ [])
      (hpieces : v.toList = joinWith [';'] pieces) (hclear : ∀ piece ∈ pieces, ';' ∉ piece) :
      Lists true v (((pieces.map trim).filter fun name => !name.isEmpty).map String.ofList)

variable {t : Tree} {c x : Handle} {n : Node} {v : String} {names : List String}

theorem lists_iff {multiple : Bool} : Lists multiple v names ↔ names = itemNames multiple v := by
  constructor
  · rintro (_ | ⟨hne, hpieces, hclear⟩)
    · rfl
    · obtain ⟨piece, others, rfl⟩ := List.exists_cons_of_ne_nil hne
      have hsplit : splitAt [separator] v.toList = piece :: others := by
        rw [hpieces]
        apply splitAt_joinWith (List.cons_ne_nil _ _)
        intro p hp
        rw [List.dropLast_singleton, List.append_nil, List.singleton_infix_iff]
        exact hclear p hp
      rw [itemNames, if_pos rfl, hsplit]
  · rintro rfl
    cases multiple with
    | false => exact .whole v
    | true =>
      have hne : [separator] ≠ [] := List.cons_ne_nil _ _
      rw [itemNames, if_pos rfl]
      refine .pieces (List.cons_ne_nil _ _) (joinWith_splitAt hne v.toList).symm ?_
      intro piece hpiece hmem
      exact clear_of_mem_splitAt hne hpiece ((List.singleton_infix_iff _ _).mpr hmem)

theorem run_write_selection (hn : t.node c = .ok n) (hcontainer : n.supports .selection = true)
    (v : String) :
    (selection.write c v).run Tree.provider t = (writeSelection c v).run Tree.provider t :=
  ValueAccess.run_write_applied (c := selection) hn hcontainer v

/-- Once a container has accepted a text, its selected items are those that the text names, if the
item of the first name belongs to the container. -/
theorem selects_write (ht : t.Reachable) (hn : t.node c = .ok n)
    (hcontainer : n.supports .selection = true)
    (hnames : Lists n.spec.multipleSelection v names)
    (hsuccess : (selection.write c v).result Tree.provider t = .ok .success)
    (hfirst : names.head?.bind (t.firstNamed? c) = some x) (hnearest : t.Nearest x c) :
    t.Selects c names ((selection.write c v).after Tree.provider t) := by
  obtain rfl := lists_iff.mp hnames
  have hwf := ht.wellFormed
  rw [result, run_write_selection hn hcontainer, run_writeSelection hwf hn] at hsuccess
  rw [after, run_write_selection hn hcontainer, run_writeSelection hwf hn]
  split at hsuccess
  · next first others hitems =>
    obtain rfl := Option.some.inj (hfirst.symm.trans (Tree.firstNamed?_head hitems))
    exact hwf.selects hn hnearest hitems
  · cases hsuccess

/-- Two colours are named, one of them twice and the last one first: of two items of one name the
first is selected, and a list next to it keeps its selection. In that list, of which one item can be
selected, a semicolon is part of the name. -/
theorem selects_write_colours :
    let item := fun name selected =>
      ((ElementSpec.ofControlType .listItem).withName name).withSelectionItem selected
    let t := Tree.initial.applyAll
      [.add Tree.root ((ElementSpec.ofControlType .list).withSelection true),
        .add 1 (item "Red" false), .add 1 (item "Green" true), .add 1 (item "Blue" false),
        .add 1 (item "Red" true), .add Tree.root ((ElementSpec.ofControlType .list).withSelection false),
        .add 6 (item "Red" true), .add 6 (item "Red; Blue" false)]
    let u := (selection.write 1 "Blue; Red ;;Blue").after Tree.provider t
    let w := (selection.write 6 "  Red; Blue ").after Tree.provider t
    t.Reachable ∧
      (t.Nearest 4 1 ∧ Lists true "Blue; Red ;;Blue" ["Blue", "Red", "Blue"] ∧
        (selection.write 1 "Blue; Red ;;Blue").result Tree.provider t = .ok .success ∧
        (Tree.provider.answer (.selectedItems 1) u).1 = .ok [2, 4] ∧ u.nodes[7]? = t.nodes[7]?) ∧
      (t.Nearest 8 6 ∧ Lists false "  Red; Blue " ["Red; Blue"] ∧
        (selection.write 6 "  Red; Blue ").result Tree.provider t = .ok .success ∧
        (Tree.provider.answer (.selectedItems 6) w).1 = .ok [8] ∧ w.nodes[3]? = t.nodes[3]?) := by
  intro item t u w
  have hreachable : t.Reachable := ⟨_, rfl⟩
  have hcontainers : (t.node 1).map (fun n => (n.supports .selection, n.spec.multipleSelection)) =
      .ok (true, true) ∧ (t.node 6).map (fun n => (n.supports .selection, n.spec.multipleSelection)) =
      .ok (true, false) := by
    decide +kernel
  have hnearest : t.Nearest 4 1 ∧ t.Nearest 8 6 := by
    simp only [← hreachable.wellFormed.selectionContainer_eq_some_iff]
    decide +kernel
  have hmany : Lists true "Blue; Red ;;Blue" ["Blue", "Red", "Blue"] := lists_iff.mpr (by decide)
  have hone : Lists false "  Red; Blue " ["Red; Blue"] := lists_iff.mpr (by decide)
  have hsuccess : (selection.write 1 "Blue; Red ;;Blue").result Tree.provider t = .ok .success ∧
      (selection.write 6 "  Red; Blue ").result Tree.provider t = .ok .success := by
    decide +kernel
  obtain ⟨⟨m, hm, hmulti⟩, n, hn, hsingle⟩ :=
    hcontainers.imp Tree.node_map_eq_ok_iff.mp Tree.node_map_eq_ok_iff.mp
  obtain ⟨hsupports, hmultiple⟩ := Prod.mk.inj hmulti
  obtain ⟨hsupports', hmultiple'⟩ := Prod.mk.inj hsingle
  have hselects := selects_write hreachable hm hsupports (by rwa [hmultiple]) hsuccess.1
    (by decide +kernel) hnearest.1
  have hselects' := selects_write hreachable hn hsupports' (by rwa [hmultiple']) hsuccess.2
    (by decide +kernel) hnearest.2
  refine ⟨hreachable, ⟨hnearest.1, hmany, hsuccess.1, ?_, hselects.elsewhere 7 (by decide +kernel)⟩,
    hnearest.2, hone, hsuccess.2, ?_, hselects'.elsewhere 3 (by decide +kernel)⟩
  · rw [hselects.selected]
    decide +kernel
  · rw [hselects'.selected]
    decide +kernel

end Capability

end ElementQuery
