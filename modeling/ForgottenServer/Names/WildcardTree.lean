import ForgottenServer.Lib.Run
import ForgottenServer.Lib.Trie
import Mathlib.Order.BooleanAlgebra.Set

/-! # The tree of names

Names of players online are kept letter by letter in a `WildcardTreeNode`, whose
`breakpoint` is the mark of a trie. A player is found by the beginning of his name
if it is the beginning of no other. -/
namespace ForgottenServer.Names
open ForgottenServer.Lib ForgottenServer.Lib.Run

abbrev Name := List UInt8

abbrev WildcardTreeNode := Trie UInt8

/-- The values of `ReturnValue` that a search has. -/
inductive ReturnValue
  | noError | playerWithThisNameIsNotOnline | nameIsTooAmbiguous
  deriving DecidableEq

namespace WildcardTreeNode

/-- `WildcardTreeNode::addChild`, with what is done to the child that it returns. -/
def addChild (cur : WildcardTreeNode) (ch : UInt8) (breakpoint : Bool)
    (use : WildcardTreeNode → WildcardTreeNode) : WildcardTreeNode :=
  match cur.child ch with
  | some child => cur.put ch (use (if breakpoint && !child.mark then child.setMark true else child))
  | none => cur.put ch (use (.node breakpoint []))

/-- `WildcardTreeNode::insert` of a name that is not empty. -/
def insert : Name → WildcardTreeNode → WildcardTreeNode
  | [], cur => cur
  | [ch], cur => addChild cur ch true id
  | ch :: str, cur => addChild cur ch false (insert str)

/-- The first loop of `remove`: the last node and, from the top of the stack, the nodes above
it with the letters that lead on. -/
def walk : Name → WildcardTreeNode → List (WildcardTreeNode × UInt8) →
    Option (WildcardTreeNode × List (WildcardTreeNode × UInt8))
  | [], cur, path => some (cur, path)
  | ch :: str, cur, path => (cur.child ch).bind fun child => walk str child ((cur, ch) :: path)

def above (cur : WildcardTreeNode) : List (WildcardTreeNode × UInt8) → WildcardTreeNode
  | [] => cur
  | (parent, ch) :: path => above (parent.put ch cur) path

/-- The second loop of `remove`. -/
def prune (cur : WildcardTreeNode) : List (WildcardTreeNode × UInt8) → WildcardTreeNode
  | [] => cur
  | (parent, ch) :: path =>
    if !cur.children.isEmpty || cur.mark then above cur ((parent, ch) :: path)
    else prune (parent.erase ch) path

/-- `WildcardTreeNode::remove`. -/
def remove (str : Name) (root : WildcardTreeNode) : WildcardTreeNode :=
  match walk str root [] with
  | none => root
  | some (cur, path) => prune (cur.setMark false) path

/-- The second loop of `findOne`. -/
def findRest : WildcardTreeNode → Name → ReturnValue × Name
  | .node _ [], result => (.noError, result)
  | .node breakpoint [(ch, child)], result =>
    if breakpoint then (.nameIsTooAmbiguous, result) else findRest child (result ++ [ch])
  | .node _ (_ :: _ :: _), result => (.nameIsTooAmbiguous, result)

/-- `WildcardTreeNode::findOne`, with what `result` is afterwards. -/
def findOne (root : WildcardTreeNode) (query result : Name) : ReturnValue × Name :=
  match root.descend query with
  | none => (.playerWithThisNameIsNotOnline, result)
  | some cur => findRest cur query

end WildcardTreeNode

inductive Call
  | insert (name : Name)
  | remove (name : Name)

def Call.name : Call → Name
  | insert name | remove name => name

def step (tree : WildcardTreeNode) : Call → WildcardTreeNode
  | .insert name => tree.insert name
  | .remove name => tree.remove name

/-- The names that were inserted and not removed since. -/
def stored (S : Set Name) : Call → Set Name
  | .insert name => insert name S
  | .remove name => S \ {name}

/-- The tree answers by the set of names, and every node of it leads to one. -/
structure Represents (tree : WildcardTreeNode) (S : Set Name) : Prop where
  notOnline : ∀ query result, query ≠ [] ∨ S.Nonempty →
    ((tree.findOne query result).1 = .playerWithThisNameIsNotOnline ↔ ∀ s ∈ S, ¬ query <+: s)
  found : ∀ query result, query ≠ [] ∨ S.Nonempty → ∀ name, (tree.findOne query result = (.noError, name) ↔
      name ∈ S ∧ query <+: name ∧ ∀ s ∈ S, query <+: s → s = name)
  ambiguous : ∀ query result, query ≠ [] ∨ S.Nonempty → ((tree.findOne query result).1 = .nameIsTooAmbiguous ↔
      ∃ s ∈ S, ∃ s' ∈ S, s ≠ s' ∧ query <+: s ∧ query <+: s')
  live : ∀ w n, w ≠ [] → tree.descend w = some n → ∃ s ∈ S, w <+: s

/-! ## Insertion -/

section Tree
open Trie WildcardTreeNode
variable {t n : WildcardTreeNode} {S : Set Name}

theorem graft_insert (ch : UInt8) (w : Name) (S : Set Name) :
    graft ch (insert w (tails ch S)) S = insert (ch :: w) S := by
  ext v
  cases v with
  | nil => simp [graft]
  | cons d v =>
    by_cases h : d = ch
    · subst h
      simp [graft, tails]
    · simp [graft, h]

theorem addChild_eq (cur : WildcardTreeNode) (ch : UInt8) (breakpoint : Bool)
    (use : WildcardTreeNode → WildcardTreeNode) : cur.addChild ch breakpoint use =
      cur.put ch (use (((cur.child ch).getD empty).setMark (breakpoint || ((cur.child ch).getD empty).mark))) := by
  unfold WildcardTreeNode.addChild
  cases hc : cur.child ch with
  | none => cases breakpoint <;> rfl
  | some child =>
    cases child with
    | node mark children => cases breakpoint <;> cases mark <;> rfl

theorem holds_child (h : Holds t S) (ch : UInt8) : Holds ((t.child ch).getD empty) (tails ch S) := by
  cases h with
  | intro hmark hkeys hnone hsome hchild =>
    cases hc : t.child ch with
    | none =>
      rw [hnone ch hc]
      exact holds_empty
    | some child => exact hchild ch child hc

theorem tails_insert_nil (ch : UInt8) (S : Set Name) : tails ch (insert [] S) = tails ch S := by
  ext v
  simp [tails]

theorem setMark_mark (t : WildcardTreeNode) : t.setMark t.mark = t := by
  cases t
  rfl

theorem holds_insert {name : Name} (h : Holds t S) (hname : name ≠ []) : Holds (t.insert name) (insert name S) := by
  induction name generalizing t S with
  | nil => exact absurd rfl hname
  | cons ch str ih =>
    have hchild := holds_child h ch
    cases str with
    | nil =>
      rw [WildcardTreeNode.insert, addChild_eq, ← graft_insert, Bool.true_or]
      refine h.put (hchild.setMark (fun a => tails_insert_nil a _) ?_) (Set.insert_nonempty _ _)
      simp
    | cons d str =>
      have hstep : WildcardTreeNode.insert (ch :: d :: str) t =
          addChild t ch false (WildcardTreeNode.insert (d :: str)) := rfl
      rw [hstep, addChild_eq, ← graft_insert, Bool.false_or, setMark_mark]
      exact h.put (ih hchild (List.cons_ne_nil d str)) (Set.insert_nonempty _ _)

/-! ## Removal -/

/-- `remove` as a recursion over the name. -/
def cut : Name → WildcardTreeNode → Option WildcardTreeNode
  | [], cur => some (cur.setMark false)
  | ch :: str, cur => (cur.child ch).bind fun child => (cut str child).map fun child' =>
    if !child'.children.isEmpty || child'.mark then cur.put ch child' else cur.erase ch

theorem prune_put (cur child : WildcardTreeNode) (ch : UInt8) (path : List (WildcardTreeNode × UInt8)) :
    prune (cur.put ch child) path = above (cur.put ch child) path := by
  cases path with
  | nil => rfl
  | cons frame path => rfl

theorem walk_prune (str : Name) (cur : WildcardTreeNode) (path : List (WildcardTreeNode × UInt8)) :
    (walk str cur path).map (fun x => prune (x.1.setMark false) x.2) = (cut str cur).map (prune · path) := by
  induction str generalizing cur path with
  | nil => rfl
  | cons ch str ih =>
    rw [walk, cut]
    cases hc : cur.child ch with
    | none => rfl
    | some child =>
      rw [Option.bind_some, Option.bind_some, ih, Option.map_map]
      congr 1
      funext child'
      rw [prune, Function.comp_apply]
      split
      · rw [above, prune_put]
      · rfl

theorem remove_eq (str : Name) (root : WildcardTreeNode) : root.remove str = (cut str root).getD root := by
  have hwalk := walk_prune str root []
  unfold WildcardTreeNode.remove
  cases hw : walk str root [] with
  | none =>
    rw [hw] at hwalk
    rw [Option.map_eq_none_iff.mp hwalk.symm]
    rfl
  | some x =>
    rw [hw] at hwalk
    obtain ⟨root', hcut, heq⟩ := Option.map_eq_some_iff.mp hwalk.symm
    have hroot : root' = prune (x.1.setMark false) x.2 := heq
    rw [hcut, Option.getD_some, hroot]

theorem graft_diff (ch : UInt8) (w : Name) (S : Set Name) : graft ch (tails ch S \ {w}) S = S \ {ch :: w} := by
  ext v
  cases v with
  | nil => simp [graft]
  | cons d v =>
    by_cases h : d = ch
    · subst h
      simp [graft, tails]
    · simp [graft, h]

theorem holds_cut {name : Name} (h : Holds t S) :
    (cut name t = none → name ∉ S) ∧ ∀ t', cut name t = some t' → Holds t' (S \ {name}) := by
  induction name generalizing t S with
  | nil =>
    refine ⟨fun hnone => absurd hnone (Option.some_ne_none _), fun t' ht' => ?_⟩
    cases ht'
    refine h.setMark (fun a => ?_) (by simp)
    ext v
    simp [tails]
  | cons ch str ih =>
    have hchild := holds_child h ch
    cases hc : t.child ch with
    | none =>
      rw [hc] at hchild
      have hnothing : tails ch S = ∅ := hchild.eq_empty_iff.mpr ⟨rfl, rfl⟩
      refine ⟨fun _ hmem => ?_, fun t' ht' => by simp [cut, hc] at ht'⟩
      have htail : str ∈ tails ch S := hmem
      rw [hnothing] at htail
      exact htail
    | some child =>
      rw [hc] at hchild
      obtain ⟨habsent, hpresent⟩ := ih hchild
      simp only [cut, hc, Option.bind_some, Option.map_eq_none_iff, Option.map_eq_some_iff]
      refine ⟨habsent, fun t' hsome => ?_⟩
      obtain ⟨child', hcut, rfl⟩ := hsome
      have hleft := hpresent child' hcut
      rw [← graft_diff]
      split
      · rename_i hlive
        refine h.put hleft (Set.nonempty_iff_ne_empty.mpr fun hempty => ?_)
        obtain ⟨hleaf, hmark⟩ := hleft.eq_empty_iff.mp hempty
        simp [hleaf, hmark] at hlive
      · rename_i hdead
        have hempty : tails ch S \ {str} = ∅ := by
          refine hleft.eq_empty_iff.mpr ?_
          simpa using hdead
        rw [hempty]
        exact h.erase

theorem holds_remove {name : Name} (h : Holds t S) : Holds (t.remove name) (S \ {name}) := by
  obtain ⟨habsent, hpresent⟩ := @holds_cut t S name h
  rw [remove_eq]
  cases hcut : cut name t with
  | none =>
    rw [Option.getD_none, Set.sdiff_singleton_eq_self (habsent hcut)]
    exact h
  | some t' => exact hpresent t' hcut

/-! ## Search -/

/-- From a node with words, the search ends with the only one, or there are two. -/
theorem findRest_spec (h : Holds n S) (hS : S.Nonempty) (result : Name) :
    (∃ w, n.findRest result = (.noError, result ++ w) ∧ S = {w}) ∨
    ((n.findRest result).1 = .nameIsTooAmbiguous ∧ ∃ v ∈ S, ∃ w ∈ S, v ≠ w) := by
  induction h generalizing result with
  | @intro n S hmark hkeys hnone hsome hchild ih =>
    obtain ⟨breakpoint, children⟩ := n
    match children with
    | [] =>
      refine .inl ⟨[], by rw [findRest, List.append_nil], ?_⟩
      refine Set.eq_singleton_iff_nonempty_unique_mem.mpr ⟨hS, fun w hw => ?_⟩
      cases w with
      | nil => rfl
      | cons d w =>
        have htail : w ∈ tails d S := hw
        rw [hnone d rfl] at htail
        exact htail.elim
    | [(ch, child)] =>
      have hc : (Trie.node breakpoint [(ch, child)]).child ch = some child := by simp [Trie.child, Trie.children]
      obtain ⟨v, hv⟩ := hsome ch child hc
      rw [findRest]
      cases breakpoint with
      | true =>
        -- the name ends here and another one goes on
        exact .inr ⟨rfl, [], hmark.mp rfl, ch :: v, hv, (List.cons_ne_nil ch v).symm⟩
      | false =>
        have hnil : [] ∉ S := fun hmem => Bool.false_ne_true (hmark.mpr hmem)
        rcases ih ch child hc ⟨v, hv⟩ (result ++ [ch]) with ⟨w, hfound, hone⟩ | ⟨hmany, w, hw, w', hw', hne⟩
        · refine .inl ⟨ch :: w, by simpa using hfound, ?_⟩
          refine Set.eq_singleton_iff_nonempty_unique_mem.mpr ⟨hS, fun u hu => ?_⟩
          cases u with
          | nil => exact absurd hu hnil
          | cons d u =>
            have htail : u ∈ tails d S := hu
            by_cases hd : d = ch
            · subst hd
              rw [hone] at htail
              rw [Set.mem_singleton_iff.mp htail]
            · rw [hnone d (by simp [Trie.child, Trie.children, Ne.symm hd])] at htail
              exact htail.elim
        · exact .inr ⟨hmany, ch :: w, hw, ch :: w', hw', by simpa using hne⟩
    | (a, x) :: (b, y) :: rest =>
      have hab : a ≠ b := by
        intro heq
        simp [Trie.children, heq] at hkeys
      obtain ⟨v, hv⟩ := hsome a x (by simp [Trie.child, Trie.children])
      obtain ⟨w, hw⟩ := hsome b y (by simp [Trie.child, Trie.children, hab])
      exact .inr ⟨rfl, a :: v, hv, b :: w, hw, by simp [hab]⟩

theorem findOne_holds (h : Holds t S) {query : Name} (hquery : query ≠ [] ∨ S.Nonempty) (result : Name) :
    (t.findOne query result = (.playerWithThisNameIsNotOnline, result) ∧ ∀ s ∈ S, ¬ query <+: s) ∨
    (∃ name ∈ S, t.findOne query result = (.noError, name) ∧ query <+: name ∧ ∀ s ∈ S, query <+: s → s = name) ∨
    ((t.findOne query result).1 = .nameIsTooAmbiguous ∧ ∃ s ∈ S, ∃ s' ∈ S, s ≠ s' ∧ query <+: s ∧ query <+: s') := by
  obtain ⟨hgone, hthere⟩ := h.descend query
  unfold WildcardTreeNode.findOne
  cases hd : t.descend query with
  | none => exact .inl ⟨rfl, hgone hd⟩
  | some cur =>
    obtain ⟨hcur, hne⟩ := hthere cur hd
    have hsome : {v | query ++ v ∈ S}.Nonempty := by
      cases query with
      | nil => simpa using hquery
      | cons d query => exact hne (List.cons_ne_nil d query)
    rcases findRest_spec hcur hsome query with ⟨w, hfound, hone⟩ | ⟨hmany, v, hv, w, hw, hvw⟩
    · have hw : w ∈ {v | query ++ v ∈ S} := by rw [hone]; rfl
      refine .inr (.inl ⟨query ++ w, hw, hfound, ⟨w, rfl⟩, fun s hs ⟨u, hu⟩ => ?_⟩)
      subst hu
      have hu : u ∈ {v | query ++ v ∈ S} := hs
      rw [hone] at hu
      rw [Set.mem_singleton_iff.mp hu]
    · exact .inr (.inr ⟨hmany, query ++ v, hv, query ++ w, hw, by simpa using hvw, ⟨v, rfl⟩, ⟨w, rfl⟩⟩)

theorem holds_run {calls : List Call} (h : Holds t S) (hnames : ∀ call ∈ calls, call.name ≠ []) :
    Holds (run step t calls) (run stored S calls) := by
  induction calls generalizing t S with
  | nil => exact h
  | cons call calls ih =>
    have hrest : ∀ call' ∈ calls, call'.name ≠ [] := fun call' hmem => hnames call' (List.mem_cons_of_mem _ hmem)
    have hname := hnames call (List.mem_cons_self ..)
    cases call with
    | insert name => exact ih (holds_insert h hname) hrest
    | remove name => exact ih (holds_remove h) hrest

end Tree

/-- For every sequence of insertions and removals of names that are not empty, the tree
answers by the names that are stored. -/
theorem tree_represents (calls : List Call) (hnames : ∀ call ∈ calls, call.name ≠ []) :
    Represents (run step Trie.empty calls) (run stored ∅ calls) := by
  have h := holds_run Trie.holds_empty hnames
  refine ⟨?_, ?_, ?_, fun w n hw hn => h.live hw hn⟩
  all_goals
    intro query result hquery
    rcases findOne_holds h hquery result with ⟨hfind, hnone⟩ | ⟨name, hname, hfind, hprefix, hone⟩ |
      ⟨hfind, s, hs, s', hs', hne, hsq, hsq'⟩
  · rw [hfind]
    exact iff_of_true rfl hnone
  · rw [hfind]
    exact iff_of_false (by simp) fun hnone => hnone name hname hprefix
  · rw [hfind]
    exact iff_of_false (by simp) fun hnone => hnone s hs hsq
  · intro name
    rw [hfind]
    refine iff_of_false (by simp) ?_
    intro ⟨hname, hprefix, _⟩
    exact hnone name hname hprefix
  · intro name'
    rw [hfind]
    constructor
    · intro heq
      cases heq
      exact ⟨hname, hprefix, hone⟩
    · intro ⟨hname', hprefix', _⟩
      rw [hone name' hname' hprefix']
  · intro name
    refine iff_of_false (fun heq => ?_) ?_
    · rw [heq] at hfind
      cases hfind
    · intro ⟨_, _, hone⟩
      exact hne ((hone s hs hsq).trans (hone s' hs' hsq').symm)
  · rw [hfind]
    refine iff_of_false (by simp) ?_
    intro ⟨s, hs, _, _, _, hprefix, _⟩
    exact hnone s hs hprefix
  · rw [hfind]
    refine iff_of_false (by simp) ?_
    intro ⟨s, hs, s', hs', hne, hsq, hsq'⟩
    exact hne ((hone s hs hsq).trans (hone s' hs' hsq').symm)
  · exact iff_of_true hfind ⟨s, hs, s', hs', hne, hsq, hsq'⟩

/-- "ab" and "abc" are stored, and "ab" is removed again. -/
def abRemoved : List Call := [.insert [97, 98], .insert [97, 98, 99], .remove [97, 98]]

theorem abRemoved_represents : Represents (run step Trie.empty abRemoved) (run stored ∅ abRemoved) :=
  tree_represents abRemoved (by simp [abRemoved, Call.name])

end ForgottenServer.Names
