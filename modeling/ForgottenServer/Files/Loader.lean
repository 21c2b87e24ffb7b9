import ForgottenServer.Lib.Bags
import ForgottenServer.Lib.Markers

/-! # The loader of OTB files

A file is an identifier and a tree of nodes. `OTB::Loader` walks over the bytes with
a stack of open nodes and notes where the properties of a node begin and end;
`getProps` copies them without the escapes. Iterators are offsets into the file, and
reading at its end is a fault. -/
namespace ForgottenServer.Files
open ForgottenServer.Lib.Bags ForgottenServer.Lib.Markers

/-- `Node::NodeChar`. -/
def nodeChar : Marks UInt8 where
  start := 0xFE
  close := 0xFF
  escape := 0xFD
  start_ne_close := by decide
  start_ne_escape := by decide
  close_ne_escape := by decide

/-- What ends a function early: an exception, or what must not happen. -/
inductive Fault
  | invalidOTBFormat | pastEnd | unfinished
  deriving DecidableEq, Repr

/-- A node without its children. Where the properties end is not known at first. -/
structure Info where
  type : UInt8
  propsBegin : ℕ
  propsEnd : ℕ := 0
  deriving DecidableEq, Repr

structure Node extends Info where
  children : Bag Info := .nil

abbrev Identifier := { l : List UInt8 // l.length = 4 }

def wildcard : Identifier := ⟨[0, 0, 0, 0], rfl⟩

section Functions
variable (fileContents : List UInt8)

/-- `*it`. -/
def deref (it : ℕ) : Except Fault UInt8 :=
  match fileContents[it]? with
  | some b => .ok b
  | none => .error .pastEnd

/-- `sizeof(Identifier) + sizeof(Node::START) + sizeof(Node::type) + sizeof(Node::END)`. -/
def minimalSize : ℕ := 4 + 1 + 1 + 1

/-- `Loader::Loader`. -/
def construct (acceptedIdentifier : Identifier) : Except Fault Unit :=
  if fileContents.length ≤ minimalSize then .error .invalidOTBFormat
  else do
    let fileIdentifier ← (List.range 4).mapM (deref fileContents)
    if fileIdentifier ≠ acceptedIdentifier.1 ∧ fileIdentifier ≠ wildcard.1 then
      .error .invalidOTBFormat

/-- The open nodes, innermost first, and the outermost one once it is closed. -/
structure State where
  stack : List Node
  root : Node

/-- The properties of a node end with its first child or with the node. -/
def Node.endProps (node : Node) (it : ℕ) : Node :=
  if node.children.isNil then { node with propsEnd := it } else node

def Node.adopt (node child : Node) : Node :=
  { node with children := node.children.append (.cons child.toInfo child.children .nil) }

/-- A node that is closed is the last child of the one below it. -/
def State.pop (s : State) (top : Node) : List Node → State
  | [] => { stack := [], root := top }
  | parent :: below => { s with stack := parent.adopt top :: below }

/-- The loop of `Loader::parseTree`. -/
def loop (fuel it : ℕ) (s : State) : Except Fault Node :=
  if it = fileContents.length then
    if s.stack.isEmpty then .ok s.root else .error .invalidOTBFormat
  else
    match fuel with
    | 0 => .error .unfinished
    | fuel + 1 => do
      let b ← deref fileContents it
      if b = nodeChar.start then
        match s.stack with
        | [] => .error .invalidOTBFormat
        | top :: below =>
          if it + 1 = fileContents.length then .error .invalidOTBFormat
          else
            let type ← deref fileContents (it + 1)
            loop fuel (it + 2) { s with stack := { type, propsBegin := it + 2 } :: top.endProps it :: below }
      else if b = nodeChar.close then
        match s.stack with
        | [] => .error .invalidOTBFormat
        | top :: below => loop fuel (it + 1) (s.pop (top.endProps it) below)
      else if b = nodeChar.escape then
        if it + 1 = fileContents.length then .error .invalidOTBFormat
        else loop fuel (it + 2) s
      else loop fuel (it + 1) s

/-- `Loader::parseTree`. -/
def parseTree : Except Fault Node := do
  let b ← deref fileContents 4
  if b ≠ nodeChar.start then .error .invalidOTBFormat
  else
    let type ← deref fileContents 5
    let root : Node := { type, propsBegin := 6 }
    loop fileContents fileContents.length 6 { stack := [root], root }

/-- A file is opened and read. -/
def load (acceptedIdentifier : Identifier) : Except Fault Node := do
  construct fileContents acceptedIdentifier
  parseTree fileContents

/-- `Loader::getProps`: the properties, if there are any. -/
def getProps (node : Info) : Option (List UInt8) :=
  let size := node.propsEnd - node.propsBegin
  if size = 0 then none
  else some (unescape nodeChar false ((fileContents.drop node.propsBegin).take size))

end Functions

/-! ## Tokens -/

def Token.size (t : Token UInt8) : ℕ := (write nodeChar t).length

/-- What a token does that begins at an offset. -/
def State.token (s : State) (it : ℕ) : Token UInt8 → Option State
  | .start type =>
    match s.stack with
    | [] => none
    | top :: below => some { s with stack := { type, propsBegin := it + 2 } :: top.endProps it :: below }
  | .close =>
    match s.stack with
    | [] => none
    | top :: below => some (s.pop (top.endProps it) below)
  | .escaped _ | .plain _ => some s

def State.tokens (it : ℕ) : List (Token UInt8) → State → Option State
  | [], s => some s
  | t :: l, s => (s.token it t).bind (State.tokens (it + Token.size t) l)

/-- The loop has come to the end of the file. -/
def finish : Option State → Except Fault Node
  | some s => if s.stack.isEmpty then .ok s.root else .error .invalidOTBFormat
  | none => .error .invalidOTBFormat

theorem deref_eq {fileContents : List UInt8} {it : ℕ} {b : UInt8} {l : List UInt8}
    (h : fileContents.drop it = b :: l) : deref fileContents it = .ok b := by
  have hget : fileContents[it]? = some b := by
    rw [← Nat.add_zero it, ← List.getElem?_drop, h, List.getElem?_cons_zero]
  rw [deref, hget]

theorem drop_succ {fileContents : List UInt8} {it : ℕ} {b : UInt8} {l : List UInt8}
    (h : fileContents.drop it = b :: l) : fileContents.drop (it + 1) = l := by
  rw [← List.drop_drop, h, List.drop_succ_cons, List.drop_zero]

theorem tokens_cons (s : State) (it : ℕ) (t : Token UInt8) (l : Option (List (Token UInt8))) :
    ((l.map (t :: ·)).bind fun l => s.tokens it l) =
      (s.token it t).bind fun s => l.bind fun l => s.tokens (it + Token.size t) l := by
  cases l with
  | none => cases s.token it t <;> rfl
  | some l => rfl

theorem finish_none {s : Option State} (h : s = none) : finish s = .error .invalidOTBFormat := by
  rw [h]
  rfl

theorem loop_end {fileContents : List UInt8} (fuel : ℕ) {it : ℕ} (s : State) (hit : it = fileContents.length) :
    loop fileContents fuel it s = finish ((lex nodeChar (fileContents.drop it)).bind fun l => s.tokens it l) := by
  rw [loop.eq_def, if_pos hit, hit, List.drop_length, lex]
  rfl

/-- The loop does what the tokens of the rest of the file do. -/
theorem loop_eq (fileContents : List UInt8) (fuel it : ℕ) (s : State) (hit : it ≤ fileContents.length)
    (hfuel : fileContents.length ≤ it + fuel) :
    loop fileContents fuel it s = finish ((lex nodeChar (fileContents.drop it)).bind fun l => s.tokens it l) := by
  induction fuel generalizing it s with
  | zero => exact loop_end 0 s (by omega)
  | succ fuel ih =>
    by_cases hend : it = fileContents.length
    · exact loop_end _ s hend
    have hlt : it < fileContents.length := by omega
    obtain ⟨b, l, hdrop⟩ : ∃ b l, fileContents.drop it = b :: l :=
      ⟨_, _, List.drop_eq_getElem_cons hlt⟩
    have hrest := drop_succ hdrop
    have hlength : fileContents.length = it + 1 + l.length := by
      rw [← hrest, List.length_drop]
      omega
    rw [loop, if_neg hend, hdrop, deref_eq hdrop]
    dsimp only [bind, Except.bind]
    by_cases hstart : b = nodeChar.start
    · rw [if_pos hstart, hstart]
      cases l with
      | nil =>
        rw [finish_none (by rw [lex, if_pos (.inl rfl)]; rfl)]
        cases s.stack with
        | nil => rfl
        | cons top below => exact if_pos hlength.symm
      | cons c l =>
        rw [lex, if_pos rfl, tokens_cons]
        cases hstack : s.stack with
        | nil => simp only [State.token, hstack, Option.bind_none, finish]
        | cons top below =>
          have hmore : it + 1 ≠ fileContents.length := by
            rw [List.length_cons] at hlength
            omega
          simp only [State.token, hstack, Option.bind_some]
          rw [if_neg hmore, deref_eq hrest, ← drop_succ hrest]
          exact ih (it + 2) _ (by omega) (by omega)
    rw [if_neg hstart]
    by_cases hclose : b = nodeChar.close
    · have hescape : b ≠ nodeChar.escape := hclose ▸ nodeChar.close_ne_escape
      rw [if_pos hclose, lex_cons hstart hescape, if_pos hclose, tokens_cons]
      cases hstack : s.stack with
      | nil => simp only [State.token, hstack, Option.bind_none, finish]
      | cons top below =>
        simp only [State.token, hstack, Option.bind_some]
        rw [← hrest]
        exact ih (it + 1) _ (by omega) (by omega)
    rw [if_neg hclose]
    by_cases hescape : b = nodeChar.escape
    · rw [if_pos hescape, hescape]
      cases l with
      | nil =>
        rw [finish_none (by rw [lex, if_pos (.inr rfl)]; rfl)]
        exact if_pos hlength.symm
      | cons c l =>
        have hmore : it + 1 ≠ fileContents.length := by
          rw [List.length_cons] at hlength
          omega
        rw [lex, if_neg nodeChar.start_ne_escape.symm, if_pos rfl, tokens_cons, if_neg hmore, ← drop_succ hrest]
        exact ih (it + 2) s (by omega) (by omega)
    · rw [if_neg hescape, lex_cons hstart hescape, if_neg hclose, tokens_cons, ← hrest]
      exact ih (it + 1) s (by omega) (by omega)

end ForgottenServer.Files
