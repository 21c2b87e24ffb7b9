import ForgottenServer.Files.Loader

/-! # What is written comes back

A tree is written with a start and a type before each node, its properties with
escapes, its children and an end. The loader reads the same tree from that, unless
the file is no longer than the smallest one: the constructor refuses a file of that
size too. From whatever bytes there are it reads a balanced file or refuses it. -/
namespace ForgottenServer.Files
open ForgottenServer.Lib.Bags ForgottenServer.Lib.Markers

/-- Nodes next to each other: the type, the properties and the children of each. -/
abbrev Written := Bag (UInt8 × List UInt8)

def tokensOf : Written → List (Token UInt8)
  | .nil => []
  | .cons (type, props) children rest =>
    .start type :: (protect nodeChar props ++ (tokensOf children ++ .close :: tokensOf rest))

/-- The bytes of the nodes, with an escape before every property byte that is a marker. -/
def encode : Written → List UInt8
  | .nil => []
  | .cons (type, props) children rest =>
    nodeChar.start :: type :: (writeAll nodeChar (protect nodeChar props) ++
      (encode children ++ nodeChar.close :: encode rest))

/-- The nodes that the loader makes, where the first begins at an offset. -/
def parsed (it : ℕ) : Written → Bag Info
  | .nil => .nil
  | .cons (type, props) children rest =>
    let propsEnd := it + 2 + (writeAll nodeChar (protect nodeChar props)).length
    .cons { type, propsBegin := it + 2, propsEnd } (parsed propsEnd children)
      (parsed (propsEnd + (encode children).length + 1) rest)

/-- What a caller finds in a node. -/
def view (fileContents : List UInt8) (node : Info) : UInt8 × Option (List UInt8) :=
  (node.type, getProps fileContents node)

/-- What he should find. -/
def expected (node : UInt8 × List UInt8) : UInt8 × Option (List UInt8) :=
  (node.1, if node.2 = [] then none else some node.2)

theorem encode_eq (f : Written) : encode f = writeAll nodeChar (tokensOf f) := by
  induction f with
  | nil => rfl
  | cons x children rest ih ih' =>
    obtain ⟨type, props⟩ := x
    simp only [encode, tokensOf, writeAll, List.flatMap_cons, List.flatMap_append, write, List.cons_append,
      List.nil_append, ih, ih']

theorem valid_tokensOf (f : Written) : ∀ t ∈ tokensOf f, Valid nodeChar t := by
  induction f with
  | nil =>
    intro t ht
    cases ht
  | cons x children rest ih ih' =>
    obtain ⟨type, props⟩ := x
    intro t ht
    simp only [tokensOf, List.mem_cons, List.mem_append] at ht
    rcases ht with rfl | ht | ht | rfl | ht
    · trivial
    · exact valid_protect t ht
    · exact ih t ht
    · trivial
    · exact ih' t ht

/-! ## Reading what was written -/

theorem tokens_append (it : ℕ) (l l' : List (Token UInt8)) (s : State) : s.tokens it (l ++ l') =
    (s.tokens it l).bind (State.tokens (it + (writeAll nodeChar l).length) l') := by
  induction l generalizing it s with
  | nil => rfl
  | cons t l ih =>
    rw [List.cons_append, State.tokens, State.tokens]
    cases s.token it t with
    | none => rfl
    | some s' =>
      have hlength : it + Token.size t + (writeAll nodeChar l).length = it + (writeAll nodeChar (t :: l)).length := by
        rw [writeAll, writeAll, List.flatMap_cons, List.length_append, Nat.add_assoc, Token.size]
      rw [Option.bind_some, Option.bind_some, ih, hlength]

theorem tokens_protect (it : ℕ) (props : List UInt8) (s : State) : s.tokens it (protect nodeChar props) = some s := by
  induction props generalizing it with
  | nil => rfl
  | cons b props ih =>
    rw [protect, List.map_cons, ← protect, State.tokens]
    split <;> exact ih _

/-- A node with more children, the first of which begins at an offset. -/
def Node.grow (node : Node) (it : ℕ) (f : Written) : Node :=
  { (if f.isNil then node else node.endProps it) with children := node.children.append (parsed it f) }

theorem Node.grow_nil (node : Node) (it : ℕ) : node.grow it .nil = node := by
  rw [Node.grow, parsed, Bag.append_nil]
  rfl

theorem Node.children_endProps (node : Node) (it : ℕ) : (node.endProps it).children = node.children := by
  unfold Node.endProps
  split <;> rfl

theorem close_grow (type : UInt8) (propsBegin it it' : ℕ) (f : Written) (hit : f = .nil → it' = it) :
    ((({ type, propsBegin } : Node).grow it f).endProps it').toInfo = ⟨type, propsBegin, it⟩ ∧
    ((({ type, propsBegin } : Node).grow it f).endProps it').children = parsed it f := by
  cases f with
  | nil =>
    rw [Node.grow_nil, hit rfl]
    exact ⟨rfl, rfl⟩
  | cons x children rest => exact ⟨rfl, rfl⟩

theorem adopt_grow (node child : Node) (it it' : ℕ) (type : UInt8) (props : List UInt8) (children rest : Written)
    (hinfo : child.toInfo = ⟨type, it + 2, it + 2 + (writeAll nodeChar (protect nodeChar props)).length⟩)
    (hchildren : child.children = parsed (it + 2 + (writeAll nodeChar (protect nodeChar props)).length) children)
    (hit : it' = it + 2 + (writeAll nodeChar (protect nodeChar props)).length + (encode children).length + 1) :
    ((node.endProps it).adopt child).grow it' rest = node.grow it (.cons (type, props) children rest) := by
  have hopen : ((node.endProps it).adopt child).endProps it' = (node.endProps it).adopt child := by
    rw [Node.endProps, if_neg]
    rw [Node.adopt]
    cases (node.endProps it).children <;> simp [Bag.append, Bag.isNil]
  have hsame : (if rest.isNil then (node.endProps it).adopt child
      else ((node.endProps it).adopt child).endProps it') = (node.endProps it).adopt child := by
    rw [hopen, ite_self]
  have hgrow : (if Bag.isNil (.cons (type, props) children rest) then node else node.endProps it) =
      node.endProps it := rfl
  rw [Node.grow, hsame, Node.grow, hgrow, Node.adopt]
  dsimp only
  rw [Bag.append_assoc, Node.children_endProps, hinfo, hchildren, hit]
  rfl

theorem tokens_written (f : Written) (it : ℕ) (top : Node) (below : List Node) (root : Node) :
    State.tokens it (tokensOf f) { stack := top :: below, root } = some { stack := top.grow it f :: below, root } := by
  induction f generalizing it top below with
  | nil => rw [tokensOf, State.tokens, Node.grow_nil]
  | cons x children rest ih ih' =>
    obtain ⟨type, props⟩ := x
    rw [tokensOf, State.tokens, State.token, Option.bind_some, tokens_append, tokens_protect, Option.bind_some,
      tokens_append, ih, Option.bind_some, State.tokens, State.token, Option.bind_some, ← encode_eq]
    obtain ⟨hinfo, hchildren⟩ := close_grow type (it + 2)
      (it + 2 + (writeAll nodeChar (protect nodeChar props)).length)
      (it + 2 + (writeAll nodeChar (protect nodeChar props)).length + (encode children).length) children
      (fun hnil => by rw [hnil, encode, List.length_nil, Nat.add_zero])
    exact (ih' _ _ _).trans (congrArg (fun node => some (State.mk (node :: below) root))
      (adopt_grow top _ it _ type props children rest hinfo hchildren rfl))

theorem getProps_written {fileContents : List UInt8} {type : UInt8} {it : ℕ} {props rest : List UInt8}
    (h : fileContents.drop it = writeAll nodeChar (protect nodeChar props) ++ rest) :
    getProps fileContents ⟨type, it, it + (writeAll nodeChar (protect nodeChar props)).length⟩ =
      if props = [] then none else some props := by
  have hempty : (writeAll nodeChar (protect nodeChar props)).length = 0 ↔ props = [] := by
    rw [List.length_eq_zero_iff, writeAll_eq_nil, protect, List.map_eq_nil_iff]
  unfold getProps
  dsimp only
  rw [Nat.add_sub_cancel_left, h, List.take_left, unescape_protect]
  simp only [hempty]

theorem view_parsed {fileContents : List UInt8} (f : Written) {it : ℕ} {rest : List UInt8}
    (h : fileContents.drop it = encode f ++ rest) : (parsed it f).map (view fileContents) = f.map expected := by
  induction f generalizing it rest with
  | nil => rfl
  | cons x children nodes ih ih' =>
    obtain ⟨type, props⟩ := x
    simp only [encode, List.cons_append, List.append_assoc] at h
    have hprops := drop_succ (drop_succ h)
    have hchildren : fileContents.drop (it + 2 + (writeAll nodeChar (protect nodeChar props)).length) =
        encode children ++ nodeChar.close :: (encode nodes ++ rest) := by
      rw [← List.drop_drop, hprops, List.drop_left]
    have hrest : fileContents.drop (it + 2 + (writeAll nodeChar (protect nodeChar props)).length +
        (encode children).length) = nodeChar.close :: (encode nodes ++ rest) := by
      rw [← List.drop_drop, hchildren, List.drop_left]
    rw [parsed, Bag.map, Bag.map, ih hchildren, ih' (drop_succ hrest), view, getProps_written hprops]
    rfl

/-! ## Whole files -/

theorem construct_eq {fileContents : List UInt8} (acceptedIdentifier : Identifier)
    (h : minimalSize < fileContents.length) : construct fileContents acceptedIdentifier =
      if fileContents.take 4 ≠ acceptedIdentifier.1 ∧ fileContents.take 4 ≠ wildcard.1 then
        .error .invalidOTBFormat
      else .ok () := by
  rw [construct, if_neg (not_le.mpr h)]
  unfold minimalSize at h
  match fileContents, h with
  | a :: b :: c :: d :: l, _ =>
    have hread : (List.range 4).mapM (deref (a :: b :: c :: d :: l)) = .ok [a, b, c, d] := rfl
    rw [hread]
    rfl

theorem load_eq {fileContents : List UInt8} {acceptedIdentifier : Identifier} {type : UInt8} {l : List UInt8}
    (hsize : minimalSize < fileContents.length)
    (hid : fileContents.take 4 = acceptedIdentifier.1 ∨ fileContents.take 4 = wildcard.1)
    (h : fileContents.drop 4 = nodeChar.start :: type :: l) :
    load fileContents acceptedIdentifier = finish ((lex nodeChar l).bind fun l =>
        State.tokens 6 l { stack := [{ type, propsBegin := 6 }], root := { type, propsBegin := 6 } }) := by
  have hfits : ¬ (fileContents.take 4 ≠ acceptedIdentifier.1 ∧ fileContents.take 4 ≠ wildcard.1) := by
    rintro ⟨hne, hne'⟩
    exact hid.elim hne hne'
  have htype := drop_succ h
  have hrest : fileContents.drop 6 = l := drop_succ htype
  rw [load, construct_eq acceptedIdentifier hsize, if_neg hfits, parseTree, deref_eq h, deref_eq htype, ← hrest]
  unfold minimalSize at hsize
  exact loop_eq fileContents _ 6 _ (by omega) (by omega)

/-- The tree of a file is the tree that was written. -/
def ReadsBack (identifier acceptedIdentifier : Identifier) (type : UInt8) (props : List UInt8)
    (children : Written) : Prop :=
  ∃ root : Node, load (identifier.1 ++ encode (.cons (type, props) children .nil)) acceptedIdentifier = .ok root ∧
    (Bag.cons root.toInfo root.children .nil).map (view (identifier.1 ++ encode (.cons (type, props) children .nil))) =
      (Bag.cons (type, props) children .nil).map expected

theorem encode_eq_nil {f : Written} : encode f = [] ↔ f = .nil := by
  cases f <;> simp [encode]

/-- A tree is read back exactly when its root has a property or a child. -/
theorem readsBack_iff {identifier acceptedIdentifier : Identifier}
    (hid : identifier = acceptedIdentifier ∨ identifier = wildcard) (type : UInt8) (props : List UInt8)
    (children : Written) :
    ReadsBack identifier acceptedIdentifier type props children ↔ props ≠ [] ∨ children ≠ .nil := by
  have hempty : writeAll nodeChar (protect nodeChar props) = [] ↔ props = [] := by
    rw [writeAll_eq_nil, protect, List.map_eq_nil_iff]
  constructor
  · rintro ⟨root, hload, -⟩
    by_contra hbare
    obtain ⟨hprops, hchildren⟩ := not_or.mp hbare
    rw [not_not.mp hprops, not_not.mp hchildren, load, construct, if_pos] at hload
    · cases hload
    · simp [encode, protect, writeAll, identifier.2, minimalSize]
  · intro hsome
    have hdrop : (identifier.1 ++ encode (.cons (type, props) children .nil)).drop 4 =
        encode (.cons (type, props) children .nil) := List.drop_left' identifier.2
    have htake : (identifier.1 ++ encode (.cons (type, props) children .nil)).take 4 = identifier.1 :=
      List.take_left' identifier.2
    have hsize : minimalSize < (identifier.1 ++ encode (.cons (type, props) children .nil)).length := by
      have hlong : 0 < (writeAll nodeChar (protect nodeChar props)).length + (encode children).length := by
        rcases hsome with hprops | hchildren
        · have := List.length_pos_of_ne_nil (mt hempty.mp hprops)
          omega
        · have := List.length_pos_of_ne_nil (mt encode_eq_nil.mp hchildren)
          omega
      rw [List.length_append, identifier.2]
      simp only [encode, List.length_cons, List.length_append, List.length_nil, minimalSize]
      omega
    have hid' : (identifier.1 ++ encode (.cons (type, props) children .nil)).take 4 = acceptedIdentifier.1 ∨
        (identifier.1 ++ encode (.cons (type, props) children .nil)).take 4 = wildcard.1 := by
      rw [htake]
      exact hid.imp (congrArg Subtype.val) (congrArg Subtype.val)
    have hload := load_eq hsize hid' hdrop
    have hlex : lex nodeChar (writeAll nodeChar (protect nodeChar props) ++
        (encode children ++ nodeChar.close :: encode .nil)) =
        some (protect nodeChar props ++ (tokensOf children ++ [.close])) := by
      have hclose : lex nodeChar (nodeChar.close :: encode .nil) = some [.close] := rfl
      rw [lex_writeAll valid_protect, encode_eq children, lex_writeAll (valid_tokensOf children), hclose]
      rfl
    have htokens : State.tokens 6 (protect nodeChar props ++ (tokensOf children ++ [.close]))
        { stack := [{ type, propsBegin := 6 }], root := { type, propsBegin := 6 } } =
        some { stack := [], root := ((({ type, propsBegin := 6 } : Node).grow
          (6 + (writeAll nodeChar (protect nodeChar props)).length) children).endProps
          (6 + (writeAll nodeChar (protect nodeChar props)).length + (encode children).length)) } := by
      rw [tokens_append, tokens_protect, Option.bind_some, tokens_append, tokens_written, encode_eq children]
      rfl
    obtain ⟨hinfo, hchildren⟩ := close_grow type 6 (6 + (writeAll nodeChar (protect nodeChar props)).length)
      (6 + (writeAll nodeChar (protect nodeChar props)).length + (encode children).length) children
      (fun hnil => by rw [hnil, encode, List.length_nil, Nat.add_zero])
    rw [hlex, Option.bind_some, htokens, finish] at hload
    refine ⟨_, hload, ?_⟩
    rw [hinfo, hchildren]
    exact @view_parsed _ (.cons (type, props) children .nil) 4 _ (hdrop.trans (List.append_nil _).symm)

/-! ## Any bytes -/

theorem depth_of_tokens {it : ℕ} {l : List (Token UInt8)} {s s' : State} (h : s.tokens it l = some s') :
    depth s.stack.length l = some s'.stack.length := by
  induction l generalizing it s with
  | nil =>
    cases h
    rfl
  | cons t l ih =>
    obtain ⟨next, htoken, hrest⟩ := Option.bind_eq_some_iff.mp h
    have hdepth := ih hrest
    cases t with
    | start type =>
      unfold State.token at htoken
      cases hstack : s.stack with
      | nil => simp [hstack] at htoken
      | cons top below =>
        simp only [hstack, Option.some.injEq] at htoken
        rw [← htoken] at hdepth
        exact hdepth
    | close =>
      unfold State.token at htoken
      cases hstack : s.stack with
      | nil => simp [hstack] at htoken
      | cons top below =>
        simp only [hstack, Option.some.injEq] at htoken
        rw [← htoken] at hdepth
        cases below <;> exact hdepth
    | escaped b =>
      cases htoken
      exact hdepth
    | plain b =>
      cases htoken
      exact hdepth

/-- The properties of a node lie within the first bytes. -/
def Info.Within (n : ℕ) (node : Info) : Prop := node.propsBegin ≤ node.propsEnd ∧ node.propsEnd ≤ n

/-- An open node: its properties have begun, and have ended if it has children. -/
structure Node.Fits (n : ℕ) (node : Node) : Prop where
  begun : node.propsBegin ≤ n
  ended : node.children.isNil = false → node.Within n
  inside : ∀ x ∈ node.children.nodes, x.1.Within n

/-- What the loop keeps, at an offset. -/
structure State.Fits (n : ℕ) (s : State) : Prop where
  top : ∀ node ∈ s.stack.head?, node.Fits n
  below : ∀ node ∈ s.stack.tail, node.Fits n ∧ node.Within n
  root : s.stack = [] → s.root.Fits n ∧ s.root.Within n

theorem Info.Within.mono {n n' : ℕ} {node : Info} (h : node.Within n) (hle : n ≤ n') : node.Within n' :=
  ⟨h.1, h.2.trans hle⟩

theorem Node.Fits.mono {n n' : ℕ} {node : Node} (h : node.Fits n) (hle : n ≤ n') : node.Fits n' :=
  ⟨h.begun.trans hle, fun hsome => (h.ended hsome).mono hle, fun x hx => (h.inside x hx).mono hle⟩

theorem Node.Fits.endProps {n : ℕ} {node : Node} (h : node.Fits n) :
    (node.endProps n).Fits n ∧ (node.endProps n).Within n := by
  unfold Node.endProps
  split
  · exact ⟨⟨h.begun, fun _ => ⟨h.begun, le_refl n⟩, h.inside⟩, h.begun, le_refl n⟩
  · rename_i hsome
    exact ⟨h, h.ended (Bool.eq_false_iff.mpr hsome)⟩

theorem Node.Fits.adopt {n : ℕ} {node child : Node} (h : node.Fits n) (hnode : node.Within n)
    (hchild : child.Fits n) (hwithin : child.Within n) : (node.adopt child).Fits n := by
  refine ⟨h.begun, fun _ => hnode, fun x hx => ?_⟩
  rw [Node.adopt] at hx
  dsimp only at hx
  rw [Bag.nodes_append, List.mem_append, Bag.nodes, Bag.nodes, List.append_nil, List.mem_cons] at hx
  rcases hx with hx | rfl | hx
  · exact h.inside x hx
  · exact hwithin
  · exact hchild.inside x hx

theorem fits_token {it : ℕ} {t : Token UInt8} {s s' : State} (h : s.Fits it) (ht : s.token it t = some s') :
    s'.Fits (it + Token.size t) := by
  have hle : it ≤ it + Token.size t := Nat.le_add_right _ _
  have hsame : s.Fits (it + Token.size t) :=
    ⟨fun node hnode => (h.top node hnode).mono hle,
      fun node hnode => ⟨(h.below node hnode).1.mono hle, (h.below node hnode).2.mono hle⟩,
      fun hnil => ⟨(h.root hnil).1.mono hle, (h.root hnil).2.mono hle⟩⟩
  obtain ⟨stack, root⟩ := s
  cases t with
  | start type =>
    cases stack with
    | nil => cases ht
    | cons top below =>
      cases ht
      obtain ⟨hfits, hwithin⟩ := (h.top top rfl).endProps
      refine ⟨fun node hnode => ?_, fun node hnode => ?_, fun hnil => by cases hnil⟩
      · cases hnode
        exact ⟨le_refl _, fun hsome => absurd hsome (by simp [Bag.isNil]), fun x hx => (List.not_mem_nil hx).elim⟩
      · rcases List.mem_cons.mp hnode with rfl | hnode
        · exact ⟨hfits.mono hle, hwithin.mono hle⟩
        · exact hsame.below node hnode
  | close =>
    cases stack with
    | nil => cases ht
    | cons top below =>
      cases ht
      obtain ⟨hfits, hwithin⟩ := (h.top top rfl).endProps
      cases below with
      | nil =>
        exact ⟨fun node hnode => (Option.not_mem_none _ hnode).elim, fun node hnode => (List.not_mem_nil hnode).elim,
          fun _ => ⟨hfits.mono hle, hwithin.mono hle⟩⟩
      | cons parent below =>
        obtain ⟨hparent, hparent'⟩ := h.below parent (List.mem_cons_self ..)
        refine ⟨fun node hnode => ?_, fun node hnode => ?_, fun hnil => by cases hnil⟩
        · cases hnode
          exact (hparent.adopt hparent' hfits hwithin).mono hle
        · exact hsame.below node (List.mem_cons_of_mem _ hnode)
  | escaped b =>
    cases ht
    exact hsame
  | plain b =>
    cases ht
    exact hsame

theorem fits_tokens {it : ℕ} {l : List (Token UInt8)} {s s' : State} (h : s.Fits it)
    (hl : s.tokens it l = some s') : s'.Fits (it + (writeAll nodeChar l).length) := by
  induction l generalizing it s with
  | nil =>
    cases hl
    exact h
  | cons t l ih =>
    obtain ⟨next, htoken, hrest⟩ := Option.bind_eq_some_iff.mp hl
    have hnext := ih (fits_token h htoken) hrest
    rwa [Nat.add_assoc, Token.size, ← List.length_append, writeAll, ← List.flatMap_cons, ← writeAll] at hnext

theorem finish_cases (s : Option State) : finish s = .error .invalidOTBFormat ∨
    ∃ root, finish s = .ok root ∧ s = some { stack := [], root } := by
  cases s with
  | none => exact .inl rfl
  | some s =>
    obtain ⟨stack, root⟩ := s
    cases stack with
    | nil => exact .inr ⟨root, rfl, rfl⟩
    | cons top below => exact .inl rfl

/-- Whatever the bytes are, the loader refuses them or reads a tree. It does not read at the
end of the file; what it reads is balanced, and the properties of all nodes are in the
file. -/
theorem load_cases (fileContents : List UInt8) (acceptedIdentifier : Identifier) :
    load fileContents acceptedIdentifier = .error .invalidOTBFormat ∨
    ∃ root, load fileContents acceptedIdentifier = .ok root ∧ Balanced nodeChar (fileContents.drop 4) ∧
      ∀ x ∈ (Bag.cons root.toInfo root.children .nil).nodes, x.1.Within fileContents.length := by
  by_cases hsize : minimalSize < fileContents.length
  · by_cases hid : fileContents.take 4 ≠ acceptedIdentifier.1 ∧ fileContents.take 4 ≠ wildcard.1
    · left
      rw [load, construct_eq acceptedIdentifier hsize, if_pos hid]
      rfl
    have hid' : fileContents.take 4 = acceptedIdentifier.1 ∨ fileContents.take 4 = wildcard.1 := by
      by_contra hneither
      exact hid (not_or.mp hneither)
    obtain ⟨b, type, l, hdrop⟩ : ∃ b type l, fileContents.drop 4 = b :: type :: l := by
      have hlong : 2 ≤ (fileContents.drop 4).length := by
        rw [List.length_drop]
        unfold minimalSize at hsize
        omega
      match fileContents.drop 4, hlong with
      | b :: type :: l, _ => exact ⟨b, type, l, rfl⟩
    by_cases hstart : b = nodeChar.start
    · subst hstart
      rw [load_eq hsize hid' hdrop]
      refine (finish_cases _).imp_right fun ⟨root, hfinish, hsome⟩ => ?_
      obtain ⟨tokens, hlex, htokens⟩ := Option.bind_eq_some_iff.mp hsome
      refine ⟨root, hfinish, ⟨.start type :: tokens, ?_, depth_of_tokens htokens⟩, ?_⟩
      · rw [hdrop, lex, if_pos rfl, hlex, Option.map_some]
      · have hbegin : State.Fits 6 { stack := [{ type, propsBegin := 6 }], root := { type, propsBegin := 6 } } := by
          refine ⟨fun node hnode => ?_, fun node hnode => (List.not_mem_nil hnode).elim, fun hnil => ?_⟩
          · cases hnode
            exact ⟨le_refl _, fun hsome => absurd hsome (by simp [Bag.isNil]), fun x hx => (List.not_mem_nil hx).elim⟩
          · cases hnil
        have hlength : 6 + (writeAll nodeChar tokens).length = fileContents.length := by
          rw [writeAll_of_lex hlex]
          have := congrArg List.length hdrop
          rw [List.length_drop, List.length_cons, List.length_cons] at this
          unfold minimalSize at hsize
          omega
        have hend := (fits_tokens hbegin htokens).root rfl
        rw [hlength] at hend
        intro x hx
        rw [Bag.nodes, Bag.nodes, List.append_nil, List.mem_cons] at hx
        rcases hx with rfl | hx
        · exact hend.2
        · exact hend.1.inside x hx
    · left
      rw [load, construct_eq acceptedIdentifier hsize, if_neg hid, parseTree, deref_eq hdrop]
      exact if_pos hstart
  · left
    rw [load, construct, if_pos (not_lt.mp hsize)]
    rfl

/-- A tree comes back from the file that it was written to exactly when its root has a
property or a child. Any other bytes are refused, or they are balanced and read without
leaving the file. -/
theorem otb_files (acceptedIdentifier : Identifier) :
    (∀ (identifier : Identifier) (type : UInt8) (props : List UInt8) (children : Written),
      identifier = acceptedIdentifier ∨ identifier = wildcard →
      (ReadsBack identifier acceptedIdentifier type props children ↔ props ≠ [] ∨ children ≠ .nil)) ∧
    ∀ fileContents : List UInt8, load fileContents acceptedIdentifier = .error .invalidOTBFormat ∨
      ∃ root, load fileContents acceptedIdentifier = .ok root ∧ Balanced nodeChar (fileContents.drop 4) ∧
        ∀ x ∈ (Bag.cons root.toInfo root.children .nil).nodes, x.1.Within fileContents.length :=
  ⟨fun _ type props children hid => readsBack_iff hid type props children,
    fun fileContents => load_cases fileContents acceptedIdentifier⟩

/-- A root with an end marker for a property, and a child with nothing. -/
theorem protected_reads_back : ReadsBack wildcard wildcard 0 [0xFF] (.cons (1, []) .nil .nil) :=
  ((otb_files wildcard).1 wildcard 0 [0xFF] (.cons (1, []) .nil .nil) (.inl rfl)).mpr (.inl (List.cons_ne_nil _ _))

/-- The smallest file is refused. -/
theorem smallest_refused : ¬ ReadsBack wildcard wildcard 0 [] .nil := by
  intro ⟨root, hload, _⟩
  have hrefused : load (wildcard.1 ++ encode (.cons (0, []) .nil .nil)) wildcard = .error .invalidOTBFormat := rfl
  rw [hrefused] at hload
  cases hload

end ForgottenServer.Files
