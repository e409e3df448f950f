-- Nothing but trivia and spans looks at places. Stacks that differ in the offsets of their leaves
-- are fed alike, nodes that are built from such parse trees differ in the positions of their
-- tokens only, and no S-expression without trivia shows a position.

import SyntaxAtlas.Sexpr
import SyntaxAtlas.Proofs.Conforming

namespace SyntaxAtlas

/-! ## Parse trees without their places in the source -/

/-- A leaf without its offset. -/
def Leaf.bare : Leaf → Leaf
  | read t text _ => .read t text 0
  | inserted t => .inserted t

namespace ParseTree

mutual

/-- A parse tree without the offsets of its leaves. -/
def bare : ParseTree → ParseTree
  | .leaf l => .leaf l.bare
  | .node rule children => .node rule (bareAll children)

def bareAll : List ParseTree → List ParseTree
  | [] => []
  | t :: rest => t.bare :: bareAll rest

end

theorem bareAll_eq (ts : List ParseTree) : bareAll ts = ts.map bare := by
  induction ts with
  | nil => rfl
  | cons t rest ih => rw [bareAll, ih, List.map_cons]

@[simp] theorem symbol_bare (t : ParseTree) : t.bare.symbol = t.symbol := by
  rcases t with (_ | _) | _ <;> rfl

end ParseTree

/-! ## Feeding -/

namespace Stack

/-- A stack without the offsets of the leaves in it. -/
def bare (stack : Stack) : Stack := stack.map fun frame => ⟨frame.state, frame.tree.bare⟩

@[simp] theorem state_bare (stack : Stack) : Stack.state (bare stack) = Stack.state stack := by
  cases stack <;> rfl

theorem trees_bare (stack : Stack) (n : Nat) :
    Stack.trees (bare stack) n = (Stack.trees stack n).map ParseTree.bare := by
  simp [Stack.trees, bare, Function.comp_def, ← List.map_take]

theorem reduce_bare (a : Automaton) (p : Grammar.Production) (stack : Stack) :
    Stack.reduce a p (bare stack) = (Stack.reduce a p stack).map bare := by
  have below : bare stack = stack.map fun frame => ⟨frame.state, frame.tree.bare⟩ := rfl
  have state := state_bare (stack.drop p.body.length)
  rw [bare, List.map_drop, ← below] at state
  simp only [Stack.reduce, trees_bare, List.map_map, Function.comp_def, ParseTree.symbol_bare,
    state]
  split
  · cases (a.row (Stack.state (stack.drop p.body.length))).goto? p.rule with
    | none => rfl
    | some n => simp [bare, ParseTree.bare, ParseTree.bareAll_eq]
  · rfl

end Stack

/-- The outcome of feeding without offsets. -/
def Fed.bare : Fed → Fed
  | shifted stack => .shifted (Stack.bare stack)
  | accepted tree => .accepted tree.bare
  | stuck stack => .stuck (Stack.bare stack)

theorem Fed.bare_eq_shifted {fed : Fed} {next : Stack} :
    fed.bare = .shifted next ↔ ∃ stack, fed = .shifted stack ∧ Stack.bare stack = next := by
  cases fed <;> simp [bare]

theorem Fed.bare_eq_accepted {fed : Fed} {t : ParseTree} :
    fed.bare = .accepted t ↔ ∃ tree, fed = .accepted tree ∧ tree.bare = t := by
  cases fed <;> simp [bare]

theorem Fed.bare_eq_stuck {fed : Fed} {mid : Stack} :
    fed.bare = .stuck mid ↔ ∃ stack, fed = .stuck stack ∧ Stack.bare stack = mid := by
  cases fed <;> simp [bare]

namespace Automaton

theorem feedWith_bare (a : Automaton) (t : Terminal) (leaf : Leaf) (fuel : Nat) (stack : Stack) :
    a.feedWith t leaf.bare fuel (Stack.bare stack) = (a.feedWith t leaf fuel stack).bare := by
  induction fuel generalizing stack with
  | zero => rfl
  | succ fuel ih =>
    simp only [feedWith, Stack.state_bare]
    cases (a.row (Stack.state stack)).action? t with
    | none => rfl
    | some action =>
      cases action with
      | shift state => rfl
      | reduce p =>
        by_cases start : p.rule = .start
        · simp only [start, if_true]
          rcases stack with _ | ⟨frame, _ | ⟨_, _⟩⟩ <;> rfl
        · simp only [start, if_false, Stack.reduce_bare]
          cases Stack.reduce a p stack with
          | none => rfl
          | some next => exact ih next

/-- Feeding does not look at offsets. -/
theorem feed_bare (a : Automaton) (leaf : Leaf) (stack : Stack) :
    a.feed leaf.bare (Stack.bare stack) = (a.feed leaf stack).bare := by
  have terminal : leaf.bare.terminal = leaf.terminal := by cases leaf <;> rfl
  have steps : feedSteps (Stack.bare stack) = feedSteps stack := by simp [feedSteps, Stack.bare]
  rw [feed, terminal, steps, feedWith_bare, feed]

theorem feed_bare_congr (a : Automaton) {leaf leaf' : Leaf} {stack stack' : Stack}
    (leaves : leaf.bare = leaf'.bare) (same : Stack.bare stack = Stack.bare stack') :
    (a.feed leaf stack).bare = (a.feed leaf' stack').bare := by
  rw [← feed_bare, leaves, same, feed_bare]

end Automaton

/-! ## Building nodes -/

/-- Steps that agree up to a view of what they give agree behind results that do. -/
theorem map_bind_congr {ε α β γ δ : Type} {x y : Except ε α} {view : α → β} {k l : α → Except ε γ}
    {view' : γ → δ} (same : x.map view = y.map view)
    (next : ∀ a b, view a = view b → (k a).map view' = (l b).map view') :
    (x.bind k).map view' = (y.bind l).map view' := by
  rcases x with e | a <;> rcases y with e' | b
  · exact congrArg Except.error (Except.error.inj same)
  · cases same
  · cases same
  · exact next a b (Except.ok.inj same)

theorem map_map_congr {ε α β γ δ : Type} {x y : Except ε α} {view : α → β} {f g : α → γ}
    {view' : γ → δ} (same : x.map view = y.map view)
    (next : ∀ a b, view a = view b → view' (f a) = view' (g b)) :
    (x.map f).map view' = (y.map g).map view' := by
  have bound := map_bind_congr (k := fun a => .ok (f a)) (l := fun b => .ok (g b)) same
    fun a b alike => congrArg Except.ok (next a b alike)
  cases x <;> cases y <;> exact bound

namespace Tree

theorem isVacant_bare (t : Tree) : t.bare.isVacant = t.isVacant := by
  cases t <;> rfl

theorem description_bare (t : Tree) : t.bare.description = t.description := by
  cases t with
  | token u => rfl
  | foreign value => rfl
  | node kind slots items state =>
    have children := children_bare (.node kind slots items state)
    simp only [bare] at children
    simp only [bare, description, knownChildren, children, entry]
    cases kind.catalogued <;> simp [Except.map]

theorem findSlot_bare (child : Tree) (index : Nat) (slots : List Slot) :
    findSlot child.bare index slots = findSlot child index slots := by
  induction slots generalizing index with
  | nil => rfl
  | cons slot rest ih => simp only [findSlot, admits_bare, ih]

theorem fillSlots_bare (kind : Kind) (index : Nat) (slots : List Slot) (children : List Tree) :
    fillSlots kind index slots (children.map bare) =
      (fillSlots kind index slots children).map bareSlots := by
  induction children generalizing index slots with
  | nil => rfl
  | cons child rest ih =>
    simp only [List.map_cons, fillSlots, findSlot_bare, description_bare, ih]
    rcases findSlot child index slots with v | _ | ⟨taken, slot, left⟩
    · rfl
    · cases child.description <;> rfl
    · simp only [bind, Except.bind]
      cases fillSlots kind (taken + 1) left rest <;> rfl

theorem bare_layout (kind : Kind) (slots : List (String × Tree)) :
    (layout kind slots).bare = layout kind (bareSlots slots) := by
  simp [layout, layoutAt, bare, bareSlots_eq, bareItems_eq, Function.comp_def]

theorem bare_collection (kind : Kind) (items : List Tree) :
    (collection kind items).bare = collection kind (items.map bare) := by
  simp [collection, bare, bareSlots_eq, bareItems_eq]

theorem buildLayout_bare (kind : Kind) (children : List Tree) :
    buildLayout kind (children.map bare) = (buildLayout kind children).map bare := by
  simp only [buildLayout, fillSlots_bare]
  cases kind.catalogued with
  | none => rfl
  | some e =>
    simp only
    cases fillSlots kind 0 e.shape.slots children with
    | error v => rfl
    | ok slots => exact congrArg Except.ok (bare_layout kind slots).symm

theorem lookup_bareSlots (slots : List (String × Tree)) (name : String) :
    (bareSlots slots).lookup name = (slots.lookup name).map bare := by
  induction slots with
  | nil => rfl
  | cons s rest ih =>
    rw [bareSlots, List.lookup_cons, List.lookup_cons, ih]
    cases name == s.1 <;> rfl

theorem putSlot_bare (kind : Kind) (name : String) (child : Tree) (slots : List (String × Tree)) :
    putSlot kind name child.bare (bareSlots slots) = bareSlots (putSlot kind name child slots) := by
  rw [putSlot, putSlot, bareSlots_eq (List.filterMap _ _), List.map_filterMap]
  refine List.filterMap_congr fun s _ => ?_
  rw [lookup_bareSlots]
  split
  · rfl
  · cases slots.lookup s.name <;> rfl

theorem setChild_bare (t : Tree) (name : String) (child : Tree) :
    t.bare.setChild name (some child.bare) = (t.setChild name (some child)).map bare := by
  cases t with
  | token u => rfl
  | foreign value => rfl
  | node kind slots items state =>
    have filled : NodeState.filled { state with span := {} } name =
        { state.filled name with span := {} } := by
      unfold NodeState.filled
      split <;> rfl
    simp only [bare, setChild, entry]
    cases kind.catalogued with
    | none => rfl
    | some e =>
      simp only [bind, Except.bind]
      cases e.slot? name with
      | none => rfl
      | some slot => simp [Except.map, bare, putSlot_bare, filled]

theorem addSeparated_bare (kind : Kind) (separator : String) (elements : List Tree) (child : Tree) :
    addSeparated kind separator (elements.map bare) child.bare =
      (addSeparated kind separator elements child).map (List.map bare) := by
  rw [addSeparated, addSeparated, isToken_bare, List.getLast?_map]
  split
  · cases elements.getLast? with
    | none => rfl
    | some last =>
      simp only [Option.map_some, setChild_bare, ← List.map_dropLast]
      cases last.setChild separator (some child) <;>
        simp [Except.map, bind, Except.bind, pure, Except.pure]
  · simp [Except.map]

theorem buildSeparated_bare (kind : Kind) (separator : String) (children : List Tree) :
    buildSeparated kind separator (children.map bare) =
      (buildSeparated kind separator children).map bare := by
  have added : ∀ elements : List Tree,
      (children.map bare).foldlM (addSeparated kind separator) (elements.map bare) =
        (children.foldlM (addSeparated kind separator) elements).map (List.map bare) := by
    induction children with
    | nil => intro elements; rfl
    | cons child rest ih =>
      intro elements
      rw [List.map_cons, List.foldlM_cons, List.foldlM_cons, addSeparated_bare]
      cases addSeparated kind separator elements child with
      | error v => rfl
      | ok elements => exact ih elements
  rw [buildSeparated, buildSeparated]
  have all := added []
  rw [List.map_nil] at all
  rw [all]
  cases children.foldlM (addSeparated kind separator) [] with
  | error v => rfl
  | ok elements => exact congrArg Except.ok (bare_collection kind elements).symm

theorem buildByShape_bare (kind : Kind) (children : List Tree) :
    buildByShape kind (children.map bare) = (buildByShape kind children).map bare := by
  unfold buildByShape
  split
  · rfl
  · exact buildLayout_bare kind children
  · exact congrArg Except.ok (bare_collection kind children).symm
  · rcases children with _ | ⟨selected, _ | ⟨_, _⟩⟩
    · rfl
    · rfl
    · simp [Except.map]

theorem buildExpression_bare (children : List Tree) :
    buildExpression (children.map bare) = (buildExpression children).bare := by
  rcases children with _ | ⟨operand, _ | ⟨_, _⟩⟩
  · rfl
  · rfl
  · simp [buildExpression, bare_layout, bareSlots, bare_collection]

theorem single_bare (children : List Tree) :
    single (children.map bare) = (single children).map bare := by
  rcases children with _ | ⟨_, _ | ⟨_, _⟩⟩ <;> rfl

theorem pair_bare (children : List Tree) :
    pair (children.map bare) = (pair children).map fun p => (p.1.bare, p.2.bare) := by
  rcases children with _ | ⟨_, _ | ⟨_, _ | ⟨_, _⟩⟩⟩ <;> rfl

theorem markPrefix_bare (t : Tree) : t.bare.markPrefix = t.markPrefix.bare := by
  cases t <;> rfl

theorem stringLiteral_bare {t u : Token} (same : t.bare = u.bare) :
    (stringLiteral t).bare = (stringLiteral u).bare := by
  have text : t.bare.text = u.bare.text := congrArg Token.text same
  change t.text = u.text at text
  simp only [stringLiteral, Token.splitString, text]
  rfl

/-- Only a string is cut where its token is. -/
theorem buildKind_map_bare {kind : Kind} (notString : kind ≠ .stringLiteralExpr)
    (children : List Tree) :
    buildKind kind (children.map bare) = (buildKind kind children).map bare := by
  unfold buildKind
  split
  · rw [single_bare]
    cases single children with
    | error v => rfl
    | ok statements =>
      simp only [bind, Except.bind, Except.map, isVacant_bare, pure, Except.pure, bare_layout]
      split <;> rfl
  · rw [pair_bare]
    cases pair children with
    | error v => rfl
    | ok operands =>
      simp only [bind, Except.bind, Except.map, markPrefix_bare]
      exact buildLayout_bare _ [operands.1.markPrefix, operands.2]
  · exact absurd rfl notString
  · split
    · exact buildSeparated_bare kind _ children
    · exact buildByShape_bare kind children

/-- What is built of children that differ in their places only differs in its places only. -/
theorem buildKind_bare (kind : Kind) {children others : List Tree}
    (same : children.map bare = others.map bare) :
    (buildKind kind children).map bare = (buildKind kind others).map bare := by
  by_cases isString : kind = .stringLiteralExpr
  · subst isString
    have singles : (single children).map bare = (single others).map bare := by
      rw [← single_bare, ← single_bare, same]
    refine map_bind_congr singles fun t u alike => ?_
    have layouts : (buildLayout .stringLiteralExpr [t]).map bare =
        (buildLayout .stringLiteralExpr [u]).map bare := by
      rw [← buildLayout_bare, ← buildLayout_bare, List.map_singleton, List.map_singleton, alike]
    cases t with
    | token t =>
      cases u with
      | token u => exact congrArg Except.ok (stringLiteral_bare (Tree.token.inj alike))
      | node => cases alike
      | foreign => cases alike
    | node => cases u <;> first | exact layouts | cases alike
    | foreign => cases u <;> first | exact layouts | cases alike
  · rw [← buildKind_map_bare isString, same, buildKind_map_bare isString]

end Tree

namespace ParseTree

theorem buildNode_bare (rule : Rule) {children others : List Tree}
    (same : children.map Tree.bare = others.map Tree.bare) :
    (buildNode rule children).map (List.map Tree.bare) =
      (buildNode rule others).map (List.map Tree.bare) := by
  have listed : (Except.ok children : Except Violation (List Tree)).map (List.map Tree.bare) =
      (Except.ok others).map (List.map Tree.bare) := congrArg Except.ok same
  cases rule with
  | node kind =>
    exact map_map_congr (Tree.buildKind_bare kind same) fun t u alike => congrArg ([·]) alike
  | expression =>
    have built : (Tree.buildExpression children).bare = (Tree.buildExpression others).bare := by
      rw [← Tree.buildExpression_bare, same, Tree.buildExpression_bare]
    exact congrArg (fun t => Except.ok [t]) built
  | start => exact listed
  | group => exact listed
  | repetition => exact listed

mutual

/-- Parse trees that differ in the offsets of their leaves stand for trees that differ in their
places. -/
theorem build_bare (t : ParseTree) :
    t.bare.build.map (List.map Tree.bare) = t.build.map (List.map Tree.bare) := by
  match t with
  | .leaf (.read _ _ _) => rfl
  | .leaf (.inserted _) => rfl
  | .node rule children =>
    simp only [bare, build]
    exact map_bind_congr (buildAll_bare children) fun _ _ same => buildNode_bare rule same

theorem buildAll_bare (ts : List ParseTree) :
    (buildAll (bareAll ts)).map (List.map Tree.bare) = (buildAll ts).map (List.map Tree.bare) := by
  match ts with
  | [] => rfl
  | t :: rest =>
    simp only [bareAll, buildAll]
    refine map_bind_congr (build_bare t) fun us vs first =>
      map_map_congr (buildAll_bare rest) fun us' vs' others => ?_
    rw [List.map_append, List.map_append, first, others]

end

/-- The same for whole files. -/
theorem toTree_bare {t u : ParseTree} (same : t.bare = u.bare) :
    t.toTree.map Tree.bare = u.toTree.map Tree.bare := by
  have built : t.build.map (List.map Tree.bare) = u.build.map (List.map Tree.bare) := by
    rw [← build_bare t, same, build_bare u]
  refine map_bind_congr built fun ts us alike => ?_
  rw [← Tree.single_bare, alike, Tree.single_bare]

end ParseTree

/-! ## S-expressions -/

namespace Tree

mutual

theorem form_bare (t : Tree) : t.bare.form false = t.form false := by
  match t with
  | .token u => rfl
  | .foreign value => rfl
  | .node kind slots items state =>
    simp only [bare, form, slotForms_bare slots, itemForms_bare items]

theorem slotForms_bare (slots : List (String × Tree)) :
    slotForms false (bareSlots slots) = slotForms false slots := by
  match slots with
  | [] => rfl
  | (name, t) :: rest => simp only [bareSlots, slotForms, form_bare t, slotForms_bare rest]

theorem itemForms_bare (items : List Tree) :
    itemForms false (bareItems items) = itemForms false items := by
  match items with
  | [] => rfl
  | t :: rest => simp only [bareItems, itemForms, form_bare t, itemForms_bare rest]

end

mutual

theorem checkKinds_bare (t : Tree) : t.bare.checkKinds = t.checkKinds := by
  match t with
  | .token u => rfl
  | .foreign value => rfl
  | .node kind slots items state =>
    simp only [bare, checkKinds, checkSlots_bare slots, checkItems_bare items]

theorem checkSlots_bare (slots : List (String × Tree)) :
    checkSlots (bareSlots slots) = checkSlots slots := by
  match slots with
  | [] => rfl
  | (name, t) :: rest => simp only [bareSlots, checkSlots, checkKinds_bare t, checkSlots_bare rest]

theorem checkItems_bare (items : List Tree) : checkItems (bareItems items) = checkItems items := by
  match items with
  | [] => rfl
  | t :: rest => simp only [bareItems, checkItems, checkKinds_bare t, checkItems_bare rest]

end

/-- Trees that differ in their places only have the same S-expression without trivia. -/
theorem sexpr_bare {t u : Tree} (same : t.bare = u.bare) (indent : Bool) :
    t.sexpr false indent = u.sexpr false indent := by
  simp only [sexpr, ← checkKinds_bare t, ← checkKinds_bare u, ← form_bare t, ← form_bare u, same]

end Tree

end SyntaxAtlas
