-- Every derivation of a source file can be built. The tree conforms to the
-- catalog, and its tokens are those of the derivation.

import SyntaxAtlas.Proofs.Building

namespace SyntaxAtlas

/-- The tokens that a leaf becomes: a string is cut at its quotes. -/
def Leaf.tokens (l : Leaf) : List Token :=
  if l.terminal = .string then
    [l.token.splitString.1, l.token.splitString.2.1, l.token.splitString.2.2]
  else [l.token]

/-- A token of a leaf is the leaf's own or a part of a string. -/
theorem Leaf.mem_tokens {l : Leaf} {t : Token} (mem : t ∈ l.tokens) :
    t = l.token ∨
      (t.isMissing = false ∧ (t.terminal = .stringQuote ∨ t.terminal = .stringSegment)) := by
  unfold Leaf.tokens at mem
  split at mem
  · simp only [List.mem_cons, List.not_mem_nil, or_false] at mem
    rcases mem with rfl | rfl | rfl
    · exact .inr ⟨rfl, .inl rfl⟩
    · exact .inr ⟨rfl, .inr rfl⟩
    · exact .inr ⟨rfl, .inl rfl⟩
  · exact .inl (List.mem_singleton.1 mem)

theorem Leaf.plain_token (l : Leaf) : l.token.plain = l.token := by
  cases l <;> rfl

theorem Leaf.terminal_token (l : Leaf) : l.token.terminal = l.terminal := by
  cases l <;> rfl

/-- A symbol that what it stands for shows. A string shows up cut, the other two
stand at the root. -/
def Symbol.isInner : Symbol → Bool
  | .terminal .string | .rule .start | .rule (.node .sourceFile) => false
  | _ => true

/-- The rules that a derivation of a file has below its root. -/
def Rule.isInner (rule : Rule) : Bool := (Symbol.rule rule).isInner

/-- Only literals are made of strings, and nothing is made of a file but the
whole. -/
theorem inner_of_alternative : ∀ rule ∈ Grammar.rules, rule ≠ .start →
    rule ≠ .node .stringLiteralExpr → ∀ body ∈ Grammar.alternatives rule, ∀ s ∈ body,
      s.isInner = true := by
  decide

theorem mem_rules_of_alternative {rule : Rule} {body : List Symbol}
    (h : body ∈ Grammar.alternatives rule) : rule ∈ Grammar.rules := by
  cases rule with
  | start => decide
  | expression => decide
  | group g => cases g <;> decide
  | repetition r => cases r <;> decide
  | node k => exact List.mem_append_right _ (List.mem_map_of_mem (Tree.registered_of_form h))

/-- Only literals and the whole file are built with a token more or a token cut. -/
theorem isSpecial_of_inner {kind : Kind} (inner : (Rule.node kind).isInner = true)
    (notLiteral : Rule.node kind ≠ .node .stringLiteralExpr) : Tree.isSpecial kind = false := by
  unfold Tree.isSpecial
  rw [Bool.or_eq_false_iff, beq_eq_false_iff_ne, beq_eq_false_iff_ne]
  refine ⟨?_, ?_⟩
  · rintro rfl
    cases inner
  · rintro rfl
    exact notLiteral rfl

namespace ParseTree

/-- Trees that a parse tree stands for, with the tokens of its leaves. -/
structure Stands (c : ParseTree) (ts : List Tree) : Prop where
  shows : Tree.ShowAll c.symbol ts
  tokens : (Tree.itemTokens ts).map Token.plain = c.yield.flatMap Leaf.tokens

theorem stands_leaf {l : Leaf} (inner : (ParseTree.leaf l).symbol.isInner = true) :
    (ParseTree.leaf l).Stands [.token l.token] := by
  have notString : l.terminal ≠ .string := by
    intro same
    simp [symbol, same, Symbol.isInner] at inner
  constructor
  · refine (Tree.showAll_single rfl).2 ⟨_, rfl, ?_⟩
    have shown := Tree.shows_token l.plain_token
    rw [l.terminal_token] at shown
    exact shown
  · simp [Tree.itemTokens, Tree.tokens, yield, Leaf.tokens, notString, l.plain_token]

theorem stands_all {cs : List ParseTree} {tss : List (List Tree)}
    (stands : List.Forall₂ Stands cs tss) :
    List.Forall₂ Tree.ShowAll (cs.map symbol) tss ∧
      (Tree.itemTokens tss.flatten).map Token.plain = (yieldAll cs).flatMap Leaf.tokens := by
  induction stands with
  | nil => exact ⟨.nil, rfl⟩
  | cons first _ ih =>
    obtain ⟨shows, tokens⟩ := ih
    refine ⟨.cons first.shows shows, ?_⟩
    simp [yieldAll, first.tokens, tokens]

/-- A literal is made of one string. -/
theorem stringLiteral_children {children : List ParseTree}
    (spelled : children.map symbol ∈ Grammar.alternatives (.node .stringLiteralExpr)) :
    ∃ l, children = [.leaf l] ∧ l.terminal = .string := by
  have only := List.mem_singleton.1 spelled
  rcases children with _ | ⟨c, _ | ⟨c', rest⟩⟩
  · cases only
  · cases c with
    | node rule children => cases only
    | leaf l =>
      simp only [List.map_cons, List.map_nil, symbol] at only
      injection only with only
      injection only with isString
      exact ⟨l, rfl, isString⟩
  · simp at only

/-- The literal of a string. -/
theorem build_stringLiteral {children : List ParseTree}
    (spelled : children.map symbol ∈ Grammar.alternatives (.node .stringLiteralExpr)) :
    ∃ ts, (ParseTree.node (.node .stringLiteralExpr) children).build = .ok ts ∧
      (ParseTree.node (.node .stringLiteralExpr) children).Stands ts := by
  obtain ⟨l, rfl, isString⟩ := stringLiteral_children spelled
  obtain ⟨good, tokens⟩ := Tree.good_stringLiteral l.token
  refine ⟨[Tree.stringLiteral l.token], rfl, ?_, ?_⟩
  · exact (Tree.showAll_single rfl).2 ⟨_, rfl, good, _, List.mem_singleton_self _, rfl⟩
  · have cut : l.tokens =
        [l.token.splitString.1, l.token.splitString.2.1, l.token.splitString.2.2] := by
      simp [Leaf.tokens, isString]
    simp only [Tree.itemTokens, List.append_nil, tokens, yield, yieldAll, List.flatMap_cons,
      List.flatMap_nil, cut]
    rfl

/-- Below the root every node but a literal is made of inner symbols, and is built as its
alternative says. -/
theorem inner_below {rule : Rule} {children : List ParseTree} (inner : rule.isInner = true)
    (notLiteral : rule ≠ .node .stringLiteralExpr)
    (spelled : children.map symbol ∈ Grammar.alternatives rule) :
    rule ≠ .start ∧ (∀ c ∈ children, c.symbol.isInner = true) ∧
      ∀ kind, rule = .node kind → Tree.isSpecial kind = false := by
  have notStart : rule ≠ .start := by
    rintro rfl
    cases inner
  have among := mem_rules_of_alternative spelled
  refine ⟨notStart, fun c hc => ?_, ?_⟩
  · exact inner_of_alternative rule among notStart notLiteral _ spelled _ (List.mem_map_of_mem hc)
  · rintro kind rfl
    exact isSpecial_of_inner inner notLiteral

mutual

/-- Every derivation is built, and stands for its own leaves. -/
theorem build_stands {c : ParseTree} (derived : Derived c) (inner : c.symbol.isInner = true) :
    ∃ ts, c.build = .ok ts ∧ c.Stands ts := by
  cases derived with
  | leaf l => exact ⟨_, rfl, stands_leaf inner⟩
  | node rule children spelled all =>
    by_cases literal : rule = .node .stringLiteralExpr
    · subst literal
      exact build_stringLiteral spelled
    · obtain ⟨notStart, below, plain⟩ := inner_below inner literal spelled
      obtain ⟨tss, builtAll, stands⟩ := buildAll_stands all below
      obtain ⟨shows, tokens⟩ := stands_all stands
      obtain ⟨ts, built, shown, same⟩ :=
        Tree.buildNode_of_alternative notStart plain spelled shows
      refine ⟨ts, ?_, shown, ?_⟩
      · rw [build, builtAll]
        exact built
      · rw [same, tokens, yield]

theorem buildAll_stands {cs : List ParseTree} (derived : AllDerived cs)
    (inner : ∀ c ∈ cs, c.symbol.isInner = true) :
    ∃ tss, buildAll cs = .ok tss.flatten ∧ List.Forall₂ Stands cs tss := by
  cases derived with
  | nil => exact ⟨[], rfl, .nil⟩
  | cons t rest first others =>
    obtain ⟨ts, built, stands⟩ := build_stands first (inner t List.mem_cons_self)
    obtain ⟨tss, builtAll, all⟩ := buildAll_stands others fun c hc =>
      inner c (List.mem_cons_of_mem _ hc)
    refine ⟨ts :: tss, ?_, .cons stands all⟩
    rw [buildAll, built, builtAll]
    rfl

end

/-- A file is built from its statements. -/
theorem file_statements {t : ParseTree} (derived : Derived t)
    (file : t.symbol = .rule (.node .sourceFile)) :
    ∃ children statements, t = .node (.node .sourceFile) children ∧ AllDerived children ∧
      (∀ c ∈ children, c.symbol.isInner = true) ∧ buildAll children = .ok [statements] ∧
      statements.Shows [.rule (.node .codeBlockItemList)] ∧
      statements.tokens.map Token.plain = (yieldAll children).flatMap Leaf.tokens ∧
      t.toTree = Tree.buildKind .sourceFile [statements] := by
  cases derived with
  | leaf l => cases file
  | node rule children spelled all =>
    obtain rfl : rule = .node .sourceFile := by simpa [symbol] using file
    obtain only := List.mem_singleton.1 spelled
    have inner : ∀ c ∈ children, c.symbol.isInner = true := by
      intro c hc
      have := only ▸ List.mem_map_of_mem (f := symbol) hc
      rw [List.mem_singleton.1 this]
      rfl
    obtain ⟨tss, builtAll, stands⟩ := buildAll_stands all inner
    obtain ⟨shows, tokens⟩ := stands_all stands
    rw [only] at shows
    rcases shows with _ | ⟨first, _ | _⟩
    obtain ⟨statements, rfl, shown⟩ := (Tree.showAll_single rfl).1 first
    refine ⟨children, statements, rfl, all, inner, builtAll, shown, ?_, ?_⟩
    · simpa [Tree.itemTokens] using tokens
    · have flat : [[statements]].flatten = [statements] := rfl
      rcases made : Tree.buildKind .sourceFile [statements] with v | root <;>
        simp only [toTree, build, builtAll, Except.bind, buildNode, flat, made, Except.map,
          Tree.single]

theorem toTree_of_derived {t : ParseTree} (derived : Derived t)
    (file : t.symbol = .rule (.node .sourceFile)) :
    ∃ root, t.toTree = .ok root ∧ root.head = some (.rule (.node .sourceFile)) ∧ root.Sound ∧
      root.tokens.map Token.plain = t.yield.flatMap Leaf.tokens ++ [.endOfFile] := by
  obtain ⟨children, statements, rfl, _, _, _, shown, tokens, same⟩ := file_statements derived file
  obtain ⟨root, built, sound, head, split⟩ := Tree.buildKind_sourceFile shown
  refine ⟨root, same.trans built, head, sound, ?_⟩
  rw [split, List.map_append, tokens]
  rfl

/-- Grammar, builder and catalog agree. Every derivation of a file, whatever its
leaves are, is built into a tree that conforms to the catalog everywhere, whose
operator sequences alternate, and whose tokens are the leaves in order, strings
cut at their quotes, and the end of the file. -/
theorem toTree_conforms {t : ParseTree} (derived : Derived t)
    (file : t.symbol = .rule (.node .sourceFile)) :
    ∃ root, t.toTree = .ok root ∧ root.head = some (.rule (.node .sourceFile)) ∧
      root.Everywhere Tree.Fits ∧ root.Everywhere Tree.Alternates ∧
      root.tokens.map Token.plain = t.yield.flatMap Leaf.tokens ++ [.endOfFile] := by
  obtain ⟨root, built, head, sound, tokens⟩ := toTree_of_derived derived file
  exact ⟨root, built, head, sound.imp fun _ h => h.1, sound.imp fun _ h => h.2, tokens⟩

/-- Rules inside one another around a parse tree, the outermost first. -/
def within (rules : List Rule) (t : ParseTree) : ParseTree :=
  rules.foldr (fun rule t => .node rule [t]) t

/-- The derivation of `= "a"` with an identifier put in before it. -/
def assignment : ParseTree :=
  within [.node .sourceFile, .node .codeBlockItemList, .repetition .codeBlockItems,
      .node .codeBlockItem, .group .blockItem]
    (.node .expression [
      within [.group .prefixExpr, .group .postfixExpr, .group .primaryExpr,
        .node .declReferenceExpr] (.leaf (.inserted .identifier)),
      .node (.repetition .moreOperands) [
        within [.group .infixOperator, .node .assignmentExpr]
          (.leaf (.read (.mark .equal) "=" 0)),
        within [.group .prefixExpr, .group .postfixExpr, .group .primaryExpr,
          .node .stringLiteralExpr] (.leaf (.read .string "\"a\"" 2))]])

theorem toTree_assignment : Derived assignment ∧
    assignment.symbol = .rule (.node .sourceFile) ∧
    ∃ root, assignment.toTree = .ok root ∧ root.Everywhere Tree.Fits ∧
      root.Everywhere Tree.Alternates ∧ root.tokens.map Token.plain =
        [.missing .identifier, .ofText (.mark .equal) "=" 0, .ofText .stringQuote "\"" 2,
          .ofText .stringSegment "a" 3, .ofText .stringQuote "\"" 4, .endOfFile] := by
  have derived : Derived assignment := by
    repeat' first
      | exact Derived.leaf _ | exact AllDerived.nil | apply AllDerived.cons
      | refine Derived.node _ _ (by decide) ?_
  have file : assignment.symbol = .rule (.node .sourceFile) := rfl
  obtain ⟨root, built, _, fits, alternates, tokens⟩ := toTree_conforms derived file
  refine ⟨derived, file, root, built, fits, alternates, ?_⟩
  rw [tokens]
  decide

end ParseTree

end SyntaxAtlas
