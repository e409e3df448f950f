-- Every word of the grammar has a greedy derivation. Where two items stand side by side and the
-- first could go on with the second, they are joined: `a` and `-b` make `a - b`, `a` and `(b)`
-- make a call, `a` and `[b]` a subscript, and a bare `return` takes up the expression behind it.

import SyntaxAtlas.Proofs.Greedy

namespace SyntaxAtlas

open Grammar
open Automaton (firstOf firstSets nullableRules isNullable)

/-! ## Symbols -/

namespace Symbol

/-- An operand with its prefix operators. -/
abbrev operand : Symbol := .rule (.group .prefixExpr)

/-- An operand without prefix operators. -/
abbrev callee : Symbol := .rule (.group .postfixExpr)

/-- Infix operators, each with the operand behind it. -/
abbrev moreOperands : Symbol := .rule (.repetition .moreOperands)

/-- Operands with the operators between them. -/
abbrev fullExpr : Symbol := .rule .expression

abbrev item : Symbol := .rule (.node .codeBlockItem)

abbrev items : Symbol := .rule (.repetition .codeBlockItems)

end Symbol

open SyntaxAtlas.Symbol

theorem greedy_group_iff {g : Group} {next : Terminal} {word : List Terminal} :
    Greedy (.rule (.group g)) word next ↔
      ∃ s ∈ choices g, Greedy s word next ∧ (goesOn ⟨.group g, [s]⟩).has next = false := by
  simp [greedy_rule_iff, alternatives]

theorem greedy_node_iff {k : Kind} {next : Terminal} {word : List Terminal} :
    Greedy (.rule (.node k)) word next ↔ ∃ body ∈ forms k, GreedyAll body word next ∧
      (goesOn ⟨.node k, body⟩).has next = false := greedy_rule_iff

theorem greedy_repetition_iff {r : Repetition} {next : Terminal} {word : List Terminal} :
    Greedy (.rule (.repetition r)) word next ↔ GreedyAll (repeated r) word next ∨
      GreedyAll (.rule (.repetition r) :: repeated r) word next := by
  have alts : alternatives (.repetition r) =
    [repeated r, .rule (.repetition r) :: repeated r] := rfl
  simp [greedy_rule_iff, alts, goesOn]

/-- One of the symbols of a choice, behind which nothing goes on. -/
theorem greedy_of_choice {g : Group} {s : Symbol} {next : Terminal} {word : List Terminal}
    (choice : s ∈ choices g) (quiet : goesOn ⟨.group g, [s]⟩ = 0) (h : Greedy s word next) :
    Greedy (.rule (.group g)) word next :=
  greedy_group_iff.2 ⟨s, choice, h, by rw [quiet, TerminalSet.has_zero]⟩

/-- One of the forms of a kind, behind which nothing goes on. -/
theorem greedy_of_form {k : Kind} {body : List Symbol} {next : Terminal} {word : List Terminal}
    (form : body ∈ forms k) (quiet : goesOn ⟨.node k, body⟩ = 0)
    (all : GreedyAll body word next) : Greedy (.rule (.node k)) word next :=
  greedy_node_iff.2 ⟨body, form, all, by rw [quiet, TerminalSet.has_zero]⟩

/-- An expression is an operand, with operators and operands behind it or without. No operator
comes next. -/
theorem greedy_expression_iff {word : List Terminal} {next : Terminal} :
    Greedy fullExpr word next ↔ (TerminalSet.of .operator).has next = false ∧
      ∃ first others, word = first ++ others ∧ Greedy operand first (others.headD next) ∧
        (others = [] ∨ Greedy moreOperands others next) := by
  have alts : alternatives .expression = [[operand, moreOperands], [operand]] := rfl
  simp only [greedy_rule_iff (r := .expression), alts, goesOn, List.mem_cons, List.not_mem_nil,
    or_false, exists_eq_or_imp, exists_eq_left, greedyAll_cons_iff, greedyAll_nil_iff]
  constructor
  · rintro (⟨⟨first, _, rfl, head, others, _, rfl, more, rfl⟩, ends⟩ |
      ⟨⟨first, _, rfl, head, rfl⟩, ends⟩)
    · rw [List.append_nil] at head ⊢
      exact ⟨ends, first, others, rfl, head, .inr (by simpa using more)⟩
    · exact ⟨ends, first, [], rfl, head, .inl rfl⟩
  · rintro ⟨ends, first, others, rfl, head, rfl | more⟩
    · exact .inr ⟨⟨first, [], rfl, head, rfl⟩, ends⟩
    · exact .inl ⟨⟨first, others, rfl, head, others, [], by simp, by simpa using more, rfl⟩, ends⟩

/-! ## What may go on -/

/-- A set of terminals, looked through one by one. -/
theorem TerminalSet.mem_of_has {s : TerminalSet} {ts : List Terminal}
    (known : ∀ t ∈ Terminal.known, s.has t = true → t ∈ ts) (other : Nat.testBit s 51 = false)
    {t : Terminal} (h : s.has t = true) : t ∈ ts := by
  rcases t.mem_known with mem | ⟨n, rfl⟩
  · exact known t mem h
  · simp [TerminalSet.has, Terminal.code, other] at h

/-- A symbol that stands in expressions only, where operands are. -/
def Symbol.isOperandPart : Symbol → Bool
  | .rule (.group .prefixExpr) | .rule (.node .prefixOperatorExpr)
  | .rule (.repetition .moreOperands) => true
  | _ => false

/-- Only the first of these symbols can be empty. -/
def solidBehind : List Symbol → Bool
  | [] => true
  | _ :: rest => (rest.isEmpty || !isNullable nullableRules rest) && solidBehind rest

/-- Nothing in a body goes on with what is behind it. -/
def standApart : List Symbol → Bool
  | [] => true
  | s :: rest => (s.openEnd &&& firstOf firstSets rest == 0) && standApart rest

/-- What the sets of the grammar say about the places where something can go on. -/
@[mk_iff]
structure SetsKnown : Prop where
  /-- An expression may go on with an operator or a bracket. -/
  expression : (∀ t ∈ Terminal.known, fullExpr.openEnd.has t = true →
    t ∈ [.operator, .mark .leftParen, .mark .leftSquare]) ∧ Nat.testBit fullExpr.openEnd 51 = false
  /-- Operands never go on with an operator, and callees with nothing. -/
  operands : operand.openEnd.has .operator = false ∧ moreOperands.openEnd.has .operator = false
  callee : callee.openEnd = 0
  /-- Items go on with what starts an expression, and nothing else does in their place. -/
  blockItem : Symbol.openEnd (.rule (.group .blockItem)) ||| firsts .expression =
    firsts .expression
  declaration : firsts (.group .declaration) &&& firsts .expression = 0
  statement : firsts (.group .statement) &&& firsts .expression = 0
  /-- Of operands only those with a prefix operator start with an operator. -/
  postfixExpr : (firsts (.group .postfixExpr)).has .operator = false
  /-- Of primary expressions only tuples and arrays start with a bracket. -/
  primaryExpr : ∀ s ∈ choices .primaryExpr, s = .rule (.node .tupleExpr) ∨
    s = .rule (.node .arrayExpr) ∨ ∀ t ∈ [Terminal.mark .leftParen, .mark .leftSquare],
      (firstOf firstSets [s]).has t = false
  /-- None of these rules is empty. -/
  solid : ∀ r ∈ [Rule.group .prefixExpr, .group .postfixExpr, .group .infixOperator,
    .repetition .moreOperands, .node .codeBlockItem, .group .blockItem],
      nullableRules.has r = false
  /-- Bodies outside of expressions do not end in an operand, and behind no other production but
  a bare `return` does the parser go on. -/
  ends : ∀ r ∈ rules, r ≠ .expression → (Symbol.rule r).isOperandPart = false →
    ∀ body ∈ alternatives r, solidBehind body = true ∧
      (∀ s ∈ body.getLast?, s.isOperandPart = false) ∧
      (goesOn ⟨r, body⟩ = 0 ∨ r = .node .returnStmt ∧ body = [.terminal (.keyword .returnWord)])
  /-- Only items stand beside what they could go on with. -/
  apart : ∀ r ∈ rules, ∀ body ∈ alternatives r,
    standApart body = true ∨ r = .repetition .codeBlockItems ∧ body = [items, item]
  /-- Nothing goes on with the end of the input. -/
  atEnd : items.openEnd.has .endOfInput = false ∧
    (Symbol.openEnd (.rule (.node .sourceFile))).has .endOfInput = false

set_option synthInstance.maxSize 1000 in
set_option synthInstance.maxHeartbeats 100000 in
theorem setsKnown : SetsKnown := by
  rw [setsKnown_iff]
  decide +kernel

/-- None of these rules is empty. -/
theorem solid_rule {r : Rule} (among : r ∈ [Rule.group .prefixExpr, .group .postfixExpr,
    .group .infixOperator, .repetition .moreOperands, .node .codeBlockItem, .group .blockItem]) :
    nullableRules.has r = false :=
  SetsKnown.solid setsKnown r among

theorem mem_openEnd_fullExpr {t : Terminal} (h : fullExpr.openEnd.has t = true) :
    t ∈ [.operator, .mark .leftParen, .mark .leftSquare] :=
  TerminalSet.mem_of_has (SetsKnown.expression setsKnown).1 (SetsKnown.expression setsKnown).2 h

attribute [local irreducible] openEnds firstSets nullableRules

/-! ## Operators and operands -/

/-- Two runs of operators and operands make one. -/
theorem more_append {u v : List Terminal} {next : Terminal}
    (front : Greedy moreOperands u (v.headD next)) (back : Greedy moreOperands v next) :
    Greedy moreOperands (u ++ v) next := by
  rw [greedy_repetition_iff] at back
  rcases back with pair | longer
  · exact greedy_repetition_iff.2 (.inr (.cons front pair))
  · obtain ⟨v', pair, rfl, more, last⟩ := greedyAll_cons_iff.1 longer
    have nonempty : v' ≠ [] := more.ne_nil (solid_rule (by decide))
    have shorter : v'.length < (v' ++ pair).length := by
      have solid : isNullable nullableRules (repeated .moreOperands) = false := by
        change (_ && _) = false
        rw [solid_rule (by decide), Bool.false_and]
      have := List.length_pos_iff.2 (last.ne_nil solid)
      simp only [List.length_append]
      omega
    have front' : Greedy moreOperands u (v'.headD (pair.headD next)) := by
      rcases v' with _ | ⟨t, v'⟩
      · exact absurd rfl nonempty
      · exact front
    have joined := more_append front' more
    rw [← List.append_assoc]
    exact greedy_repetition_iff.2 (.inr (.cons joined last))
termination_by v.length

/-- The last operand of a run can be exchanged for one that starts alike. -/
theorem more_last {word : List Terminal} {next : Terminal}
    (h : Greedy moreOperands word next) : ∃ front last, word = front ++ last ∧
      Greedy operand last next ∧ ∀ more next', Greedy operand (last ++ more) next' →
        Greedy moreOperands (front ++ (last ++ more)) next' := by
  have exchange : ∀ {infix' last : List Terminal} {next next' : Terminal} (more : List Terminal),
      Greedy (.rule (.group .infixOperator)) infix' (last.headD next) → Greedy operand last next →
        Greedy operand (last ++ more) next' →
          GreedyAll (repeated .moreOperands) (infix' ++ (last ++ more)) next' := by
    intro infix' last next next' more operator here there
    refine .cons ?_ (greedyAll_single_iff.2 there)
    rcases last with _ | ⟨t, last⟩
    · exact absurd rfl (here.ne_nil (solid_rule (by decide)))
    · exact operator
  rw [greedy_repetition_iff] at h
  rcases h with pair | longer
  · obtain ⟨infix', last, rfl, operator, here⟩ := greedyAll_cons_iff.1 pair
    rw [greedyAll_single_iff] at here
    refine ⟨infix', last, rfl, here, fun more next' there => ?_⟩
    exact greedy_repetition_iff.2 (.inl (exchange more operator here there))
  · obtain ⟨front, _, rfl, before, pair⟩ := greedyAll_cons_iff.1 longer
    obtain ⟨infix', last, rfl, operator, here⟩ := greedyAll_cons_iff.1 pair
    rw [greedyAll_single_iff] at here
    refine ⟨front ++ infix', last, by simp, here, fun more next' there => ?_⟩
    rw [List.append_assoc]
    refine greedy_repetition_iff.2 (.inr (.cons ?_ (exchange more operator here there)))
    rcases infix' with _ | ⟨t, infix'⟩
    · exact absurd rfl (operator.ne_nil (solid_rule (by decide)))
    · exact before

/-- An operand and a prefix operator in front of it follow another operand as a pair. -/
theorem more_of_prefixed {word : List Terminal} {next : Terminal} (h : Greedy operand word next) :
    Greedy moreOperands (.operator :: word) next := by
  have operator : Greedy (.rule (.group .infixOperator)) [.operator] (word.headD next) := by
    refine greedy_of_choice (s := .rule (.node .binaryOperatorExpr)) (by decide) rfl ?_
    exact greedy_of_form (by decide) rfl (greedyAll_single_iff.2 (.terminal .operator _))
  exact greedy_repetition_iff.2 (.inl (.cons operator (greedyAll_single_iff.2 h)))

/-- An operand has a prefix operator in front, or it is a callee that no bracket is behind. -/
theorem operand_cases {word : List Terminal} {next : Terminal} (h : Greedy operand word next) :
    (∃ rest, word = .operator :: rest ∧ Greedy operand rest next) ∨
      Greedy callee word next ∧ (goesOn ⟨.group .prefixExpr, [callee]⟩).has next = false := by
  obtain ⟨s, choice, here, ends⟩ := greedy_group_iff.1 h
  simp only [choices, List.mem_cons, List.not_mem_nil, or_false] at choice
  rcases choice with rfl | rfl
  · left
    obtain ⟨body, form, all, _⟩ := greedy_node_iff.1 here
    rw [List.mem_singleton.1 form] at all
    obtain ⟨operator, rest, rfl, head, tail⟩ := greedyAll_cons_iff.1 all
    rw [greedy_terminal_iff.1 head]
    exact ⟨rest, rfl, greedyAll_single_iff.1 tail⟩
  · exact .inr ⟨here, ends⟩

theorem operand_of_prefixed {word : List Terminal} {next : Terminal} (h : Greedy operand word next) :
    Greedy operand (.operator :: word) next := by
  refine greedy_of_choice (s := .rule (.node .prefixOperatorExpr)) (by decide) rfl ?_
  exact greedy_of_form (by decide) rfl
    (.cons (.terminal .operator _) (greedyAll_single_iff.2 h))

/-! ## Brackets -/

/-- The elements of an array are arguments as well. -/
theorem argument_of_element {word : List Terminal} {next : Terminal}
    (h : Greedy (.rule (.node .arrayElement)) word next) :
    Greedy (.rule (.node .labeledExpr)) word next := by
  obtain ⟨body, form, all, _⟩ := greedy_node_iff.1 h
  rw [List.mem_singleton.1 form] at all
  exact greedy_of_form (by decide) rfl all

theorem moreArguments_of_moreElements {word : List Terminal} {next : Terminal}
    (h : Greedy (.rule (.repetition .moreArrayElements)) word next) :
    Greedy (.rule (.repetition .moreLabeledExprs)) word next := by
  have pair : ∀ {w : List Terminal}, GreedyAll (repeated .moreArrayElements) w next →
      GreedyAll (repeated .moreLabeledExprs) w next ∧ w ≠ [] := by
    intro w all
    obtain ⟨comma, element, rfl, head, tail⟩ := greedyAll_cons_iff.1 all
    obtain rfl := greedy_terminal_iff.1 head
    rw [greedyAll_single_iff] at tail
    exact ⟨.cons head (greedyAll_single_iff.2 (argument_of_element tail)), by simp⟩
  rw [greedy_repetition_iff] at h ⊢
  rcases h with one | longer
  · exact .inl (pair one).1
  · obtain ⟨front, last, rfl, more, one⟩ := greedyAll_cons_iff.1 longer
    obtain ⟨argument, nonempty⟩ := pair one
    have shorter : front.length < (front ++ last).length := by
      have := List.length_pos_iff.2 nonempty
      simp only [List.length_append]
      omega
    exact .inr (.cons (moreArguments_of_moreElements more) argument)
termination_by word.length

theorem arguments_of_elements {word : List Terminal} {next : Terminal}
    (h : Greedy (.rule (.node .arrayElementList)) word next) :
    Greedy (.rule (.node .labeledExprList)) word next := by
  obtain ⟨body, form, all, _⟩ := greedy_node_iff.1 h
  simp only [forms, separated, List.cons_append, List.nil_append, List.mem_cons,
    List.not_mem_nil, or_false] at form
  rcases form with rfl | rfl | rfl
  · obtain ⟨first, others, rfl, head, tail⟩ := greedyAll_cons_iff.1 all
    rw [greedyAll_single_iff] at tail
    exact greedy_of_form (by decide) rfl (.cons (argument_of_element head)
      (greedyAll_single_iff.2 (moreArguments_of_moreElements tail)))
  · rw [greedyAll_single_iff] at all
    exact greedy_of_form (by decide) rfl (greedyAll_single_iff.2 (argument_of_element all))
  · exact greedy_of_form (by decide) rfl all

/-- Symbols that make a callee of the callee in front of them. -/
def FollowsCallee (more : List Symbol) : Prop :=
  ∃ k, Symbol.rule (.node k) ∈ choices .postfixExpr ∧ callee :: more ∈ forms k ∧
    goesOn ⟨.node k, callee :: more⟩ = 0

theorem FollowsCallee.callee {more : List Symbol} (follows : FollowsCallee more)
    {first others : List Terminal} {next : Terminal} (head : Greedy callee first (others.headD next))
    (tail : GreedyAll more others next) : Greedy callee (first ++ others) next := by
  obtain ⟨k, choice, form, quiet⟩ := follows
  exact greedy_of_choice choice rfl (greedy_of_form form quiet (.cons head tail))

theorem follows_call : FollowsCallee
    [.terminal (.mark .leftParen), .rule (.node .labeledExprList), .terminal (.mark .rightParen)] :=
  ⟨.functionCallExpr, by decide, List.mem_singleton_self _, rfl⟩

theorem follows_subscript : FollowsCallee
    [.terminal (.mark .leftSquare), .rule (.node .labeledExprList),
      .terminal (.mark .rightSquare)] :=
  ⟨.subscriptCallExpr, by decide, List.mem_singleton_self _, rfl⟩

theorem follows_member : FollowsCallee
    [.terminal (.mark .period), .rule (.node .declReferenceExpr)] :=
  ⟨.memberAccessExpr, by decide, List.mem_singleton_self _, rfl⟩

/-- A callee that starts with a bracket is a bracket with arguments, or a shorter such callee
with something behind it. -/
theorem callee_cases {word : List Terminal} {next t : Terminal} (h : Greedy callee word next)
    (starts : t ∈ word.head?) (bracket : t ∈ [Terminal.mark .leftParen, .mark .leftSquare]) :
    ∃ more, FollowsCallee more ∧ (GreedyAll more word next ∨
      ∃ front others, word = front ++ others ∧ others ≠ [] ∧
        Greedy callee front (others.headD next) ∧ GreedyAll more others next) := by
  have behind : ∀ {k : Kind} {more : List Symbol}, forms k = [callee :: more] →
      isNullable nullableRules more = false → Greedy (.rule (.node k)) word next →
        ∃ front others, word = front ++ others ∧ others ≠ [] ∧
          Greedy callee front (others.headD next) ∧ GreedyAll more others next := by
    intro k more form solid here
    obtain ⟨body, mem, all, _⟩ := greedy_node_iff.1 here
    obtain rfl := List.mem_singleton.1 (form ▸ mem)
    obtain ⟨front, others, rfl, head, tail⟩ := greedyAll_cons_iff.1 all
    exact ⟨front, others, rfl, tail.ne_nil solid, head, tail⟩
  obtain ⟨s, choice, here, _⟩ := greedy_group_iff.1 h
  simp only [choices, List.mem_cons, List.not_mem_nil, or_false] at choice
  rcases choice with rfl | rfl | rfl | rfl
  · exact ⟨_, follows_call, .inr (behind rfl rfl here)⟩
  · exact ⟨_, follows_subscript, .inr (behind rfl rfl here)⟩
  · exact ⟨_, follows_member, .inr (behind rfl rfl here)⟩
  · obtain ⟨s, choice, inside, _⟩ := greedy_group_iff.1 here
    rcases SetsKnown.primaryExpr setsKnown s choice with rfl | rfl | other
    · obtain ⟨body, form, all, _⟩ := greedy_node_iff.1 inside
      rw [List.mem_singleton.1 form] at all
      exact ⟨_, follows_call, .inl all⟩
    · obtain ⟨body, form, all, _⟩ := greedy_node_iff.1 inside
      rw [List.mem_singleton.1 form] at all
      obtain ⟨left, rest, rfl, head, tail⟩ := greedyAll_cons_iff.1 all
      obtain ⟨elements, right, rfl, list, last⟩ := greedyAll_cons_iff.1 tail
      exact ⟨_, follows_subscript, .inl (.cons head (.cons (arguments_of_elements list) last))⟩
    · have starts' := (greedyAll_single_iff.2 inside).startsAs.2 t starts
      simp [other t bracket] at starts'

/-- A callee takes up a callee that starts with a bracket. -/
theorem callee_join {word more : List Terminal} {x next t : Terminal}
    (front : Greedy callee word x) (back : Greedy callee more next) (starts : t ∈ more.head?)
    (bracket : t ∈ [Terminal.mark .leftParen, .mark .leftSquare]) :
    Greedy callee (word ++ more) next := by
  have closed : ∀ {u : Terminal}, callee.openEnd.has u = false := by simp [SetsKnown.callee setsKnown]
  obtain ⟨rest, follows, all | ⟨inner, others, rfl, nonempty, head, tail⟩⟩ :=
    callee_cases back starts bracket
  · exact follows.callee (front.before closed) all
  · have shorter : inner.length < (inner ++ others).length := by
      have := List.length_pos_iff.2 nonempty
      simp only [List.length_append]
      omega
    have starts' : t ∈ inner.head? := by
      rcases inner with _ | ⟨u, inner⟩
      · exact absurd rfl (head.ne_nil (solid_rule (by decide)))
      · exact starts
    rw [← List.append_assoc]
    exact follows.callee (callee_join front head starts' bracket) tail
termination_by more.length

/-- An operand takes up a callee that starts with a bracket. -/
theorem operand_join {word more : List Terminal} {x next t : Terminal}
    (front : Greedy operand word x) (back : Greedy callee more next)
    (ends : (goesOn ⟨.group .prefixExpr, [callee]⟩).has next = false) (starts : t ∈ more.head?)
    (bracket : t ∈ [Terminal.mark .leftParen, .mark .leftSquare]) :
    Greedy operand (word ++ more) next := by
  rcases operand_cases front with ⟨rest, rfl, inner⟩ | ⟨here, _⟩
  · exact operand_of_prefixed (operand_join inner back ends starts bracket)
  · exact greedy_group_iff.2 ⟨callee, by decide, callee_join here back starts bracket, ends⟩
termination_by word.length

/-! ## Expressions -/

/-- An expression from an operand and what may be behind it. -/
theorem expression_of_operand {first others : List Terminal} {next : Terminal}
    (ends : (TerminalSet.of .operator).has next = false)
    (head : Greedy operand first (others.headD next))
    (tail : others = [] ∨ Greedy moreOperands others next) :
    Greedy fullExpr (first ++ others) next :=
  greedy_expression_iff.2 ⟨ends, first, others, rfl, head, tail⟩

/-- A run of operators and operands, or none, goes on with a run. -/
theorem more_append_of_or {u v : List Terminal} {next : Terminal}
    (front : Greedy moreOperands u (v.headD next)) (back : v = [] ∨ Greedy moreOperands v next) :
    Greedy moreOperands (u ++ v) next := by
  rcases back with rfl | back
  · simpa using front
  · exact more_append front back

/-- An expression that starts with a prefix operator goes on an expression as with an infix
operator. -/
theorem expression_join_operator {word more : List Terminal} {x next : Terminal}
    (front : Greedy fullExpr word x) (back : Greedy fullExpr more next)
    (starts : .operator ∈ more.head?) : Greedy fullExpr (word ++ more) next := by
  obtain ⟨_, first, others, rfl, head, tail⟩ := greedy_expression_iff.1 front
  obtain ⟨ends, first', others', rfl, head', tail'⟩ := greedy_expression_iff.1 back
  have starts' : Terminal.operator ∈ first'.head? := by
    rcases first' with _ | ⟨u, rest⟩
    · exact absurd rfl (head'.ne_nil (solid_rule (by decide)))
    · exact starts
  obtain ⟨rest, rfl, inner⟩ : ∃ rest, first' = .operator :: rest ∧
      Greedy operand rest (others'.headD next) := by
    rcases operand_cases head' with prefixed | ⟨here, _⟩
    · exact prefixed
    · simpa [SetsKnown.postfixExpr setsKnown] using here.first starts'
  have run : Greedy moreOperands (.operator :: rest ++ others') next :=
    more_append_of_or (more_of_prefixed inner) tail'
  rw [List.append_assoc]
  rcases tail with rfl | tail
  · exact expression_of_operand ends (head.before (SetsKnown.operands setsKnown).1) (.inr run)
  · refine expression_of_operand ends ?_
      (.inr (more_append (tail.before (SetsKnown.operands setsKnown).2) run))
    rcases others with _ | ⟨u, others⟩
    · exact absurd rfl (tail.ne_nil (solid_rule (by decide)))
    · exact head

/-- An expression takes up one that starts with a bracket. -/
theorem expression_join_bracket {word more : List Terminal} {x next t : Terminal}
    (front : Greedy fullExpr word x) (back : Greedy fullExpr more next) (starts : t ∈ more.head?)
    (bracket : t ∈ [Terminal.mark .leftParen, .mark .leftSquare]) :
    Greedy fullExpr (word ++ more) next := by
  obtain ⟨_, first, others, rfl, head, tail⟩ := greedy_expression_iff.1 front
  obtain ⟨ends, first', others', rfl, head', tail'⟩ := greedy_expression_iff.1 back
  have starts' : t ∈ first'.head? := by
    rcases first' with _ | ⟨u, rest⟩
    · exact absurd rfl (head'.ne_nil (solid_rule (by decide)))
    · exact starts
  obtain ⟨here, closed⟩ : Greedy callee first' (others'.headD next) ∧
      (goesOn ⟨.group .prefixExpr, [callee]⟩).has (others'.headD next) = false := by
    rcases operand_cases head' with ⟨rest, rfl, _⟩ | here
    · obtain rfl : Terminal.operator = t := by simpa using starts'
      simp at bracket
    · exact here
  rcases tail with rfl | tail
  · rw [List.append_nil, ← List.append_assoc]
    exact expression_of_operand ends (operand_join head here closed starts' bracket) tail'
  · -- the last operand takes up the callee
    obtain ⟨run, last, rfl, operand', exchange⟩ := more_last tail
    have longer := exchange _ _ (operand_join operand' here closed starts' bracket)
    rw [show first ++ (run ++ last) ++ (first' ++ others') =
      first ++ (run ++ (last ++ first') ++ others') by simp]
    refine expression_of_operand ends ?_ (.inr (more_append_of_or longer tail'))
    rcases run with _ | ⟨u, run⟩
    · rcases last with _ | ⟨u, last⟩
      · exact absurd rfl (operand'.ne_nil (solid_rule (by decide)))
      · exact head
    · exact head

/-- Two expressions can stand side by side, or they make one. -/
theorem expression_join {word more : List Terminal} {x next t : Terminal}
    (front : Greedy fullExpr word x) (back : Greedy fullExpr more next) (starts : t ∈ more.head?) :
    Greedy fullExpr word t ∨ Greedy fullExpr (word ++ more) next := by
  rcases goes : fullExpr.openEnd.has t with _ | _
  · exact .inl (front.before goes)
  · right
    rcases List.mem_cons.1 (mem_openEnd_fullExpr goes) with rfl | bracket
    · exact expression_join_operator front back starts
    · exact expression_join_bracket front back starts bracket

/-! ## What ends with an expression -/

mutual

/-- What stands in front of an expression can stay beside it, or the expression goes on at its
end. -/
theorem Greedy.extend {more : List Terminal} {next t : Terminal} (back : Greedy fullExpr more next)
    (starts : t ∈ more.head?) {s : Symbol} {word : List Terminal} {x : Terminal} :
    Greedy s word x → s.isOperandPart = false → Greedy s word t ∨ Greedy s (word ++ more) next
  | .terminal u _, _ => .inl (.terminal u t)
  | @Greedy.rule r body _ _ spelled all ends, outside => by
    by_cases isExpr : r = .expression
    · subst isExpr
      exact expression_join (.rule spelled all ends) back starts
    obtain ⟨solid, last, quiet | ⟨rfl, rfl⟩⟩ :=
      SetsKnown.ends setsKnown r (mem_rules_of_alternative spelled)
      isExpr outside body spelled
    · have closed : ∀ u, (goesOn ⟨r, body⟩).has u = false := by simp [quiet]
      rcases all.extend back starts solid last with all | all
      · exact .inl (.rule spelled all (closed t))
      · exact .inr (.rule spelled all (closed next))
    · right
      rw [greedyAll_single_iff, greedy_terminal_iff] at all
      subst all
      exact @greedy_of_form _ [.terminal (.keyword .returnWord), fullExpr] _ _ (by decide) rfl
        (.cons (.terminal _ _) (greedyAll_single_iff.2 back))

theorem GreedyAll.extend {more : List Terminal} {next t : Terminal} (back : Greedy fullExpr more next)
    (starts : t ∈ more.head?) {body : List Symbol} {word : List Terminal} {x : Terminal} :
    GreedyAll body word x → solidBehind body = true →
      (∀ s ∈ body.getLast?, s.isOperandPart = false) →
        GreedyAll body word t ∨ GreedyAll body (word ++ more) next
  | .nil _, _, _ => .inl (.nil t)
  | @GreedyAll.cons s [] first _ _ head tail, _, last => by
    have none := greedyAll_nil_iff.1 tail
    rw [none, List.append_nil, greedyAll_single_iff, greedyAll_single_iff]
    exact Greedy.extend back starts head (last s (by simp))
  | @GreedyAll.cons _ (_ :: _) _ others _ head tail, solid, last => by
    simp only [solidBehind, List.isEmpty_cons, Bool.false_or, Bool.and_eq_true,
      Bool.not_eq_true'] at solid
    have nonempty : others ≠ [] := tail.ne_nil solid.1
    have longer : others ++ more ≠ [] := by simp [nonempty]
    rcases tail.extend back starts (by simpa [solidBehind] using solid.2)
      (by simpa using last) with tail | tail
    · exact .inl (.cons (by rwa [headD_congr t _ nonempty]) tail)
    · right
      rw [List.append_assoc]
      refine .cons ?_ tail
      obtain ⟨u, others, rfl⟩ := List.exists_cons_of_ne_nil nonempty
      exact head

end

/-! ## Items -/

/-- An item that starts with what an item goes on with is an expression. -/
theorem expression_of_item {word : List Terminal} {next t : Terminal}
    (h : Greedy (.rule (.group .blockItem)) word next) (starts : t ∈ word.head?)
    (goes : (firsts .expression).has t = true) : Greedy fullExpr word next := by
  have declaration := SetsKnown.declaration setsKnown
  have statement := SetsKnown.statement setsKnown
  obtain ⟨s, choice, here, _⟩ := greedy_group_iff.1 h
  simp only [choices, List.mem_cons, List.not_mem_nil, or_false] at choice
  rcases choice with rfl | rfl | rfl
  · simpa [TerminalSet.not_has_of_disjoint declaration goes] using here.first starts
  · simpa [TerminalSet.not_has_of_disjoint statement goes] using here.first starts
  · exact here

/-- An item is what a block holds, with a semicolon behind it or without. -/
theorem greedy_item_iff {word : List Terminal} {next : Terminal} :
    Greedy item word next ↔ ∃ first others, word = first ++ others ∧
      Greedy (.rule (.group .blockItem)) first (others.headD next) ∧
        (others = [] ∨ others = [.mark .semicolon]) := by
  constructor
  · intro h
    obtain ⟨body, form, all, _⟩ := greedy_node_iff.1 h
    simp only [forms, optionally, List.cons_append, List.nil_append, List.append_nil,
      List.mem_cons, List.not_mem_nil, or_false] at form
    rcases form with rfl | rfl
    · obtain ⟨first, others, rfl, head, tail⟩ := greedyAll_cons_iff.1 all
      rw [greedyAll_single_iff] at tail
      exact ⟨first, others, rfl, head, .inr (greedy_terminal_iff.1 tail)⟩
    · exact ⟨word, [], by simp, greedyAll_single_iff.1 all, .inl rfl⟩
  · rintro ⟨first, others, rfl, head, rfl | rfl⟩
    · refine @greedy_of_form _ [.rule (.group .blockItem)] _ _ (by decide) rfl ?_
      rw [List.append_nil]
      exact greedyAll_single_iff.2 head
    · exact greedy_of_form (by decide) rfl
        (.cons head (greedyAll_single_iff.2 (.terminal (.mark .semicolon) next)))

/-- Two items can stand side by side, or they make one. -/
theorem item_join {word more : List Terminal} {x next t : Terminal} (front : Greedy item word x)
    (back : Greedy item more next) (starts : t ∈ more.head?) :
    Greedy item word t ∨ Greedy item (word ++ more) next := by
  obtain ⟨first, others, rfl, head, rfl | rfl⟩ := greedy_item_iff.1 front
  · rw [List.append_nil] at *
    rcases goes : (Symbol.openEnd (.rule (.group .blockItem))).has t with _ | _
    · exact .inl (greedy_item_iff.2 ⟨first, [], by simp, head.before goes, .inl rfl⟩)
    · have goes' : (firsts .expression).has t = true :=
        TerminalSet.has_of_subset (SetsKnown.blockItem setsKnown) goes
      obtain ⟨second, others', rfl, head', tail'⟩ := greedy_item_iff.1 back
      have starts' : t ∈ second.head? := by
        rcases second with _ | ⟨u, second⟩
        · exact absurd rfl (head'.ne_nil (solid_rule (by decide)))
        · exact starts
      rcases Greedy.extend (expression_of_item head' starts' goes') starts' head rfl with
        apart | joined
      · exact .inl (greedy_item_iff.2 ⟨first, [], by simp, apart, .inl rfl⟩)
      · exact .inr (greedy_item_iff.2 ⟨first ++ second, others', by simp, joined, tail'⟩)
  · exact .inl (greedy_item_iff.2 ⟨first, _, rfl, head, .inr rfl⟩)

/-- An item comes behind some others, as one of its own or as the end of the last one. -/
theorem items_concat {word last : List Terminal} {x next : Terminal} (front : Greedy items word x)
    (back : Greedy item last next) : Greedy items (word ++ last) next := by
  obtain ⟨t, more, rfl⟩ := List.exists_cons_of_ne_nil (back.ne_nil (solid_rule (by decide)))
  have behind : ∀ {w : List Terminal}, Greedy items w t → Greedy items (w ++ t :: more) next :=
    fun h => greedy_repetition_iff.2 (.inr (.cons h (greedyAll_single_iff.2 back)))
  rcases greedy_repetition_iff.1 front with one | longer
  · have one' : Greedy item word x := greedyAll_single_iff.1 one
    rcases item_join one' back rfl with apart | joined
    · exact behind (greedy_repetition_iff.2 (.inl (greedyAll_single_iff.2 apart)))
    · exact greedy_repetition_iff.2 (.inl (greedyAll_single_iff.2 joined))
  · obtain ⟨before, own, rfl, head, one⟩ := greedyAll_cons_iff.1 longer
    have one' : Greedy item own x := greedyAll_single_iff.1 one
    obtain ⟨u, own, rfl⟩ := List.exists_cons_of_ne_nil (one'.ne_nil (solid_rule (by decide)))
    rcases item_join one' back rfl with apart | joined
    · exact behind (greedy_repetition_iff.2 (.inr (.cons head (greedyAll_single_iff.2 apart))))
    · rw [List.append_assoc]
      exact greedy_repetition_iff.2 (.inr (.cons head (greedyAll_single_iff.2 joined)))

/-! ## All derivations -/

theorem apart_of_cons {s : Symbol} {rest : List Symbol} {others : List Terminal} {next : Terminal}
    (apart : standApart (s :: rest) = true) (tail : GreedyAll rest others next)
    (closed : (openEndOf openEnds (s :: rest)).has next = false) :
    s.openEnd.has (others.headD next) = false := by
  simp only [standApart, Bool.and_eq_true, beq_iff_eq] at apart
  rw [openEndOf_cons, TerminalSet.has_or, Bool.or_eq_false_iff] at closed
  obtain ⟨empty, starts⟩ := tail.startsAs
  rcases others with _ | ⟨t, others⟩
  · simpa [empty rfl] using closed.2
  · exact TerminalSet.not_has_of_disjoint apart.1 (starts t rfl)

mutual

/-- A derivation can be made greedy in front of a terminal that nothing at its end goes on
with. -/
theorem Derived.greedy : ∀ {t : ParseTree}, Derived t → ∀ next, t.symbol.openEnd.has next = false →
    Greedy t.symbol (t.yield.map Leaf.terminal) next
  | _, .leaf l, next, _ => .terminal l.terminal next
  | _, .node r children spelled all, next, closed => by
    have mem := mem_rules_of_alternative spelled
    have split : (goesOn ⟨r, children.map ParseTree.symbol⟩).has next = false ∧
        (openEndOf openEnds (children.map ParseTree.symbol)).has next = false := by
      have open' : (Symbol.openEnd (.rule r)).has next = false := closed
      rw [← openEnds_closed r mem _ spelled] at open'
      simp only [TerminalSet.has_or, Bool.or_eq_false_iff] at open'
      exact open'.1
    rcases SetsKnown.apart setsKnown r mem _ spelled with apart | ⟨isItems, isBoth⟩
    · exact .rule spelled (all.greedy apart next split.2) split.1
    · match children, all, isBoth with
      | [], _, isBoth | [_], _, isBoth | _ :: _ :: _ :: _, _, isBoth => simp at isBoth
      | [front, back], .cons _ _ first (.cons _ _ second .nil), isBoth =>
        obtain ⟨isFront, isBack⟩ : front.symbol = items ∧ back.symbol = item := by
          simpa using isBoth
        have open' : item.openEnd.has next = false := by
          have both := split.2
          rw [isBoth, openEndOf_cons, openEndOf_single, TerminalSet.has_or,
            Bool.or_eq_false_iff] at both
          exact both.1
        have before := first.greedy .endOfInput (by
          rw [isFront]
          exact (SetsKnown.atEnd setsKnown).1)
        have behind := second.greedy next (by rwa [isBack])
        rw [isFront] at before
        rw [isBack] at behind
        simp only [ParseTree.symbol, isItems, ParseTree.yield, ParseTree.yieldAll, List.append_nil,
          List.map_append]
        exact items_concat before behind

theorem AllDerived.greedy : ∀ {ts : List ParseTree}, AllDerived ts →
    standApart (ts.map ParseTree.symbol) = true → ∀ next,
      (openEndOf openEnds (ts.map ParseTree.symbol)).has next = false →
        GreedyAll (ts.map ParseTree.symbol) ((ParseTree.yieldAll ts).map Leaf.terminal) next
  | _, .nil, _, next, _ => .nil next
  | _, .cons t rest first others, apart, next, closed => by
    rw [ParseTree.yieldAll, List.map_append]
    have apart' := apart
    have closed' := closed
    simp only [List.map_cons, standApart, Bool.and_eq_true] at apart'
    rw [List.map_cons, openEndOf_cons, TerminalSet.has_or, Bool.or_eq_false_iff] at closed'
    have tail := others.greedy apart'.2 next closed'.1
    exact .cons (first.greedy _ (apart_of_cons apart tail closed)) tail

end

/-- Every word of the grammar has a greedy derivation. -/
theorem greedy_of_derives {word : List Terminal} (h : Derives (.node .sourceFile) word) :
    Greedy (.rule (.node .sourceFile)) word .endOfInput := by
  obtain ⟨t, derived, symbol, rfl⟩ := h
  have closed := (SetsKnown.atEnd setsKnown).2
  rw [← symbol] at closed ⊢
  exact derived.greedy _ closed

end SyntaxAtlas
