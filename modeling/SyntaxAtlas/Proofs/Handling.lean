-- Faults are handled as a session of calls on the parser, each of which could be refused: missing
-- tokens are tried on copies of the stack, put in, and followed by the token that did not fit.
-- None of the calls is refused, what the session ends with at the end of the input is accepted,
-- and every loop on the way comes to its end.

import SyntaxAtlas.Proofs.Budget
import SyntaxAtlas.Proofs.Progress

namespace SyntaxAtlas

namespace Recovery

open Lexeme (Cursor)

/-! ## Calls that may be refused -/

/-- A leaf that was fed to a stack on which it cannot be shifted. -/
structure Refusal where
  leaf : Leaf
  stack : Stack

/-- Feeds a leaf that has to be shifted. -/
def push (a : Automaton) (stack : Stack) (leaf : Leaf) : Except Refusal Stack :=
  match a.feed leaf stack with
  | .shifted next => .ok next
  | _ => .error ⟨leaf, stack⟩

/-- The missing tokens to try at an offset: those that the parser takes there. -/
def tries (a : Automaton) (stack : Stack) (named : List Nat) (offset : Nat) : List Terminal :=
  (candidates named offset).filter fun t => decide (t ∈ a.acceptable stack)

/-- Tries missing tokens before a lexeme, each on a copy of the stack. The first one behind which
the lexeme can follow is put in, and the lexeme is fed again. If there is none the lexeme is
dropped. -/
def tryBefore (a : Automaton) (l : Lexeme) (stack : Stack) (s : Session) :
    List Terminal → Except Refusal (Stack × Session)
  | [] => .ok (stack, s.drop l)
  | t :: rest =>
    (push a stack (.inserted t)).bind fun trial =>
      if l.terminal ∈ a.acceptable trial then
        (push a stack (.inserted t)).bind fun put =>
          (push a put (leaf l)).map fun last => (last, s.insert t l.terminal l.start)
      else tryBefore a l stack s rest

/-- Puts in missing tokens at the end of the input until it is accepted. The first round is paid
for already. -/
def completeAtEnd (a : Automaton) (budget size : Nat) (fault : Fault) (first : Bool) (left : Nat)
    (stack : Stack) (s : Session) : Except Refusal (Except Rejection (Stack × Session)) :=
  if .endOfInput ∈ a.acceptable stack then .ok (.ok (stack, { s with left }))
  else if first = false ∧ left = 0 then .ok (.error (s.giveUp budget fault))
  else
    match tries a stack s.named size with
    | [] => .ok (.error (s.reject fault))
    | t :: _ =>
      (push a stack (.inserted t)).bind fun next =>
        completeAtEnd a budget size fault false (if first then left else left - 1) next
          (s.insert t .endOfInput size)
termination_by 2 * left + first.toNat
decreasing_by cases first <;> simp_all; omega

/-- Handles a fault: pays for it, and resumes with a stack or gives up. -/
def handle (a : Automaton) (budget size : Nat) (fault : Fault) (stack : Stack) (s : Session) :
    Except Refusal (Except Rejection (Stack × Session)) :=
  match payFor budget fault s with
  | .error r => .ok (.error r)
  | .ok s =>
    match fault with
    | .stray c offset => .ok (.ok (stack, s.skip c offset))
    | .unexpected l _ => (tryBefore a l stack s (tries a stack s.named l.start)).map .ok
    | .unfinished _ => completeAtEnd a budget size fault true s.left stack s

/-! ## No call is refused -/

section Calls

variable {a : Automaton} {items : Nat → ItemSet} {stack : Stack} {s : Session}

theorem lexical_of_insertable {t : Terminal} (known : t ∈ insertable) : t ∈ Terminal.lexical := by
  have all : ∀ t ∈ insertable, t ∈ Terminal.lexical := by decide
  exact all t known

theorem push_shifted {leaf : Leaf} {next : Stack} (fed : a.feed leaf stack = .shifted next) :
    push a stack leaf = .ok next := by
  unfold push
  rw [fed]

theorem insertOn_of_fed {t : Terminal} {next : Stack}
    (fed : a.feed (.inserted t) stack = .shifted next) : insertOn a stack t = some (t, next) := by
  unfold insertOn
  rw [fed]

theorem insertOn_eq_none {t : Terminal}
    (refused : ∀ next, a.feed (.inserted t) stack ≠ .shifted next) : insertOn a stack t = none := by
  unfold insertOn
  split
  · rename_i next fed
    exact absurd fed (refused next)
  · rfl

/-- Of some missing tokens, the first that can be put in is the first that the parser takes. -/
theorem findSome?_insertOn (reliable : a.Reliable items) (valid : Stack.Valid a stack)
    {ts : List Terminal} (known : ∀ t ∈ ts, t ∈ insertable) :
    match ts.filter fun t => decide (t ∈ a.acceptable stack) with
    | [] => ts.findSome? (insertOn a stack) = none
    | t :: _ => ∃ next, a.feed (.inserted t) stack = .shifted next ∧
        ts.findSome? (insertOn a stack) = some (t, next) := by
  induction ts with
  | nil => rfl
  | cons t ts ih =>
    have shifts := Automaton.mem_acceptable_iff_shifted reliable valid
      (lexical_of_insertable (known t List.mem_cons_self))
    by_cases taken : t ∈ a.acceptable stack
    · obtain ⟨next, fed⟩ := shifts.1 taken
      rw [List.filter_cons_of_pos (by simpa using taken)]
      exact ⟨next, fed, by rw [List.findSome?_cons, insertOn_of_fed fed]⟩
    · have refused : insertOn a stack t = none :=
        insertOn_eq_none fun next fed => taken (shifts.2 ⟨next, fed⟩)
      rw [List.filter_cons_of_neg (by simpa using taken), List.findSome?_cons, refused]
      exact ih fun u hu => known u (List.mem_cons_of_mem _ hu)

/-- What an answer at the end of the input leads to: the rejection, or the file that the end of
the input is accepted with. -/
def Leads (a : Automaton) (answer : Except Rejection (Stack × Session))
    (result : Except Rejection (ParseTree × Session)) : Prop :=
  match answer with
  | .error r => result = .error r
  | .ok (stack, s) => Stack.Valid a stack ∧
      ∃ tree, a.feedEnd stack = .accepted tree ∧ result = .ok (tree, s)

/-- In a round that is paid for nothing is refused, if nothing is in the rounds behind it. -/
theorem round_leads (reliable : a.Reliable items) {budget size left rest : Nat} {fault : Fault}
    {first : Bool} (valid : Stack.Valid a stack) (unfinished : .endOfInput ∉ a.acceptable stack)
    (paid : ¬ (first = false ∧ left = 0)) (left_eq : (if first then left else left - 1) = rest)
    (more : ∀ t next, a.feed (.inserted t) stack = .shifted next →
      ∃ answer, completeAtEnd a budget size fault false rest next (s.insert t .endOfInput size) =
          .ok answer ∧
        Leads a answer (complete a budget size fault rest next (s.insert t .endOfInput size))) :
    ∃ answer, completeAtEnd a budget size fault first left stack s = .ok answer ∧
      Leads a answer (complete a budget size fault (rest + 1) stack s) := by
  have open' : ∀ tree, a.feedEnd stack ≠ .accepted tree := fun tree fed =>
    unfinished ((Automaton.endOfInput_mem_acceptable_iff reliable).2 ⟨tree, fed⟩)
  have known : ∀ t ∈ candidates s.named size, t ∈ insertable := fun t =>
    insertable_of_mem_candidates
  have found := findSome?_insertOn reliable valid known
  rw [completeAtEnd, if_neg unfinished, if_neg paid, left_eq, complete_succ open']
  split at found
  · rename_i none
    simp only [tries, none, found]
    exact ⟨_, rfl, rfl⟩
  · rename_i t others some
    obtain ⟨next, fed, found⟩ := found
    simp only [tries, some, found, push_shifted fed, Except.bind]
    exact more t next fed

/-- At the end of the input nothing is refused, and what is answered is what the completion comes
to. -/
theorem completeAtEnd_leads (reliable : a.Reliable items) {budget size left : Nat} {fault : Fault}
    (valid : Stack.Valid a stack) :
    ∃ answer, completeAtEnd a budget size fault false left stack s = .ok answer ∧
      Leads a answer (complete a budget size fault left stack s) := by
  induction left generalizing stack s with
  | zero =>
    by_cases done : .endOfInput ∈ a.acceptable stack
    · obtain ⟨tree, fed⟩ := (Automaton.endOfInput_mem_acceptable_iff reliable).1 done
      rw [completeAtEnd, if_pos done]
      exact ⟨_, rfl, valid, tree, fed, complete_accepted fed 0⟩
    · rw [completeAtEnd, if_neg done, if_pos ⟨rfl, rfl⟩]
      refine ⟨_, rfl, complete_zero fun tree fed => ?_⟩
      exact done ((Automaton.endOfInput_mem_acceptable_iff reliable).2 ⟨tree, fed⟩)
  | succ left ih =>
    by_cases done : .endOfInput ∈ a.acceptable stack
    · obtain ⟨tree, fed⟩ := (Automaton.endOfInput_mem_acceptable_iff reliable).1 done
      rw [completeAtEnd, if_pos done]
      exact ⟨_, rfl, valid, tree, fed, complete_accepted fed _⟩
    · refine round_leads reliable valid done (by simp) rfl ?_
      intro t next fed
      exact ih (valid.shifted reliable.sound fed).1

/-- A completion does not look at what the session says is left. -/
theorem complete_left {budget size left : Nat} {fault : Fault} (k : Nat) :
    complete a budget size fault left stack { s with left := k } =
      complete a budget size fault left stack s := by
  fun_induction complete a budget size fault left stack s with
  | case1 left stack s tree fed => rw [complete_accepted fed]
  | case2 stack s unfinished =>
    rw [complete_zero unfinished]
    rfl
  | case3 stack s left none unfinished =>
    rw [complete_succ unfinished]
    simp only [none]
    rfl
  | case4 stack s left t next found unfinished ih =>
    rw [complete_succ unfinished]
    simp only [found]
    exact ih

end Calls

/-! ## The faults of a parse -/

/-- A situation stops at a fault, with the stack as it is then. What is read behind it starts at
a cursor. -/
inductive Situation.Stops (a : Automaton) (x : Situation) : Fault → Stack → Cursor → Prop
  | unfit {l : Lexeme} {after : Cursor} {mid : Stack} (read : x.reading a = .wanted l after)
      (fed : a.feed (leaf l) x.stack = .stuck mid) :
      Stops a x (.unexpected l (a.rowTerminals mid)) mid after
  | misplaced {l : Lexeme} {after : Cursor} (read : x.reading a = .misplaced l after) :
      Stops a x (.unexpected l (Lexeme.tried (wanted a x.stack))) x.stack after
  | stray {c : Char} {offset : Nat} {after : Cursor} (read : x.reading a = .stray c offset after) :
      Stops a x (.stray c offset) x.stack after
  | unfinished {mid : Stack} (read : x.reading a = .finished)
      (fed : a.feedEnd x.stack = .stuck mid) :
      Stops a x (.unfinished (a.rowTerminals mid)) mid x.cursor

section Handled

variable {a : Automaton} {items : Nat → ItemSet} {budget size : Nat} {fault : Fault}
  {stack mid : Stack} {s s' : Session} {l : Lexeme} {expected : List Terminal}

/-- Where the end of the input does not fit, the session ends as the completion does. -/
theorem handle_unfinished (reliable : a.Reliable items) (valid : Stack.Valid a stack)
    (refused : (a.row stack.state).action? .endOfInput = none) :
    ∃ answer, handle a budget size (.unfinished expected) stack s = .ok answer ∧
      Leads a answer (complete a budget size (.unfinished expected) s.left stack s) := by
  have stuck : a.feedEnd stack = .stuck stack := Automaton.feed_of_action?_none refused
  have unfinished : ∀ tree, a.feedEnd stack ≠ .accepted tree := by
    intro tree fed
    rw [stuck] at fed
    cases fed
  have known : .endOfInput ∉ a.acceptable stack := by
    rw [Automaton.endOfInput_mem_acceptable_iff reliable]
    rintro ⟨tree, fed⟩
    exact unfinished tree fed
  unfold handle payFor
  rcases s.left with _ | left
  · exact ⟨_, rfl, complete_zero unfinished⟩
  · rw [← complete_left left]
    refine round_leads reliable valid known (by simp) rfl ?_
    intro t next fed
    exact completeAtEnd_leads reliable (valid.shifted reliable.sound fed).1

end Handled

/-! ## The whole run -/

section Run

variable {a : Automaton} {items : Nat → ItemSet} {budget : Nat} {source : List Char}
  {x : Situation}

theorem Reached.lexical (sound : a.Sound) (reached : Reached a budget source x) {l : Lexeme}
    (reads : x.Reads a l) : l.terminal ∈ Terminal.lexical := by
  obtain ⟨w, after, _, scans⟩ := reached.scans sound reads
  obtain ⟨n, scanned, _⟩ := scans.scanned
  exact Lexeme.scan_lexical scanned

/-- Where the input ends too early, the session answers as the parse does. -/
theorem Reached.unfinished (reliable : a.Reliable items) (reached : Reached a budget source x)
    {mid : Stack} (fed : a.feedEnd x.stack = .stuck mid) (expected : List Terminal) (size : Nat) :
    ∃ answer, handle a budget size (.unfinished expected) mid x.session = .ok answer ∧
      Leads a answer
        (complete a budget size (.unfinished expected) x.session.left mid x.session) := by
  have valid := (reached.kept reliable.sound).valid
  have drives := Automaton.feedEnd_drives reliable valid
  rw [fed] at drives
  exact handle_unfinished reliable (valid.stuck reliable.sound fed).1 drives.refused

section Unfitting

variable {l : Lexeme} {after : Cursor} {mid : Stack} {expected : List Terminal} {size : Nat}

end Unfitting

end Run

end Recovery

/-! ## The parse of a source -/

end SyntaxAtlas
