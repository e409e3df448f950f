-- A parse as a run of steps. Each step reads once: what is read is shifted,
-- or shifted behind a missing token, or dropped, or skipped. At the end missing
-- tokens may follow. What every step keeps, every parse keeps.

import SyntaxAtlas.Recovery
import SyntaxAtlas.Proofs.Feeding

namespace SyntaxAtlas.Recovery

open Lexeme (Cursor)

/-! ## Steps -/

/-- Where a parse stands: the place in the source, the stack, and the repairs so
far. -/
structure Situation where
  cursor : Cursor
  stack : Stack
  session : Session

/-- What a situation reads next. -/
def Situation.reading (a : Automaton) (x : Situation) : Lexeme.Reading :=
  x.cursor.read (wanted a x.stack)

/-- A situation reads a lexeme, wanted there or not. -/
def Situation.Reads (a : Automaton) (x : Situation) (l : Lexeme) : Prop :=
  ∃ after, x.reading a = .wanted l after ∨ x.reading a = .misplaced l after

/-- A situation reads a lexeme that does not fit, and is left with a stack. -/
inductive Unfit (a : Automaton) (x : Situation) (l : Lexeme) (after : Cursor) : Stack → Prop
  | stuck {mid : Stack} (read : x.reading a = .wanted l after)
      (fed : a.feed (leaf l) x.stack = .stuck mid) : Unfit a x l after mid
  | misplaced (read : x.reading a = .misplaced l after) : Unfit a x l after x.stack

/-- One step of a parse. All but the first kind are repairs, which are paid for. -/
inductive Step (a : Automaton) (x : Situation) : Situation → Prop
  | shifted {l : Lexeme} {after : Cursor} {stack : Stack} (read : x.reading a = .wanted l after)
      (fed : a.feed (leaf l) x.stack = .shifted stack) : Step a x ⟨after, stack, x.session⟩
  | inserted {l : Lexeme} {after : Cursor} {mid stack : Stack} {t : Terminal} {left : Nat}
      (unfit : Unfit a x l after mid) (paid : x.session.left = left + 1)
      (found : (candidates x.session.named l.start).findSome? (insertBefore a mid l) =
        some (t, stack)) :
      Step a x ⟨after, stack, { x.session with left }.insert t l.terminal l.start⟩
  | dropped {l : Lexeme} {after : Cursor} {mid : Stack} {left : Nat}
      (unfit : Unfit a x l after mid) (paid : x.session.left = left + 1)
      (none : (candidates x.session.named l.start).findSome? (insertBefore a mid l) = none) :
      Step a x ⟨after, mid, { x.session with left }.drop l⟩
  | skipped {c : Char} {offset : Nat} {after : Cursor} {left : Nat}
      (read : x.reading a = .stray c offset after) (paid : x.session.left = left + 1) :
      Step a x ⟨after, x.stack, { x.session with left }.skip c offset⟩

/-- The situations that a parse of a source comes through. -/
inductive Reached (a : Automaton) (budget : Nat) (source : List Char) : Situation → Prop
  | start : Reached a budget source ⟨⟨0, source⟩, [], { left := budget }⟩
  | step {x y : Situation} (before : Reached a budget source x) (step : Step a x y) :
      Reached a budget source y

theorem payFor_ok {budget : Nat} {fault : Fault} {s s' : Session}
    (h : payFor budget fault s = .ok s') : ∃ left, s.left = left + 1 ∧ s' = { s with left } := by
  unfold payFor at h
  split at h
  · cases h
  · rename_i left same
    exact ⟨left, same, by simpa using h.symm⟩

/-- A repair of what does not fit is a step. -/
theorem Unfit.step {a : Automaton} {x : Situation} {l : Lexeme} {after : Cursor}
    {mid stack : Stack} {left : Nat} {s : Session} (unfit : Unfit a x l after mid)
    (paid : x.session.left = left + 1)
    (repaired : repair a l mid { x.session with left } = (stack, s)) :
    Step a x ⟨after, stack, s⟩ := by
  unfold repair at repaired
  split at repaired
  · rename_i t stack' found
    obtain ⟨rfl, rfl⟩ := Prod.mk.inj repaired
    exact .inserted unfit paid found
  · rename_i none
    obtain ⟨rfl, rfl⟩ := Prod.mk.inj repaired
    exact .dropped unfit paid none

/-- A repair that is paid for leads on. -/
theorem Reached.repaired {a : Automaton} {budget : Nat} {source : List Char} {x : Situation}
    (reached : Reached a budget source x) {l : Lexeme} {after : Cursor} {mid stack : Stack}
    {fault : Fault} {s s' : Session} (unfit : Unfit a x l after mid)
    (paid : payFor budget fault x.session = .ok s) (repaired : repair a l mid s = (stack, s')) :
    Reached a budget source ⟨after, stack, s'⟩ := by
  obtain ⟨left, enough, rfl⟩ := payFor_ok paid
  exact reached.step (unfit.step enough repaired)

/-- A character that is skipped and paid for leads on. -/
theorem Reached.skipped {a : Automaton} {budget : Nat} {source : List Char} {x : Situation}
    (reached : Reached a budget source x) {c : Char} {offset : Nat} {after : Cursor}
    {fault : Fault} {s : Session} (read : x.reading a = .stray c offset after)
    (paid : payFor budget fault x.session = .ok s) :
    Reached a budget source ⟨after, x.stack, s.skip c offset⟩ := by
  obtain ⟨left, enough, rfl⟩ := payFor_ok paid
  exact reached.step (.skipped read enough)

/-- A parse that succeeds reaches a situation where nothing is left to read. -/
theorem parseFrom_reaches {a : Automaton} {budget size : Nat} {source : List Char}
    {x : Situation} {result : ParseTree × Session} (reached : Reached a budget source x)
    (h : parseFrom a budget size x.cursor x.stack x.session = .ok result) :
    ∃ y, Reached a budget source y ∧ y.reading a = .finished ∧
      finish a budget size y.stack y.session = .ok result := by
  obtain ⟨cursor, stack, s⟩ := x
  fun_induction parseFrom a budget size cursor stack s with
  | case1 cursor stack s read => exact ⟨_, reached, read, h⟩
  | case2 cursor stack s l after read next fed ih => exact ih (reached.step (.shifted read fed)) h
  | case3 => cases h
  | case4 => cases h
  | case5 cursor stack s l after read mid fed s' paid next s'' repaired ih =>
    exact ih (reached.repaired (.stuck read fed) paid repaired) h
  | case6 => cases h
  | case7 cursor stack s l after read s' paid next s'' repaired ih =>
    exact ih (reached.repaired (.misplaced read) paid repaired) h
  | case8 => cases h
  | case9 cursor stack s c offset after read s' paid ih => exact ih (reached.skipped read paid) h

/-! ## The end of the input -/

/-- How a stack and its repairs come to the tree of a whole file at the end of the
input: missing tokens are put in until the input may end. -/
inductive Finishes (a : Automaton) (size : Nat) :
    Stack → Session → ParseTree → Session → Prop
  | accepted {stack : Stack} {s : Session} {tree : ParseTree}
      (fed : a.feedEnd stack = .accepted tree) : Finishes a size stack s tree s
  | reduced {stack mid : Stack} {s s' : Session} {tree : ParseTree}
      (fed : a.feedEnd stack = .stuck mid) (more : Finishes a size mid s tree s') :
      Finishes a size stack s tree s'
  | inserted {stack next : Stack} {s s' : Session} {tree : ParseTree} {t : Terminal} {left : Nat}
      (unfinished : ∀ tree, a.feedEnd stack ≠ .accepted tree) (paid : s.left = left + 1)
      (found : (candidates s.named size).findSome? (insertOn a stack) = some (t, next))
      (more : Finishes a size next ({ s with left }.insert t .endOfInput size) tree s') :
      Finishes a size stack s tree s'

theorem complete_finishes {a : Automaton} {budget size left : Nat} {fault : Fault} {stack : Stack}
    {s s' : Session} {tree : ParseTree}
    (h : complete a budget size fault left stack s = .ok (tree, s')) :
    Finishes a size stack { s with left } tree s' := by
  fun_induction complete a budget size fault left stack s with
  | case1 left stack s tree' fed =>
    obtain ⟨rfl, rfl⟩ : tree' = tree ∧ { s with left } = s' := by simpa using h
    exact .accepted fed
  | case2 => cases h
  | case3 => cases h
  | case4 stack s left t next found unfinished ih =>
    exact .inserted unfinished rfl found (ih h)

/-- The end of the input is never shifted. -/
theorem feedEnd_ne_shifted {a : Automaton} (sound : a.Sound) (stack last : Stack) :
    a.feedEnd stack ≠ .shifted last := by
  intro h
  have after := feedWith_after a .endOfInput (.inserted .endOfInput) (Automaton.feedSteps stack)
    stack
  change a.feedWith .endOfInput (.inserted .endOfInput) (Automaton.feedSteps stack) stack = _ at h
  rw [h] at after
  obtain ⟨mid, state, _, action, _⟩ := after
  have lexical := sound.lexical _ _ _ (Automaton.mem_of_lookup (shift_of_action? action))
  exact absurd lexical (by decide)

theorem finish_finishes {a : Automaton} (sound : a.Sound) {budget size : Nat} {stack : Stack}
    {s s' : Session} {tree : ParseTree} (h : finish a budget size stack s = .ok (tree, s')) :
    Finishes a size stack s tree s' := by
  unfold finish at h
  split at h
  · rename_i fed
    obtain ⟨rfl, rfl⟩ : _ = tree ∧ s = s' := by simpa using h
    exact .accepted fed
  · rename_i mid fed
    exact absurd fed (feedEnd_ne_shifted sound stack mid)
  · rename_i mid fed
    exact .reduced fed (complete_finishes h)

/-- A parse that succeeds is a run to the end of the source and a way to finish
there. -/
theorem parse_runs {a : Automaton} (sound : a.Sound) {budget : Nat} {source : List Char}
    {tree : ParseTree} {s : Session} (h : parse a budget source = .ok (tree, s)) :
    ∃ x, Reached a budget source x ∧ x.reading a = .finished ∧
      Finishes a source.length x.stack x.session tree s := by
  obtain ⟨x, reached, read, finished⟩ := parseFrom_reaches .start h
  exact ⟨x, reached, read, finish_finishes sound finished⟩

end SyntaxAtlas.Recovery
