-- What the budget of a parse decides: how far the repairs go, and nothing else. A
-- parse that comes to an end of its own has one course for all budgets, the faults
-- that have to be paid for and the end behind them. A budget cuts the course off at
-- the first fault that it does not pay for.

import SyntaxAtlas.Proofs.Lossless
import SyntaxAtlas.Render

namespace SyntaxAtlas

/-! ## Courses -/

/-- A fault that has to be paid for, with the repairs before it. -/
structure Charge where
  fault : Fault
  repairs : List Repair

/-- The course of a parse whose repairs are all paid for: its faults in order, and its
end. -/
structure Course where
  charges : List Charge
  ending : Except Rejection (ParseTree × Session)

/-- The outcomes of a parse, by the whole budget and by what is left of it. -/
abbrev Outcomes := Nat → Nat → Except Rejection (ParseTree × Session)

namespace Course

/-- The outcome of a course when so much of a budget is left. -/
def within (c : Course) (budget left : Nat) : Except Rejection (ParseTree × Session) :=
  match c.charges[left]? with
  | some charge =>
    .error ⟨charge.fault, if budget = 0 then none else some budget, charge.repairs⟩
  | none => c.ending.map fun (tree, s) => (tree, { s with left := left - c.charges.length })

/-- A fault that is not paid for ends the parse. -/
theorem within_of_lt {c : Course} (budget : Nat) {left : Nat} (short : left < c.charges.length) :
    ∃ charge : Charge, c.within budget left =
      .error ⟨charge.fault, if budget = 0 then none else some budget, charge.repairs⟩ := by
  refine ⟨c.charges[left], ?_⟩
  rw [within, List.getElem?_eq_getElem short]

/-- When all faults are paid for the course comes to its end. -/
theorem within_of_le {c : Course} {budget left : Nat} (enough : c.charges.length ≤ left) :
    c.within budget left =
      c.ending.map fun (tree, s) => (tree, { s with left := left - c.charges.length }) := by
  rw [within, List.getElem?_eq_none enough]

/-- A course behind one more fault. -/
def behind (charge : Charge) (c : Course) : Course := ⟨charge :: c.charges, c.ending⟩

/-- The outcomes of a parse are those of a course. -/
def Of (c : Course) (outcomes : Outcomes) : Prop :=
  ∀ budget left, outcomes budget left = c.within budget left

theorem of_ending {outcomes : Outcomes} (ending : Except Rejection (ParseTree × Session))
    (same : ∀ budget left, outcomes budget left =
      ending.map fun (tree, s) => (tree, { s with left })) :
    Of ⟨[], ending⟩ outcomes := by
  intro budget left
  rw [same, within]
  rfl

theorem Of.congr {c : Course} {outcomes others : Outcomes} (h : c.Of outcomes)
    (same : ∀ budget left, others budget left = outcomes budget left) : c.Of others := by
  intro budget left
  rw [same, h]

/-- A fault is paid for first, or it is where the parse gives up. -/
theorem Of.behind {c : Course} {outcomes more : Outcomes} (h : c.Of more) {fault : Fault}
    {s : Session} (unpaid : ∀ budget, outcomes budget 0 = .error (s.giveUp budget fault))
    (paid : ∀ budget left, outcomes budget (left + 1) = more budget left) :
    (c.behind ⟨fault, s.repairs⟩).Of outcomes := by
  intro budget left
  cases left with
  | zero => rw [unpaid, within, Course.behind, List.getElem?_cons_zero]; rfl
  | succ left =>
    rw [paid, h, within, within, Course.behind, List.getElem?_cons_succ, List.length_cons,
      Nat.add_sub_add_right]

end Course

/-! ## Equations of a parse -/

/-- A parse ends well, or is refused although its budget is not used up. -/
def Settled {α : Type} (budget : Nat) : Except Rejection α → Prop
  | .ok _ => True
  | .error r => 0 < budget ∧ r.gaveUpAfter = none

theorem not_settled_giveUp {α : Type} {budget : Nat} {s : Session} {fault : Fault} :
    ¬ Settled budget (.error (s.giveUp budget fault) : Except Rejection α) := by
  rintro ⟨positive, none⟩
  rw [Session.giveUp, if_neg (by omega)] at none
  cases none

namespace Recovery

open Lexeme (Cursor)

variable {a : Automaton} {budget size left : Nat} {cursor after : Cursor} {stack mid : Stack}
  {s : Session} {l : Lexeme}

/-- What comes of a fault: it is paid for and repaired, or the parse gives up. -/
def mended (a : Automaton) (budget size : Nat) (after : Cursor) (l : Lexeme) (fault : Fault)
    (mid : Stack) (s : Session) : Except Rejection (ParseTree × Session) :=
  match payFor budget fault s with
  | .error r => .error r
  | .ok s => parseFrom a budget size after (repair a l mid s).1 (repair a l mid s).2

theorem parseFrom_finished (read : cursor.read (wanted a stack) = .finished) :
    parseFrom a budget size cursor stack s = finish a budget size stack s := by
  rw [parseFrom]
  split <;> rename_i other <;> rw [other] at read <;> cases read

theorem parseFrom_wanted (read : cursor.read (wanted a stack) = .wanted l after) :
    parseFrom a budget size cursor stack s =
      match a.feed (leaf l) stack with
      | .shifted stack => parseFrom a budget size after stack s
      | .accepted _ => .error (s.reject (.unexpected l []))
      | .stuck mid => mended a budget size after l (.unexpected l (a.rowTerminals mid)) mid s := by
  rw [parseFrom]
  split <;> rename_i other <;> rw [other] at read <;> cases read
  rfl

theorem parseFrom_misplaced (read : cursor.read (wanted a stack) = .misplaced l after) :
    parseFrom a budget size cursor stack s =
      mended a budget size after l (.unexpected l (Lexeme.tried (wanted a stack))) stack s := by
  rw [parseFrom]
  split <;> rename_i other <;> rw [other] at read <;> cases read
  rfl

theorem parseFrom_stray {c : Char} {offset : Nat}
    (read : cursor.read (wanted a stack) = .stray c offset after) :
    parseFrom a budget size cursor stack s =
      match payFor budget (.stray c offset) s with
      | .error r => .error r
      | .ok s => parseFrom a budget size after stack (s.skip c offset) := by
  rw [parseFrom]
  split <;> rename_i other <;> rw [other] at read <;> cases read
  rfl

/-- A repair does not look at what is left of the budget. -/
theorem repair_left (a : Automaton) (l : Lexeme) (mid : Stack) (s : Session) (left : Nat) :
    repair a l mid { s with left } =
      ((repair a l mid s).1, { (repair a l mid s).2 with left }) := by
  unfold repair
  rcases (candidates s.named l.start).findSome? (insertBefore a mid l) with _ | ⟨t, stack⟩ <;> rfl

theorem complete_accepted {fault : Fault} {tree : ParseTree} (fed : a.feedEnd stack = .accepted tree)
    (left : Nat) : complete a budget size fault left stack s = .ok (tree, { s with left }) := by
  unfold complete
  rw [fed]

theorem complete_zero {fault : Fault} (unfinished : ∀ tree, a.feedEnd stack ≠ .accepted tree) :
    complete a budget size fault 0 stack s = .error (s.giveUp budget fault) := by
  unfold complete
  split
  · rename_i tree fed
    exact absurd fed (unfinished tree)
  · rfl

theorem complete_succ {fault : Fault} (unfinished : ∀ tree, a.feedEnd stack ≠ .accepted tree) :
    complete a budget size fault (left + 1) stack s =
      match (candidates s.named size).findSome? (insertOn a stack) with
      | none => .error (s.reject fault)
      | some (t, stack) => complete a budget size fault left stack (s.insert t .endOfInput size) := by
  rw [complete]
  split
  · rename_i tree fed
    exact absurd fed (unfinished tree)
  · rfl

/-! ## The course of a parse -/

/-- A completion that settles has one course. -/
theorem complete_course {n : Nat} {fault : Fault}
    (h : Settled n (complete a n size fault left stack s)) :
    ∃ c : Course, c.charges.length ≤ left ∧ ∀ k,
      c.Of fun budget left => complete a budget size fault left stack { s with left := k } := by
  fun_induction complete a n size fault left stack s with
  | case1 left stack s tree fed =>
    refine ⟨⟨[], .ok (tree, s)⟩, Nat.zero_le _, fun k => Course.of_ending _ fun budget left => ?_⟩
    rw [complete_accepted fed]
    rfl
  | case2 => exact absurd h not_settled_giveUp
  | case3 stack s left none unfinished =>
    have ending : Course.Of ⟨[], .error (s.reject fault)⟩ fun _ _ => .error (s.reject fault) :=
      Course.of_ending _ fun _ _ => rfl
    refine ⟨.behind ⟨fault, s.repairs⟩ ⟨[], .error (s.reject fault)⟩, by simp [Course.behind],
      fun k => ending.behind (fun budget => ?_) fun budget left => ?_⟩
    · rw [complete_zero unfinished]
      rfl
    · rw [complete_succ unfinished]
      simp only [none]
      rfl
  | case4 stack s left t next found unfinished ih =>
    obtain ⟨c, length, of⟩ := ih h
    refine ⟨c.behind ⟨fault, s.repairs⟩, by simpa [Course.behind] using length,
      fun k => (of k).behind (fun budget => ?_) fun budget left => ?_⟩
    · rw [complete_zero unfinished]
      rfl
    · rw [complete_succ unfinished]
      simp only [found]
      rfl

theorem finish_course {n : Nat} (h : Settled n (finish a n size stack s)) :
    ∃ c : Course, c.charges.length ≤ s.left ∧
      c.Of fun budget left => finish a budget size stack { s with left } := by
  unfold finish at h
  split at h
  · rename_i tree fed
    refine ⟨⟨[], .ok (tree, s)⟩, Nat.zero_le _, Course.of_ending _ fun budget left => ?_⟩
    simp only [finish, fed]
    rfl
  all_goals
    rename_i mid fed
    obtain ⟨c, length, of⟩ := complete_course h
    refine ⟨c, length, fun budget left => ?_⟩
    rw [← of left budget left]
    simp only [finish, fed]

/-- A fault that the parse pays for stands in front of the course behind it. -/
theorem mended_course {n : Nat} {fault : Fault} {s' s'' : Session} {c : Course}
    (paid : payFor n fault s = .ok s') (repaired : repair a l mid s' = (stack, s''))
    (length : c.charges.length ≤ s''.left)
    (of : c.Of fun budget left => parseFrom a budget size after stack { s'' with left }) :
    (c.behind ⟨fault, s.repairs⟩).charges.length ≤ s.left ∧
      (c.behind ⟨fault, s.repairs⟩).Of fun budget left =>
        mended a budget size after l fault mid { s with left } := by
  obtain ⟨rest, enough, rfl⟩ := payFor_ok paid
  rw [repair_left] at repaired
  obtain ⟨rfl, rfl⟩ := Prod.mk.inj repaired
  constructor
  · rw [enough]
    exact Nat.succ_le_succ length
  · refine of.behind (fun budget => rfl) fun budget left => ?_
    simp only [mended, payFor, repair_left a l mid s left]

theorem not_settled_unpaid {α : Type} {n : Nat} {fault : Fault} {r : Rejection}
    (unpaid : payFor n fault s = .error r) : ¬ Settled n (.error r : Except Rejection α) := by
  unfold payFor at unpaid
  split at unpaid
  · cases unpaid
    exact not_settled_giveUp
  · cases unpaid

/-- A parse that settles has one course, which its budget pays for. -/
theorem parseFrom_course {n : Nat} (h : Settled n (parseFrom a n size cursor stack s)) :
    ∃ c : Course, c.charges.length ≤ s.left ∧
      c.Of fun budget left => parseFrom a budget size cursor stack { s with left } := by
  fun_induction parseFrom a n size cursor stack s with
  | case1 cursor stack s read =>
    obtain ⟨c, length, of⟩ := finish_course h
    exact ⟨c, length, of.congr fun budget left => parseFrom_finished read⟩
  | case2 cursor stack s l after read next fed ih =>
    obtain ⟨c, length, of⟩ := ih h
    refine ⟨c, length, of.congr fun budget left => ?_⟩
    simp only [parseFrom_wanted read, fed]
  | case3 cursor stack s l after read tree fed =>
    refine ⟨⟨[], .error (s.reject (.unexpected l []))⟩, Nat.zero_le _,
      Course.of_ending _ fun budget left => ?_⟩
    simp only [parseFrom_wanted read, fed]
    rfl
  | case4 cursor stack s l after read mid fed r unpaid => exact absurd h (not_settled_unpaid unpaid)
  | case5 cursor stack s l after read mid fed s' paid next s'' repaired ih =>
    obtain ⟨c, length, of⟩ := ih h
    obtain ⟨length', behind⟩ := mended_course paid repaired length of
    refine ⟨_, length', behind.congr fun budget left => ?_⟩
    simp only [parseFrom_wanted read, fed]
  | case6 cursor stack s l after read r unpaid => exact absurd h (not_settled_unpaid unpaid)
  | case7 cursor stack s l after read s' paid next s'' repaired ih =>
    obtain ⟨c, length, of⟩ := ih h
    obtain ⟨length', behind⟩ := mended_course paid repaired length of
    exact ⟨_, length', behind.congr fun budget left => parseFrom_misplaced read⟩
  | case8 cursor stack s c offset after read r unpaid => exact absurd h (not_settled_unpaid unpaid)
  | case9 cursor stack s c offset after read s' paid ih =>
    obtain ⟨left, enough, rfl⟩ := payFor_ok paid
    obtain ⟨course, length, of⟩ := ih h
    refine ⟨course.behind ⟨.stray c offset, s.repairs⟩, ?_,
      of.behind (fun budget => ?_) fun budget left => ?_⟩
    · rw [enough]
      exact Nat.succ_le_succ length
    · rw [parseFrom_stray read]
      rfl
    · rw [parseFrom_stray read]
      rfl

/-- A parse of a whole source that settles has one course for all budgets. -/
theorem parse_course {source : List Char} {n : Nat} (h : Settled n (parse a n source)) :
    ∃ c : Course, c.charges.length ≤ n ∧ ∀ budget, parse a budget source = c.within budget budget := by
  obtain ⟨c, length, of⟩ := parseFrom_course h
  exact ⟨c, length, fun budget => of budget budget⟩

/-! ## The fault that is reported -/

/-- A situation meets a fault: what it reads does not fit, or starts no lexeme, or the
input ends where it may not. -/
inductive Situation.Meets (a : Automaton) (x : Situation) : Fault → Prop
  | unfit {l : Lexeme} {after : Cursor} {mid : Stack} (read : x.reading a = .wanted l after)
      (fed : a.feed (leaf l) x.stack = .stuck mid) : Meets a x (.unexpected l (a.rowTerminals mid))
  | misplaced {l : Lexeme} {after : Cursor} (read : x.reading a = .misplaced l after) :
      Meets a x (.unexpected l (Lexeme.tried (wanted a x.stack)))
  | behindEnd {l : Lexeme} {after : Cursor} {tree : ParseTree}
      (read : x.reading a = .wanted l after) (fed : a.feed (leaf l) x.stack = .accepted tree) :
      Meets a x (.unexpected l [])
  | stray {c : Char} {offset : Nat} {after : Cursor} (read : x.reading a = .stray c offset after) :
      Meets a x (.stray c offset)
  | unfinished {mid : Stack} (read : x.reading a = .finished)
      (fed : a.feedEnd x.stack = .stuck mid) : Meets a x (.unfinished (a.rowTerminals mid))

theorem fault_of_complete {fault : Fault} {r : Rejection}
    (h : complete a budget size fault left stack s = .error r) : r.fault = fault := by
  fun_induction complete a budget size fault left stack s with
  | case1 => cases h
  | case2 => cases h; rfl
  | case3 => cases h; rfl
  | case4 stack s left t next found unfinished ih => exact ih h

theorem fault_of_unpaid {fault : Fault} {r : Rejection} (h : payFor budget fault s = .error r) :
    r.fault = fault := by
  unfold payFor at h
  split at h
  · cases h
    rfl
  · cases h

/-- A parse that fails reports the fault of a situation that it reached. -/
theorem parseFrom_meets (sound : a.Sound) {source : List Char} {x : Situation} {r : Rejection}
    (reached : Reached a budget source x)
    (h : parseFrom a budget size x.cursor x.stack x.session = .error r) :
    ∃ y, Reached a budget source y ∧ y.Meets a r.fault := by
  obtain ⟨cursor, stack, s⟩ := x
  fun_induction parseFrom a budget size cursor stack s with
  | case1 cursor stack s read =>
    refine ⟨_, reached, ?_⟩
    unfold finish at h
    split at h
    · cases h
    · rename_i mid fed
      exact absurd fed (feedEnd_ne_shifted sound stack mid)
    · rename_i mid fed
      rw [fault_of_complete h]
      exact .unfinished read fed
  | case2 cursor stack s l after read next fed ih => exact ih (reached.step (.shifted read fed)) h
  | case3 cursor stack s l after read tree fed =>
    cases h
    exact ⟨_, reached, .behindEnd read fed⟩
  | case4 cursor stack s l after read mid fed r' unpaid =>
    cases h
    exact ⟨_, reached, fault_of_unpaid unpaid ▸ .unfit read fed⟩
  | case5 cursor stack s l after read mid fed s' paid next s'' repaired ih =>
    exact ih (reached.repaired (.stuck read fed) paid repaired) h
  | case6 cursor stack s l after read r' unpaid =>
    cases h
    exact ⟨_, reached, fault_of_unpaid unpaid ▸ .misplaced read⟩
  | case7 cursor stack s l after read s' paid next s'' repaired ih =>
    exact ih (reached.repaired (.misplaced read) paid repaired) h
  | case8 cursor stack s c offset after read r' unpaid =>
    cases h
    exact ⟨_, reached, fault_of_unpaid unpaid ▸ .stray read⟩
  | case9 cursor stack s c offset after read s' paid ih => exact ih (reached.skipped read paid) h

end Recovery

/-! ## The parse of a source -/

/-- A source fails to parse exactly if it is rejected. -/
theorem parse_eq_error_iff {budget : Nat} {file source : String} {f : ParseFailure} :
    parse budget file source = .error f ↔
      ∃ r, f = .rejected r ∧ Recovery.parse .ofGrammar budget source.toList = .error r := by
  rcases accepted : Recovery.parse .ofGrammar budget source.toList with r | ⟨tree, s⟩
  · have failed : parse budget file source = .error (.rejected r) := by
      simp only [parse, parseWith, accepted]
    rw [failed]
    simp [eq_comm]
  · obtain ⟨root, built, _⟩ := toTree_spells Automaton.ofGrammar_sound accepted
    have parsed : parse budget file source = .ok _ :=
      parse_eq_ok_iff.2 ⟨tree, s, root, accepted, built, rfl⟩
    rw [parsed]
    simp

/-- A course that ends well gives one tree for all budgets that pay for it. -/
theorem parse_of_course {file source : String} {c : Course}
    (of : ∀ budget, Recovery.parse .ofGrammar budget source.toList = c.within budget budget)
    {n : Nat} (enough : c.charges.length ≤ n) {p : Parsed} (parsed : parse n file source = .ok p) :
    p.recoveries = c.charges.length ∧
      ∀ m, c.charges.length ≤ m → parse m file source = .ok p := by
  obtain ⟨tree, s, root, accepted, built, rfl⟩ := parse_eq_ok_iff.1 parsed
  rw [of, Course.within_of_le enough] at accepted
  rcases ends : c.ending with r | ⟨tree', s'⟩
  · rw [ends] at accepted
    cases accepted
  · rw [ends] at accepted
    cases accepted
    have used : ∀ m, c.charges.length ≤ m → m - (m - c.charges.length) = c.charges.length := by
      omega
    refine ⟨used n enough, fun m enough' => parse_eq_ok_iff.2
      ⟨tree, { s' with left := m - c.charges.length }, root, ?_, built, ?_⟩⟩
    · rw [of, Course.within_of_le enough', ends]
      rfl
    · simp only [used n enough, used m enough']

/-- A parse that succeeds does so with every budget that its recoveries fit in. -/
theorem parse_of_fits {file source : String} {n m : Nat} {p : Parsed}
    (parsed : parse n file source = .ok p) (fits : p.recoveries ≤ m) :
    parse m file source = .ok p := by
  obtain ⟨_, _, _, accepted, _⟩ := parse_eq_ok_iff.1 parsed
  have settles : Settled n (Recovery.parse .ofGrammar n source.toList) := by
    rw [accepted]
    trivial
  obtain ⟨c, enough, of⟩ := Recovery.parse_course settles
  obtain ⟨recoveries, same⟩ := parse_of_course of enough parsed
  exact same m (recoveries ▸ fits)

theorem head?_toList_append {s : String} {c : Char} (h : s.toList.head? = some c) (t : String) :
    (s ++ t).toList.head? = some c := by
  rw [String.toList_append, List.head?_append, h, Option.some_or]

/-- The message of a fault starts with a small `u`. -/
theorem Fault.head?_message (fault : Fault) : fault.message.toList.head? = some 'u' := by
  cases fault with
  | stray c offset => exact head?_toList_append (head?_toList_append (by decide) _) _
  | unexpected l expected => exact head?_toList_append (head?_toList_append (by decide) _) _
  | unfinished expected => exact (by decide : "unexpected end of input".toList.head? = some 'u')

/-- A fault by itself does not read as giving up. -/
theorem Fault.not_givenUp (fault : Fault) :
    ¬ "too many syntax errors; ".toList <+: fault.message.toList := by
  intro starts
  have first := fault.head?_message
  have other : "too many syntax errors; ".toList.head? = some 't' := by decide
  obtain ⟨rest, same⟩ := starts
  rw [← same, List.head?_append, other] at first
  cases first

/-- The error of a source that is given up. -/
theorem Rejection.error_givenUp {r : Rejection} {n : Nat} (h : r.gaveUpAfter = some n)
    (file source : String) :
    (r.error file source).message = "too many syntax errors; " ++ r.fault.message ∧
      (r.error file source).note =
        some ("recovery gave up after " ++ toString n ++ " repairs") := by
  simp [Rejection.error, h]

/-- The error of a source that is not given up. -/
theorem Rejection.error_plain {r : Rejection} (h : r.gaveUpAfter = none) (file source : String) :
    (r.error file source).message = r.fault.message ∧ (r.error file source).note = none := by
  simp [Rejection.error, h]

/-- Once a parse settles, a larger budget changes nothing, and a smaller one only how far
the parse comes. A parse that succeeds does so with every budget that its recoveries fit
in, with the same result. With a smaller budget the source is rejected: it is reported as
given up after as many repairs as the budget has, or plainly if that is none, with the fault
of a situation that this budget leads to. A source that is rejected with some budget, and not
given up, is rejected with the same error for every larger one. -/
theorem parse_settles (file source : String) :
    (∀ n p, parse n file source = .ok p →
      (∀ m, p.recoveries ≤ m → parse m file source = .ok p) ∧
      ∀ m, m < p.recoveries → ∃ r, parse m file source = .error (.rejected r) ∧
        (∃ x, Recovery.Reached .ofGrammar m source.toList x ∧ x.Meets .ofGrammar r.fault) ∧
        (m = 0 → (r.error file source).message = r.fault.message ∧
          (r.error file source).note = none) ∧
        (0 < m → (r.error file source).message =
            "too many syntax errors; " ++ r.fault.message ∧
          (r.error file source).note =
            some ("recovery gave up after " ++ toString m ++ " repairs"))) ∧
    ∀ n f, 0 < n → parse n file source = .error f → ∃ e, f.error file source = .ok e ∧
      (¬ "too many syntax errors; ".toList <+: e.message.toList → ∀ m, n ≤ m →
        ∃ f', parse m file source = .error f' ∧ f'.error file source = .ok e) := by
  refine ⟨fun n p parsed => ?_, fun n f positive failed => ?_⟩
  · obtain ⟨_, _, _, accepted, _⟩ := parse_eq_ok_iff.1 parsed
    have settles : Settled n (Recovery.parse .ofGrammar n source.toList) := by
      rw [accepted]
      trivial
    obtain ⟨c, enough, of⟩ := Recovery.parse_course settles
    obtain ⟨recoveries, same⟩ := parse_of_course of enough parsed
    rw [recoveries]
    refine ⟨same, fun m short => ?_⟩
    obtain ⟨charge, unpaid⟩ := c.within_of_lt m short
    rw [← of] at unpaid
    refine ⟨_, parse_eq_error_iff.2 ⟨_, rfl, unpaid⟩,
      Recovery.parseFrom_meets Automaton.ofGrammar_sound .start unpaid, ?_, ?_⟩
    · intro zero
      exact Rejection.error_plain (if_pos zero) file source
    · intro positive
      exact Rejection.error_givenUp (if_neg (Nat.ne_of_gt positive)) file source
  · obtain ⟨r, rfl, rejected⟩ := parse_eq_error_iff.1 failed
    refine ⟨r.error file source, rfl, fun notGivenUp m le => ?_⟩
    have settled : r.gaveUpAfter = none := by
      rcases gaveUp : r.gaveUpAfter with _ | k
      · rfl
      · refine absurd ?_ notGivenUp
        rw [(Rejection.error_givenUp gaveUp file source).1, String.toList_append]
        exact List.prefix_append _ _
    have settles : Settled n (Recovery.parse .ofGrammar n source.toList) := by
      rw [rejected]
      exact ⟨positive, settled⟩
    obtain ⟨c, enough, of⟩ := Recovery.parse_course settles
    refine ⟨.rejected r, parse_eq_error_iff.2 ⟨r, rfl, ?_⟩, rfl⟩
    rw [of, Course.within_of_le enough] at rejected
    rw [of, Course.within_of_le (Nat.le_trans enough le)]
    rcases ends : c.ending with r' | ⟨tree, s⟩
    · rw [ends] at rejected
      exact rejected
    · rw [ends] at rejected
      cases rejected

/-- Three recoveries fit in larger budgets and not in one of one. No budget completes a
modifier without a declaration. -/
theorem parse_settles_of_samples :
    (∃ p r, parse 3 standardFile "f($\"a\" ]" = .ok p ∧ p.recoveries = 3 ∧
      parse 64 standardFile "f($\"a\" ]" = .ok p ∧
      parse 1 standardFile "f($\"a\" ]" = .error (.rejected r) ∧
      (r.error standardFile "f($\"a\" ]").note = some "recovery gave up after 1 repairs") ∧
    ∃ f e f', parse 1 standardFile "static" = .error f ∧ f.error standardFile "static" = .ok e ∧
      ¬ "too many syntax errors; ".toList <+: e.message.toList ∧
      parse 64 standardFile "static" = .error f' ∧ f'.error standardFile "static" = .ok e := by
  constructor
  · obtain ⟨p, parsed, repairs⟩ := exists_ok_of_toOption parse_samples.1
    obtain ⟨larger, smaller⟩ := (parse_settles standardFile "f($\"a\" ]").1 3 p parsed
    obtain ⟨r, rejected, _, _, givenUp⟩ := smaller 1 (by omega)
    exact ⟨p, r, parsed, repairs, larger 64 (by omega), rejected, (givenUp (by decide)).2⟩
  · have sample := sample_parses.2.2.1
    split at sample
    · rename_i r failed
      have settled : r.gaveUpAfter = none := Option.some.inj sample
      obtain ⟨e, error, larger⟩ := (parse_settles standardFile "static").2 1 _ (by decide) failed
      have plain : ¬ "too many syntax errors; ".toList <+: e.message.toList := by
        cases error
        rw [(Rejection.error_plain settled _ _).1]
        exact r.fault.not_givenUp
      obtain ⟨f', failed', same⟩ := larger plain 64 (by decide)
      exact ⟨_, e, f', failed, error, plain, failed', same⟩
    · cases sample

end SyntaxAtlas
