-- Rewriting a text from the left. What is found at a place is written anew, and the search goes
-- on behind it, so parts of a text that are rewritten whatever stands behind them are rewritten
-- each by itself.

namespace SyntaxAtlas.Text

/-- Rewrites a text from the left. Where `find` finds something, it says how many characters that
has and what stands in their place. Any other character stays. `skip` counts the characters that
what was found still covers. -/
def rewriteFrom (find : List Char → Option (Nat × List Char)) : Nat → List Char → List Char
  | _, [] => []
  | skip + 1, _ :: cs => rewriteFrom find skip cs
  | 0, c :: cs =>
    match find (c :: cs) with
    | some (width, new) => new ++ rewriteFrom find (width - 1) cs
    | none => c :: rewriteFrom find 0 cs

/-- One text is rewritten as another one, whatever stands behind it. -/
def Rewrites (find : List Char → Option (Nat × List Char)) (u v : List Char) : Prop :=
  ∀ rest, rewriteFrom find 0 (u ++ rest) = v ++ rewriteFrom find 0 rest

variable {find : List Char → Option (Nat × List Char)} {u v u' v' : List Char}

theorem Rewrites.nil : Rewrites find [] [] := fun _ => rfl

theorem Rewrites.append (h : Rewrites find u v) (h' : Rewrites find u' v') :
    Rewrites find (u ++ u') (v ++ v') := by
  intro rest
  rw [List.append_assoc, h, h', List.append_assoc]

/-- Texts that are related piece by piece are related as a whole, if that goes with appending. -/
theorem flatMap_of_append {R : List Char → List Char → Prop} (nil : R [] [])
    (append : ∀ {u v u' v' : List Char}, R u v → R u' v' → R (u ++ u') (v ++ v'))
    {α : Type} {xs : List α} {f g : α → List Char} (each : ∀ x ∈ xs, R (f x) (g x)) :
    R (xs.flatMap f) (xs.flatMap g) := by
  induction xs with
  | nil => exact nil
  | cons x xs ih =>
    rw [List.flatMap_cons, List.flatMap_cons]
    exact append (each x List.mem_cons_self) (ih fun y hy => each y (List.mem_cons_of_mem x hy))

theorem Rewrites.flatMap {α : Type} {xs : List α} {f g : α → List Char}
    (each : ∀ x ∈ xs, Rewrites find (f x) (g x)) : Rewrites find (xs.flatMap f) (xs.flatMap g) :=
  flatMap_of_append .nil .append each

theorem Rewrites.eq (h : Rewrites find u v) : rewriteFrom find 0 u = v := by
  simpa [rewriteFrom] using h []

theorem rewriteFrom_skip (covered rest : List Char) :
    rewriteFrom find covered.length (covered ++ rest) = rewriteFrom find 0 rest := by
  induction covered with
  | nil => rfl
  | cons c covered ih => exact ih

/-- A text that is found whatever stands behind it. -/
theorem Rewrites.found (nonempty : u ≠ []) (found : ∀ rest, find (u ++ rest) = some (u.length, v)) :
    Rewrites find u v := by
  intro rest
  have here := found rest
  obtain ⟨c, cs, rfl⟩ := List.exists_cons_of_ne_nil nonempty
  rw [List.cons_append] at here ⊢
  rw [rewriteFrom, here]
  simp only [List.length_cons, Nat.add_sub_cancel, rewriteFrom_skip]

/-- A character at which nothing is found. -/
theorem Rewrites.stays {c : Char} (absent : ∀ rest, find (c :: rest) = none) :
    Rewrites find [c] [c] := by
  intro rest
  rw [List.singleton_append, rewriteFrom, absent]
  rfl

/-- A text in which nothing is found. -/
theorem Rewrites.same (absent : ∀ c ∈ u, ∀ rest, find (c :: rest) = none) : Rewrites find u u := by
  have each : Rewrites find (u.flatMap fun c => [c]) (u.flatMap fun c => [c]) :=
    .flatMap fun c hc => .stays (absent c hc)
  simpa using each

end SyntaxAtlas.Text
