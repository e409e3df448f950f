-- Spans: the bytes of the source that each node covers. A node reaches from
-- its first token to its last one. A node without a token has no width and
-- stands at the start of the next token.

import SyntaxAtlas.Tree

namespace SyntaxAtlas.Tree

/-! ## The first and the last token -/

mutual

/-- The first token of a tree. -/
def firstToken? : Tree → Option Token
  | .token t => some t
  | .node kind slots items _ => if kind.isLayout then slotsFirst? slots else itemsFirst? items
  | .foreign _ => none

def slotsFirst? : List (String × Tree) → Option Token
  | [] => none
  | (_, t) :: rest => t.firstToken? <|> slotsFirst? rest

def itemsFirst? : List Tree → Option Token
  | [] => none
  | t :: rest => t.firstToken? <|> itemsFirst? rest

end

mutual

/-- The last token of a tree. -/
def lastToken? : Tree → Option Token
  | .token t => some t
  | .node kind slots items _ => if kind.isLayout then slotsLast? slots else itemsLast? items
  | .foreign _ => none

def slotsLast? : List (String × Tree) → Option Token
  | [] => none
  | (_, t) :: rest => slotsLast? rest <|> t.lastToken?

def itemsLast? : List Tree → Option Token
  | [] => none
  | t :: rest => itemsLast? rest <|> t.lastToken?

end

mutual

theorem firstToken?_eq_head? (t : Tree) : t.firstToken? = t.tokens.head? := by
  match t with
  | .token _ => simp [firstToken?, tokens]
  | .node kind slots items _ =>
    simp only [firstToken?, tokens]
    split
    · exact slotsFirst?_eq_head? slots
    · exact itemsFirst?_eq_head? items
  | .foreign _ => simp [firstToken?, tokens]

theorem slotsFirst?_eq_head? (slots : List (String × Tree)) :
    slotsFirst? slots = (slotTokens slots).head? := by
  match slots with
  | [] => rfl
  | (_, t) :: rest =>
    simp [slotsFirst?, slotTokens, firstToken?_eq_head? t, slotsFirst?_eq_head? rest,
      List.head?_append]

theorem itemsFirst?_eq_head? (items : List Tree) :
    itemsFirst? items = (itemTokens items).head? := by
  match items with
  | [] => rfl
  | t :: rest =>
    simp [itemsFirst?, itemTokens, firstToken?_eq_head? t, itemsFirst?_eq_head? rest,
      List.head?_append]

end

mutual

theorem lastToken?_eq_getLast? (t : Tree) : t.lastToken? = t.tokens.getLast? := by
  match t with
  | .token _ => simp [lastToken?, tokens]
  | .node kind slots items _ =>
    simp only [lastToken?, tokens]
    split
    · exact slotsLast?_eq_getLast? slots
    · exact itemsLast?_eq_getLast? items
  | .foreign _ => simp [lastToken?, tokens]

theorem slotsLast?_eq_getLast? (slots : List (String × Tree)) :
    slotsLast? slots = (slotTokens slots).getLast? := by
  match slots with
  | [] => rfl
  | (_, t) :: rest =>
    simp [slotsLast?, slotTokens, lastToken?_eq_getLast? t, slotsLast?_eq_getLast? rest,
      List.getLast?_append]

theorem itemsLast?_eq_getLast? (items : List Tree) :
    itemsLast? items = (itemTokens items).getLast? := by
  match items with
  | [] => rfl
  | t :: rest =>
    simp [itemsLast?, itemTokens, lastToken?_eq_getLast? t, itemsLast?_eq_getLast? rest,
      List.getLast?_append]

end

/-! ## Setting the spans -/

/-- Where the first token starts. -/
def firstStart? (t : Tree) : Option Int := t.firstToken?.map (·.position)

/-- Where the last token ends. -/
def lastEnd? (t : Tree) : Option Int := t.lastToken?.map (·.endPosition)

/-- The span that a tree has. -/
def span (t : Tree) : Span := ⟨t.start, t.stop⟩

/-- The span of a tree, when the next token after it starts at `next`. With
neither a token inside nor one behind, it stays as it is. -/
def spanBefore (next : Option Int) (t : Tree) : Span :=
  match t.firstStart?, t.lastEnd?, next with
  | some first, some last, _ => ⟨first, last⟩
  | _, _, some next => ⟨next, next⟩
  | _, _, none => t.span

mutual

/-- Sets the spans of a tree, when the next token after it starts at `next`. -/
def place (next : Option Int) : Tree → Tree
  | .node kind slots items state =>
    let placed := { state with span := spanBefore next (.node kind slots items state) }
    if kind.isLayout then .node kind (placeSlots next slots) items placed
    else .node kind slots (placeItems next items) placed
  | t => t

def placeSlots (next : Option Int) : List (String × Tree) → List (String × Tree)
  | [] => []
  | (name, t) :: rest =>
    let following := ((slotsFirst? rest).map (·.position)).or next
    (name, t.place following) :: placeSlots next rest

def placeItems (next : Option Int) : List Tree → List Tree
  | [] => []
  | t :: rest =>
    let following := ((itemsFirst? rest).map (·.position)).or next
    t.place following :: placeItems next rest

end

/-- Sets every span. After the last token comes the end of the root, as it was
before when there is no token at all. -/
def assignSpans (t : Tree) : Tree := t.place (some (t.lastEnd?.getD t.stop))

/-! ## Kinds without an entry -/

mutual

/-- Sets the spans in front of the first kind that has no entry. The nodes
around that kind keep theirs. -/
def placeReached : Tree → Tree
  | .node kind slots items state =>
    if kind.catalogued.isNone then .node kind slots items state
    else if kind.isLayout then .node kind (placeReachedSlots slots) items state
    else .node kind slots (placeReachedItems items) state
  | t => t

def placeReachedSlots : List (String × Tree) → List (String × Tree)
  | [] => []
  | (name, t) :: rest =>
    if t.isKnown then
      (name, t.place ((slotReachedTokens rest).head?.map (·.position))) :: placeReachedSlots rest
    else (name, t.placeReached) :: rest

def placeReachedItems : List Tree → List Tree
  | [] => []
  | t :: rest =>
    if t.isKnown then
      t.place ((itemReachedTokens rest).head?.map (·.position)) :: placeReachedItems rest
    else t.placeReached :: rest

end

/-- Sets the spans as far as the kinds have entries. -/
def assignReached (t : Tree) : Tree := if t.isKnown then t.assignSpans else t.placeReached

/-! ## Listing -/

mutual

/-- The trees in pre-order, each with its depth. -/
def listing (depth : Nat) : Tree → List (Nat × Tree)
  | .node kind slots items state =>
    (depth, .node kind slots items state) ::
      if kind.isLayout then slotListing (depth + 1) slots else itemListing (depth + 1) items
  | t => [(depth, t)]

def slotListing (depth : Nat) : List (String × Tree) → List (Nat × Tree)
  | [] => []
  | (_, t) :: rest => t.listing depth ++ slotListing depth rest

def itemListing (depth : Nat) : List Tree → List (Nat × Tree)
  | [] => []
  | t :: rest => t.listing depth ++ itemListing depth rest

end

end SyntaxAtlas.Tree
