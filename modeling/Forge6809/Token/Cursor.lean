import Forge6809.Token.Lexicon

/-! # Cursors

A cursor hands out the tokens of a text one at a time. It reads a token only when it is asked for
one, and keeps the tokens that were looked at but not consumed. A lookahead remembers how many
tokens stand before it, which is how the token after it is found. -/

namespace Forge6809

/-- A token that was looked at, and the number of tokens before it. -/
structure Lookahead where
  token : Token
  seq : Nat
deriving DecidableEq, Repr

structure Cursor where
  lexicon : Lexicon
  /-- The text that has not been read. -/
  rest : Bytes
  /-- Tokens read but not consumed, the next one first. -/
  ahead : List Token := []
  /-- The number of tokens consumed. -/
  seq : Nat := 0

namespace Cursor

def read? (c : Cursor) : Option Cursor :=
  (c.lexicon.next? c.rest).map fun (t, rest) => { c with rest, ahead := c.ahead ++ [t] }

theorem length_ahead_of_read? {c c' : Cursor} (h : c.read? = some c') :
    c'.ahead.length = c.ahead.length + 1 := by
  unfold read? at h
  cases hn : c.lexicon.next? c.rest <;> simp_all
  cases h
  simp

/-- Reads tokens until `n` are held, or the text ends. -/
def fill (c : Cursor) (n : Nat) : Cursor :=
  if n ≤ c.ahead.length then c
  else
    match _h : c.read? with
    | none => c
    | some c' => fill c' n
termination_by n - c.ahead.length
decreasing_by
  have := length_ahead_of_read? _h
  omega

def next (c : Cursor) : Option Token × Cursor :=
  let c := c.fill 1
  match c.ahead with
  | [] => (none, c)
  | t :: r => (some t, { c with ahead := r, seq := c.seq + 1 })

def peek (c : Cursor) : Option Lookahead × Cursor :=
  let c := c.fill 1
  (c.ahead.head?.map fun t => ⟨t, c.seq⟩, c)

/-- Looks at the token after one looked at before. There is none if that one was consumed. -/
def peekAfter (c : Cursor) (look : Lookahead) : Option Lookahead × Cursor :=
  if look.seq < c.seq then (none, c)
  else
    let n := look.seq + 1 - c.seq
    let c := c.fill (n + 1)
    (c.ahead[n]?.map fun t => ⟨t, look.seq + 1⟩, c)

/-- An upper bound on the number of tokens that are left: the bytes not read and the tokens held. -/
def size (c : Cursor) : Nat :=
  c.rest.length + c.ahead.length

theorem size_read?_le {c c' : Cursor} (h : c.read? = some c') : c'.size ≤ c.size := by
  unfold read? at h
  cases hn : c.lexicon.next? c.rest with
  | none => simp [hn] at h
  | some p =>
    have : p.2.length < c.rest.length := Lexicon.length_lt_of_next? (t := p.1) hn
    simp only [hn, Option.map_some, Option.some.injEq] at h
    subst h
    simp only [size, List.length_append, List.length_singleton]
    omega

theorem size_fill_le (c : Cursor) (n : Nat) : (c.fill n).size ≤ c.size := by
  fun_induction fill c n with
  | case1 => exact Nat.le_refl _
  | case2 => exact Nat.le_refl _
  | case3 c _ c' h ih => exact Nat.le_trans ih (size_read?_le h)

theorem size_next_lt {c c' : Cursor} {t : Token} (h : c.next = (some t, c')) :
    c'.size < c.size := by
  have hf := size_fill_le c 1
  simp only [next] at h
  split at h
  · simp at h
  · next ha =>
    simp only [Prod.mk.injEq] at h
    rw [← h.2]
    simp only [size, ha, List.length_cons] at hf ⊢
    omega

/-- Consumes the tokens of the given kinds up to the first of another kind. -/
def skip (c : Cursor) (kinds : List Kind) : Cursor :=
  match c.peek with
  | (none, c') => c'
  | (some look, c') =>
    if look.token.kind ∈ kinds then
      match _h : c.next with
      | (none, c'') => c''
      | (some _, c'') => skip c'' kinds
    else c'
termination_by c.size
decreasing_by exact size_next_lt _h

end Cursor
end Forge6809
