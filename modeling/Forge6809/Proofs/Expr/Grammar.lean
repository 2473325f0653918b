import Forge6809.Expr.Eval
import Mathlib.Tactic

/-! # The language of operand expressions

An expression is a sum of terms, a term is a product of factors, and a factor is a literal, a name
or an expression in parentheses. Sums and products associate to the left. A parse tree has a value
in the unbounded integers; words come in only when that value is reduced modulo 65536. Nothing
here mentions stacks. -/

namespace Forge6809.Expr

open Text

inductive Nonterminal where
  | expression
  | term
  | factor
deriving DecidableEq, Repr

/-- Parse trees. Parentheses shape the tree and leave no node of their own. -/
inductive Tree where
  | literal (n : Nat)
  | name (text : Bytes)
  | binary (o : Operator) (left right : Tree)
deriving DecidableEq, Repr

/-- The operation that an operator stands for, without wrap-around. -/
def Operator.integer : Operator → Int → Int → Int
  | add, x, y => x + y
  | sub, x, y => x - y
  | mul, x, y => x * y

namespace Resolver

/-- The value that is given for a name, be it known or not. -/
def answer (names : Resolver) (text : Bytes) : UInt16 :=
  (names text).1

end Resolver

namespace Tree

/-- The value of a tree whose names have the values `words`. -/
def value (words : Bytes → UInt16) : Tree → Int
  | literal n => n
  | name text => (words text).toNat
  | binary o l r => o.integer (l.value words) (r.value words)

def literals : Tree → List Nat
  | literal n => [n]
  | name _ => []
  | binary _ l r => l.literals ++ r.literals

def names : Tree → List Bytes
  | literal _ => []
  | name text => [text]
  | binary _ l r => l.names ++ r.names

def word (words : Bytes → UInt16) (x : Tree) : UInt16 :=
  UInt16.ofInt (x.value words)

/-- Every literal fits in 64 bits and, where that is asked for, every name resolves. -/
def Defined (names : Resolver) (strict : Bool) (x : Tree) : Prop :=
  (∀ n ∈ x.literals, n < literalLimit) ∧ (strict = true → ∀ a ∈ x.names, (names a).2 = true)

theorem defined_binary {names : Resolver} {strict : Bool} {o : Operator} {l r : Tree} :
    (binary o l r).Defined names strict ↔ l.Defined names strict ∧ r.Defined names strict := by
  simp only [Defined, literals, Tree.names, List.mem_append, or_imp, forall_and]
  tauto

/-- A tree that is defined with every name resolved is defined without that demand. -/
theorem Defined.lenient {names names' : Resolver} {strict : Bool} {x : Tree}
    (h : x.Defined names strict) : x.Defined names' false :=
  ⟨h.1, fun hf => by cases hf⟩

@[simp] theorem word_literal (words : Bytes → UInt16) (n : Nat) :
    (literal n).word words = UInt16.ofNat n := by
  have h : ((n : Int) % 2 ^ 16).toNat = n % 2 ^ 16 := by omega
  rw [word, value, UInt16.ofInt, h]
  exact UInt16.ofNat_mod_size

@[simp] theorem word_name (words : Bytes → UInt16) (text : Bytes) :
    (name text).word words = words text := by
  have h := word_literal words (words text).toNat
  rw [UInt16.ofNat_toNat] at h
  exact h

theorem word_binary (words : Bytes → UInt16) (o : Operator) (l r : Tree) :
    (binary o l r).word words = o.apply (l.word words) (r.word words) := by
  cases o with
  | add => simp [word, value, Operator.integer, Operator.apply]
  | sub => simp [word, value, Operator.integer, Operator.apply, Int.sub_eq_add_neg,
      UInt16.sub_eq_add_neg]
  | mul => simp [word, value, Operator.integer, Operator.apply]

/-- The value of a tree depends on the names in it only. -/
theorem value_congr {words words' : Bytes → UInt16} {x : Tree}
    (h : ∀ a ∈ x.names, words a = words' a) : x.value words = x.value words' := by
  induction x with
  | literal n => rfl
  | name text => simp [value, h text (by simp [Tree.names])]
  | binary o l r ihl ihr =>
    simp only [Tree.names, List.mem_append] at h
    rw [value, value, ihl fun a ha => h a (Or.inl ha), ihr fun a ha => h a (Or.inr ha)]

theorem Defined.congr {names names' : Resolver} {strict : Bool} {x : Tree}
    (h : x.Defined names strict) (hn : ∀ a ∈ x.names, names a = names' a) :
    x.Defined names' strict :=
  ⟨h.1, fun hs a ha => hn a ha ▸ h.2 hs a ha⟩

end Tree

/-- A numeral has the value of its digits, the last of which counts once. -/
theorem numeralValue_eq_ofDigits (base : Nat) (s : Bytes) :
    numeralValue base s =
      Nat.ofDigits base ((s.map fun b => (digitValue? b).getD 0).reverse) := by
  rw [Nat.ofDigits_eq_foldr, List.foldr_reverse, List.foldl_map, numeralValue]
  simp only [Nat.cast_id, Nat.mul_comm base, Nat.add_comm]

def leaf? (t : Token) : Option Tree :=
  match t.kind with
  | .hex => some (.literal (numeralValue 16 t.text.tail))
  | .binary => some (.literal (numeralValue 2 t.text.tail))
  | .integer => some (.literal (numeralValue 10 t.text))
  | .identifier => some (.name t.text)
  | _ => none

/-- Which token lists a nonterminal derives, and with which tree. -/
inductive Derives : Nonterminal → List Token → Tree → Prop
  | leaf {t : Token} {x : Tree} : leaf? t = some x → Derives .factor [t] x
  | group {l r : Token} {ts : List Token} {x : Tree} :
      l.kind = .leftParen → Derives .expression ts x → r.kind = .rightParen →
        Derives .factor (l :: (ts ++ [r])) x
  | factor {ts : List Token} {x : Tree} : Derives .factor ts x → Derives .term ts x
  | product {t : Token} {ts us : List Token} {x y : Tree} :
      Derives .term ts x → t.kind = .asterisk → Derives .factor us y →
        Derives .term (ts ++ t :: us) (.binary .mul x y)
  | term {ts : List Token} {x : Tree} : Derives .term ts x → Derives .expression ts x
  | sum {t : Token} {ts us : List Token} {x y : Tree} :
      Derives .expression ts x → t.kind = .plus → Derives .term us y →
        Derives .expression (ts ++ t :: us) (.binary .add x y)
  | difference {t : Token} {ts us : List Token} {x y : Tree} :
      Derives .expression ts x → t.kind = .minus → Derives .term us y →
        Derives .expression (ts ++ t :: us) (.binary .sub x y)

def isSpacing (t : Token) : Bool :=
  t.kind == .whitespace || t.kind == .newline

def significant (ts : List Token) : List Token :=
  ts.filter fun t => !isSpacing t

def mentions (text : Bytes) : List Bytes :=
  ((lexicon.tokens text).filter fun t => t.kind == .identifier).map fun t => upper t.text

theorem leaf?_names {t : Token} {x : Tree} (h : leaf? t = some x) :
    ∀ a ∈ x.names, t.kind = .identifier ∧ a = t.text := by
  unfold leaf? at h
  split at h <;> cases h <;> simp_all [Tree.names]

/-- The names of a tree are the texts of the identifiers it was derived from. -/
theorem Derives.exists_identifier {g : Nonterminal} {ts : List Token} {x : Tree}
    (h : Derives g ts x) : ∀ a ∈ x.names, ∃ t ∈ ts, t.kind = .identifier ∧ a = t.text := by
  induction h with
  | leaf ht => exact fun a ha => ⟨_, List.mem_singleton_self _, leaf?_names ht a ha⟩
  | group _ _ _ ih =>
    intro a ha
    obtain ⟨t, ht, h⟩ := ih a ha
    exact ⟨t, by simp [ht], h⟩
  | factor _ ih => exact ih
  | term _ ih => exact ih
  | product _ _ _ ihl ihr | sum _ _ _ ihl ihr | difference _ _ _ ihl ihr =>
    intro a ha
    rcases List.mem_append.1 ha with ha | ha
    · obtain ⟨t, ht, h⟩ := ihl a ha
      exact ⟨t, by simp [ht], h⟩
    · obtain ⟨t, ht, h⟩ := ihr a ha
      exact ⟨t, by simp [ht], h⟩

theorem Derives.upper_mem_mentions {g : Nonterminal} {text : Bytes} {x : Tree}
    (h : Derives g (significant (lexicon.tokens text)) x) {a : Bytes} (ha : a ∈ x.names) :
    upper a ∈ mentions text := by
  obtain ⟨t, ht, hk, rfl⟩ := h.exists_identifier a ha
  have hm : t ∈ lexicon.tokens text := (List.mem_filter.1 ht).1
  exact List.mem_map.2 ⟨t, List.mem_filter.2 ⟨hm, by simp [hk]⟩, rfl⟩

end Forge6809.Expr
