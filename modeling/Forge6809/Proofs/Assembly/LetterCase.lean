import Forge6809.Proofs.Assembly.Agreement
import Forge6809.Proofs.Assembly.Form
import Forge6809.Proofs.Token.LetterCase

/-! # The case of letters in a source

Every function that reads the tokens of a line gives the same result for the tokens in upper case,
and an error in which at most the text that it quotes is in upper case. So a source and the source
in upper case are assembled alike: both are refused at the same line and for the same kind of
cause, or both give the same code, addresses, labels and equates. -/

namespace Forge6809

open Text

theorem mapError_bind {ε ε' α β : Type} (x : Except ε α) (f : α → Except ε β) (g : ε → ε') :
    (x >>= f).mapError g = x.mapError g >>= fun a => (f a).mapError g := by
  cases x <;> rfl

namespace Expr

/-- The error about a text in upper case. A name is reported in upper case anyway. -/
def Error.upper : Error → Error
  | malformed text => malformed (text.map upperByte)
  | undefined name => undefined name

variable (equates : Table UInt16) (strict : Bool)

theorem resolver_map_upperByte (name : Bytes) :
    resolver equates (name.map upperByte) = resolver equates name := by
  rw [resolver, resolver, upper_map_upperByte]

theorem operand?_upper (t : Token) :
    operand? equates strict t.upper = operand? equates strict t := by
  simp only [operand?, literal, nameValue, resolver_map_upperByte, Token.kind_upper,
    Token.text_upper, ← List.map_tail, numeralValue_map_upperByte, upper_map_upperByte]

theorem step_upper (s : State) (t : Token) :
    step equates strict s t.upper = step equates strict s t := by
  simp only [step, operand?_upper, Token.kind_upper]

theorem evaluateTokens_map_upper (ts : List Token) :
    evaluateTokens equates strict (ts.map Token.upper) = evaluateTokens equates strict ts := by
  simp only [evaluateTokens, List.foldlM_map, step_upper]

/-- An expression in upper case has the value of the expression. -/
theorem evaluate_map_upperByte (text : Bytes) :
    evaluate (text.map upperByte) equates strict =
      (evaluate text equates strict).mapError Error.upper := by
  rw [evaluate, evaluate, Lexicon.tokens_map_upperByte caseBlind_lexicon,
    evaluateTokens_map_upper]
  cases evaluateTokens equates strict (lexicon.tokens text) with
  | ok v => rfl
  | error f => cases f <;> rfl

end Expr

namespace Assembly

def Cause.upper : Cause → Cause
  | expression e => expression e.upper
  | labelInvalid text => labelInvalid (text.map upperByte)
  | tokenUnexpected text => tokenUnexpected (text.map upperByte)
  | c => c

theorem skipBlanks_map_upper (ts : List Token) :
    skipBlanks (ts.map Token.upper) = (skipBlanks ts).map Token.upper := by
  rw [skipBlanks, skipBlanks, List.dropWhile_map]
  rfl

theorem withText_map_upper (text : Bytes) (o : Bytes × Option (List Token)) :
    withText (text.map upperByte) (o.map (List.map upperByte) (Option.map (List.map Token.upper))) =
      (withText text o).map (List.map upperByte) (Option.map (List.map Token.upper)) := by
  simp [withText]

/-- The text collected from tokens in upper case. -/
theorem operandText_map_upper (stop : List Kind) (started : Bool) (ts : List Token) :
    operandText stop started (ts.map Token.upper) = (operandText stop started ts).map
      (List.map upperByte) (Option.map (List.map Token.upper)) := by
  have hany (rest : List Token) :
      (rest.map Token.upper).head?.any (fun next => next.kind = .comment) =
        rest.head?.any fun next => next.kind = .comment := by
    cases rest <;> rfl
  induction started, ts using operandText_induction stop with
  | nil started =>
    rw [List.map_nil, operandText_nil]
    rfl
  | stopped started t rest h =>
    have h' : t.upper.kind ∈ stop := h
    rw [List.map_cons, operandText_stopped h, operandText_stopped h']
    rfl
  | lineBreak started t rest h hk =>
    have h' : t.upper.kind ∉ stop := h
    rw [List.map_cons, operandText_lineBreak h hk, operandText_lineBreak h' hk]
    rfl
  | remark started t rest h hk hnext =>
    have h' : t.upper.kind ∉ stop := h
    rw [List.map_cons, operandText_remark h hk hnext,
      operandText_remark h' hk ((hany rest).trans hnext)]
    rfl
  | blanks started t rest h hk hnext ih =>
    have h' : t.upper.kind ∉ stop := h
    rw [List.map_cons, operandText_blanks h hk hnext,
      operandText_blanks h' hk ((hany rest).trans hnext), ih]
  | product t rest h hk ih =>
    have h' : t.upper.kind ∉ stop := h
    rw [List.map_cons, operandText_product h hk, operandText_product h' hk, Token.text_upper,
      ← List.map_tail, Lexicon.tokens_map_upperByte caseBlind_lexicon, ih]
    exact withText_map_upper [0x2A] _
  | unstarted t rest h hk =>
    have h' : t.upper.kind ∉ stop := h
    rw [List.map_cons, operandText_unstarted h hk, operandText_unstarted h' hk]
    rfl
  | text started t rest h hnewline hblank hcomment ih =>
    have h' : t.upper.kind ∉ stop := h
    rw [List.map_cons, operandText_text h hnewline hblank hcomment,
      operandText_text h' hnewline hblank hcomment, ih, Token.text_upper, withText_map_upper]

theorem splitLabel_map_upper (ts : List Token) :
    splitLabel (ts.map Token.upper) = ((splitLabel ts).1, (splitLabel ts).2.map Token.upper) := by
  rw [splitLabel, splitLabel, skipBlanks_map_upper]
  cases skipBlanks ts with
  | nil => rfl
  | cons t r => by_cases ht : t.kind = .identifier <;> simp [ht]

namespace Session

theorem evaluate_map_upperByte (s : Session) (text : Bytes) :
    s.evaluate (text.map upperByte) = (s.evaluate text).mapError Cause.upper := by
  rw [evaluate, evaluate, Expr.evaluate_map_upperByte]
  cases Expr.evaluate text s.equates (decide (s.pass = .code)) <;> rfl

theorem labelled_mapError (s : Session) (lineNo : Nat) (label : Option Bytes) :
    (s.labelled lineNo label).mapError Cause.upper = s.labelled lineNo label := by
  cases label with
  | none => rfl
  | some name =>
    simp only [labelled, define]
    split
    · split <;> rfl
    · rfl
    · split
      · split <;> rfl
      · rfl

theorem originDirective_map_upper (s : Session) (ts : List Token) :
    s.originDirective (ts.map Token.upper) = (s.originDirective ts).mapError Cause.upper := by
  simp only [originDirective, operandText_map_upper, Prod.map_fst, evaluate_map_upperByte,
    mapError_bind]
  rfl

theorem equateDirective_map_upper (s : Session) (label : Option Bytes) (ts : List Token) :
    s.equateDirective label (ts.map Token.upper) =
      (s.equateDirective label ts).mapError Cause.upper := by
  cases label with
  | none => rfl
  | some name =>
    simp only [equateDirective, operandText_map_upper, Prod.map_fst, evaluate_map_upperByte,
      mapError_bind]
    congr 1
    funext v
    split <;> rfl

theorem endDirective_map_upper (s : Session) (ts : List Token) :
    s.endDirective (ts.map Token.upper) = (s.endDirective ts).mapError Cause.upper := by
  simp only [endDirective, skipBlanks_map_upper]
  cases skipBlanks ts with
  | nil => rfl
  | cons t r =>
    simp only [List.map_cons, Token.kind_upper, Token.word_upper]
    split
    · rfl
    · split
      · rfl
      · split <;> rfl

theorem directive_map_upper (s : Session) (label : Option Bytes) (word : Bytes)
    (ts : List Token) : s.directive label word (ts.map Token.upper) =
      (s.directive label word ts).mapError Cause.upper := by
  simp only [directive, originDirective_map_upper, equateDirective_map_upper,
    endDirective_map_upper]
  split
  · rfl
  · split
    · rfl
    · split <;> rfl

theorem autoDecrement_map_upper (ts : List Token) : autoDecrement (ts.map Token.upper) =
    ((autoDecrement ts).1, (autoDecrement ts).2.map Token.upper) := by
  cases ts with
  | nil => rfl
  | cons t r =>
    by_cases hone : t.kind = .decrement1
    · simp [autoDecrement, hone]
    · by_cases htwo : t.kind = .decrement2 <;> simp [autoDecrement, hone, htwo]

theorem autoIncrement_map_upper (ts : List Token) :
    autoIncrement (ts.map Token.upper) = autoIncrement ts := by
  cases ts <;> rfl

theorem indexTarget_map_upper (ts : List Token) :
    indexTarget (ts.map Token.upper) = (indexTarget ts).mapError Cause.upper := by
  simp only [indexTarget, skipBlanks_map_upper, autoDecrement_map_upper]
  cases (autoDecrement (skipBlanks ts)).2 with
  | nil => rfl
  | cons t r =>
    simp only [List.map_cons, Token.kind_upper, Token.word_upper, autoIncrement_map_upper]
    split <;> rfl

theorem offsetSign_map_upper (ts : List Token) : offsetSign (ts.map Token.upper) =
    ((offsetSign ts).1, (offsetSign ts).2.map Token.upper) := by
  cases ts with
  | nil => rfl
  | cons t r => by_cases ht : t.kind = .decrement1 <;> simp [offsetSign, ht]

theorem indexed_map_upper (s : Session) (ts : List Token) :
    s.indexed (ts.map Token.upper) = (s.indexed ts).mapError Cause.upper := by
  simp only [indexed, offsetSign_map_upper, operandText_map_upper]
  rcases operandText [.comma] false (offsetSign ts).2 with ⟨text, _ | rest⟩
  · rfl
  · simp only [Prod.map_apply, Option.map_some, trim_map_upperByte, List.map_eq_nil_iff,
      evaluate_map_upperByte, indexTarget_map_upper]
    have htarget (v : UInt16) : (do
        let target ← (indexTarget rest).mapError Cause.upper
        if target.2 != .none && v != 0 then throw .operandInvalid
        return postbyte target.1 v (offsetSign ts).1 target.2 : Except Cause Bytes) = (do
        let target ← indexTarget rest
        if target.2 != .none && v != 0 then throw .operandInvalid
        return postbyte target.1 v (offsetSign ts).1 target.2 : Except Cause Bytes).mapError
          Cause.upper := by
      rw [mapError_bind]
      congr 1
      funext target
      dsimp only
      split <;> rfl
    split
    · exact htarget 0
    · rw [mapError_bind]
      congr 1
      funext v
      exact htarget v

theorem immediate_map_upper (s : Session) (mnemonic : Bytes) (ins : Instruction)
    (ts : List Token) : s.immediate mnemonic ins (ts.map Token.upper) =
      (s.immediate mnemonic ins ts).mapError Cause.upper := by
  simp only [immediate, operandText_map_upper, Prod.map_fst, evaluate_map_upperByte,
    mapError_bind]
  congr 1
  funext v
  split
  · split <;> rfl
  · rfl
  · rfl

theorem instruction_map_upper (s : Session) (mnemonic : Bytes) (ts : List Token) :
    s.instruction mnemonic (ts.map Token.upper) =
      (s.instruction mnemonic ts).mapError Cause.upper := by
  rw [instruction, instruction, skipBlanks_map_upper]
  split
  · rfl
  · split
    · rfl
    · cases skipBlanks ts with
      | nil => rfl
      | cons t r =>
        simp only [List.map_cons, Token.kind_upper, immediate_map_upper]
        split
        · rfl
        · split
          · rfl
          · rw [← List.map_cons, indexed_map_upper, mapError_bind]
            rfl

theorem body_map_upper (s : Session) (label : Option Bytes) (ts : List Token) :
    s.body label (ts.map Token.upper) = (s.body label ts).mapError Cause.upper := by
  rw [body, body, skipBlanks_map_upper]
  cases skipBlanks ts with
  | nil => rfl
  | cons t r =>
    simp only [List.map_cons, Token.kind_upper, Token.word_upper, directive_map_upper,
      instruction_map_upper]
    split
    · rfl
    · rfl
    · rw [mapError_bind]
      rfl
    · rw [mapError_bind]
      rfl
    · rfl

/-- A line in upper case does what the line does. -/
theorem statement_map_upperByte (s : Session) (lineNo : Nat) (text : Bytes) :
    s.statement lineNo (text.map upperByte) =
      (s.statement lineNo text).mapError Cause.upper := by
  rw [statement_eq, statement_eq, mapError_bind, labelled_mapError, label?, label?,
    Lexicon.tokens_map_upperByte caseBlind_lexicon, splitLabel_map_upper]
  simp only [body_map_upper]

end Session

/-- The kind of a cause: what is wrong, without the names, texts and numbers that are quoted. -/
def Cause.kind : Cause → Cause
  | expression (.malformed _) => expression (.malformed [])
  | expression (.undefined _) => expression (.undefined [])
  | labelDuplicate _ _ => labelDuplicate [] 0
  | labelUndefined _ => labelUndefined []
  | labelRequired => labelRequired
  | labelInvalid _ => labelInvalid []
  | phase _ => phase []
  | overflow => overflow
  | registerInvalid _ => registerInvalid []
  | operandInvalid => operandInvalid
  | endOfLine => endOfLine
  | instruction _ => instruction []
  | tokenUnexpected _ => tokenUnexpected []

theorem Cause.kind_upper (c : Cause) : c.upper.kind = c.kind := by
  cases c with
  | expression e => cases e <;> rfl
  | labelDuplicate | labelUndefined | labelRequired | labelInvalid | phase | overflow
  | registerInvalid | operandInvalid | endOfLine | instruction | tokenUnexpected => rfl

theorem alike_map_upperByte (text : Bytes) :
    Alike (fun c c' => c'.kind = c.kind) text (text.map upperByte) := by
  intro s lineNo
  rw [Session.statement_map_upperByte]
  cases s.statement lineNo text with
  | error c => exact .error c.kind_upper
  | ok x => exact .ok rfl

/-- The case of the letters of a source does not matter: the source and the source in upper case are
refused at the same line for the same kind of cause, or give the same code, origin, execution
address, labels and equates, whatever was known before. -/
theorem Assembler.assemble_map_upperByte (a : Assembler) (source : Bytes) :
    Agree (SyntaxError.Like fun c c' => c'.kind = c.kind) Program.Same
      (a.assemble source) (a.assemble (source.map upperByte)) := by
  apply assemble_agree
  rw [lines_map_upperByte, List.forall₂_map_right_iff, List.forall₂_same]
  intro text _
  exact alike_map_upperByte text

end Assembly
end Forge6809
