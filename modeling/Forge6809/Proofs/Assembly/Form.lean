import Forge6809.Assembly.Statement
import Forge6809.Proofs.Outcome
import Mathlib.Tactic

/-! # The form of a source line

What a line says can be read off before any name in it has a value: its label, and a directive or
an instruction with the text of its operand. The bytes of an instruction are then a function of
that form and a table of equates, and a session assembles an instruction exactly if that function
is defined. If it is not, the cause is never a phase error. -/

namespace Forge6809.Assembly

open Text

/-- What a line asks for. Operands are kept as texts. -/
inductive Action where
  | nothing
  | origin (text : Bytes)
  | equate (text : Bytes)
  /-- The name of the label at which execution starts. -/
  | entry (name : Bytes)
  | inherent (opcode : Bytes)
  | immediate8 (opcode text : Bytes)
  | immediate16 (opcode text : Bytes)
  | indexed (opcode : Bytes) (negate : Bool) (text : Bytes) (reg : IndexRegister)
      (auto : AutoMode)
deriving DecidableEq, Repr

structure Form where
  label : Option Bytes
  action : Action
deriving DecidableEq, Repr

def indexedAction? (opcode : Bytes) (ts : List Token) : Option Action :=
  let sign := Session.offsetSign ts
  match operandText [.comma] false sign.2 with
  | (_, none) => none
  | (text, some rest) =>
    match Session.indexTarget rest with
    | .error _ => none
    | .ok (reg, auto) => some (.indexed opcode sign.1 text reg auto)

def immediateAction? (ins : Instruction) (ts : List Token) : Option Action :=
  match ins.immediate8, ins.immediate16 with
  | some opcode, _ => some (.immediate8 opcode (operandText [] false ts).1)
  | none, some opcode => some (.immediate16 opcode (operandText [] false ts).1)
  | none, none => none

def instructionAction? (mnemonic : Bytes) (ts : List Token) : Option Action :=
  match instruction? mnemonic with
  | none => none
  | some ins =>
    match ins.inherent with
    | some opcode => some (.inherent opcode)
    | none =>
      match skipBlanks ts with
      | [] => none
      | t :: r =>
        if t.kind = .pound then immediateAction? ins r
        else
          match ins.indexed with
          | none => none
          | some opcode => indexedAction? opcode (t :: r)

def entryAction? (ts : List Token) : Option Action :=
  match skipBlanks ts with
  | [] => none
  | t :: _ => if t.kind = .identifier then some (.entry t.word) else none

/-- A directive with its operand. An equate needs a label. -/
def directiveAction? (label : Option Bytes) (word : Bytes) (ts : List Token) : Option Action :=
  if word = ofString "ORG" then some (.origin (operandText [] false ts).1)
  else if word = ofString "EQU" then label.map fun _ => .equate (operandText [] false ts).1
  else if word = ofString "END" then entryAction? ts
  else some .nothing

def action? (label : Option Bytes) (ts : List Token) : Option Action :=
  match skipBlanks ts with
  | [] => some .nothing
  | t :: r =>
    match t.kind with
    | .comment | .newline => some .nothing
    | .directive => directiveAction? label t.word r
    | .mnemonic => instructionAction? t.word r
    | _ => none

/-- The label at the start of a line, in upper case, and the tokens after it. -/
def splitLabel (ts : List Token) : Option Bytes × List Token :=
  match skipBlanks ts with
  | [] => (none, [])
  | t :: r => if t.kind = .identifier then (some t.word, r) else (none, t :: r)

def label? (text : Bytes) : Option Bytes :=
  (splitLabel (lexicon.tokens text)).1

/-- The form of a line; none if its tokens do not make up a statement. -/
def Form.read? (text : Bytes) : Option Form :=
  (action? (label? text) (splitLabel (lexicon.tokens text)).2).map (Form.mk (label? text))

def Form.equation? (form : Form) : Option (Bytes × Bytes) :=
  match form.action with
  | .equate e => form.label.map fun name => (name, e)
  | _ => none

def equation? (text : Bytes) : Option (Bytes × Bytes) :=
  (Form.read? text).bind Form.equation?

theorem Form.label_of_read? {text : Bytes} {form : Form} (h : Form.read? text = some form) :
    form.label = label? text := by
  obtain ⟨action, -, rfl⟩ := Option.map_eq_some_iff.1 h
  rfl

theorem equation?_of_read? {text : Bytes} {form : Form} (h : Form.read? text = some form) :
    equation? text = form.equation? := by
  rw [equation?, h, Option.bind_some]

theorem equation?_eq_some_iff {text name e : Bytes} :
    equation? text = some (name, e) ↔ Form.read? text = some ⟨some name, .equate e⟩ := by
  constructor
  · intro h
    obtain ⟨⟨l, action⟩, hr, hf⟩ := Option.bind_eq_some_iff.1 h
    cases action with
    | equate e' =>
      obtain ⟨name', hl, heq⟩ := Option.map_eq_some_iff.1 hf
      cases hl
      cases heq
      exact hr
    | nothing | origin | entry | inherent | immediate8 | immediate16 | indexed => cases hf
  · intro h
    rw [equation?_of_read? h]
    rfl

/-- The value of the offset of an indexed operand. Nothing but blanks stands for zero. -/
def offsetValue (equates : Table UInt16) (strict : Bool) (text : Bytes) :
    Except Expr.Error UInt16 :=
  if trim text = [] then .ok 0 else Expr.evaluate text equates strict

/-- The bytes that a line puts into the program under a table of equates; none if its operand has
no value there or does not fit. An automatic mode goes with offset zero only, and under strict
evaluation a byte operand has to fit in a byte. -/
def Action.code? (equates : Table UInt16) (strict : Bool) : Action → Option Bytes
  | nothing | entry _ => some []
  | origin text | equate text =>
    match Expr.evaluate text equates strict with
    | .error _ => none
    | .ok _ => some []
  | inherent opcode => some opcode
  | immediate8 opcode text =>
    match Expr.evaluate text equates strict with
    | .error _ => none
    | .ok v => if strict && 0xFF < v then none else some (opcode ++ [lowByte v])
  | immediate16 opcode text =>
    match Expr.evaluate text equates strict with
    | .error _ => none
    | .ok v => some (opcode ++ wordBytes v)
  | indexed opcode negate text reg auto =>
    match offsetValue equates strict text with
    | .error _ => none
    | .ok v =>
      if auto != .none && v != 0 then none else some (opcode ++ postbyte reg v negate auto)

def Action.isInstruction : Action → Bool
  | inherent _ | immediate8 _ _ | immediate16 _ _ | indexed _ _ _ _ _ => true
  | nothing | origin _ | equate _ | entry _ => false

namespace Session

def strict (s : Session) : Bool :=
  s.pass = .code

theorem evaluate_eq_ok_iff {s : Session} {text : Bytes} {v : UInt16} :
    s.evaluate text = .ok v ↔ Expr.evaluate text s.equates s.strict = .ok v := by
  rw [evaluate, strict]
  cases Expr.evaluate text s.equates (decide (s.pass = .code)) <;> simp [Except.mapError]

/-- The check that an automatic mode goes with offset zero, after the offset is known. -/
theorem indexed_of_offset {opcode code : Bytes} {negate : Bool} {text : Bytes}
    {equates : Table UInt16} {strict : Bool} {v : UInt16}
    (hv : offsetValue equates strict text = .ok v)
    (target : Except Cause (IndexRegister × AutoMode)) :
    (∃ post, (do
      let (reg, auto) ← target
      if auto != .none && v != 0 then throw .operandInvalid
      return postbyte reg v negate auto : Except Cause Bytes) = .ok post ∧ opcode ++ post = code) ↔
      ∃ reg auto, target = .ok (reg, auto) ∧
        (Action.indexed opcode negate text reg auto).code? equates strict = some code := by
  cases target with
  | error e => simp [bind, Except.bind]
  | ok target =>
    obtain ⟨reg, auto⟩ := target
    simp only [Action.code?, hv, Except.ok.injEq, Prod.mk.injEq, bind, Except.bind]
    by_cases h : auto != .none && v != 0
    · simp [h, throw, throwThe, MonadExceptOf.throw]
    · simp [h, pure, Except.pure]

/-- The bytes of an indexed operand follow the opcode exactly if the operand can be read and
encoded. -/
theorem indexed_eq_ok_iff {s : Session} {opcode code : Bytes} {ts : List Token} :
    (∃ post, s.indexed ts = .ok post ∧ opcode ++ post = code) ↔
      ∃ action, indexedAction? opcode ts = some action ∧
        action.code? s.equates s.strict = some code := by
  rw [indexed, indexedAction?]
  cases operandText [.comma] false (offsetSign ts).2 with
  | mk text rest =>
    cases rest with
    | none => simp
    | some rest =>
      have haction : (∃ action : Action, (match indexTarget rest with
          | .error _ => none
          | .ok (reg, auto) => some (Action.indexed opcode (offsetSign ts).1 text reg auto)) =
            some action ∧ action.code? s.equates s.strict = some code) ↔
          ∃ reg auto, indexTarget rest = .ok (reg, auto) ∧
            (Action.indexed opcode (offsetSign ts).1 text reg auto).code? s.equates s.strict =
              some code := by
        cases indexTarget rest with
        | error e => simp
        | ok target => simp [Prod.ext_iff]
      dsimp only
      rw [haction]
      by_cases htrim : trim text = []
      · have hv : offsetValue s.equates s.strict text = .ok 0 := by rw [offsetValue, if_pos htrim]
        rw [← indexed_of_offset hv]
        simp only [htrim, if_true]
        rfl
      · simp only [htrim, if_false]
        cases hv : Expr.evaluate text s.equates s.strict with
        | error e =>
          have he : s.evaluate text = .error (.expression e) := by
            rw [evaluate, show decide (s.pass = .code) = s.strict from rfl, hv]
            rfl
          have hc : ∀ reg auto, (Action.indexed opcode (offsetSign ts).1 text reg auto).code?
              s.equates s.strict = none := by
            simp [Action.code?, offsetValue, htrim, hv]
          simp [he, hc, bind, Except.bind]
        | ok v =>
          have hv' : offsetValue s.equates s.strict text = .ok v := by
            rw [offsetValue, if_neg htrim, hv]
          rw [← indexed_of_offset hv', evaluate_eq_ok_iff.2 hv]
          rfl

theorem immediate_eq_ok_iff {s : Session} {mnemonic code : Bytes} {ins : Instruction}
    {ts : List Token} :
    s.immediate mnemonic ins ts = .ok code ↔
      ∃ action, immediateAction? ins ts = some action ∧
        action.code? s.equates s.strict = some code := by
  rw [immediate, bind_eq_ok_iff, immediateAction?]
  simp only [evaluate_eq_ok_iff]
  cases ins.immediate8 with
  | some opcode =>
    simp only [Option.some.injEq, exists_eq_left', Action.code?]
    cases Expr.evaluate (operandText [] false ts).1 s.equates s.strict with
    | error e => simp
    | ok v =>
      by_cases h : 0xFF < v <;> by_cases hp : s.pass = .code <;>
        simp [h, hp, strict, throw, throwThe, MonadExceptOf.throw, bind, Except.bind, pure,
          Except.pure]
  | none =>
    cases ins.immediate16 with
    | some opcode =>
      simp only [Option.some.injEq, exists_eq_left', Action.code?]
      cases Expr.evaluate (operandText [] false ts).1 s.equates s.strict with
      | error e => simp
      | ok v => simp [pure, Except.pure]
    | none => simp [throw, throwThe, MonadExceptOf.throw]

/-- An instruction is assembled exactly if it can be read and encoded. -/
theorem instruction_eq_ok_iff {s : Session} {mnemonic code : Bytes} {ts : List Token} :
    s.instruction mnemonic ts = .ok code ↔
      ∃ action, instructionAction? mnemonic ts = some action ∧
        action.code? s.equates s.strict = some code := by
  rw [instruction, instructionAction?]
  cases hi : instruction? mnemonic with
  | none => simp
  | some ins =>
    dsimp only
    cases ins.inherent with
    | some opcode => simp [Action.code?]
    | none =>
      dsimp only
      cases skipBlanks ts with
      | nil => simp
      | cons t r =>
        by_cases ht : t.kind = .pound
        · simp only [ht, if_true]
          exact immediate_eq_ok_iff
        · simp only [ht, if_false]
          cases ins.indexed with
          | none => simp
          | some opcode =>
            dsimp only
            rw [← indexed_eq_ok_iff, bind_eq_ok_iff]
            simp [pure, Except.pure]

theorem evaluate_ne_phase {s : Session} {text name : Bytes} :
    s.evaluate text ≠ .error (.phase name) := by
  rw [evaluate]
  cases Expr.evaluate text s.equates (decide (s.pass = .code)) <;> simp [Except.mapError]

theorem indexTarget_ne_phase {ts : List Token} {name : Bytes} :
    indexTarget ts ≠ .error (.phase name) := by
  simp only [indexTarget]
  split
  · simp
  · split <;> simp

theorem indexed_ne_phase {s : Session} {ts : List Token} {name : Bytes} :
    s.indexed ts ≠ .error (.phase name) := by
  intro h
  simp only [indexed] at h
  split at h
  · cases h
  · have hrest {v : UInt16} {rest : List Token} (h : (do
        let (reg, auto) ← indexTarget rest
        if auto != .none && v != 0 then throw .operandInvalid
        return postbyte reg v (offsetSign ts).1 auto : Except Cause Bytes) =
          .error (.phase name)) : False := by
      rcases bind_eq_error_iff.1 h with h | ⟨⟨reg, auto⟩, -, h⟩
      · exact indexTarget_ne_phase h
      · dsimp only at h
        split at h <;> cases h
    split at h
    · exact hrest h
    · rcases bind_eq_error_iff.1 h with h | ⟨v, -, h⟩
      · exact evaluate_ne_phase h
      · exact hrest h

theorem instruction_ne_phase {s : Session} {mnemonic name : Bytes} {ts : List Token} :
    s.instruction mnemonic ts ≠ .error (.phase name) := by
  intro h
  simp only [instruction] at h
  split at h
  · cases h
  · split at h
    · cases h
    · split at h
      · cases h
      · split at h
        · rcases bind_eq_error_iff.1 h with h | ⟨v, -, h⟩
          · exact evaluate_ne_phase h
          · split at h
            · split at h <;> cases h
            · cases h
            · cases h
        · split at h
          · cases h
          · rcases bind_eq_error_iff.1 h with h | ⟨v, -, h⟩
            · exact indexed_ne_phase h
            · cases h

/-- Defines the label of a line, if it has one. -/
def labelled (s : Session) (lineNo : Nat) : Option Bytes → Except Cause Session
  | none => .ok s
  | some name => s.define lineNo name

theorem label_eq (s : Session) (lineNo : Nat) (ts : List Token) :
    s.label lineNo ts = s.labelled lineNo (splitLabel ts).1 >>= fun s' =>
      .ok ((splitLabel ts).1, s', (splitLabel ts).2) := by
  rw [label, splitLabel]
  cases skipBlanks ts with
  | nil => rfl
  | cons t r =>
    by_cases ht : t.kind = .identifier
    · simp only [ht, if_true]
      rfl
    · simp only [ht, if_false]
      rfl

def body (s : Session) (label : Option Bytes) (ts : List Token) :
    Except Cause (Session × Bytes) := do
  match skipBlanks ts with
  | [] => return (s, [])
  | t :: r =>
    match t.kind with
    | .comment | .newline => return (s, [])
    | .directive => return (← s.directive label t.word r, [])
    | .mnemonic =>
      let code ← s.instruction t.word r
      return ({ s with offset := s.offset + UInt16.ofNat code.length }, code)
    | _ => throw (.tokenUnexpected t.text)

theorem statement_eq (s : Session) (lineNo : Nat) (text : Bytes) :
    s.statement lineNo text = s.labelled lineNo (label? text) >>= fun s' =>
      s'.body (label? text) (splitLabel (lexicon.tokens text)).2 := by
  rw [statement, label_eq, ← label?]
  cases s.labelled lineNo (label? text) <;> rfl

end Session
end Forge6809.Assembly
