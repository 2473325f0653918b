import Forge6809.Proofs.Assembly.Generation
import Forge6809.Proofs.Core.Operand
import Mathlib.Tactic

/-! # The processor at the lines of a listing

The assembler takes opcodes from its table of mnemonics and the processor decodes them by their
bits. The two agree on every entry of the table: an opcode is fetched as a whole, and the operation
that it stands for has the operand that the assembler writes behind it. Seven mnemonics have no
operation. At the code of any other line the processor goes through, and unless the line jumps,
calls or returns, it comes to the next line that has code. -/

namespace Forge6809

open Forge6809.Core Forge6809.Text

namespace Assembly

/-- The mnemonics that can be assembled and not be executed. -/
def unexecuted : List Bytes :=
  ["DAA", "RTI", "SWI", "SWI2", "SWI3", "SYNC", "CWAI"].map ofString

def transfers : List Bytes :=
  ["JMP", "JSR", "RTS"].map ofString

/-- Bytes that are fetched together as an opcode: the two prefixes do not stand alone. -/
def isOpcode : Bytes → Bool
  | [op] => op ≠ 0x10 ∧ op ≠ 0x11
  | [page, _] => page = 0x10 ∨ page = 0x11
  | _ => false

/-- The processor takes an opcode of a mnemonic for an operation with this operand, or it has no
operation for the mnemonic. -/
@[mk_iff]
structure Decodes (mnemonic opcode : Bytes) (operand : Operand) : Prop where
  whole : isOpcode opcode = true
  eq_none_iff : Operation.ofOpcode? opcode = none ↔ mnemonic ∈ unexecuted
  operation (op : Operation) : op ∈ Operation.ofOpcode? opcode →
    op.operand = operand ∧ (op.isTransfer = true → mnemonic ∈ transfers)

/-- The opcodes of an instruction with the operands that the assembler writes behind them. -/
def Instruction.forms (ins : Instruction) : List (Bytes × Operand) :=
  [(ins.inherent, .absent), (ins.immediate8, .byte), (ins.immediate16, .word),
    (ins.indexed, .indexed)].filterMap fun form => form.1.map fun opcode => (opcode, form.2)

/-- The processor takes every opcode of the table for what the assembler means by it. -/
theorem instructionTable_decodes : ∀ entry ∈ instructionTable, ∀ form ∈ entry.2.forms,
    Decodes entry.1 form.1 form.2 := by
  simp only [decodes_iff]
  decide +kernel

def mnemonic? (text : Bytes) : Option Bytes :=
  match skipBlanks (splitLabel (lexicon.tokens text)).2 with
  | [] => none
  | t :: _ => if t.kind = .mnemonic then some t.word else none

inductive Offers (ins : Instruction) : Action → Prop
  | inherent {opcode : Bytes} : (opcode, .absent) ∈ ins.forms → Offers ins (.inherent opcode)
  | immediate8 {opcode text : Bytes} : (opcode, .byte) ∈ ins.forms →
      Offers ins (.immediate8 opcode text)
  | immediate16 {opcode text : Bytes} : (opcode, .word) ∈ ins.forms →
      Offers ins (.immediate16 opcode text)
  | indexed {opcode text : Bytes} {negate : Bool} {reg : IndexRegister} {auto : AutoMode} :
      (opcode, .indexed) ∈ ins.forms → auto ∈ AutoMode.written →
      Offers ins (.indexed opcode negate text reg auto)

theorem indexTarget_auto {ts : List Token} {reg : IndexRegister} {auto : AutoMode}
    (h : Session.indexTarget ts = .ok (reg, auto)) : auto ∈ AutoMode.written := by
  have hbefore (ts : List Token) : (Session.autoDecrement ts).1 ∈ AutoMode.written := by
    unfold Session.autoDecrement
    split
    · simp [AutoMode.written]
    · split_ifs <;> simp [AutoMode.written]
  have hafter (ts : List Token) : Session.autoIncrement ts ∈ AutoMode.written := by
    unfold Session.autoIncrement
    split
    · simp [AutoMode.written]
    · split_ifs <;> simp [AutoMode.written]
  simp only [Session.indexTarget] at h
  split at h
  · cases h
  · split at h
    · cases h
      split
      · exact hafter _
      · exact hbefore _
    · cases h

theorem offers_of_instructionAction? {mnemonic : Bytes} {ts : List Token} {action : Action}
    (h : instructionAction? mnemonic ts = some action) :
    ∃ ins, (mnemonic, ins) ∈ instructionTable ∧ Offers ins action := by
  unfold instructionAction? at h
  split at h
  · cases h
  · next ins hins =>
    have hmem : (mnemonic, ins) ∈ instructionTable := by
      obtain ⟨pre, post, htable, -⟩ := List.lookup_eq_some_iff.1 hins
      rw [htable]
      simp
    refine ⟨ins, hmem, ?_⟩
    split at h
    · next hopcode => cases h; exact .inherent (by simp [Instruction.forms, hopcode])
    · split at h
      · cases h
      · split at h
        · unfold immediateAction? at h
          split at h <;> cases h
          · next hopcode => exact .immediate8 (by simp [Instruction.forms, hopcode])
          · next hopcode => exact .immediate16 (by simp [Instruction.forms, hopcode])
        · split at h
          · cases h
          · next hopcode =>
            simp only [indexedAction?] at h
            split at h
            · cases h
            · split at h <;> cases h
              next htarget =>
                exact .indexed (by simp [Instruction.forms, hopcode]) (indexTarget_auto htarget)

/-- A line with code has a mnemonic of the table in one of its forms. -/
theorem exists_offers {text code : Bytes} {form : Form} {equates : Table UInt16} {strict : Bool}
    (hr : Form.read? text = some form) (hc : form.action.code? equates strict = some code)
    (hne : code ≠ []) : ∃ mnemonic ins, mnemonic? text = some mnemonic ∧
      (mnemonic, ins) ∈ instructionTable ∧ Offers ins form.action := by
  obtain ⟨action, ha, rfl⟩ := Option.map_eq_some_iff.1 hr
  -- Nothing but an instruction has code, so what follows the label is a mnemonic.
  have hi : action.isInstruction = true := by
    cases action with
    | inherent | immediate8 | immediate16 | indexed => rfl
    | nothing | entry => cases hc; exact absurd rfl hne
    | origin | equate =>
      simp only [Action.code?] at hc
      split at hc <;> cases hc
      exact absurd rfl hne
  unfold action? at ha
  split at ha
  · cases ha; cases hi
  · next t r hts =>
    split at ha
    · cases ha; cases hi
    · cases ha; cases hi
    · rw [Session.isInstruction_of_directiveAction? ha] at hi
      cases hi
    · next hkind =>
      obtain ⟨ins, hmem, hoffers⟩ := offers_of_instructionAction? ha
      exact ⟨t.word, ins, by simp [mnemonic?, hts, hkind], hmem, hoffers⟩
    · cases ha

section Tick

variable {m m' : Machine} {op : Operation} {mnemonic opcode rest : Bytes} {operand : Operand}

theorem opcode_of_holds (hop : isOpcode opcode = true)
    (hmem : m.memory.Holds m.pc (opcode ++ rest)) : m.opcode = opcode := by
  match opcode, hop with
  | [op], hop =>
    have hread : m.read8 m.pc = op := (Memory.holds_cons.1 hmem).1
    simp only [isOpcode, decide_eq_true_eq] at hop
    simp [Machine.opcode, hread, hop]
  | [page, op], hop =>
    have hpage : m.read8 m.pc = page := (Memory.holds_cons.1 hmem).1
    have hread : m.read8 (m.pc + 1) = op := (Memory.holds_cons.1 (Memory.holds_cons.1 hmem).2).1
    simp only [isOpcode, decide_eq_true_eq] at hop
    simp [Machine.opcode, hpage, hread, hop]

/-- The processor refuses a mnemonic without an operation. -/
theorem Decodes.refused (h : Decodes mnemonic opcode operand) (hw : mnemonic ∈ unexecuted)
    (hmem : m.memory.Holds m.pc (opcode ++ rest)) :
    m.tick = (.error (.invalidOpcode m.pc opcode), m) := by
  have hfetched := opcode_of_holds h.whole hmem
  have hnone := h.eq_none_iff.2 hw
  simp only [Machine.tick, hfetched, hnone]

theorem Decodes.exists_operation (h : Decodes mnemonic opcode operand)
    (hw : mnemonic ∉ unexecuted) : ∃ op, Operation.ofOpcode? opcode = some op ∧
      op.operand = operand ∧ (mnemonic ∉ transfers → op.isTransfer = false) := by
  obtain ⟨op, hop⟩ := Option.ne_none_iff_exists'.1 fun hnone => hw (h.eq_none_iff.1 hnone)
  obtain ⟨hoperand, htransfer⟩ := h.operation op hop
  exact ⟨op, hop, hoperand, fun hne => Bool.eq_false_iff.2 fun ht => hne (htransfer ht)⟩

/-- The processor executes the operation of an opcode once it has fetched the opcode. -/
theorem Decodes.tick_eq (h : Decodes mnemonic opcode operand)
    (hmem : m.memory.Holds m.pc (opcode ++ rest)) (hop : Operation.ofOpcode? opcode = some op)
    (hrun : op.execute.run { m with pc := m.pc + UInt16.ofNat opcode.length } = (.ok (), m')) :
    m.tick = (.ok (), { m' with ticks := m'.ticks + 1 }) := by
  have hfetched := opcode_of_holds h.whole hmem
  rw [← hfetched] at hop hrun
  exact Machine.tick_of_ok hop hrun

/-- The processor executes an instruction, and then it stands behind it, unless the instruction
sets the program counter. -/
def Advances (m : Machine) (mnemonic code : Bytes) : Prop :=
  ∃ m', m.tick = (.ok (), m') ∧
    (mnemonic ∉ transfers → m'.pc = m.pc + UInt16.ofNat code.length)

theorem Decodes.advances_absent (h : Decodes mnemonic opcode .absent)
    (hw : mnemonic ∉ unexecuted) (hmem : m.memory.Holds m.pc opcode) :
    Advances m mnemonic opcode := by
  obtain ⟨op, hop, hoperand, htransfer⟩ := h.exists_operation hw
  obtain ⟨m', hrun, hpc⟩ := Operation.run_execute_absent hoperand
    { m with pc := m.pc + UInt16.ofNat opcode.length }
  rw [← List.append_nil opcode] at hmem
  exact ⟨_, h.tick_eq hmem hop hrun, fun hne => hpc (htransfer hne)⟩

theorem Decodes.advances_indexed (h : Decodes mnemonic opcode .indexed)
    (hw : mnemonic ∉ unexecuted) {reg : IndexRegister} {offset : UInt16} {negate : Bool}
    {auto : AutoMode} (hauto : auto ∈ AutoMode.written)
    (hmem : m.memory.Holds m.pc (opcode ++ postbyte reg offset negate auto)) :
    Advances m mnemonic (opcode ++ postbyte reg offset negate auto) := by
  obtain ⟨op, hop, hoperand, htransfer⟩ := h.exists_operation hw
  obtain ⟨ea, m₁, hindexed, hpc₁⟩ := exists_run_indexed
    (m := { m with pc := m.pc + UInt16.ofNat opcode.length }) hauto (Memory.holds_append.1 hmem).2
  obtain ⟨m', hrun, hpc⟩ := Operation.run_execute_indexed hoperand hindexed
  refine ⟨_, h.tick_eq hmem hop hrun, fun hne => ?_⟩
  dsimp only at hpc₁ ⊢
  rw [hpc (htransfer hne), hpc₁, List.length_append, UInt16.ofNat_add, UInt16.add_assoc]

/-- The processor executes the operation of an opcode with an immediate operand of this value. -/
def TicksWith (m : Machine) (code opcode : Bytes) (value : UInt16) : Prop :=
  ∃ op m', Operation.ofOpcode? opcode = some op ∧
    op.withImmediate? value { m with pc := m.pc + UInt16.ofNat code.length } = some m' ∧
    m.tick = (.ok (), { m' with ticks := m'.ticks + 1 })

theorem TicksWith.advances {code : Bytes} {value : UInt16} (h : TicksWith m code opcode value) :
    Advances m mnemonic code := by
  obtain ⟨op, m', -, hm', htick⟩ := h
  exact ⟨_, htick, fun _ => Operation.pc_of_withImmediate? hm'⟩

theorem Decodes.ticksWith_byte (h : Decodes mnemonic opcode .byte) (hw : mnemonic ∉ unexecuted)
    {value : UInt16} (hmem : m.memory.Holds m.pc (opcode ++ [lowByte value])) :
    TicksWith m (opcode ++ [lowByte value]) opcode value := by
  obtain ⟨op, hop, hoperand, -⟩ := h.exists_operation hw
  have hread : m.read8 (m.pc + UInt16.ofNat opcode.length) = lowByte value :=
    (Memory.holds_cons.1 (Memory.holds_append.1 hmem).2).1
  obtain ⟨m', hm', hrun⟩ := Operation.run_execute_byte
    (m := { m with pc := m.pc + UInt16.ofNat opcode.length }) hoperand hread
  refine ⟨op, m', hop, ?_, h.tick_eq hmem hop hrun⟩
  rwa [List.length_append, UInt16.ofNat_add, ← UInt16.add_assoc]

theorem Decodes.ticksWith_word (h : Decodes mnemonic opcode .word) (hw : mnemonic ∉ unexecuted)
    {value : UInt16} (hmem : m.memory.Holds m.pc (opcode ++ wordBytes value)) :
    TicksWith m (opcode ++ wordBytes value) opcode value := by
  obtain ⟨op, hop, hoperand, -⟩ := h.exists_operation hw
  have hread : m.read16 (m.pc + UInt16.ofNat opcode.length) = value :=
    (Memory.holds_append.1 hmem).2.read16_eq
  obtain ⟨m', hm', hrun⟩ := Operation.run_execute_word
    (m := { m with pc := m.pc + UInt16.ofNat opcode.length }) hoperand hread
  refine ⟨op, m', hop, ?_, h.tick_eq hmem hop hrun⟩
  rwa [List.length_append, UInt16.ofNat_add, ← UInt16.add_assoc]

inductive Encoded : Operand → Bytes → Prop
  | absent : Encoded .absent []
  | byte (value : UInt16) : Encoded .byte [lowByte value]
  | word (value : UInt16) : Encoded .word (wordBytes value)
  | indexed (reg : IndexRegister) (offset : UInt16) (negate : Bool) {auto : AutoMode} :
      auto ∈ AutoMode.written → Encoded .indexed (postbyte reg offset negate auto)

theorem Decodes.advances (h : Decodes mnemonic opcode operand) (hrest : Encoded operand rest)
    (hw : mnemonic ∉ unexecuted) (hmem : m.memory.Holds m.pc (opcode ++ rest)) :
    Advances m mnemonic (opcode ++ rest) := by
  cases hrest with
  | absent =>
    rw [List.append_nil] at hmem ⊢
    exact h.advances_absent hw hmem
  | byte value => exact (h.ticksWith_byte hw hmem).advances
  | word value => exact (h.ticksWith_word hw hmem).advances
  | indexed reg offset negate hauto => exact h.advances_indexed hw hauto hmem

/-- The code of an instruction is an opcode of its mnemonic with the operand that the processor
expects. -/
theorem Offers.exists_encoded {ins : Instruction} {action : Action} {equates : Table UInt16}
    {strict : Bool} {code : Bytes} (h : Offers ins action)
    (hins : (mnemonic, ins) ∈ instructionTable) (hc : action.code? equates strict = some code) :
    ∃ opcode rest operand, code = opcode ++ rest ∧ Decodes mnemonic opcode operand ∧
      Encoded operand rest := by
  cases h with
  | inherent hop =>
    cases hc
    exact ⟨_, [], .absent, (List.append_nil _).symm, instructionTable_decodes _ hins _ hop,
      .absent⟩
  | immediate8 hop =>
    simp only [Action.code?] at hc
    split at hc
    · cases hc
    · split at hc <;> cases hc
      exact ⟨_, _, .byte, rfl, instructionTable_decodes _ hins _ hop, .byte _⟩
  | immediate16 hop =>
    simp only [Action.code?] at hc
    split at hc <;> cases hc
    exact ⟨_, _, .word, rfl, instructionTable_decodes _ hins _ hop, .word _⟩
  | indexed hop hauto =>
    simp only [Action.code?] at hc
    split at hc
    · cases hc
    · split at hc <;> cases hc
      exact ⟨_, _, .indexed, rfl, instructionTable_decodes _ hins _ hop, .indexed _ _ _ hauto⟩

end Tick

/-- The next line with code stands behind the code of a line. -/
theorem Laid.offset_next {equates symbols : Table UInt16} {offset : UInt16}
    {src : List (Bytes × Nat)} {before following : List Line} {l next : Line}
    (h : Laid equates symbols offset src (before ++ l :: following))
    (hnext : following.find? (fun l => !l.code.isEmpty) = some next) :
    next.offset = l.offset + UInt16.ofNat l.code.length := by
  obtain ⟨-, between, post, rfl, hbetween⟩ := List.find?_eq_some_iff_append.1 hnext
  have hempty : between.flatMap (·.code) = [] := by
    apply List.flatMap_eq_nil_iff.2
    intro l hl
    simpa using hbetween l hl
  have hsplit : before ++ l :: (between ++ next :: post) =
      (before ++ l :: between) ++ next :: post := by simp
  rw [h.offset_eq hsplit, h.offset_eq rfl, List.flatMap_append, List.flatMap_cons, hempty,
    List.append_nil, List.length_append, UInt16.ofNat_add, UInt16.add_assoc]

/-- What the processor does at the code of a line with a mnemonic. -/
structure Program.ExecutesLine (p : Program) (l : Line) (following : List Line)
    (mnemonic : Bytes) (m : Machine) : Prop where
  refuses : mnemonic ∈ unexecuted → ∃ opcode, opcode <+: l.code ∧
    m.tick = (.error (.invalidOpcode (p.address l) opcode), m)
  succeeds : mnemonic ∉ unexecuted → ∃ m', m.tick = (.ok (), m')
  advances (m' : Machine) : m.tick = (.ok (), m') → mnemonic ∉ transfers →
    m'.pc = p.address l + UInt16.ofNat l.code.length
  /-- The next instruction is that of the next line that has code. -/
  reaches (m' : Machine) (next : Line) : m.tick = (.ok (), m') → mnemonic ∉ transfers →
    following.find? (fun l => !l.code.isEmpty) = some next → m'.pc = p.address next
  /-- A byte operand has the value of the source expression, which fits. -/
  immediate8 (label : Option Bytes) (opcode e : Bytes) : mnemonic ∉ unexecuted →
    Form.read? l.text = some ⟨label, .immediate8 opcode e⟩ →
    ∃ v, Expr.evaluate e p.equates true = .ok v ∧ v ≤ 0xFF ∧ TicksWith m l.code opcode v
  /-- A word operand has the value of the source expression. -/
  immediate16 (label : Option Bytes) (opcode e : Bytes) : mnemonic ∉ unexecuted →
    Form.read? l.text = some ⟨label, .immediate16 opcode e⟩ →
    ∃ v, Expr.evaluate e p.equates true = .ok v ∧ TicksWith m l.code opcode v

section Immediate

variable {mnemonic opcode e code : Bytes} {ins : Instruction} {equates : Table UInt16} {m : Machine}
  (hins : (mnemonic, ins) ∈ instructionTable) (hw : mnemonic ∉ unexecuted)
  (hmem : m.memory.Holds m.pc code)

include hins hw hmem

theorem ticksWith_of_immediate8 (ho : Offers ins (.immediate8 opcode e))
    (hc : (Action.immediate8 opcode e).code? equates true = some code) :
    ∃ v, Expr.evaluate e equates true = .ok v ∧ v ≤ 0xFF ∧ TicksWith m code opcode v := by
  cases ho with
  | immediate8 hop =>
    simp only [Action.code?] at hc
    split at hc
    · cases hc
    · next v hv =>
      split at hc
      · cases hc
      · next hfits =>
        cases hc
        refine ⟨v, hv, ?_, (instructionTable_decodes _ hins _ hop).ticksWith_byte hw hmem⟩
        simpa using hfits

theorem ticksWith_of_immediate16 (ho : Offers ins (.immediate16 opcode e))
    (hc : (Action.immediate16 opcode e).code? equates true = some code) :
    ∃ v, Expr.evaluate e equates true = .ok v ∧ TicksWith m code opcode v := by
  cases ho with
  | immediate16 hop =>
    simp only [Action.code?] at hc
    split at hc
    · cases hc
    · next v hv =>
      cases hc
      exact ⟨v, hv, (instructionTable_decodes _ hins _ hop).ticksWith_word hw hmem⟩

end Immediate

/-- The processor executes what the assembler emits: at the code of a line of an assembled program
it does what the mnemonic of the line says. -/
theorem assemble_executes {a : Assembler} {source : Bytes} {p : Program}
    (h : a.assemble source = .ok p) {before following : List Line} {l : Line}
    (hl : p.lines = before ++ l :: following) (hcode : l.code ≠ []) {m : Machine}
    (hpc : m.pc = p.address l) (hmem : m.memory.Holds (p.address l) l.code) :
    ∃ mnemonic, mnemonic? l.text = some mnemonic ∧ p.ExecutesLine l following mnemonic m := by
  obtain ⟨s, -, hlaid, -, he, -, -⟩ := assemble_eq_ok_iff.1 h
  rw [hl] at hlaid
  obtain ⟨form, hr, haccepts⟩ := hlaid.accepts (List.mem_append_cons_self)
  have hc : form.action.code? p.equates true = some l.code := he ▸ haccepts.encodes
  obtain ⟨mnemonic, ins, hmnemonic, hins, hoffers⟩ := exists_offers hr hc hcode
  obtain ⟨opcode, rest, operand, hsplit, hdecodes, hrest⟩ := hoffers.exists_encoded hins hc
  rw [← hpc] at hmem
  have hadvance (hw : mnemonic ∉ unexecuted) : Advances m mnemonic l.code := by
    rw [hsplit] at hmem ⊢
    exact hdecodes.advances hrest hw hmem
  have hrefused (hw : mnemonic ∈ unexecuted) : m.tick = (.error (.invalidOpcode m.pc opcode), m) :=
    hdecodes.refused hw (hsplit ▸ hmem)
  have hbehind (m' : Machine) (htick : m.tick = (.ok (), m')) (ht : mnemonic ∉ transfers) :
      m'.pc = p.address l + UInt16.ofNat l.code.length := by
    -- A mnemonic without an operation does not get here.
    by_cases hw : mnemonic ∈ unexecuted
    · rw [hrefused hw] at htick
      cases htick
    · obtain ⟨m'', htick', hpc'⟩ := hadvance hw
      rw [htick] at htick'
      cases htick'
      rw [hpc' ht, hpc]
  refine ⟨mnemonic, hmnemonic, ?_⟩
  constructor
  case refuses =>
    intro hw
    exact ⟨opcode, ⟨rest, hsplit.symm⟩, hpc ▸ hrefused hw⟩
  case succeeds =>
    intro hw
    obtain ⟨m', htick, -⟩ := hadvance hw
    exact ⟨m', htick⟩
  case advances => exact hbehind
  case reaches =>
    intro m' next htick ht hnext
    rw [hbehind m' htick ht, Program.address, Program.address, hlaid.offset_next hnext,
      UInt16.add_assoc]
  case immediate8 =>
    intro label opcode e hw hread
    cases hr.symm.trans hread
    exact ticksWith_of_immediate8 hins hw hmem hoffers hc
  case immediate16 =>
    intro label opcode e hw hread
    cases hr.symm.trans hread
    exact ticksWith_of_immediate16 hins hw hmem hoffers hc

def wrappedSource : Bytes :=
  ofString "\tORG\t$FFFE\n\tLDX\t#1+2*3\n\tRTS\n"

def wrappedLine : Line :=
  ⟨2, 0, ofString "\tLDX\t#1+2*3", [0x8E, 0x00, 0x07]⟩

def lineBehind : Line :=
  ⟨3, 3, ofString "\tRTS", [0x39]⟩

theorem exists_assemble_wrappedSource : ∃ p, (Assembler.mk ∅).assemble wrappedSource = .ok p ∧
    p.lines = [⟨1, 0, ofString "\tORG\t$FFFE", []⟩, wrappedLine, lineBehind] ∧
    p.origin = 0xFFFE := by
  have hresult : ((Assembler.mk ∅).assemble wrappedSource).toOption.map
      (fun p => (p.lines, p.origin)) =
        some ([⟨1, 0, ofString "\tORG\t$FFFE", []⟩, wrappedLine, lineBehind], 0xFFFE) := by
    decide +kernel
  cases h : (Assembler.mk ∅).assemble wrappedSource with
  | error e => rw [h] at hresult; cases hresult
  | ok p =>
    rw [h] at hresult
    exact ⟨p, rfl, Prod.mk.inj (Option.some.inj hresult)⟩

def wrappedMachine : Machine :=
  { pc := 0xFFFE, memory := Memory.clear.load 0xFFFE wrappedLine.code }

theorem wrappedSource_executes : ∃ p, (Assembler.mk ∅).assemble wrappedSource = .ok p ∧
    p.address wrappedLine = 0xFFFE ∧ p.address lineBehind = 1 ∧
    p.ExecutesLine wrappedLine [lineBehind] (ofString "LDX") wrappedMachine := by
  have hmnemonic : mnemonic? wrappedLine.text = some (ofString "LDX") := by decide +kernel
  have hmem : wrappedMachine.memory.Holds 0xFFFE wrappedLine.code := by
    refine Memory.holds_cons.2 ⟨?_, Memory.holds_cons.2 ⟨?_, Memory.holds_cons.2 ⟨?_, rfl⟩⟩⟩ <;>
      simp [wrappedMachine, wrappedLine, Memory.load, Memory.read8_write8]
  obtain ⟨p, h, hlines, horigin⟩ := exists_assemble_wrappedSource
  have haddress : p.address wrappedLine = 0xFFFE := by rw [Program.address, horigin]; rfl
  have hsplit : p.lines = [⟨1, 0, ofString "\tORG\t$FFFE", []⟩] ++ wrappedLine :: [lineBehind] :=
    hlines
  obtain ⟨mnemonic, hm, hexecutes⟩ := assemble_executes h hsplit (List.cons_ne_nil _ _)
    (m := wrappedMachine) haddress.symm (haddress ▸ hmem)
  cases hmnemonic.symm.trans hm
  refine ⟨p, h, haddress, ?_, hexecutes⟩
  rw [Program.address, horigin]
  rfl

end Assembly
end Forge6809
