import Forge6809.Text.Bytes

/-! # Mnemonics and their opcodes

The assembler recognises every mnemonic of the processor and encodes those of the instruction
table, in up to four forms. A form that is absent is not available for the mnemonic. -/

namespace Forge6809.Assembly

open Text

/-- The mnemonics, in the order in which the lexical rules try them. -/
def mnemonics : List String :=
  ["BCC", "LBCC", "BCS", "LBCS", "BEQ", "LBEQ", "BGE", "LBGE", "BGT", "LBGT", "BHI", "LBHI", "BHS",
    "LBHS", "BLE", "LBLE", "BLO", "LBLO", "BLS", "LBLS", "BLT", "LBLT", "BMI", "LBMI", "BNE",
    "LBNE", "BPL", "LBPL", "BRA", "LBRA", "BRN", "LBRN", "BSR", "LBSR", "BVC", "LBVC", "BVS",
    "LBVS", "ABX", "ADCA", "ADCB", "ADDA", "ADDB", "ADDD", "ANDA", "ANDB", "ANDCC", "ASLA", "ASLB",
    "ASL", "ASRA", "ASRB", "ASR", "BITA", "BITB", "CLRA", "CLRB", "CLR", "CMPA", "CMPB", "CMPD",
    "CMPS", "CMPU", "CMPX", "CMPY", "COMA", "COMB", "COM", "CWAI", "DAA", "DECA", "DECB", "DEC",
    "EORA", "EORB", "EXG", "INCA", "INCB", "INC", "JMP", "JSR", "LDA", "LDB", "LDD", "LDS", "LDU",
    "LDX", "LDY", "LEAS", "LEAU", "LEAX", "LEAY", "LSLA", "LSLB", "LSL", "LSRA", "LSRB", "LSR",
    "MUL", "NEGA", "NEGB", "NEG", "NOP", "ORA", "ORB", "ORCC", "PSHS", "PSHU", "PULS", "PULU",
    "ROLA", "ROLB", "ROL", "RORA", "RORB", "ROR", "RTI", "RTS", "SBCA", "SBCB", "SEX", "STA",
    "STB", "STD", "STS", "STU", "STX", "STY", "SUBA", "SUBB", "SUBD", "SWI2", "SWI3", "SWI",
    "SYNC", "TFR", "TSTA", "TSTB", "TST"]

def directives : List String :=
  ["END", "EQU", "ORG"]

/-- The opcode bytes of a mnemonic in each of its forms. -/
structure Instruction where
  inherent : Option Bytes := none
  immediate8 : Option Bytes := none
  immediate16 : Option Bytes := none
  indexed : Option Bytes := none
deriving DecidableEq, Repr

/-- The instructions that can be encoded, in the order of their names. -/
def instructions : List (String × Instruction) :=
  [("ABX", { inherent := some [0x3A] }),
    ("ADCA", { immediate8 := some [0x89] }),
    ("ADCB", { immediate8 := some [0xC9] }),
    ("ADDA", { immediate8 := some [0x8B] }),
    ("ADDB", { immediate8 := some [0xCB] }),
    ("ADDD", { immediate16 := some [0xC3] }),
    ("ANDA", { immediate8 := some [0x84] }),
    ("ANDB", { immediate8 := some [0xC4] }),
    ("ANDCC", { immediate8 := some [0x1C] }),
    ("ASLA", { inherent := some [0x48] }),
    ("ASLB", { inherent := some [0x58] }),
    ("ASRA", { inherent := some [0x47] }),
    ("ASRB", { inherent := some [0x57] }),
    ("BITA", { immediate8 := some [0x85] }),
    ("BITB", { immediate8 := some [0xC5] }),
    ("CLRA", { inherent := some [0x4F] }),
    ("CLRB", { inherent := some [0x5F] }),
    ("CMPA", { immediate8 := some [0x81] }),
    ("CMPB", { immediate8 := some [0xC1] }),
    ("CMPD", { immediate16 := some [0x10, 0x83] }),
    ("CMPS", { immediate16 := some [0x11, 0x8C] }),
    ("CMPU", { immediate16 := some [0x11, 0x83] }),
    ("CMPX", { immediate16 := some [0x8C] }),
    ("CMPY", { immediate16 := some [0x10, 0x8C] }),
    ("COMA", { inherent := some [0x43] }),
    ("COMB", { inherent := some [0x53] }),
    ("CWAI", { immediate8 := some [0x3C] }),
    ("DAA", { inherent := some [0x19] }),
    ("DECA", { inherent := some [0x4A] }),
    ("DECB", { inherent := some [0x5A] }),
    ("EORA", { immediate8 := some [0x88] }),
    ("EORB", { immediate8 := some [0xC8] }),
    ("INCA", { inherent := some [0x4C] }),
    ("INCB", { inherent := some [0x5C] }),
    ("JMP", { indexed := some [0x6E] }),
    ("JSR", { indexed := some [0xAD] }),
    ("LDA", { immediate8 := some [0x86], indexed := some [0xA6] }),
    ("LDB", { immediate8 := some [0xC6], indexed := some [0xE6] }),
    ("LDD", { immediate16 := some [0xCC], indexed := some [0xEC] }),
    ("LDS", { immediate16 := some [0x10, 0xCE], indexed := some [0x10, 0xEE] }),
    ("LDU", { immediate16 := some [0xCE], indexed := some [0xEE] }),
    ("LDX", { immediate16 := some [0x8E], indexed := some [0xAE] }),
    ("LDY", { immediate16 := some [0x10, 0x8E], indexed := some [0x10, 0xAE] }),
    ("LEAS", { indexed := some [0x32] }),
    ("LEAU", { indexed := some [0x33] }),
    ("LEAX", { indexed := some [0x30] }),
    ("LEAY", { indexed := some [0x31] }),
    ("LSLA", { inherent := some [0x48] }),
    ("LSLB", { inherent := some [0x58] }),
    ("LSRA", { inherent := some [0x44] }),
    ("LSRB", { inherent := some [0x54] }),
    ("MUL", { inherent := some [0x3D] }),
    ("NEGA", { inherent := some [0x40] }),
    ("NEGB", { inherent := some [0x50] }),
    ("NOP", { inherent := some [0x12] }),
    ("ORA", { immediate8 := some [0x8A] }),
    ("ORB", { immediate8 := some [0xCA] }),
    ("ORCC", { immediate8 := some [0x1A] }),
    ("ROLA", { inherent := some [0x49] }),
    ("ROLB", { inherent := some [0x59] }),
    ("RORA", { inherent := some [0x46] }),
    ("RORB", { inherent := some [0x56] }),
    ("RTI", { inherent := some [0x3B] }),
    ("RTS", { inherent := some [0x39] }),
    ("SBCA", { immediate8 := some [0x82] }),
    ("SBCB", { immediate8 := some [0xC2] }),
    ("SEX", { inherent := some [0x1D] }),
    ("STA", { indexed := some [0xA7] }),
    ("STB", { indexed := some [0xE7] }),
    ("STD", { indexed := some [0xED] }),
    ("STS", { indexed := some [0x10, 0xEF] }),
    ("STU", { indexed := some [0xEF] }),
    ("STX", { indexed := some [0xAF] }),
    ("STY", { indexed := some [0x10, 0xAF] }),
    ("SUBA", { immediate8 := some [0x80] }),
    ("SUBB", { immediate8 := some [0xC0] }),
    ("SUBD", { immediate16 := some [0x83] }),
    ("SWI", { inherent := some [0x3F] }),
    ("SWI2", { inherent := some [0x10, 0x3F] }),
    ("SWI3", { inherent := some [0x11, 0x3F] }),
    ("SYNC", { inherent := some [0x13] }),
    ("TSTA", { inherent := some [0x4D] }),
    ("TSTB", { inherent := some [0x5D] })]

def instructionTable : List (Bytes × Instruction) :=
  instructions.map fun e => (ofString e.1, e.2)

def instruction? (mnemonic : Bytes) : Option Instruction :=
  instructionTable.lookup mnemonic

end Forge6809.Assembly
