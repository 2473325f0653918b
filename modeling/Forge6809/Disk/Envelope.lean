import Forge6809.Message.Template
import Forge6809.Word

/-! # Loadable binaries

A loadable binary is a sequence of segments, each with a header that gives its length and its load
address, and a postamble that gives the execution address. What follows the postamble is ignored. -/

namespace Forge6809.Disk

inductive EnvelopeError where
  | invalid
  | tooLarge
deriving DecidableEq, Repr

def EnvelopeError.message (lang : Language) : EnvelopeError → Bytes
  | invalid => Message.say lang "binary envelope invalid" []
  | tooLarge => Message.say lang "binary envelope too large" []

structure Segment where
  address : UInt16
  data : Bytes
deriving DecidableEq, Repr

namespace Envelope

def header (length address : UInt16) : Bytes :=
  0x00 :: wordBytes length ++ wordBytes address

def postamble (exec : UInt16) : Bytes :=
  0xFF :: 0x00 :: 0x00 :: wordBytes exec

def pack (code : Bytes) (start exec : UInt16) : Except EnvelopeError Bytes :=
  if code.length > 0xFFFF then .error .tooLarge
  else .ok (header (UInt16.ofNat code.length) start ++ code ++ postamble exec)

/-- The complete segments of a binary, and the execution address or why there is none. -/
def parse (binary : Bytes) : List Segment × Except EnvelopeError UInt16 :=
  match binary with
  | tag :: sizeHigh :: sizeLow :: addressHigh :: addressLow :: rest =>
    let size := (wordOf sizeHigh sizeLow).toNat
    let address := wordOf addressHigh addressLow
    if tag = 0x00 then
      let data := rest.take size
      if data.length < size then ([], .error .invalid)
      else
        let (segments, result) := parse (rest.drop size)
        (⟨address, data⟩ :: segments, result)
    else if tag = 0xFF ∧ size = 0 then ([], .ok address)
    else ([], .error .invalid)
  | _ => ([], .error .invalid)
termination_by binary.length
decreasing_by simp only [List.length_drop, List.length_cons]; omega

end Envelope
end Forge6809.Disk
