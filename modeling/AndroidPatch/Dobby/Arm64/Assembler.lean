import AndroidPatch.Library.A64

/-!
Contract: the assembler that Dobby generates A64 code with.

Owns:
- the macros of `utilities_macro.h` on instruction words;
- the code buffer, the labels that a load is linked to before they are bound, and the
  instructions the relocation and the trampolines emit;
- what binding the labels makes of the buffer.

Every emitter appends whole words, so the buffer is a list of words and positions are
four times an index. Its capacity and its growth are left out.
-/

namespace AndroidPatch.Dobby.Arm64

open Library.A64

/-! ## Macros -/

/-- `submask(x)` -/
def submask (x : Nat) : BitVec 64 := (1#64 <<< (x + 1)) - 1#64

/-- `bits(obj, st, fn)` of an instruction. -/
def bits (obj : Word) (st fn : Nat) : BitVec 64 :=
  (obj >>> st).setWidth 64 &&& submask (fn - st)

/-- `set_bit(obj, st, bit)` -/
def setBit (obj : Word) (st : Nat) (value : Word) : Word :=
  (~~~(1#32 <<< st) &&& obj) ||| (value <<< st)

/-- `set_bits(obj, st, fn, bits)` -/
def setBits (obj : Word) (st fn : Nat) (value : Word) : Word :=
  (~~~((submask (fn - st)).setWidth 32 <<< st) &&& obj) ||| (value <<< st)

/-- `LeftShift(a, b, c)` -/
def leftShift (a : Word) (b c : Nat) : Word := (a &&& ((1#32 <<< b) - 1#32)) <<< c

/-- `ALIGN_FLOOR(address, range)` -/
def alignFloor (address range : Addr) : Addr := address &&& ~~~(range - 1)

/-! ## Labels -/

/-- `Label`, with the loads that `PseudoLabel` links to it. A negative `pos_` is bound. -/
structure PseudoLabel where
  pos_ : Int
  instructions : List Nat
deriving DecidableEq, Repr

namespace PseudoLabel

def new : PseudoLabel := ⟨0, []⟩

def isBound (label : PseudoLabel) : Bool := label.pos_ < 0

def pos (label : PseudoLabel) : Int :=
  if label.pos_ < 0 then -label.pos_ - 1
  else if label.pos_ > 0 then label.pos_ - 1
  else 0

def bindTo (label : PseudoLabel) (pos : Int) : PseudoLabel := { label with pos_ := -pos - 1 }

def linkTo (label : PseudoLabel) (pos : Nat) : PseudoLabel :=
  { label with instructions := label.instructions ++ [pos] }

def hasConfusedInstructions (label : PseudoLabel) : Bool := label.instructions.length > 0

/-- The load that stood at the position, with the distance to the label. -/
def encodeLdrLiteral (inst32 : Word) (offset : Int) : Word :=
  (inst32 &&& 0xFF00001F#32) ||| leftShift (BitVec.ofInt 32 (offset >>> (2 : Nat))) 19 5

/-- `link_confused_instructions` -/
def linkConfusedInstructions (label : PseudoLabel) (buffer : List Word) : List Word :=
  label.instructions.foldl (fun buffer (position : Nat) =>
    let offset := label.pos - position
    let inst32 := buffer.getD (position / 4) 0
    buffer.set (position / 4) (encodeLdrLiteral inst32 offset)) buffer

end PseudoLabel

structure RelocLabelEntry where
  label : PseudoLabel
  data : BitVec 64
deriving DecidableEq, Repr

/-! ## Assembler -/

/-- `CPURegister`, as far as the emitters read it. -/
structure Register where
  code : Reg
  is64Bits : Bool
deriving DecidableEq, Repr

def X (code : Reg) : Register := ⟨code, true⟩
def W (code : Reg) : Register := ⟨code, false⟩

/-- `TMP_REG_0` -/
def tmpReg0 : Register := X 17

/-- The fields `Rd`, `Rt` and `Rn` of an instruction. -/
def Rd (reg : Register) : Word := reg.code.setWidth 32
def Rt (reg : Register) : Word := reg.code.setWidth 32
def Rn (reg : Register) : Word := reg.code.setWidth 32 <<< 5

/-- `OpEncode::sf` -/
def sf (reg : Register) : Word := if reg.is64Bits then leftShift 1 1 31 else 0

structure TurboAssembler where
  buffer : List Word
  dataLabels : List RelocLabelEntry
deriving DecidableEq, Repr

namespace TurboAssembler

def new : TurboAssembler := ⟨[], []⟩

def getSize (assembler : TurboAssembler) : Nat := 4 * assembler.buffer.length

def emit (assembler : TurboAssembler) (value : Word) : TurboAssembler :=
  { assembler with buffer := assembler.buffer ++ [value] }

def emitInt64 (assembler : TurboAssembler) (value : BitVec 64) : TurboAssembler :=
  { assembler with
    buffer := assembler.buffer ++ [value.extractLsb' 0 32, value.extractLsb' 32 32] }

def nop (assembler : TurboAssembler) : TurboAssembler := assembler.emit 0xD503201F

/-- `BR` and `BLR` -/
def br (assembler : TurboAssembler) (rn : Register) : TurboAssembler :=
  assembler.emit (0xD61F0000 ||| Rn rn)

def blr (assembler : TurboAssembler) (rn : Register) : TurboAssembler :=
  assembler.emit (0xD63F0000 ||| Rn rn)

/-- `b(int64_t imm)` -/
def b (assembler : TurboAssembler) (imm : BitVec 64) : TurboAssembler :=
  let imm26 := ((imm.sshiftRight 2) &&& submask 25).setWidth 32
  assembler.emit (0x14000000 ||| imm26)

/-- `MoveWide`: `op` is 0x40000000 for `MOVZ` and 0x60000000 for `MOVK`. -/
def moveWideWord (rd : Register) (imm : BitVec 16) (shift : Nat) (op : Word) : Word :=
  let imm16 := leftShift (imm.setWidth 32) 16 5
  0x12800000 ||| op ||| sf rd ||| leftShift (BitVec.ofNat 32 (shift / 16)) 2 21 ||| imm16 |||
    Rd rd

def movz (assembler : TurboAssembler) (rd : Register) (imm : BitVec 16) (shift : Nat) :
    TurboAssembler :=
  assembler.emit (moveWideWord rd imm shift 0x40000000)

def movk (assembler : TurboAssembler) (rd : Register) (imm : BitVec 16) (shift : Nat) :
    TurboAssembler :=
  assembler.emit (moveWideWord rd imm shift 0x60000000)

/-- `Mov(Register rd, uint64_t imm)` -/
def mov (assembler : TurboAssembler) (rd : Register) (imm : BitVec 64) : TurboAssembler :=
  let h0 := imm.extractLsb' 0 16
  let h1 := imm.extractLsb' 16 16
  let h2 := imm.extractLsb' 32 16
  let h3 := imm.extractLsb' 48 16
  (((assembler.movz rd h0 0).movk rd h1 16).movk rd h2 32).movk rd h3 48

/-- `ldr(const CPURegister &rt, const MemOperand &src)`: the operation is `LDR_x` for
every register, and the offset is scaled by eight. -/
def ldrMem (assembler : TurboAssembler) (rt base : Register) (offset : BitVec 64) :
    TurboAssembler :=
  let imm12 := (offset.sshiftRight 3).setWidth 32
  assembler.emit (0x39000000 ||| 0xC0400000 ||| leftShift imm12 12 10 ||| Rn base ||| Rt rt)

/-- `ldr(Register rt, int64_t imm)` -/
def ldrLiteral (assembler : TurboAssembler) (rt : Register) (imm : Int) : TurboAssembler :=
  let op : Word := if rt.is64Bits then 0x58000000 else 0x18000000
  assembler.emit (op ||| leftShift (BitVec.ofInt 32 imm) 26 5 ||| Rt rt)

/-- `Ldr(Register rt, PseudoLabel *label)` -/
def ldrLabel (assembler : TurboAssembler) (rt : Register) (label : PseudoLabel) :
    TurboAssembler × PseudoLabel :=
  if label.isBound then
    (assembler.ldrLiteral rt (label.pos - assembler.getSize), label)
  else
    (assembler.ldrLiteral rt 0, label.linkTo assembler.getSize)

/-- `PseudoBind` -/
def pseudoBind (assembler : TurboAssembler) (label : PseudoLabel) : TurboAssembler :=
  let label := label.bindTo assembler.getSize
  if label.hasConfusedInstructions then
    { assembler with buffer := label.linkConfusedInstructions assembler.buffer }
  else assembler

/-- `AppendRelocLabelEntry` on a new entry, and the place of the entry in the array. -/
def appendRelocLabelEntry (assembler : TurboAssembler) (data : BitVec 64) :
    TurboAssembler × Nat :=
  ({ assembler with dataLabels := assembler.dataLabels ++ [⟨.new, data⟩] },
    assembler.dataLabels.length)

/-- `Ldr` with an entry of the array. -/
def ldrEntry (assembler : TurboAssembler) (rt : Register) (entry : Nat) : TurboAssembler :=
  match assembler.dataLabels[entry]? with
  | none => assembler
  | some found =>
      let (emitted, label) := assembler.ldrLabel rt found.label
      { emitted with dataLabels := emitted.dataLabels.set entry { found with label := label } }

/-- `RelocBind` -/
def relocBind (assembler : TurboAssembler) : TurboAssembler :=
  assembler.dataLabels.foldl
    (fun assembler entry => (assembler.pseudoBind entry.label).emitInt64 entry.data) assembler

/-- `CodeGen::LiteralLdrBranch` -/
def literalLdrBranch (assembler : TurboAssembler) (address : BitVec 64) : TurboAssembler :=
  let (assembler, addressPtr) := assembler.ldrLabel tmpReg0 .new
  ((assembler.br tmpReg0).pseudoBind addressPtr).emitInt64 address

/-- `adrp(const Register &rd, int64_t imm)` -/
def adrp (assembler : TurboAssembler) (rd : Register) (imm : BitVec 64) : TurboAssembler :=
  let shifted := imm.sshiftRight 12
  let immlo := leftShift ((shifted &&& submask 1).setWidth 32) 2 29
  let immhi := leftShift (((shifted.sshiftRight 2) &&& submask 18).setWidth 32) 19 5
  assembler.emit (0x90000000 ||| Rd rd ||| immlo ||| immhi)

/-- `add(const Register &rd, const Register &rn, int64_t imm)` -/
def add (assembler : TurboAssembler) (rd rn : Register) (imm : BitVec 64) : TurboAssembler :=
  let op : Word := if rd.is64Bits && rn.is64Bits then 0x91000000 else 0x11000000
  assembler.emit (op ||| Rd rd ||| Rn rn ||| leftShift (imm.setWidth 32) 12 10)

/-- `AdrpAdd` -/
def adrpAdd (assembler : TurboAssembler) (rd : Register) (fromAddr toAddr : BitVec 64) :
    TurboAssembler :=
  let fromPage := alignFloor fromAddr 0x1000
  let toPage := alignFloor toAddr 0x1000
  let toPageOff := toAddr % 0x1000
  (assembler.adrp rd (toPage - fromPage)).add rd rd toPageOff

end TurboAssembler

end AndroidPatch.Dobby.Arm64
