import Offside.Text.Lines
import Offside.Text.Quoted

/-!
# Reading UTF-8

Bytes are read into characters a block at a time, the way a file is buffered.  A character may
straddle two blocks: its first bytes are then carried over.  A fault is therefore placed
relative to the bytes at hand, which are those carried over and the block after them, and of a
block with a fault in it no character is handed out.

A sequence of bytes is at fault where the first byte starts no character, where a following byte
cannot stand at its place, or where the bytes end too early.  The second byte is the one whose
range depends on the first, which is what keeps out overlong forms, surrogates and code points
past the last.

## Main definitions

* `Utf8.Fault` — where and how bytes fail to be text.
* `Utf8.scan` — one block of bytes.
* `Utf8.decode` — a whole file: the characters that can be read, and the fault that stops it.
* `Utf8.decodeAtOnce` — bytes that are not read in blocks.
* `Utf8.encode` — the bytes of characters.
* `Utf8.encode?` — the bytes of a text, which has some only if all of it is characters.
* `Utf8.unencodable` — what is said of surrogates that are to be written.
-/

namespace Offside.Text.Utf8

/-! ### Faults -/

/-- How bytes fail to be text. -/
inductive Cause where
  /-- A byte starts no character. -/
  | start
  /-- A byte does not continue the character before it. -/
  | continuation
  /-- The bytes end within a character. -/
  | cutOff
  deriving DecidableEq, Repr

/-- A cause in words. -/
def Cause.text : Cause → String
  | start => "invalid start byte"
  | continuation => "invalid continuation byte"
  | cutOff => "unexpected end of data"

/-- Bytes that are no text. -/
structure Fault where
  /-- The first of the bytes. -/
  byte : UInt8
  /-- Its position. -/
  first : Nat
  /-- The position of the last of them. -/
  last : Nat
  /-- What is wrong with them. -/
  cause : Cause
  deriving DecidableEq, Repr

/-- The two lowercase hexadecimal digits of a byte. -/
def hexByte (b : UInt8) : String :=
  String.ofList [Nat.digitChar (b.toNat / 16), Nat.digitChar (b.toNat % 16)]

/-- A fault in words. -/
def Fault.message (f : Fault) : String :=
  let cause := f.cause.text
  let hex := hexByte f.byte
  if f.first = f.last then
    s!"'utf-8' codec can't decode byte 0x{hex} in position {f.first}: {cause}"
  else s!"'utf-8' codec can't decode bytes in position {f.first}-{f.last}: {cause}"

/-! ### Characters from bytes -/

/-- A character of which some bytes have been read. -/
structure Pending where
  /-- Its first byte. -/
  byte : UInt8
  /-- The position of that byte. -/
  position : Nat
  /-- How many bytes have been read. -/
  held : Nat
  /-- How many are still to come. -/
  missing : Nat
  /-- The least value of the next. -/
  low : Nat := 0x80
  /-- The greatest value of the next. -/
  high : Nat := 0xBF
  /-- The bits of the bytes read. -/
  bits : Nat
  deriving DecidableEq, Repr

/-- What a first byte starts: a character of one byte, or a longer one. -/
def start? (position : Nat) (b : UInt8) : Option (Char ⊕ Pending) :=
  let n := b.toNat
  if n < 0x80 then some (.inl (Char.ofNat n))
  else if n < 0xC2 then none
  else if n < 0xE0 then
    some (.inr { byte := b, position, held := 1, missing := 1, bits := n - 0xC0 })
  else if n < 0xF0 then
    some (.inr
      { byte := b, position, held := 1, missing := 2, bits := n - 0xE0
        low := if n = 0xE0 then 0xA0 else 0x80
        high := if n = 0xED then 0x9F else 0xBF })
  else if n < 0xF5 then
    some (.inr
      { byte := b, position, held := 1, missing := 3, bits := n - 0xF0
        low := if n = 0xF0 then 0x90 else 0x80
        high := if n = 0xF4 then 0x8F else 0xBF })
  else none

/-- How a block ends. -/
inductive Ending where
  /-- Between two characters. -/
  | complete
  /-- Within a character. -/
  | within (p : Pending)
  /-- At a fault. -/
  | fault (f : Fault)
  deriving DecidableEq, Repr

/-- The fault of a character that is not continued. -/
def Pending.broken (p : Pending) : Fault :=
  ⟨p.byte, p.position, p.position + p.held - 1, .continuation⟩

/-- The first two bytes of a surrogate's three.  They can never become a character, but at the
end of a block they are kept like the start of one. -/
def Pending.startsSurrogate (p : Pending) (b : UInt8) : Bool :=
  p.byte = 0xED && p.held = 1 && 0xA0 ≤ b && b ≤ 0xBF

/-- The characters of the bytes at hand, up to the end or to a fault. -/
def scan (position : Nat) (pending : Option Pending) : List UInt8 → List Char × Ending
  | [] => match pending with
    | none => ([], .complete)
    | some p => ([], .within p)
  | b :: rest => match pending with
    | none => match start? position b with
      | none => ([], .fault ⟨b, position, position, .start⟩)
      | some (.inl c) =>
        let (cs, ending) := scan (position + 1) none rest
        (c :: cs, ending)
      | some (.inr p) => scan (position + 1) (some p) rest
    | some p =>
      if p.low ≤ b.toNat ∧ b.toNat ≤ p.high then
        let bits := p.bits * 64 + (b.toNat - 0x80)
        if p.missing ≤ 1 then
          let (cs, ending) := scan (position + 1) none rest
          (Char.ofNat bits :: cs, ending)
        else
          scan (position + 1)
            (some { p with held := p.held + 1, missing := p.missing - 1, low := 0x80, high := 0xBF,
                           bits := bits })
            rest
      else if rest = [] ∧ p.startsSurrogate b then
        -- no byte lies in the empty range, so the fault comes with the next one
        ([], .within { p with missing := 0, low := 1, high := 0 })
      else ([], .fault p.broken)

/-- The fault of bytes that end within a character. -/
def Pending.cutOff (p : Pending) : Fault :=
  if p.missing = 0 then p.broken
  else ⟨p.byte, p.position, p.position + p.held - 1, .cutOff⟩

/-! ### Files -/

/-- The size of the blocks in which a file is read. -/
def blockSize : Nat := 8192

/-- A file cut into blocks. -/
def blocks (bytes : List UInt8) : List (List UInt8) :=
  if bytes = [] then [] else bytes.take blockSize :: blocks (bytes.drop blockSize)
termination_by bytes.length
decreasing_by
  have := List.length_pos_iff.2 ‹_›
  simp only [List.length_drop, blockSize]
  omega

/-- What can be read of a file. -/
structure Decoded where
  /-- The characters. -/
  text : List Char
  /-- What stops the reading before the end of the file. -/
  fault : Option Fault := none
  deriving DecidableEq, Repr

/-- Reads block after block, each with the character that the one before ended in. -/
def decodeBlocks (pending : Option Pending) : List (List UInt8) → Decoded
  | [] => { text := [], fault := pending.map Pending.cutOff }
  | block :: rest =>
    let carried := pending.map fun p => { p with position := 0 }
    match scan ((carried.map Pending.held).getD 0) carried block with
    | (_, .fault f) => { text := [], fault := some f }
    | (cs, .complete) =>
      let after := decodeBlocks none rest
      { after with text := cs ++ after.text }
    | (cs, .within p) =>
      let after := decodeBlocks (some { p with position := 0 }) rest
      { after with text := cs ++ after.text }

/-- The characters of a file, line ends unified.  A carriage return right before a fault is not
handed out, because the next character decides what it stands for. -/
def decode (bytes : List UInt8) : Decoded :=
  let all := decodeBlocks none (blocks bytes)
  match all.fault with
  | none => { text := unifyLineEnds all.text }
  | some f =>
    let text := if all.text.getLast? = some '\r' then all.text.dropLast else all.text
    { text := unifyLineEnds text, fault := some f }

/-! ### Bytes at once -/

/-- The characters of bytes that are read at once, or the first fault. -/
def decodeAtOnce (bytes : List UInt8) : Except Fault (List Char) :=
  match scan 0 none bytes with
  | (cs, .complete) => .ok cs
  | (_, .within p) => .error p.cutOff
  | (_, .fault f) => .error f

/-! ### Bytes from characters -/

/-- The bytes of characters. -/
def encode (text : List Char) : List UInt8 := text.flatMap String.utf8EncodeChar

/-- The bytes of a code point; a surrogate has none. -/
def encodeUnit? : CodePoint → Option (List UInt8)
  | .char c => some (String.utf8EncodeChar c)
  | .surrogate _ => none

/-- The bytes of a text. -/
def encode? : List CodePoint → Option (List UInt8)
  | [] => some []
  | c :: rest => (encodeUnit? c).bind fun bytes => (encode? rest).map (bytes ++ ·)

/-- Surrogates in a row cannot be written, the first of which is at a position. -/
def unencodable (position : Nat) (run : List CodePoint) : String :=
  let which := match run with
    | [c] => s!"character {quoted [c]} in position {position}"
    | _ => s!"characters in position {position}-{position + run.length - 1}"
  "'utf-8' codec can't encode " ++ which ++ ": surrogates not allowed"

example : decode [0x61, 0x0D, 0x0A, 0xC3, 0xA9] = { text := ['a', '\n', 'é'] } := by
  decide +kernel

example : ((decode [0x61, 0xFF]).fault.map Fault.message) =
    some "'utf-8' codec can't decode byte 0xff in position 1: invalid start byte" := by
  decide +kernel

end Offside.Text.Utf8
