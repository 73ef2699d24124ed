/-!
# Reading UTF-8 in blocks

Bytes are read one after another; a character of several bytes is pending until its last byte has
come. A byte that cannot be where it is found is a fault. A file is read in blocks, and a fault is
located relative to the bytes that were handed over together: the block, preceded by the pending
bytes of the block before.
-/

namespace FormulaSearch.Text.Utf8

/-- Bytes handed over together. -/
def blockSize : Nat := 8192

/-! ## Faults -/

inductive Cause where
  | invalidStart
  | invalidContinuation
  | unexpectedEnd
deriving DecidableEq, Repr

def Cause.message : Cause → String
  | .invalidStart => "invalid start byte"
  | .invalidContinuation => "invalid continuation byte"
  | .unexpectedEnd => "unexpected end of data"

/-- The bytes of a broken character, where they start in their block, and what is wrong. -/
structure Fault where
  bytes : List UInt8
  position : Nat
  cause : Cause
deriving DecidableEq, Repr

/-- A byte as two hexadecimal digits. -/
def byteText (b : UInt8) : String :=
  let digits := Nat.toDigits 16 b.toNat
  "0x" ++ String.ofList (List.replicate (2 - digits.length) '0' ++ digits)

/-- A single byte is shown, several are only located. -/
def Fault.message (f : Fault) : String :=
  let place := match f.bytes with
    | [b] => "byte " ++ byteText b ++ " in position " ++ toString f.position
    | bs => "bytes in position " ++ toString f.position ++ "-"
        ++ toString (f.position + bs.length - 1)
  "'utf-8' codec can't decode " ++ place ++ ": " ++ f.cause.message

/-! ## The decoder -/

/-- A character whose bytes have not all come: those seen (reversed), the number still to come, the
bits so far, and the bounds of the next byte. -/
structure Pending where
  seen : List UInt8
  missing : Nat
  bits : Nat
  low : Nat
  high : Nat

/-- What a byte above ASCII announces when it starts a character. The narrower bounds keep out
overlong forms, surrogates and codes beyond U+10FFFF. -/
def Pending.start? (b : UInt8) : Option Pending :=
  let n := b.toNat
  if 0xC2 ≤ n ∧ n ≤ 0xDF then some ⟨[b], 1, n % 0x20, 0x80, 0xBF⟩
  else if n = 0xE0 then some ⟨[b], 2, 0, 0xA0, 0xBF⟩
  else if n = 0xED then some ⟨[b], 2, 0xD, 0x80, 0x9F⟩
  else if 0xE1 ≤ n ∧ n ≤ 0xEF then some ⟨[b], 2, n % 0x10, 0x80, 0xBF⟩
  else if n = 0xF0 then some ⟨[b], 3, 0, 0x90, 0xBF⟩
  else if n = 0xF4 then some ⟨[b], 3, 4, 0x80, 0x8F⟩
  else if 0xF1 ≤ n ∧ n ≤ 0xF3 then some ⟨[b], 3, n % 8, 0x80, 0xBF⟩
  else none

/-- The number of bytes of a pending character that have come. -/
def heldBytes (pending : Option Pending) : Nat :=
  match pending with
  | none => 0
  | some p => p.seen.length

/-- Whether the first two bytes of a surrogate end a block. They are kept for the next block, and only
there found to be a fault. -/
def isDeferred (index : Nat) (p : Pending) (b : UInt8) : Bool :=
  p.seen == [0xED] && 0xA0 ≤ b.toNat && b.toNat ≤ 0xBF && (index + 1) % blockSize == 0

/-- Decodes from byte number `index` on; `base` is the number of the first byte handed over with it,
`done` the characters read so far, reversed. -/
def decodeFrom (index base : Nat) (pending : Option Pending) (done : List Char) :
    List UInt8 → Except Fault (List Char)
  | [] => match pending with
    | none => .ok done.reverse
    | some p => .error ⟨p.seen.reverse, 0, .unexpectedEnd⟩
  | b :: rest =>
    let base := if index % blockSize = 0 then index - heldBytes pending else base
    match pending with
    | none =>
      if b.toNat < 0x80 then
        decodeFrom (index + 1) base none (Char.ofNat b.toNat :: done) rest
      else match Pending.start? b with
        | none => .error ⟨[b], index - base, .invalidStart⟩
        | some p => decodeFrom (index + 1) base (some p) done rest
    | some p =>
      if p.low ≤ b.toNat ∧ b.toNat ≤ p.high then
        let bits := p.bits * 0x40 + b.toNat % 0x40
        if p.missing ≤ 1 then
          decodeFrom (index + 1) base none (Char.ofNat bits :: done) rest
        else
          decodeFrom (index + 1) base
            (some ⟨b :: p.seen, p.missing - 1, bits, 0x80, 0xBF⟩) done rest
      else
        let position := if isDeferred index p b then 0 else index - p.seen.length - base
        .error ⟨p.seen.reverse, position, .invalidContinuation⟩

/-- The characters of a file's bytes. -/
def decode (bytes : List UInt8) : Except Fault (List Char) :=
  decodeFrom 0 0 none [] bytes

end FormulaSearch.Text.Utf8
