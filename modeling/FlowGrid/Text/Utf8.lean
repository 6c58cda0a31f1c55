import FlowGrid.Text.Quoted

/-! Reading bytes as text. The bytes have to be UTF-8 in its shortest form and
without surrogates; the first place where they are not is reported with the
bytes that were given up on. Line ends are then made uniform. -/

namespace FlowGrid.Text

/-- Why bytes are no text. -/
inductive Utf8Cause
  | startByte
  | continuationByte
  | endOfData
deriving DecidableEq, Repr

/-- The bytes that could not be read: the first of them, its place, and how many they are. -/
structure Utf8Fault where
  cause : Utf8Cause
  byte : UInt8
  offset : Nat
  count : Nat
deriving DecidableEq, Repr

namespace Utf8Fault

def reason : Utf8Cause → String
  | .startByte => "invalid start byte"
  | .continuationByte => "invalid continuation byte"
  | .endOfData => "unexpected end of data"

def message (f : Utf8Fault) : String :=
  let what :=
    if f.count = 1 then s!"byte 0x{hex 2 f.byte.toNat} in position {f.offset}"
    else s!"bytes in position {f.offset}-{f.offset + f.count - 1}"
  s!"'utf-8' codec can't decode {what}: {reason f.cause}"

end Utf8Fault

/-- What a first byte announces: the bits it gives, how many bytes follow, and
the range of the first of them. -/
structure Lead where
  bits : Nat
  following : Nat
  low : Nat
  high : Nat

/-- The announcement of a byte above the ASCII range, if it can come first. -/
def lead? (b : Nat) : Option Lead :=
  if 0xC2 ≤ b && b ≤ 0xDF then some ⟨b - 0xC0, 1, 0x80, 0xBF⟩
  else if b = 0xE0 then some ⟨0, 2, 0xA0, 0xBF⟩
  else if b = 0xED then some ⟨0xD, 2, 0x80, 0x9F⟩
  else if 0xE1 ≤ b && b ≤ 0xEF then some ⟨b - 0xE0, 2, 0x80, 0xBF⟩
  else if b = 0xF0 then some ⟨0, 3, 0x90, 0xBF⟩
  else if b = 0xF4 then some ⟨4, 3, 0x80, 0x8F⟩
  else if 0xF1 ≤ b && b ≤ 0xF3 then some ⟨b - 0xF0, 3, 0x80, 0xBF⟩
  else none

/-- Collects the announced following bytes into `bits`; `taken` counts the bytes
read so far. The answer is a character with the number of bytes it took, or the
cause of the failure with the number of bytes to blame. -/
def continueChar (bits : Nat) (low high : Nat) (taken : Nat) :
    Nat → List UInt8 → Except (Utf8Cause × Nat) (Char × Nat)
  | 0, _ => .ok (Char.ofNat bits, taken)
  | _ + 1, [] => .error (.endOfData, taken)
  | more + 1, b :: rest =>
    if low ≤ b.toNat && b.toNat ≤ high then
      continueChar (bits * 64 + (b.toNat - 0x80)) 0x80 0xBF (taken + 1) more rest
    else .error (.continuationByte, taken)

/-- Decodes bytes that stand at `offset`, of which the first `skip` belong to the
character before. -/
def decodeFrom (offset skip : Nat) : List UInt8 → Except Utf8Fault (List Char)
  | [] => .ok []
  | b :: rest =>
    match skip with
    | skip + 1 => decodeFrom (offset + 1) skip rest
    | 0 =>
      if b.toNat < 0x80 then (decodeFrom (offset + 1) 0 rest).map (Char.ofNat b.toNat :: ·)
      else
        match lead? b.toNat with
        | none => .error ⟨.startByte, b, offset, 1⟩
        | some l =>
          match continueChar l.bits l.low l.high 1 l.following rest with
          | .error (cause, count) => .error ⟨cause, b, offset, count⟩
          | .ok (c, taken) => (decodeFrom (offset + 1) (taken - 1) rest).map (c :: ·)

/-- The characters that the bytes spell. -/
def decodeUtf8 (bytes : List UInt8) : Except Utf8Fault (List Char) := decodeFrom 0 0 bytes

/-- Writes every line end as a line feed. -/
def uniformLines : List Char → List Char
  | [] => []
  | '\r' :: '\n' :: rest => '\n' :: uniformLines rest
  | '\r' :: rest => '\n' :: uniformLines rest
  | c :: rest => c :: uniformLines rest

/-- The text that bytes spell, with uniform line ends. -/
def read (bytes : List UInt8) : Except Utf8Fault String :=
  (decodeUtf8 bytes).map fun cs => String.ofList (uniformLines cs)

end FlowGrid.Text
