import LookML.Text.Quoted

/-!
# UTF-8

Reading bytes as UTF-8.  The first malformed sequence is reported with the
bytes it covers: the longest beginning of a character that the bytes spell, or
one byte that can begin none.
-/

namespace LookML.Text

/-- Why bytes are not UTF-8. -/
inductive Utf8Reason where
  | invalidStart
  | invalidContinuation
  | unexpectedEnd
  deriving Repr, DecidableEq

def Utf8Reason.message : Utf8Reason → Text
  | .invalidStart => "invalid start byte".toList
  | .invalidContinuation => "invalid continuation byte".toList
  | .unexpectedEnd => "unexpected end of data".toList

/-- A malformed sequence: where it starts, its bytes and what is wrong. -/
structure Utf8Fault where
  position : Nat
  bytes : List UInt8
  reason : Utf8Reason
  deriving Repr, DecidableEq

/-- The wording of a fault: a single byte is shown, of several the span is given. -/
def Utf8Fault.message (fault : Utf8Fault) : Text :=
  let position := ofNat fault.position
  let place :=
    match fault.bytes with
    | [byte] => "byte 0x".toList ++ hex 2 byte.toNat ++ " in position ".toList ++ position
    | bytes =>
      "bytes in position ".toList ++ position ++ ['-']
        ++ ofNat (fault.position + bytes.length - 1)
  "'utf-8' codec can't decode ".toList ++ place ++ ": ".toList ++ fault.reason.message

/-- How the bytes after a first byte continue a character: how many follow, the
bounds of the first of them, and the bits the first byte gives. -/
structure Utf8Lead where
  following : Nat
  low : UInt8
  high : UInt8
  bits : Nat
  deriving Repr, DecidableEq

/-- What a first byte promises; `none` if no character starts with it. -/
def utf8Lead? (byte : UInt8) : Option Utf8Lead :=
  if byte < 0x80 then some ⟨0, 0x80, 0xBF, byte.toNat⟩
  else if byte < 0xC2 then none
  else if byte < 0xE0 then some ⟨1, 0x80, 0xBF, byte.toNat - 0xC0⟩
  else if byte = 0xE0 then some ⟨2, 0xA0, 0xBF, 0⟩
  else if byte = 0xED then some ⟨2, 0x80, 0x9F, 0xD⟩
  else if byte < 0xF0 then some ⟨2, 0x80, 0xBF, byte.toNat - 0xE0⟩
  else if byte = 0xF0 then some ⟨3, 0x90, 0xBF, 0⟩
  else if byte < 0xF4 then some ⟨3, 0x80, 0xBF, byte.toNat - 0xF0⟩
  else if byte = 0xF4 then some ⟨3, 0x80, 0x8F, 4⟩
  else none

/-- Read `following` continuation bytes, the first of them within bounds.  The
result is the value and the rest, or the bytes read and what stopped them. -/
def utf8Continue (low high : UInt8) :
    Nat → Nat → List UInt8 → Except (List UInt8 × Utf8Reason) (Nat × List UInt8)
  | 0, value, bytes => .ok (value, bytes)
  | _ + 1, _, [] => .error ([], .unexpectedEnd)
  | following + 1, value, byte :: bytes =>
    if low ≤ byte && byte ≤ high then
      match utf8Continue 0x80 0xBF following (value * 64 + byte.toNat % 64) bytes with
      | .ok result => .ok result
      | .error (read, reason) => .error (byte :: read, reason)
    else
      .error ([], .invalidContinuation)

theorem length_utf8Continue {low high : UInt8} {following value : Nat}
    {bytes rest : List UInt8} {result : Nat}
    (read : utf8Continue low high following value bytes = .ok (result, rest)) :
    rest.length ≤ bytes.length := by
  induction following generalizing low high value bytes with
  | zero =>
    simp only [utf8Continue, Except.ok.injEq, Prod.mk.injEq] at read
    simp [read.2]
  | succ following ih =>
    cases bytes with
    | nil => simp [utf8Continue] at read
    | cons byte bytes =>
      simp only [utf8Continue] at read
      split at read
      · split at read
        · rename_i continued
          cases read
          exact Nat.le_succ_of_le (ih continued)
        · cases read
      · cases read

/-- Decode bytes from a position on. -/
def decodeUtf8From (position : Nat) : List UInt8 → Except Utf8Fault Text
  | [] => .ok []
  | byte :: bytes =>
    match utf8Lead? byte with
    | none => .error ⟨position, [byte], .invalidStart⟩
    | some lead =>
      match continued : utf8Continue lead.low lead.high lead.following lead.bits bytes with
      | .error (read, reason) => .error ⟨position, byte :: read, reason⟩
      | .ok (code, rest) => do
          let text ← decodeUtf8From (position + 1 + lead.following) rest
          .ok (Char.ofNat code :: text)
  termination_by bytes => bytes.length
  decreasing_by
    have := length_utf8Continue continued
    simp only [List.length_cons]
    omega

/-- The text that bytes spell in UTF-8. -/
def decodeUtf8 (bytes : List UInt8) : Except Utf8Fault Text :=
  decodeUtf8From 0 bytes

def encodeUtf8Char (c : Char) : List UInt8 :=
  let code := c.toNat
  let tail (shift : Nat) : UInt8 := (0x80 + code / shift % 64).toUInt8
  if code < 0x80 then [code.toUInt8]
  else if code < 0x800 then [(0xC0 + code / 64).toUInt8, tail 1]
  else if code < 0x10000 then [(0xE0 + code / 4096).toUInt8, tail 64, tail 1]
  else [(0xF0 + code / 262144).toUInt8, tail 4096, tail 64, tail 1]

def encodeUtf8 (text : Text) : List UInt8 :=
  text.flatMap encodeUtf8Char

end LookML.Text
