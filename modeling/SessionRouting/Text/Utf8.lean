/-
UTF-8. `encode` writes a text as bytes. `decode` reads bytes back and tells, where they are not
UTF-8, where the first fault begins and how long it is; `decodeLossy` puts U+FFFD in the place of
each fault and reads on.
-/
namespace SessionRouting.Text.Utf8

/-- The bytes of a text. -/
def encode (s : List Char) : List UInt8 :=
  s.flatMap String.utf8EncodeChar

/-- How bytes fail to begin a character. -/
inductive Break
  /-- The first `length` bytes are the longest beginning of a character, and the byte after them does
  not continue it. -/
  | invalid (length : Nat)
  /-- The bytes end inside a character. -/
  | truncated
  deriving DecidableEq, Repr

/-- The range that the second byte of a character has to lie in, which the first byte fixes. -/
def secondRange (first : Nat) : Nat × Nat :=
  if first = 0xE0 then (0xA0, 0xBF)
  else if first = 0xED then (0x80, 0x9F)
  else if first = 0xF0 then (0x90, 0xBF)
  else if first = 0xF4 then (0x80, 0x8F)
  else (0x80, 0xBF)

/-- The number of bytes after the first one in a character that begins with this byte. -/
def tailLength (first : Nat) : Option Nat :=
  if first < 0x80 then some 0
  else if 0xC2 ≤ first ∧ first ≤ 0xDF then some 1
  else if 0xE0 ≤ first ∧ first ≤ 0xEF then some 2
  else if 0xF0 ≤ first ∧ first ≤ 0xF4 then some 3
  else none

/-- Reads `count` continuation bytes after `read` bytes of the character; the next one has to lie
between `low` and `high`, the ones after it between 0x80 and 0xBF. -/
def readTail (code read : Nat) : Nat → Nat × Nat → List UInt8 → Except Break Nat
  | 0, _, _ => .ok code
  | _ + 1, _, [] => .error .truncated
  | count + 1, (low, high), b :: r =>
    if low ≤ b.toNat ∧ b.toNat ≤ high
    then readTail (64 * code + (b.toNat - 0x80)) (read + 1) count (0x80, 0xBF) r
    else .error (.invalid read)

/-- Reads the character that begins with `first` and goes on in `rest`, with the number of bytes that
it takes from `rest`. -/
def decodeChar (first : UInt8) (rest : List UInt8) : Except Break (Char × Nat) :=
  let b := first.toNat
  match tailLength b with
  | none => .error (.invalid 1)
  | some count =>
    let lead := if count = 0 then b else if count = 1 then b - 0xC0 else if count = 2 then b - 0xE0 else b - 0xF0
    match readTail lead 1 count (secondRange b) rest with
    | .ok code => .ok (Char.ofNat code, count)
    | .error e => .error e

/-- Where bytes are not UTF-8, and how. -/
structure Fault where
  index : Nat
  cause : Break
  deriving DecidableEq, Repr

namespace Fault

def message : Fault → String
  | ⟨i, .invalid n⟩ => "invalid utf-8 sequence of " ++ toString n ++ " bytes from index " ++ toString i
  | ⟨i, .truncated⟩ => "incomplete utf-8 byte sequence from index " ++ toString i

end Fault

/-- Reads bytes that begin at the given index. -/
def decodeFrom (index : Nat) : List UInt8 → Except Fault (List Char)
  | [] => .ok []
  | b :: r =>
    match decodeChar b r with
    | .error cause => .error ⟨index, cause⟩
    | .ok (c, n) =>
      match decodeFrom (index + n + 1) (r.drop n) with
      | .ok cs => .ok (c :: cs)
      | .error e => .error e
  termination_by bytes => bytes.length
  decreasing_by simp only [List.length_drop, List.length_cons]; omega

/-- Reads bytes as text. -/
def decode (bytes : List UInt8) : Except Fault (List Char) :=
  decodeFrom 0 bytes

/-- Reads bytes as text with U+FFFD for each fault: for the longest beginning of a character that is
not continued, for a byte that begins none, and for a character cut short at the end. -/
def decodeLossy : List UInt8 → List Char
  | [] => []
  | b :: r =>
    match decodeChar b r with
    | .ok (c, n) => c :: decodeLossy (r.drop n)
    | .error (.invalid n) => '\uFFFD' :: decodeLossy (r.drop (n - 1))
    | .error .truncated => ['\uFFFD']
  termination_by bytes => bytes.length
  decreasing_by all_goals simp only [List.length_drop, List.length_cons]; omega

end SessionRouting.Text.Utf8
