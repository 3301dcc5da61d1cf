import HackVM.Text.Numeral

/-! # Strict decoding of UTF-8

A decoder that reads one byte at a time.  Between two characters it expects a
first byte, which says how many bytes follow and which values the next of them
may take; inside a character it expects those.  When a byte does not fit, or the
bytes end inside a character, it says where the character started, which of its
bytes had been accepted, and what was wrong. -/
namespace HackVM.Text.Utf8

/-- What a byte that continues a character may be, both ends included. -/
structure Window where
  low : Nat
  high : Nat
deriving DecidableEq

/-- Whether a byte lies in a window. -/
def Window.holds (w : Window) (b : UInt8) : Bool := w.low ≤ b.toNat && b.toNat ≤ w.high

/-- The window of most continuation bytes. -/
def tail : Window := ⟨0x80, 0xBF⟩

/-- A character that has been begun: the value of its bits so far, the window of
the byte that is owed next, those of the bytes owed after it, and the bytes that
have been accepted. -/
structure Pending where
  value : Nat
  next : Window
  later : List Window
  accepted : List UInt8
deriving DecidableEq

/-- What a first byte announces: the value of its own bits and the windows of the
bytes that follow.  Overlong forms, surrogates and code points beyond the last
are kept out by the second byte's window; no first byte announces them. -/
def opening (b : UInt8) : Option (Nat × List Window) :=
  let n := b.toNat
  if n < 0x80 then some (n, [])
  else if n < 0xC2 then none
  else if n < 0xE0 then some (n - 0xC0, [tail])
  else if n = 0xE0 then some (0, [⟨0xA0, 0xBF⟩, tail])
  else if n = 0xED then some (0xD, [⟨0x80, 0x9F⟩, tail])
  else if n < 0xF0 then some (n - 0xE0, [tail, tail])
  else if n = 0xF0 then some (0, [⟨0x90, 0xBF⟩, tail, tail])
  else if n < 0xF4 then some (n - 0xF0, [tail, tail, tail])
  else if n = 0xF4 then some (4, [⟨0x80, 0x8F⟩, tail, tail])
  else none

/-- Why bytes are not UTF-8. -/
inductive Reason where
  | invalidStart
  | invalidContinuation
  | unexpectedEnd
deriving DecidableEq

/-- Where and why decoding stopped: the position at which the offending character
starts, and those of its bytes that had been accepted (for an invalid first byte,
that byte). -/
structure Fault where
  position : Nat
  bytes : List UInt8
  reason : Reason
deriving DecidableEq

/-- The wording of a reason. -/
def Reason.message : Reason → String
  | .invalidStart => "invalid start byte"
  | .invalidContinuation => "invalid continuation byte"
  | .unexpectedEnd => "unexpected end of data"

/-- The text of a fault: one offending byte is shown, several are given by the
positions of the first and the last. -/
def Fault.message (f : Fault) : String :=
  (match f.bytes with
    | [b] =>
      "'utf-8' codec can't decode byte 0x" ++ String.ofList (hexadecimal 2 b.toNat)
        ++ " in position " ++ decimal f.position
    | bytes =>
      "'utf-8' codec can't decode bytes in position " ++ decimal f.position ++ "-"
        ++ decimal (f.position + bytes.length - 1))
  ++ ": " ++ f.reason.message

/-- The characters of the bytes from a position on, given the character that is
begun there, if one is. -/
def decodeFrom (position : Nat) : Option Pending → List UInt8 → Except Fault (List Char)
  | none, [] => .ok []
  | some p, [] => .error ⟨position, p.accepted, .unexpectedEnd⟩
  | none, b :: bs =>
    match opening b with
    | none => .error ⟨position, [b], .invalidStart⟩
    | some (value, []) => (Char.ofNat value :: ·) <$> decodeFrom (position + 1) none bs
    | some (value, next :: later) => decodeFrom position (some ⟨value, next, later, [b]⟩) bs
  | some p, b :: bs =>
    if p.next.holds b then
      let value := p.value * 64 + (b.toNat - 0x80)
      match p.later with
      | [] => (Char.ofNat value :: ·) <$> decodeFrom (position + p.accepted.length + 1) none bs
      | next :: later =>
        decodeFrom position (some ⟨value, next, later, p.accepted ++ [b]⟩) bs
    else .error ⟨position, p.accepted, .invalidContinuation⟩
termination_by structural _ bytes => bytes

/-- The characters that the bytes encode. -/
def decode (bytes : List UInt8) : Except Fault (List Char) := decodeFrom 0 none bytes

/-- The bytes that encode a text. -/
def encode (s : String) : List UInt8 := s.toUTF8.toList

end HackVM.Text.Utf8
