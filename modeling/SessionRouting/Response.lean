/-
Reading frames on the side of the client. `Response.decode` gives the payload of a reply, the message
of a refusal, or the reason why the bytes are no frame.
-/
import SessionRouting.Reply
import SessionRouting.Text.Split

namespace SessionRouting

namespace Response

open Text

/-- Why bytes are no frame. -/
inductive Malformation
  | notText (f : Utf8.Fault)
  | noEnding
  | noLengthLine
  | badLength (text : String)
  | wrongLength (stated received : Nat)
  | unexpected (body : String)
  deriving DecidableEq, Repr

namespace Malformation

def message : Malformation → String
  | notText f => f.message
  | noEnding => "missing CRLF terminator"
  | noLengthLine => "bulk frame without length line"
  | badLength text => "bad bulk length '" ++ text ++ "'"
  | wrongLength stated received =>
    "bulk length " ++ toString stated ++ " but " ++ toString received ++ " bytes received"
  | unexpected body => "unexpected frame '" ++ body ++ "'"

end Malformation

/-- Why a call to the daemon gives no payload. -/
inductive Fault
  /-- The connection fails. -/
  | io (reason : String)
  | timeout
  /-- The daemon refuses the command. -/
  | refused (message : String)
  | malformed (m : Malformation)
  deriving DecidableEq, Repr

namespace Fault

def message : Fault → String
  | io reason => "IO error: " ++ reason
  | timeout => "timed out waiting for the daemon"
  | refused message => message
  | malformed m => "malformed response: " ++ m.message

end Fault

/-- The text without the frame ending at its end. -/
def dropEnding : List Char → Option (List Char)
  | [] => none
  | c :: r => if c :: r = Frame.ending then some [] else (dropEnding r).map (c :: ·)

/-- The message of a refusal, without its mark. -/
def dropMark (s : List Char) : List Char :=
  if Frame.refusalMark.isPrefixOf s then s.drop Frame.refusalMark.length else s

/-- The greatest length that a frame can state. -/
def maxLength : Nat := 0xFFFFFFFFFFFFFFFF

/-- Reads the payload of a reply of many lines, after its sign. -/
def decodeBulk (s : List Char) : Except Fault String :=
  match cutPair '\r' '\n' s with
  | none => .error (.malformed .noLengthLine)
  | some (length, payload) =>
    match readCount maxLength length with
    | none => .error (.malformed (.badLength (String.ofList length)))
    | some n =>
      let received := (Utf8.encode payload).length
      if received = n then .ok (String.ofList payload) else .error (.malformed (.wrongLength n received))

/-- Reads a frame without its ending. -/
def decodeBody : List Char → Except Fault String
  | '+' :: text => .ok (String.ofList text)
  | '-' :: message => .error (.refused (String.ofList (dropMark message)))
  | '$' :: r => decodeBulk r
  | body => .error (.malformed (.unexpected (String.ofList body)))

/-- Reads all bytes of a response as one frame. -/
def decode (bytes : List UInt8) : Except Fault String :=
  match Utf8.decode bytes with
  | .error f => .error (.malformed (.notText f))
  | .ok cs =>
    match dropEnding cs with
    | none => .error (.malformed .noEnding)
    | some body => decodeBody body

end Response

end SessionRouting
