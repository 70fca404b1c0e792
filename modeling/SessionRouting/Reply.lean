/-
Replies and the frames that carry them:

    +<text>\r\n                  success, on one line
    -ERR <message>\r\n           refusal
    $<bytes>\r\n<payload>\r\n    success, with a payload of any number of lines
-/
import SessionRouting.Refusal
import SessionRouting.Text.Digits
import SessionRouting.Text.Utf8

namespace SessionRouting

/-- What a successful command answers. -/
inductive Reply
  | simple (text : String)
  | bulk (payload : String)
  deriving DecidableEq, Repr

namespace Reply

/-- The reply of commands that have nothing to tell. -/
def ok : Reply := simple "OK"

/-- The text of the reply. -/
def payload : Reply → String
  | simple text => text
  | bulk payload => payload

end Reply

namespace Frame

open Text

/-- The end of every frame. -/
def ending : List Char := ['\r', '\n']

/-- A text on one line: a space for each carriage return and each line feed. -/
def oneLine (s : List Char) : List Char :=
  s.map fun c => if c = '\r' ∨ c = '\n' then ' ' else c

/-- The frame of a reply, as text. -/
def ofReply : Reply → List Char
  | .simple text => '+' :: oneLine text.toList ++ ending
  | .bulk payload =>
    '$' :: decimal (Utf8.encode payload.toList).length ++ ending ++ payload.toList ++ ending

/-- What a refusal begins with, after its sign. -/
def refusalMark : List Char := ['E', 'R', 'R', ' ']

/-- The frame of a refusal with this message, as text. -/
def ofMessage (message : String) : List Char :=
  '-' :: refusalMark ++ oneLine message.toList ++ ending

/-- The frame that answers a command line, as text. -/
def ofResult : Except Refusal Reply → List Char
  | .ok r => ofReply r
  | .error e => ofMessage e.message

/-- The bytes of a frame. -/
def bytes (frame : List Char) : List UInt8 :=
  Utf8.encode frame

end Frame

end SessionRouting
