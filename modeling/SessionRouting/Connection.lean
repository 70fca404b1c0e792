/-
Control connections: a client sends one line, gets one frame and the connection ends. The line ends at
the first line feed; it and its line feed have at most `Line.maxBytes` bytes. `Line.read` reads it from
the chunks in which the bytes arrive.
-/
import SessionRouting.Reply

namespace SessionRouting

open Text

namespace Line

/-- The greatest number of bytes of a line, with its line feed. -/
def maxBytes : Nat := 4096

def lineFeed : UInt8 := 10

/-- What has been read of a line. -/
structure Progress where
  bytes : List UInt8 := []
  /-- Nothing more is read, because of a line feed or because of the limit. -/
  isDone : Bool := false
  deriving DecidableEq, Repr

/-- The bytes up to the first line feed, and whether there is one. -/
def cutAtLineFeed : List UInt8 → List UInt8 × Bool
  | [] => ([], false)
  | b :: r =>
    if b = lineFeed then ([b], true)
    else
      let (bytes, found) := cutAtLineFeed r
      (b :: bytes, found)

namespace Progress

/-- Reads on in a chunk. Bytes after the line feed or beyond the limit are left unread. -/
def feed (p : Progress) (chunk : List UInt8) : Progress :=
  if p.isDone then p
  else
    let (bytes, found) := cutAtLineFeed (chunk.take (maxBytes - p.bytes.length))
    { bytes := p.bytes ++ bytes, isDone := found || maxBytes ≤ p.bytes.length + bytes.length }

end Progress

/-- Why what was read is not a line. -/
inductive Fault
  | tooLong
  | notText (f : Utf8.Fault)
  deriving DecidableEq, Repr

namespace Fault

def message : Fault → String
  | tooLong => "command line too long"
  | notText f => f.message

end Fault

/-- The line that the bytes give, without line ends; nothing if there are no bytes. -/
def ofBytes (bytes : List UInt8) : Except Fault (Option String) :=
  if bytes = [] then .ok none
  else if bytes.getLast? ≠ some lineFeed ∧ maxBytes ≤ bytes.length then .error .tooLong
  else match Utf8.decode bytes with
    | .ok cs => .ok (some (String.ofList (dropEnd (fun c => c = '\r' || c = '\n') cs)))
    | .error f => .error (.notText f)

/-- Reads a line from chunks of bytes, after which the connection is at its end. -/
def read (chunks : List (List UInt8)) : Except Fault (Option String) :=
  ofBytes (chunks.foldl Progress.feed {}).bytes

end Line

namespace Connection

variable {m : Type → Type} [Monad m]

/-- Answers the line that was read, if one was. -/
def answer (submit : String → m (Except Refusal Reply)) (line : Except Line.Fault (Option String)) :
    m (List UInt8) := do
  match line with
  | .ok (some line) => return Frame.bytes (Frame.ofResult (← submit line))
  | _ => return []

/-- Serves a client that sends chunks of bytes. One that holds the connection open (`ended` is false)
gets no answer without a whole line: its time runs out. -/
def serve (submit : String → m (Except Refusal Reply)) (chunks : List (List UInt8)) (ended : Bool) :
    m (List UInt8) :=
  let progress := chunks.foldl Line.Progress.feed {}
  if ended || progress.isDone then answer submit (Line.ofBytes progress.bytes) else return []

end Connection

end SessionRouting
