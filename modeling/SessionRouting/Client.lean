/-
The client of the control protocol. Each call opens a connection, sends one line and reads one frame.
-/
import SessionRouting.Response

namespace SessionRouting

namespace Client

/-- A call of the client library. Its arguments are sent as they are. -/
inductive Call
  | connect (user host : String)
  | disconnect (user host : String)
  | disable (host : String)
  | enable (host : String)
  | failure (host : String)
  | info (topic : String)
  deriving DecidableEq, Repr

namespace Call

def kind : Call → Command.Kind
  | connect .. => .connect
  | disconnect .. => .disconnect
  | disable _ => .disable
  | enable _ => .enable
  | failure _ => .failure
  | info _ => .info

def args : Call → List String
  | connect user host => [user, host]
  | disconnect user host => [user, host]
  | disable host => [host]
  | enable host => [host]
  | failure host => [host]
  | info topic => [topic]

/-- The line that makes the call. -/
def line (c : Call) : String :=
  " ".intercalate (c.kind.name :: c.args)

end Call

/-- The bytes that send a line. -/
def request (line : String) : List UInt8 :=
  Text.Utf8.encode (line.toList ++ ['\n'])

variable {m : Type → Type} [Monad m]

/-- Sends a line and reads the answer. `dial` opens a connection, sends the bytes and gives all that comes
back. -/
def send (dial : List UInt8 → m (Except Response.Fault (List UInt8))) (line : String) :
    m (Except Response.Fault String) := do
  match ← dial (request line) with
  | .ok bytes => return Response.decode bytes
  | .error f => return .error f

end Client

end SessionRouting
