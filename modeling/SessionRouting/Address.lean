/-
Addresses of backends and targets. Every address that names a host, a route or a session is brought
to its canonical text `host:port` first, so that `Host1` and `host1:22` name the same backend.
`Address.parse` reads an address and `Address.text` writes the canonical text.
-/
import SessionRouting.Net.Ip
import SessionRouting.Text.Blank

namespace SessionRouting

open Text

/-- A host in lower case, an IPv6 literal with its brackets, and a port. -/
structure Address where
  host : List Char
  port : Nat
  deriving DecidableEq, Repr

namespace Address

/-- The port of an address that names none. -/
def defaultPort : Nat := 22

/-- Why a text is not an address. -/
inductive Fault
  | empty
  | host (text : String)
  | port (text : String)
  deriving DecidableEq, Repr

namespace Fault

def message : Fault → String
  | empty => "empty address"
  | host text => "invalid host '" ++ text ++ "'"
  | port text => "invalid port in '" ++ text ++ "'"

end Fault

/-- The characters of a host name. -/
def isHostChar (c : Char) : Bool :=
  c.isAlphanum || c == '-' || c == '.' || c == '_'

/-- A host name is one or more ASCII letters, digits, hyphens, dots and underscores. -/
def isHostName (s : List Char) : Bool :=
  !s.isEmpty && s.all isHostChar

/-- Reads a port from 1 to 65535, with or without a plus sign. -/
def readPort (s : List Char) : Option Nat :=
  match readCount 65535 s with
  | some 0 => none
  | p => p

/-- What is written of an address: its host text, and its port text if it has one. -/
inductive Shape
  /-- A literal between brackets and what comes after the closing one. -/
  | bracketed (literal after : List Char)
  | plain (host : List Char) (port : Option (List Char))
  /-- An opening bracket without a closing one. -/
  | unclosed

/-- Splits an address at its first closing bracket or, without brackets, at its last colon. -/
def Shape.of : List Char → Shape
  | '[' :: r =>
    match cutFirst ']' r with
    | some (literal, after) => .bracketed literal after
    | none => .unclosed
  | s =>
    match cutLast ':' s with
    | some (host, port) => .plain host (some port)
    | none => .plain s none

/-- Reads an address without blanks around it. -/
def parseTrimmed (s : List Char) : Except Fault Address :=
  let text := String.ofList s
  let withPort (host : List Char) : Option (List Char) → Except Fault Address
    | none => .ok ⟨host, defaultPort⟩
    | some p =>
      match readPort p with
      | some n => .ok ⟨host, n⟩
      | none => .error (.port text)
  if s = [] then .error .empty
  else match Shape.of s with
    | .unclosed => .error (.host text)
    | .bracketed literal after =>
      if (Net.Ipv6.read? literal).isNone then .error (.host text)
      else
        let host := '[' :: literal.map Char.toLower ++ [']']
        match after with
        | [] => withPort host none
        | ':' :: p => withPort host (some p)
        | _ => .error (.port text)
    | .plain host port =>
      if isHostName host then withPort (host.map Char.toLower) port else .error (.host text)

/-- Reads `host`, `host:port`, `[v6]` or `[v6]:port` with any blanks around it. -/
def parse (raw : String) : Except Fault Address :=
  parseTrimmed (trim raw.toList)

/-- The canonical text of an address. -/
def text (a : Address) : String :=
  String.ofList (a.host ++ ':' :: decimal a.port)

/-- The canonical text of the address that `raw` writes. -/
def normalize (raw : String) : Except Fault String :=
  (parse raw).map text

end Address

end SessionRouting
