/-
Socket addresses: an IP address literal and a port, as in `127.0.0.1:80` and `[::1]:80`. An IPv6
address may carry a numeric scope, as in `[fe80::1%2]:80`.
-/
import SessionRouting.Net.Ip

namespace SessionRouting.Net

open Text

inductive SocketAddress
  | v4 (octets : List Nat) (port : Nat)
  | v6 (groups : List Nat) (scope : Option Nat) (port : Nat)
  deriving DecidableEq, Repr

namespace SocketAddress

/-- Reads an IPv6 address with or without a scope. -/
def readScoped (s : List Char) : Option (List Nat × Option Nat) :=
  match cutFirst '%' s with
  | none => (Ipv6.read? s).map (·, none)
  | some (ip, scope) =>
    match Ipv6.read? ip, readDigits 10 0xFFFFFFFF scope with
    | some groups, some n => some (groups, some n)
    | _, _ => none

/-- Reads a socket address. The port has no sign and may have leading zeros. -/
def read? (s : String) : Option SocketAddress :=
  match s.toList with
  | '[' :: r =>
    match cutFirst ']' r with
    | some (ip, ':' :: port) =>
      match readScoped ip, readDigits 10 0xFFFF port with
      | some (groups, scope), some n => some (.v6 groups scope n)
      | _, _ => none
    | _ => none
  | r =>
    match cutFirst ':' r with
    | some (ip, port) =>
      match Ipv4.read? ip, readDigits 10 0xFFFF port with
      | some octets, some n => some (.v4 octets n)
      | _, _ => none
    | none => none

end SocketAddress

end SessionRouting.Net
