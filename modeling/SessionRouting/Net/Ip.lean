/-
IP address literals. An IPv4 address is written as four decimal octets; an IPv6 address as eight
groups of hexadecimal digits, the last two of which may be written as an IPv4 address, and one run
of zero groups as `::`.
-/
import SessionRouting.Text.Digits
import SessionRouting.Text.Split

namespace SessionRouting.Net

open Text

namespace Ipv4

/-- Reads an octet: one to three digits up to 255, no zero before another digit. -/
def readOctet (s : List Char) : Option Nat :=
  if s.length ≤ 3 ∧ (s.length = 1 ∨ s.head? ≠ some '0') then readDigits 10 255 s else none

/-- Reads the four octets of an IPv4 address. -/
def read? (s : List Char) : Option (List Nat) :=
  let fs := fields '.' s
  if fs.length = 4 then fs.mapM readOctet else none

end Ipv4

namespace Ipv6

/-- Reads a group: one to four hexadecimal digits. -/
def readGroup (s : List Char) : Option Nat :=
  if s.length ≤ 4 then readDigits 16 0xFFFF s else none

/-- Reads groups of which the last two may be written as an IPv4 address. -/
def readTail : List (List Char) → Option (List Nat)
  | [] => some []
  | [f] =>
    match readGroup f with
    | some g => some [g]
    | none => match Ipv4.read? f with
      | some [a, b, c, d] => some [256 * a + b, 256 * c + d]
      | _ => none
  | f :: fs =>
    match readGroup f, readTail fs with
    | some g, some gs => some (g :: gs)
    | _, _ => none

/-- The groups between colons, none when there is no text at all. -/
def groupTexts (s : List Char) : List (List Char) :=
  if s = [] then [] else fields ':' s

/-- Reads the eight groups of an IPv6 address. `::` stands for at least one zero group, and no IPv4
address comes before it. -/
def read? (s : List Char) : Option (List Nat) :=
  match cutPair ':' ':' s with
  | none =>
    match readTail (groupTexts s) with
    | some gs => if gs.length = 8 then some gs else none
    | none => none
  | some (front, back) =>
    match (groupTexts front).mapM readGroup, readTail (groupTexts back) with
    | some hs, some ts =>
      if hs.length + ts.length ≤ 7 then some (hs ++ List.replicate (8 - hs.length - ts.length) 0 ++ ts) else none
    | _, _ => none

/-- The address as one number, first group most significant. -/
def value (groups : List Nat) : Nat :=
  groups.foldl (fun n g => 65536 * n + g) 0

end Ipv6

end SessionRouting.Net
