import LinkedMarkup.Numeral
import LinkedMarkup.Text
/-! Hosts of web addresses: names, and addresses of the fourth and the sixth version. A name whose
last label is a number has to be an address of the fourth version. -/
namespace LinkedMarkup.Web

inductive HostFault where
  | empty
  | name
  | address4
  | address6
  deriving DecidableEq, Repr

def HostFault.message : HostFault → String
  | empty => "empty host"
  | name => "invalid international domain name"
  | address4 => "invalid IPv4 address"
  | address6 => "invalid IPv6 address"

namespace Host

def hexDigit? (c : Char) : Option Nat :=
  if c.isDigit then some (c.toNat - 48)
  else if 'a' ≤ c && c ≤ 'f' then some (c.toNat - 87)
  else if 'A' ≤ c && c ≤ 'F' then some (c.toNat - 55)
  else none

def digitsIn? (base : Nat) (cs : List Char) : Option Nat :=
  cs.foldlM (fun n c => ((hexDigit? c).filter (· < base)).map (base * n + ·)) 0

/-- A part of an address: decimal, octal after a zero, hexadecimal after `0x`. -/
def number? (cs : List Char) : Option Nat :=
  match cs with
  | [] => none
  | '0' :: 'x' :: rest | '0' :: 'X' :: rest => digitsIn? 16 rest
  | '0' :: rest => digitsIn? 8 rest
  | _ => digitsIn? 10 cs

def dotted (n : Nat) : String :=
  Text.join "." ([3, 2, 1, 0].map fun place => Numeral.text (n / Nat.pow 256 place % 256))

/-- The labels of a name; a full stop at its end does not count. -/
def labels (cs : List Char) : List (List Char) :=
  let parts := Text.splitChars '.' cs
  if parts.length > 1 && parts.getLast? == some [] then parts.dropLast else parts

def endsInNumber (cs : List Char) : Bool :=
  match (labels cs).getLast? with
  | none => false
  | some last => (!last.isEmpty && last.all Char.isDigit)
      || (("0x".toList.isPrefixOf last || "0X".toList.isPrefixOf last) && (number? last).isSome)

/-- The numbers in front of the last one, each in its place from `place` down. -/
def leading (place : Nat) : List Nat → Nat
  | [] => 0
  | n :: rest => n * Nat.pow 256 place + leading (place - 1) rest

/-- Up to four numbers; the last one fills the places that are left. -/
def address4? (cs : List Char) : Option Nat := do
  let numbers ← (labels cs).mapM number?
  let last ← numbers.getLast?
  let front := numbers.dropLast
  if front.length > 3 || front.any (· > 255) || last ≥ Nat.pow 256 (4 - front.length) then none
  else return last + leading 3 front

/-- Four numbers below 256 without zeros in front. -/
def isStrictAddress4 (cs : List Char) : Bool :=
  let parts := Text.splitChars '.' cs
  parts.length == 4 && parts.all fun part =>
    (part.length == 1 || part.head? != some '0') && (digitsIn? 10 part).any (· < 256)
      && !part.isEmpty && part.length ≤ 3

def isGroup (cs : List Char) : Bool :=
  !cs.isEmpty && cs.length ≤ 4 && cs.all fun c => (hexDigit? c).isSome

/-- The number of groups between colons; at the very end an address of the fourth version may stand
for two. -/
def groups? (last : Bool) (cs : List Char) : Option Nat :=
  if cs.isEmpty then some 0
  else
    let parts := Text.splitChars ':' cs
    let ending := parts.getLast?.getD []
    if last && ending.contains '.' then
      if parts.dropLast.all isGroup && isStrictAddress4 ending then some (parts.length + 1)
      else none
    else if parts.all isGroup then some parts.length
    else none

/-- What stands before and after the first `::`. -/
def cutGap? : List Char → Option (List Char × List Char)
  | ':' :: ':' :: rest => some ([], rest)
  | c :: rest => (cutGap? rest).map fun (before, after) => (c :: before, after)
  | [] => none

def isAddress6 (cs : List Char) : Bool :=
  match cutGap? cs with
  | none => groups? true cs == some 8
  | some (before, after) =>
    match groups? false before, groups? true after with
    | some n, some m => n + m ≤ 7
    | _, _ => false

/-- Characters that no name holds. -/
def isForbidden (c : Char) : Bool :=
  c.toNat ≤ 0x20 || c.toNat == 0x7F || "#/:<>?@[\\]^|%".toList.contains c

def percentDecode : List Char → List UInt8
  | [] => []
  | '%' :: high :: low :: rest =>
    match hexDigit? high, hexDigit? low with
    | some h, some l => UInt8.ofNat (16 * h + l) :: percentDecode rest
    | _, _ => (String.singleton '%').toUTF8.toList ++ percentDecode (high :: low :: rest)
  | c :: rest => (String.singleton c).toUTF8.toList ++ percentDecode rest

/-- The canonical text of a host. -/
def parse (cs : List Char) : Except HostFault String :=
  if cs.isEmpty then .error .empty
  else if cs.head? == some '[' then
    let inner := (cs.drop 1).dropLast
    if cs.length > 1 && cs.getLast? == some ']' && isAddress6 inner then
      .ok (String.ofList (cs.map Char.toLower))
    else .error .address6
  else
    let decoded := (String.fromUTF8? (percentDecode cs).toByteArray).getD (String.ofList cs)
    let name := decoded.toList.map Char.toLower
    if name.any isForbidden then .error .name
    else if name.isEmpty then .error .empty
    else if endsInNumber name then
      match address4? name with
      | some n => .ok (dotted n)
      | none => .error .address4
    else .ok (String.ofList name)

end Host
end LinkedMarkup.Web
