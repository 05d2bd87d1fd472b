/-
Addresses as text (`src/core/address.cpp`).

`netudp_parse_address` takes a dotted quad or a bracketed IPv6 address, a colon and a port.
It leaves the numbers to the C library, which skips blanks, takes a sign and stops at the
first character that does not fit; what `atoi`, `strtoul` and the `%u` of `sscanf` read is
modelled here as the C standard has it, and as glibc has it where the standard leaves a
number too large for its type undefined: `atoi` is `strtol`, whose result is cut to an
`int`.

`netudp_address_to_string` prints the other way round, into a buffer of the caller's:
`snprintf` writes as much of the text as fits before the zero that ends it.

A text is the bytes up to the first zero.
-/
import Netudp.Connection.Connection
import Netudp.Lib.Buffer

namespace Netudp

open Lib

/-! ### What the C library reads -/

/-- `isspace`. -/
def isSpace (b : UInt8) : Bool :=
  b = ' '.toUInt8 || (9 ≤ b.toNat && b.toNat ≤ 13)

/-- The value of a digit in the base, which is 10 or 16. -/
def digitValue (base : Nat) (b : UInt8) : Option Nat :=
  let value : Option Nat :=
    if '0'.toUInt8 ≤ b ∧ b ≤ '9'.toUInt8 then some (b.toNat - 48)
    else if 'a'.toUInt8 ≤ b ∧ b ≤ 'f'.toUInt8 then some (b.toNat - 97 + 10)
    else if 'A'.toUInt8 ≤ b ∧ b ≤ 'F'.toUInt8 then some (b.toNat - 65 + 10)
    else none
  value.filter (· < base)

/-- The digits at the front, after those that have made up the number so far, and what
follows them. -/
def readDigits (base : Nat) : Nat → Bytes → Nat × Bytes
  | number, [] => (number, [])
  | number, b :: rest =>
    match digitValue base b with
    | some digit => readDigits base (number * base + digit) rest
    | none => (number, b :: rest)

/-- The sign at the front, if there is one; `true` is minus. -/
def readSign : Bytes → Bool × Bytes
  | [] => (false, [])
  | b :: rest =>
    if b = '-'.toUInt8 then (true, rest)
    else if b = '+'.toUInt8 then (false, rest)
    else (false, b :: rest)

/-- The `0x` that may precede the digits of a hexadecimal number. -/
def skipHexMark (base : Nat) (text : Bytes) : Bytes :=
  match text with
  | zero :: x :: digit :: rest =>
    if base = 16 ∧ zero = '0'.toUInt8 ∧ (x = 'x'.toUInt8 ∨ x = 'X'.toUInt8) ∧
        (digitValue 16 digit).isSome = true then digit :: rest
    else text
  | _ => text

/-- Blanks, a sign and digits: whether the number is negative, its magnitude, and what
follows.  `none` when there is no digit, and nothing is converted. -/
def readNumber (base : Nat) (text : Bytes) : Option (Bool × Nat × Bytes) :=
  let (negative, text) := readSign (text.dropWhile isSpace)
  let text := skipHexMark base text
  if (digitValue base (text.headD 0)).isSome then
    let (number, rest) := readDigits base 0 text
    some (negative, number, rest)
  else none

/-- `atoi`: a number too large is `LONG_MAX` or `LONG_MIN` for `strtol`, of which an `int`
keeps the low 32 bits. -/
def atoi (text : Bytes) : Int :=
  match readNumber 10 text with
  | none => 0
  | some (negative, number, _) =>
    wrap32 (if negative then max (-number) (-2 ^ 63) else min number (2 ^ 63 - 1))

/-- `strtoul`, and the text at `end`; a number too large is `ULONG_MAX`, and a minus sign
wraps around. -/
def strtoul (base : Nat) (text : Bytes) : Option (Nat × Bytes) :=
  (readNumber base text).map fun (negative, number, rest) =>
    (if u64Size ≤ number then u64Size - 1
      else if negative then (u64Size - number) % u64Size else number, rest)

/-- A `%u` of `sscanf`: `strtoul`, of which an `unsigned int` keeps the low 32 bits. -/
def scanUnsigned (text : Bytes) : Option (Nat × Bytes) :=
  (strtoul 10 text).map fun (value, rest) => (value % u32Size, rest)

/-- A `.%u` of `sscanf`. -/
def scanDotUnsigned : Bytes → Option (Nat × Bytes)
  | [] => none
  | b :: rest => if b = '.'.toUInt8 then scanUnsigned rest else none

/-- `sscanf` with `%u.%u.%u.%u`, when it converts all four. -/
def scanQuad (text : Bytes) : Option (List Nat) := do
  let (a, text) ← scanUnsigned text
  let (b, text) ← scanDotUnsigned text
  let (c, text) ← scanDotUnsigned text
  let (d, _) ← scanDotUnsigned text
  return [a, b, c, d]

/-! ### The parser -/

/-- `NETUDP_ADDRESS_IPV4`. -/
def addressIpv4 : UInt8 := 1

/-- `NETUDP_ADDRESS_IPV6`. -/
def addressIpv6 : UInt8 := 2

/-- `address_zero()` with the four octets filled in. -/
def ipv4Address (octets : List Nat) (port : Nat) : Address where
  data := padTo 16 0 ((octets.map UInt8.ofNat).take 4)
  port := UInt16.ofNat port
  type := addressIpv4

/-- `address_zero()` with the eight groups filled in. -/
def ipv6Address (groups : List Nat) (port : Nat) : Address where
  data := padTo 16 0 (groups.flatMap (leBytes 2))
  port := UInt16.ofNat port
  type := addressIpv6

/-- The loop over the groups of an IPv6 address, with those read so far and the number of
them at which a `::` stood.  Every round takes at least one character. -/
def readGroups : Nat → List Nat → Option Nat → Bytes → Option (List Nat × Option Nat)
  | 0, groups, doubleColon, _ => some (groups, doubleColon)
  | fuel + 1, groups, doubleColon, text =>
    if text = [] ∨ 8 ≤ groups.length then some (groups, doubleColon)
    else if text.take 2 = [':'.toUInt8, ':'.toUInt8] then
      -- Only one `::` is allowed.
      if doubleColon.isSome then none
      else readGroups fuel groups (some groups.length) (text.drop 2)
    else
      let text := if text.headD 0 = ':'.toUInt8 then text.drop 1 else text
      match strtoul 16 text with
      | none => none
      | some (value, rest) =>
        if 0xFFFF < value then none
        else readGroups fuel (groups ++ [value]) doubleColon rest

/-- The eight groups: a `::` stands for as many zeros as are missing, and without one they
are at the end. -/
def expandGroups (groups : List Nat) (doubleColon : Option Nat) : List Nat :=
  let fill := List.replicate (8 - groups.length) 0
  match doubleColon with
  | none => groups ++ fill
  | some pos => groups.take pos ++ fill ++ groups.drop pos

/-- The port after the colon, which `atoi` reads. -/
def parsePort (text : Bytes) : Option Nat :=
  let port := atoi text
  if port ≤ 0 ∨ 65535 < port then none else some port.toNat

/-- The bracketed form, from after the bracket on. -/
def parseIpv6 (text : Bytes) : Option Address :=
  let ipv6 := text.takeWhile (· ≠ ']'.toUInt8)
  match text.dropWhile (· ≠ ']'.toUInt8) with
  | _ :: colon :: portText =>
    if ipv6.length = 0 ∨ 45 < ipv6.length then none
    else if colon ≠ ':'.toUInt8 then none
    else do
      let port ← parsePort portText
      let (groups, doubleColon) ← readGroups ipv6.length [] none ipv6
      return ipv6Address (expandGroups groups doubleColon) port
  | _ => none

/-- The other form, up to the last colon and after it. -/
def parseIpv4 (text : Bytes) : Option Address :=
  if ':'.toUInt8 ∉ text then none
  else
    let portText := (text.reverse.takeWhile (· ≠ ':'.toUInt8)).reverse
    let ip := text.take (text.length - portText.length - 1)
    match parsePort portText with
    | none => none
    | some port =>
      if ip.length = 0 ∨ 45 < ip.length then none
      else if ip = ['0', '.', '0', '.', '0', '.', '0'].map Char.toUInt8 then
        some (ipv4Address [] port)
      else if ip = [':', ':'].map Char.toUInt8 then some (ipv6Address [] port)
      else
        match scanQuad ip with
        | none => none
        | some octets =>
          if octets.any (255 < ·) then none else some (ipv4Address octets port)

/-- `netudp_parse_address`; `none` is `NETUDP_ERROR_INVALID_PARAM`. -/
def parseAddress (str : Bytes) : Option Address :=
  match str.takeWhile (· ≠ 0) with
  | [] => none
  | b :: rest => if b = '['.toUInt8 then parseIpv6 rest else parseIpv4 (b :: rest)

/-! ### The printer -/

/-- The `%u` of `snprintf`, with the base 10, and its `%x`, with the base 16. -/
def printNumber (base n : Nat) : Bytes := (Nat.toDigits base n).map Char.toUInt8

/-- `data.ipv4` of an address. -/
def Address.octets (a : Address) : List Nat := (a.data.toList.take 4).map UInt8.toNat

/-- `data.ipv6` of an address, the two bytes of a group as the machine has them. -/
def Address.groups (a : Address) : List Nat :=
  (List.range 8).map fun i => leNat (readAt a.data.toList (2 * i) 2)

/-- The whole text of an address; no `::` stands for groups of zeros. -/
def addressText (a : Address) : Bytes :=
  if a.type = addressIpv4 then
    ['.'.toUInt8].intercalate (a.octets.map (printNumber 10)) ++
      ':'.toUInt8 :: printNumber 10 a.port.toNat
  else if a.type = addressIpv6 then
    '['.toUInt8 :: ([':'.toUInt8].intercalate (a.groups.map (printNumber 16)) ++
      ']'.toUInt8 :: ':'.toUInt8 :: printNumber 10 a.port.toNat)
  else ['n', 'o', 'n', 'e', ':', '0'].map Char.toUInt8

/-- `netudp_address_to_string`: the buffer, whose length is `buf_len`, afterwards. -/
def addressToString (a : Address) (buf : Bytes) : Bytes :=
  if buf.length < 2 then buf
  else writeAt buf 0 ((addressText a).take (buf.length - 1) ++ [0])

end Netudp
