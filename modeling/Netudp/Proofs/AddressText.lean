/-
An address that is printed is parsed again.

The C library's readers are lenient, but a run of digits between separators they read as
the number it spells, and the printer writes nothing else.  What is left is to follow the
parser along the text: the bracket, the colon before the port, the four octets or the
eight groups.  The loop over the groups is told by what it does in one round, with a group
or a `::` at the front.
-/
import Netudp.Lib.Slices
import Netudp.Lib.Text
import Netudp.Proofs.ConnectToken

namespace Netudp

open Lib

/-! ### What the C library makes of digits -/

/-- A digit in the base. -/
def isDigit (base : Nat) (b : UInt8) : Bool := (digitValue base b).isSome

/-- The number that digits spell. -/
def number (base : Nat) (digits : Bytes) : Nat := digitsNumber (digitValue base) base 0 digits

/-- Not one of the characters that may precede the digits of a number. -/
def Plain (b : UInt8) : Prop :=
  isSpace b = false ∧ b ∉ ['-', '+', 'x', 'X'].map Char.toUInt8
deriving Decidable

/-- One digit or more. -/
structure Digits (base : Nat) (digits : Bytes) : Prop where
  ne : digits ≠ []
  all : ∀ b ∈ digits, isDigit base b = true

/-- The text is over, or goes on with a character that ends a number. -/
def Stops (base : Nat) (rest : Bytes) : Prop :=
  ∀ b ∈ rest.head?, isDigit base b = false ∧ Plain b

@[simp] theorem stops_nil (base : Nat) : Stops base [] := by
  simp [Stops]

theorem digitValue_lt {base digit : Nat} {b : UInt8} (h : digitValue base b = some digit) :
    digit < base := by
  rw [digitValue, Option.filter_eq_some_iff] at h
  simpa using h.2

/-- A byte that is zero, which `readNumber` takes the end of the text for, is no digit. -/
theorem digitValue_zero (base : Nat) : digitValue base 0 = none := rfl

theorem plain_of_isDigit {base : Nat} {b : UInt8} (h : isDigit base b = true) : Plain b := by
  have hrange : (48 ≤ b.toNat ∧ b.toNat ≤ 57) ∨ (97 ≤ b.toNat ∧ b.toNat ≤ 102) ∨
      (65 ≤ b.toNat ∧ b.toNat ≤ 70) := by
    simp only [isDigit, digitValue] at h
    split_ifs at h with hdec hlower hupper
    · exact Or.inl hdec
    · exact Or.inr (Or.inl hlower)
    · exact Or.inr (Or.inr hupper)
    · simp at h
  have hne : ∀ c : UInt8, c.toNat < 48 ∨ c.toNat = 88 ∨ c.toNat = 120 → b ≠ c := by
    intro c hc hbc
    rw [hbc] at hrange
    omega
  refine ⟨?_, ?_⟩
  · have hblank : b ≠ ' '.toUInt8 := hne _ (Or.inl (by decide))
    simp only [isSpace, hblank, decide_false, Bool.false_or, Bool.and_eq_false_iff,
      decide_eq_false_iff_not]
    omega
  · simp only [List.map_cons, List.map_nil, List.mem_cons, List.not_mem_nil, or_false, not_or]
    exact ⟨hne _ (by decide), hne _ (by decide), hne _ (by decide), hne _ (by decide)⟩

theorem number_lt {base : Nat} {digits : Bytes} (h : Digits base digits) :
    number base digits < base ^ digits.length := by
  have hall : ∀ b ∈ digits, (digitValue base b).getD 0 < base := by
    intro b hb
    obtain ⟨digit, hdigit⟩ := Option.isSome_iff_exists.mp (h.all b hb)
    rw [hdigit]
    exact digitValue_lt hdigit
  simpa [number] using digitsNumber_lt hall 0

theorem readDigits_eq (base n : Nat) (text : Bytes) :
    readDigits base n text =
      (digitsNumber (digitValue base) base n (text.takeWhile (isDigit base)),
        text.dropWhile (isDigit base)) := by
  induction text generalizing n with
  | nil => simp [readDigits, digitsNumber]
  | cons b rest ih =>
    cases hb : digitValue base b with
    | none => simp [readDigits, isDigit, hb, digitsNumber]
    | some digit => simp [readDigits, isDigit, hb, ih, digitsNumber_cons]

theorem skipHexMark_plain {base : Nat} {b : UInt8} {rest : Bytes}
    (h : ∀ x ∈ rest.head?, Plain x) : skipHexMark base (b :: rest) = b :: rest := by
  match rest with
  | [] => rfl
  | [_] => rfl
  | x :: digit :: rest =>
    have hx : Plain x := h x rfl
    have hmark : ¬(x = 'x'.toUInt8 ∨ x = 'X'.toUInt8) := by
      rintro (rfl | rfl)
      · exact hx.2 (by decide)
      · exact hx.2 (by decide)
    simp [skipHexMark, hmark]

/-- **Where nothing precedes it, a number is its digits.** -/
theorem readNumber_plain {base : Nat} {text : Bytes} (hfirst : ∀ b ∈ text.head?, Plain b)
    (hsecond : ∀ b ∈ text.tail.head?, Plain b) :
    readNumber base text =
      if text.takeWhile (isDigit base) = [] then none
      else some (false, number base (text.takeWhile (isDigit base)),
        text.dropWhile (isDigit base)) := by
  cases text with
  | nil => simp [readNumber, readSign, skipHexMark, digitValue_zero]
  | cons b rest =>
    have hb : Plain b := hfirst b rfl
    have hspace : (b :: rest).dropWhile isSpace = b :: rest := by
      simp [hb.1]
    have hsign : readSign (b :: rest) = (false, b :: rest) := by
      have hminus : b ≠ '-'.toUInt8 := fun hc => hb.2 (by simp [hc])
      have hplus : b ≠ '+'.toUInt8 := fun hc => hb.2 (by simp [hc])
      simp [readSign, hminus, hplus]
    have hmark : skipHexMark base (b :: rest) = b :: rest := skipHexMark_plain hsecond
    rw [readNumber, hspace, hsign]
    simp only [hmark, readDigits_eq, List.headD_cons]
    cases hdigit : digitValue base b with
    | none => simp [isDigit, hdigit]
    | some digit => simp [isDigit, hdigit, number]

section Numbers

variable {base : Nat} {digits rest : Bytes}

theorem takeWhile_digits (h : Digits base digits) (hrest : Stops base rest) :
    (digits ++ rest).takeWhile (isDigit base) = digits := by
  rw [List.takeWhile_append_of_pos h.all]
  cases rest with
  | nil => simp
  | cons b rest => simp [(hrest b rfl).1]

theorem dropWhile_digits (h : Digits base digits) (hrest : Stops base rest) :
    (digits ++ rest).dropWhile (isDigit base) = rest := by
  rw [List.dropWhile_append_of_pos h.all]
  cases rest with
  | nil => rfl
  | cons b rest => simp [(hrest b rfl).1]

theorem readNumber_digits (h : Digits base digits) (hrest : Stops base rest) :
    readNumber base (digits ++ rest) = some (false, number base digits, rest) := by
  have hplain : ∀ b ∈ digits, Plain b := fun b hb => plain_of_isDigit (h.all b hb)
  rw [readNumber_plain, takeWhile_digits h hrest, dropWhile_digits h hrest, if_neg h.ne]
  · intro b hb
    obtain ⟨digit, more, rfl⟩ := List.exists_cons_of_ne_nil h.ne
    obtain rfl : digit = b := by simpa using hb
    exact hplain digit List.mem_cons_self
  · intro b hb
    obtain ⟨digit, more, rfl⟩ := List.exists_cons_of_ne_nil h.ne
    cases more with
    | nil => exact (hrest b hb).2
    | cons next more =>
      obtain rfl : next = b := by simpa using hb
      exact hplain next (by simp)

theorem number_lt_short (hbase : base ≤ 16) (h : Digits base digits)
    (hlength : digits.length ≤ 4) : number base digits < 2 ^ 16 :=
  calc number base digits < base ^ digits.length := number_lt h
    _ ≤ 16 ^ digits.length := Nat.pow_le_pow_left hbase _
    _ ≤ 16 ^ 4 := Nat.pow_le_pow_right (by decide) hlength

theorem strtoul_digits (hbase : base ≤ 16) (h : Digits base digits) (hlength : digits.length ≤ 4)
    (hrest : Stops base rest) : strtoul base (digits ++ rest) = some (number base digits, rest) := by
  have hlt := number_lt_short hbase h hlength
  have hfits : ¬ u64Size ≤ number base digits := by
    rw [u64Size]
    omega
  simp [strtoul, readNumber_digits h hrest, hfits]

theorem parsePort_digits (h : Digits 10 digits) (hsmall : number 10 digits < 2 ^ 31) :
    parsePort digits =
      if number 10 digits = 0 ∨ 65535 < number 10 digits then none
      else some (number 10 digits) := by
  have hread : readNumber 10 (digits ++ []) = some (false, number 10 digits, []) :=
    readNumber_digits h (stops_nil 10)
  rw [List.append_nil] at hread
  have hatoi : atoi digits = number 10 digits := by
    simp only [atoi, hread, Bool.false_eq_true, if_false]
    rw [min_eq_left (by omega), wrap32_eq (by omega) (by omega)]
  simp only [parsePort, hatoi, Int.toNat_natCast]
  congr 1
  rw [eq_iff_iff]
  omega

end Numbers

theorem not_mem_digits {base : Nat} {digits : Bytes} {c : UInt8} (h : Digits base digits)
    (hc : isDigit base c = false) : c ∉ digits := by
  intro hmem
  rw [h.all c hmem] at hc
  cases hc

theorem not_mem_numbers {base : Nat} {parts : List Bytes} {c sep : UInt8}
    (hparts : ∀ part ∈ parts, Digits base part) (hsep : c ≠ sep) (hc : isDigit base c = false) :
    c ∉ [sep].intercalate parts := by
  intro hmem
  rcases of_mem_intercalate hmem with rfl | ⟨part, hpart, hin⟩
  · exact hsep rfl
  · exact not_mem_digits (hparts part hpart) hc hin

/-! ### The text taken apart -/

/-- The text in a buffer, which the first zero ends. -/
def cString (str : Bytes) : Bytes := str.takeWhile (· ≠ 0)

theorem parseAddress_bracket {str rest : Bytes} (h : cString str = '['.toUInt8 :: rest) :
    parseAddress str = parseIpv6 rest := by
  rw [cString] at h
  rw [parseAddress, h]
  simp

theorem parseAddress_other {str : Bytes} (h : (cString str).head? ≠ some '['.toUInt8) :
    parseAddress str = parseIpv4 (cString str) := by
  rw [cString] at h ⊢
  rw [parseAddress]
  cases htext : str.takeWhile (· ≠ 0) with
  | nil => simp [parseIpv4]
  | cons b rest =>
    rw [htext] at h
    have hb : b ≠ '['.toUInt8 := by simpa using h
    simp [hb]

/-- What `parseIpv4` does with the text before the last colon. -/
def parseIp (ip : Bytes) (port : Nat) : Option Address :=
  if ip.length = 0 ∨ 45 < ip.length then none
  else if ip = ['0', '.', '0', '.', '0', '.', '0'].map Char.toUInt8 then
    some (ipv4Address [] port)
  else if ip = [':', ':'].map Char.toUInt8 then some (ipv6Address [] port)
  else
    match scanQuad ip with
    | none => none
    | some octets => if octets.any (255 < ·) then none else some (ipv4Address octets port)

theorem parseIpv4_append (ip : Bytes) {portText : Bytes} (h : ':'.toUInt8 ∉ portText) :
    parseIpv4 (ip ++ ':'.toUInt8 :: portText) = (parsePort portText).bind (parseIp ip) := by
  have hport : ((ip ++ ':'.toUInt8 :: portText).reverse.takeWhile (· ≠ ':'.toUInt8)).reverse =
      portText := by
    have hreverse : (ip ++ ':'.toUInt8 :: portText).reverse =
        portText.reverse ++ ':'.toUInt8 :: ip.reverse := by
      simp
    rw [hreverse, takeWhile_ne_append (by simpa using h), List.reverse_reverse]
  have hip : (ip ++ ':'.toUInt8 :: portText).take
      ((ip ++ ':'.toUInt8 :: portText).length - portText.length - 1) = ip := by
    apply List.take_left'
    simp only [List.length_append, List.length_cons]
    omega
  have hmem : ':'.toUInt8 ∈ ip ++ ':'.toUInt8 :: portText := by
    simp
  simp only [parseIpv4, hport, hip, hmem, not_true_eq_false, if_false]
  cases parsePort portText with
  | none => rfl
  | some port => rfl

theorem parseIpv6_append {ip : Bytes} (portText : Bytes) (h : ']'.toUInt8 ∉ ip)
    (hpos : 0 < ip.length) (hlong : ip.length ≤ 45) :
    parseIpv6 (ip ++ ']'.toUInt8 :: ':'.toUInt8 :: portText) =
      (parsePort portText).bind fun port =>
        (readGroups ip.length [] none ip).map fun out =>
          ipv6Address (expandGroups out.1 out.2) port := by
  have hlength : ¬(ip.length = 0 ∨ 45 < ip.length) := by
    omega
  simp only [parseIpv6, takeWhile_ne_append h, dropWhile_ne_append h, if_neg hlength,
    ne_eq, not_true_eq_false, if_false]
  cases parsePort portText with
  | none => rfl
  | some port =>
    cases readGroups ip.length [] none ip with
    | none => rfl
    | some out => rfl

/-! ### The octets -/

/-- An octet as text. -/
structure Octet (digits : Bytes) : Prop extends Digits 10 digits where
  length : digits.length ≤ 3
  range : number 10 digits ≤ 255

theorem stops_led_dot (parts : List Bytes) : Stops 10 (led '.'.toUInt8 parts) := by
  cases parts with
  | nil => simp
  | cons part parts =>
    intro b hb
    obtain rfl : '.'.toUInt8 = b := by simpa using hb
    decide

theorem scanUnsigned_octet {part rest : Bytes} (h : Octet part) (hrest : Stops 10 rest) :
    scanUnsigned (part ++ rest) = some (number 10 part, rest) := by
  have hread := strtoul_digits (by decide) h.toDigits (h.length.trans (by decide)) hrest
  have hmod : number 10 part % u32Size = number 10 part :=
    Nat.mod_eq_of_lt (Nat.lt_of_le_of_lt h.range (by decide))
  simp [scanUnsigned, hread, hmod]

theorem scanDotUnsigned_led {part : Bytes} (h : Octet part) (parts : List Bytes) :
    scanDotUnsigned (led '.'.toUInt8 (part :: parts)) =
      some (number 10 part, led '.'.toUInt8 parts) := by
  rw [led_cons, scanDotUnsigned, if_pos rfl, scanUnsigned_octet h (stops_led_dot parts)]

theorem scanQuad_octets {octets : List Bytes} (hfour : octets.length = 4)
    (hoctets : ∀ octet ∈ octets, Octet octet) :
    scanQuad (['.'.toUInt8].intercalate octets) = some (octets.map (number 10)) := by
  obtain ⟨a, b, c, d, rfl⟩ : ∃ a b c d, octets = [a, b, c, d] := by
    match octets, hfour with
    | [a, b, c, d], _ => exact ⟨a, b, c, d, rfl⟩
  simp only [List.forall_mem_cons] at hoctets
  obtain ⟨ha, hb, hc, hd, -⟩ := hoctets
  rw [intercalate_cons]
  simp only [scanQuad, scanUnsigned_octet ha (stops_led_dot [b, c, d]), scanDotUnsigned_led hb,
    scanDotUnsigned_led hc, scanDotUnsigned_led hd, Option.bind_eq_bind, Option.bind_some,
    Option.pure_def, List.map_cons, List.map_nil]

theorem isDigit_head_octets {octets : List Bytes} (hfour : octets.length = 4)
    (hoctets : ∀ octet ∈ octets, Octet octet) :
    ∃ b rest, isDigit 10 b = true ∧ ['.'.toUInt8].intercalate octets = b :: rest := by
  obtain ⟨octet, octets, rfl⟩ := List.exists_cons_of_length_pos (l := octets) (by omega)
  have hoctet : Octet octet := hoctets octet (by simp)
  obtain ⟨b, digits, rfl⟩ := List.exists_cons_of_ne_nil hoctet.ne
  exact ⟨b, digits ++ led '.'.toUInt8 octets, hoctet.all b (by simp), intercalate_cons _⟩

theorem head_octets_ne {octets : List Bytes} (hfour : octets.length = 4)
    (hoctets : ∀ octet ∈ octets, Octet octet) (rest : Bytes) :
    (['.'.toUInt8].intercalate octets ++ rest).head? ≠ some '['.toUInt8 := by
  obtain ⟨b, more, hb, htext⟩ := isDigit_head_octets hfour hoctets
  rw [htext]
  intro hcontra
  obtain rfl : b = '['.toUInt8 := by simpa using hcontra
  exact absurd hb (by decide)

/-- **A dotted quad is parsed into its octets**, the one with its own branch as well. -/
theorem parseIp_octets {octets : List Bytes} (hfour : octets.length = 4)
    (hoctets : ∀ octet ∈ octets, Octet octet) (port : Nat) :
    parseIp (['.'.toUInt8].intercalate octets) port =
      some (ipv4Address (octets.map (number 10)) port) := by
  have hscan := scanQuad_octets hfour hoctets
  obtain ⟨b, rest, hb, htext⟩ := isDigit_head_octets hfour hoctets
  have hlong : (['.'.toUInt8].intercalate octets).length ≤ octets.length * (3 + 1) - 1 :=
    length_intercalate_le fun octet hoctet => (hoctets octet hoctet).length
  have hlength : ¬((['.'.toUInt8].intercalate octets).length = 0 ∨
      45 < (['.'.toUInt8].intercalate octets).length) := by
    have hpos : 0 < (['.'.toUInt8].intercalate octets).length := by
      simp [htext]
    omega
  have hcolons : ['.'.toUInt8].intercalate octets ≠ [':', ':'].map Char.toUInt8 := by
    intro hcontra
    rw [htext] at hcontra
    obtain rfl : b = ':'.toUInt8 := (List.cons.inj hcontra).1
    exact absurd hb (by decide)
  have hrange : (octets.map (number 10)).any (255 < ·) = false := by
    rw [List.any_map, List.any_eq_false]
    intro octet hoctet
    simpa using (hoctets octet hoctet).range
  rw [parseIp, if_neg hlength]
  split_ifs with hzero
  · -- The branch for all zeros fills in nothing, and the octets are zero.
    rw [hzero] at hscan
    have hoctetsZero : octets.map (number 10) = [0, 0, 0, 0] :=
      (Option.some.inj hscan).symm
    rw [hoctetsZero]
    rfl
  · simp [hscan, hrange]

/-! ### The groups -/

/-- A group as text. -/
structure HexGroup (digits : Bytes) : Prop extends Digits 16 digits where
  length : digits.length ≤ 4

/-- The text is over, or goes on with a colon. -/
def AtColon (rest : Bytes) : Prop := ∀ b ∈ rest.head?, b = ':'.toUInt8

@[simp] theorem atColon_nil : AtColon [] := by
  simp [AtColon]

@[simp] theorem atColon_cons (rest : Bytes) : AtColon (':'.toUInt8 :: rest) := by
  simp [AtColon]

theorem AtColon.stops {rest : Bytes} (h : AtColon rest) : Stops 16 rest := by
  intro b hb
  rw [h b hb]
  decide

/-- Groups with a colon before each, or with a first one that is `bare`. -/
def joinGroups (bare : Bool) (parts : List Bytes) : Bytes :=
  if bare then [':'.toUInt8].intercalate parts else led ':'.toUInt8 parts

@[simp] theorem joinGroups_nil (bare : Bool) : joinGroups bare [] = [] := by
  cases bare <;> rfl

theorem joinGroups_cons (bare : Bool) (part : Bytes) (parts : List Bytes) :
    joinGroups bare (part :: parts) =
      (if bare then [] else [':'.toUInt8]) ++ part ++ joinGroups false parts := by
  cases bare with
  | false => simp [joinGroups]
  | true => simp [joinGroups, intercalate_cons]

theorem atColon_joinGroups (parts : List Bytes) {rest : Bytes} (hrest : AtColon rest) :
    AtColon (joinGroups false parts ++ rest) := by
  cases parts with
  | nil => simpa using hrest
  | cons part parts => simp [joinGroups_cons]

theorem HexGroup.exists_cons {digits : Bytes} (h : HexGroup digits) :
    ∃ b rest, digits = b :: rest ∧ b ≠ ':'.toUInt8 := by
  obtain ⟨b, rest, rfl⟩ := List.exists_cons_of_ne_nil h.ne
  refine ⟨b, rest, rfl, ?_⟩
  rintro rfl
  have hcolon : isDigit 16 ':'.toUInt8 = true := h.all _ List.mem_cons_self
  exact absurd hcolon (by decide)

theorem HexGroup.number_le {digits : Bytes} (h : HexGroup digits) :
    number 16 digits ≤ 0xFFFF := by
  have hlt := number_lt h.toDigits
  have hpow : 16 ^ digits.length ≤ 16 ^ 4 := Nat.pow_le_pow_right (by decide) h.length
  omega

theorem HexGroup.strtoul {digits rest : Bytes} (h : HexGroup digits) (hrest : AtColon rest) :
    strtoul 16 (digits ++ rest) = some (number 16 digits, rest) :=
  strtoul_digits (by decide) h.toDigits h.length hrest.stops

section Loop

variable {fuel : Nat} {groups : List Nat} {doubleColon : Option Nat} {rest : Bytes}

@[simp] theorem readGroups_nil (fuel : Nat) (groups : List Nat) (doubleColon : Option Nat) :
    readGroups fuel groups doubleColon [] = some (groups, doubleColon) := by
  cases fuel with
  | zero => rfl
  | succ fuel => simp [readGroups]

theorem strtoul_colon (rest : Bytes) : strtoul 16 (':'.toUInt8 :: rest) = none := by
  match rest with
  | [] => rfl
  | [_] => rfl
  | _ :: _ :: _ => rfl

/-- One round with a number, which a colon may precede. -/
theorem readGroups_number {lead text : Bytes} {value : Nat}
    (hlead : lead = [] ∨ lead = [':'.toUInt8]) (hread : strtoul 16 text = some (value, rest))
    (hvalue : value ≤ 0xFFFF) (hroom : groups.length < 8) :
    readGroups (fuel + 1) groups doubleColon (lead ++ text) =
      readGroups fuel (groups ++ [value]) doubleColon rest := by
  cases text with
  | nil => cases hread
  | cons b more =>
    have hb : b ≠ ':'.toUInt8 := by
      rintro rfl
      rw [strtoul_colon] at hread
      cases hread
    rcases hlead with rfl | rfl
    · simp [readGroups, hb, Nat.not_le.mpr hroom, hread, Nat.not_lt.mpr hvalue]
    · simp [readGroups, hb, Nat.not_le.mpr hroom, hread, Nat.not_lt.mpr hvalue]

/-- One round with the `::`. -/
theorem readGroups_double (hroom : groups.length < 8) :
    readGroups (fuel + 1) groups none (':'.toUInt8 :: ':'.toUInt8 :: rest) =
      readGroups fuel groups (some groups.length) rest := by
  simp [readGroups, Nat.not_le.mpr hroom]

/-- **Groups with single colons between them are read one after another.** -/
theorem readGroups_joinGroups (bare : Bool) {parts : List Bytes}
    (hparts : ∀ part ∈ parts, HexGroup part) (hrest : AtColon rest)
    (hroom : groups.length + parts.length ≤ 8) :
    readGroups (fuel + parts.length) groups doubleColon (joinGroups bare parts ++ rest) =
      readGroups fuel (groups ++ parts.map (number 16)) doubleColon rest := by
  induction parts generalizing bare groups with
  | nil => simp
  | cons part parts ih =>
    obtain ⟨hpart, hothers⟩ := List.forall_mem_cons.mp hparts
    rw [List.length_cons] at hroom
    have hround : readGroups (fuel + parts.length + 1) groups doubleColon
          ((if bare then [] else [':'.toUInt8]) ++ (part ++ (joinGroups false parts ++ rest))) =
        _ :=
      readGroups_number (by cases bare <;> simp) (hpart.strtoul (atColon_joinGroups parts hrest))
        hpart.number_le (by omega)
    rw [ih false hothers (by simp only [List.length_append, List.length_singleton]; omega)]
      at hround
    simpa [joinGroups_cons, Nat.add_assoc] using hround

end Loop

/-- **An address of groups with single colons between them is parsed into its groups.** -/
theorem parseIpv6_groups {parts : List Bytes} (hparts : ∀ part ∈ parts, HexGroup part)
    (hpos : 0 < parts.length) (height : parts.length ≤ 8) (portText : Bytes) :
    parseIpv6 ([':'.toUInt8].intercalate parts ++ ']'.toUInt8 :: ':'.toUInt8 :: portText) =
      (parsePort portText).map fun port =>
        ipv6Address (expandGroups (parts.map (number 16)) none) port := by
  have hbracket : ']'.toUInt8 ∉ [':'.toUInt8].intercalate parts :=
    not_mem_numbers (fun part hpart => (hparts part hpart).toDigits) (by decide) rfl
  have hlong : ([':'.toUInt8].intercalate parts).length ≤ parts.length * (4 + 1) - 1 :=
    length_intercalate_le fun part hpart => (hparts part hpart).length
  have hcount : parts.length ≤ ([':'.toUInt8].intercalate parts).length :=
    length_le_intercalate fun part hpart => (hparts part hpart).ne
  -- There are as many rounds as characters, and each takes a group.
  have hread : readGroups ([':'.toUInt8].intercalate parts).length [] none
      ([':'.toUInt8].intercalate parts) = some (parts.map (number 16), none) := by
    obtain ⟨more, hmore⟩ := Nat.exists_eq_add_of_le' hcount
    have hall : readGroups (more + parts.length) [] none
        ([':'.toUInt8].intercalate parts ++ []) = _ :=
      readGroups_joinGroups true hparts atColon_nil (by simpa using height)
    rwa [List.append_nil, readGroups_nil, ← hmore] at hall
  rw [parseIpv6_append portText hbracket (by omega) (by omega), hread]
  cases parsePort portText with
  | none => rfl
  | some port => rfl

/-! ### What is printed -/

section Printed

variable {base : Nat}

theorem digitValue_digitChar (hbase : base = 10 ∨ base = 16) :
    ∀ digit < base, digitValue base digit.digitChar.toUInt8 = some digit := by
  rcases hbase with rfl | rfl
  · decide
  · decide

theorem digits_printNumber (hbase : base = 10 ∨ base = 16) (n : Nat) :
    Digits base (printNumber base n) := by
  refine ⟨?_, (digitsNumber_toDigits (by omega) (digitValue_digitChar hbase) n).2⟩
  simp [printNumber, Nat.toDigits_ne_nil]

theorem number_printNumber (hbase : base = 10 ∨ base = 16) (n : Nat) :
    number base (printNumber base n) = n :=
  (digitsNumber_toDigits (by omega) (digitValue_digitChar hbase) n).1

theorem length_printNumber_le (hbase : base = 10 ∨ base = 16) {n most : Nat} (hmost : 0 < most)
    (hn : n < base ^ most) : (printNumber base n).length ≤ most := by
  rw [printNumber, List.length_map]
  exact (Nat.length_toDigits_le_iff (by omega) hmost).mpr hn

end Printed

theorem octet_printNumber {n : Nat} (hn : n < 256) : Octet (printNumber 10 n) where
  toDigits := digits_printNumber (Or.inl rfl) n
  length := length_printNumber_le (Or.inl rfl) (by decide) (by omega)
  range := by
    rw [number_printNumber (Or.inl rfl)]
    omega

theorem hexGroup_printNumber {n : Nat} (hn : n < 65536) : HexGroup (printNumber 16 n) where
  toDigits := digits_printNumber (Or.inr rfl) n
  length := length_printNumber_le (Or.inr rfl) (by decide) (by omega)

theorem parsePort_printNumber {n : Nat} (hpos : 1 ≤ n) (hn : n < 65536) :
    parsePort (printNumber 10 n) = some n := by
  have hnumber : number 10 (printNumber 10 n) = n := number_printNumber (Or.inl rfl) n
  rw [parsePort_digits (digits_printNumber (Or.inl rfl) n) (by omega), hnumber, if_neg (by omega)]

theorem map_number_printNumber {base : Nat} (hbase : base = 10 ∨ base = 16) (ns : List Nat) :
    (ns.map (printNumber base)).map (number base) = ns := by
  rw [List.map_map]
  exact (List.map_congr_left fun n _ => number_printNumber hbase n).trans (List.map_id ns)

namespace Address

variable (a : Address)

theorem octets_lt : ∀ n ∈ a.octets, n < 256 := by
  intro n hn
  obtain ⟨b, -, rfl⟩ := List.mem_map.mp hn
  exact b.toNat_lt

theorem length_octets : a.octets.length = 4 := by
  simp [octets]

theorem length_groups : a.groups.length = 8 := by
  simp [groups]

theorem length_group {i : Nat} (hi : i < 8) : (readAt a.data.toList (2 * i) 2).length = 2 := by
  apply length_readAt
  rw [Vector.length_toList]
  omega

theorem groups_lt : ∀ n ∈ a.groups, n < 65536 := by
  intro n hn
  obtain ⟨i, hi, rfl⟩ := List.mem_map.mp hn
  have hlt := leNat_lt (readAt a.data.toList (2 * i) 2)
  rw [a.length_group (List.mem_range.mp hi)] at hlt
  omega

/-- The groups are the bytes of the address, two at a time. -/
theorem flatMap_groups : a.groups.flatMap (leBytes 2) = a.data.toList := by
  have hpairs : (List.range 8).flatMap
      (fun i => leBytes 2 (leNat (readAt a.data.toList (2 * i) 2))) =
      (List.range 8).flatMap (fun i => slice a.data.toList (2 * i) (2 * (i + 1))) := by
    apply List.flatMap_congr
    intro i hi
    have hpair := leBytes_leNat (readAt a.data.toList (2 * i) 2)
    rw [a.length_group (List.mem_range.mp hi)] at hpair
    rw [hpair, slice, readAt, show 2 * (i + 1) - 2 * i = 2 by omega]
  rw [groups, List.flatMap_map, hpairs,
    flatMap_slices a.data.toList (2 * ·) rfl 8 (fun i _ => by omega)]
  exact List.take_of_length_le (Nat.le_of_eq a.data.length_toList)

end Address

theorem ipv4Address_octets {a : Address} (ha : a.Canonical) (htype : a.type = addressIpv4) :
    ipv4Address a.octets a.port.toNat = a := by
  have hlen : addressDataLen a = 4 := by
    rw [addressDataLen, htype]
    rfl
  have hbytes : (a.octets.map UInt8.ofNat).take 4 = a.data.toList.take 4 := by
    simp [Address.octets, Function.comp_def]
  have hdata : padTo 16 0 (a.data.toList.take 4) = a.data := hlen ▸ ha.data
  rw [ipv4Address, hbytes, hdata, ← htype, ← ha.pad]
  simp

theorem ipv6Address_groups {a : Address} (ha : a.Canonical) (htype : a.type = addressIpv6) :
    ipv6Address a.groups a.port.toNat = a := by
  rw [ipv6Address, a.flatMap_groups, padTo_toList, ← htype, ← ha.pad]
  simp

/-! ### Printed and parsed -/

theorem digits_printed {base : Nat} (hbase : base = 10 ∨ base = 16) (ns : List Nat) :
    ∀ part ∈ ns.map (printNumber base), Digits base part := by
  intro part hpart
  obtain ⟨n, -, rfl⟩ := List.mem_map.mp hpart
  exact digits_printNumber hbase n

theorem zero_not_mem_addressText (a : Address) : 0 ∉ addressText a := by
  have hquad : 0 ∉ ['.'.toUInt8].intercalate (a.octets.map (printNumber 10)) :=
    not_mem_numbers (digits_printed (Or.inl rfl) _) (by decide) rfl
  have hgroups : 0 ∉ [':'.toUInt8].intercalate (a.groups.map (printNumber 16)) :=
    not_mem_numbers (digits_printed (Or.inr rfl) _) (by decide) rfl
  have hport : 0 ∉ printNumber 10 a.port.toNat :=
    not_mem_digits (digits_printNumber (Or.inl rfl) _) rfl
  rw [addressText]
  split_ifs
  · simp only [List.mem_append, List.mem_cons, hquad, hport, false_or, or_false]
    decide
  · simp only [List.mem_append, List.mem_cons, hgroups, hport, false_or, or_false]
    decide
  · decide

/-- With its zero, a text of either kind takes up 48 bytes at most. -/
theorem length_addressText_le (a : Address) : (addressText a).length ≤ 47 := by
  have hquad : (['.'.toUInt8].intercalate (a.octets.map (printNumber 10))).length ≤
      (a.octets.map (printNumber 10)).length * (3 + 1) - 1 := by
    apply length_intercalate_le
    intro part hpart
    obtain ⟨n, hn, rfl⟩ := List.mem_map.mp hpart
    exact (octet_printNumber (a.octets_lt n hn)).length
  have hgroups : ([':'.toUInt8].intercalate (a.groups.map (printNumber 16))).length ≤
      (a.groups.map (printNumber 16)).length * (4 + 1) - 1 := by
    apply length_intercalate_le
    intro part hpart
    obtain ⟨n, hn, rfl⟩ := List.mem_map.mp hpart
    exact (hexGroup_printNumber (a.groups_lt n hn)).length
  have hport : (printNumber 10 a.port.toNat).length ≤ 5 := by
    have hlt : a.port.toNat < 65536 := a.port.toNat_lt
    exact length_printNumber_le (Or.inl rfl) (by decide) (by omega)
  rw [List.length_map, a.length_octets] at hquad
  rw [List.length_map, a.length_groups] at hgroups
  rw [addressText]
  split_ifs
  · simp only [List.length_append, List.length_cons]
    omega
  · simp only [List.length_append, List.length_cons]
    omega
  · decide

theorem cString_addressToString (a : Address) {buf : Bytes} (hbuf : 48 ≤ buf.length) :
    cString (addressToString a buf) = addressText a := by
  have hlength := length_addressText_le a
  rw [cString, addressToString, if_neg (by omega), List.take_of_length_le (by omega), writeAt,
    List.take_zero, List.nil_append, List.append_assoc, List.singleton_append]
  exact takeWhile_ne_append (zero_not_mem_addressText a) _

section RoundTrip

variable {a : Address}

theorem octets_printed (a : Address) : ∀ part ∈ a.octets.map (printNumber 10), Octet part := by
  intro part hpart
  obtain ⟨n, hn, rfl⟩ := List.mem_map.mp hpart
  exact octet_printNumber (a.octets_lt n hn)

theorem hexGroups_printed (a : Address) :
    ∀ part ∈ a.groups.map (printNumber 16), HexGroup part := by
  intro part hpart
  obtain ⟨n, hn, rfl⟩ := List.mem_map.mp hpart
  exact hexGroup_printNumber (a.groups_lt n hn)

theorem parseIpv4_text (ha : a.Canonical) (htype : a.type = addressIpv4)
    (hport : 1 ≤ a.port.toNat) :
    parseIpv4 (['.'.toUInt8].intercalate (a.octets.map (printNumber 10)) ++
      ':'.toUInt8 :: printNumber 10 a.port.toNat) = some a := by
  have hfour : (a.octets.map (printNumber 10)).length = 4 := by
    rw [List.length_map, a.length_octets]
  have hcolon : ':'.toUInt8 ∉ printNumber 10 a.port.toNat :=
    not_mem_digits (digits_printNumber (Or.inl rfl) _) rfl
  rw [parseIpv4_append _ hcolon,
    parsePort_printNumber hport a.port.toNat_lt, Option.bind_some,
    parseIp_octets hfour (octets_printed a), map_number_printNumber (Or.inl rfl),
    ipv4Address_octets ha htype]

theorem parseIpv6_text (ha : a.Canonical) (htype : a.type = addressIpv6)
    (hport : 1 ≤ a.port.toNat) :
    parseIpv6 ([':'.toUInt8].intercalate (a.groups.map (printNumber 16)) ++
      ']'.toUInt8 :: ':'.toUInt8 :: printNumber 10 a.port.toNat) = some a := by
  have height : (a.groups.map (printNumber 16)).length = 8 := by
    rw [List.length_map, a.length_groups]
  have hexpand : expandGroups a.groups none = a.groups := by
    simp [expandGroups, a.length_groups]
  rw [parseIpv6_groups (hexGroups_printed a) (by omega) (by omega),
    parsePort_printNumber hport a.port.toNat_lt, map_number_printNumber (Or.inr rfl), hexpand,
    Option.map_some, ipv6Address_groups ha htype]

/-- **An address that is printed is parsed again.**  The buffer may hold anything before, as
long as there is room in it for the longest text of an address. -/
theorem printed_address_parsed {buf : Bytes} (ha : a.Canonical) (hport : 1 ≤ a.port.toNat)
    (hbuf : 48 ≤ buf.length) : parseAddress (addressToString a buf) = some a := by
  have htext := cString_addressToString a hbuf
  rcases ha.type with htype | htype
  · rw [addressText, if_pos htype] at htext
    have hfour : (a.octets.map (printNumber 10)).length = 4 := by
      rw [List.length_map, a.length_octets]
    have hhead : (cString (addressToString a buf)).head? ≠ some '['.toUInt8 := by
      rw [htext]
      exact head_octets_ne hfour (octets_printed a) _
    rw [parseAddress_other hhead, htext, parseIpv4_text ha htype hport]
  · rw [addressText, if_neg (by rw [htype]; decide), if_pos htype] at htext
    rw [parseAddress_bracket htext, parseIpv6_text ha htype hport]

/-- `[2001:db8::1]:27015`, with five groups of zeros, in the shortest buffer that will do. -/
theorem ipv6_address_parsed :
    (ipv6Address [0x2001, 0xdb8, 0, 0, 0, 0, 0, 1] 27015).Canonical ∧
      parseAddress (addressToString (ipv6Address [0x2001, 0xdb8, 0, 0, 0, 0, 0, 1] 27015)
        (List.replicate 48 0xFF)) =
        some (ipv6Address [0x2001, 0xdb8, 0, 0, 0, 0, 0, 1] 27015) :=
  ⟨canonical_ipv6Address _ _, printed_address_parsed (canonical_ipv6Address _ _) (by decide)
    (by decide)⟩

end RoundTrip

end Netudp
