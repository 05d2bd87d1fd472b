/-
Which texts are parsed as addresses.

An address is a dotted quad or a bracketed IPv6 address, a colon and a port, or `::` in the
place of the quad.  Every such text is parsed.  The parser takes more: exactly the texts in
which `atoi`, `strtoul` and `sscanf` find numbers where it looks for them (`Readable`), and
these skip blanks, take a sign and leave what follows the digits alone.  Its loop over the
groups neither counts them nor looks at what follows the eighth.  A readable text that has
none of this (`Strict`) is an address; and an address has none of this.
-/
import Mathlib.Data.List.TakeWhile
import Netudp.Proofs.AddressText

namespace Netudp

open Lib

/-! ### The texts of addresses -/

/-- A decimal port. -/
structure PortText (digits : Bytes) : Prop extends Digits 10 digits where
  pos : 1 ≤ number 10 digits
  range : number 10 digits ≤ 65535

/-- Four octets with dots between them. -/
def QuadText (ip : Bytes) : Prop :=
  ∃ octets : List Bytes, octets.length = 4 ∧ (∀ octet ∈ octets, Octet octet) ∧
    ip = ['.'.toUInt8].intercalate octets

/-- The `::` and the groups behind it. -/
def double (back : List Bytes) : Bytes :=
  ':'.toUInt8 :: ':'.toUInt8 :: [':'.toUInt8].intercalate back

/-- Eight groups with single colons between them, or fewer with one `::`. -/
def Ipv6Text (ip : Bytes) : Prop :=
  (∃ groups : List Bytes, groups.length = 8 ∧ (∀ group ∈ groups, HexGroup group) ∧
    ip = [':'.toUInt8].intercalate groups) ∨
  ∃ front back : List Bytes, front.length + back.length < 8 ∧
    (∀ group ∈ front, HexGroup group) ∧ (∀ group ∈ back, HexGroup group) ∧
    ip = [':'.toUInt8].intercalate front ++ double back

/-- The text of an address and its port. -/
def IsAddressText (text : Bytes) : Prop :=
  ∃ portText, PortText portText ∧
    ((∃ ip, QuadText ip ∧ text = ip ++ ':'.toUInt8 :: portText) ∨
      (∃ ip, Ipv6Text ip ∧ text = '['.toUInt8 :: (ip ++ ']'.toUInt8 :: ':'.toUInt8 :: portText)) ∨
      text = [':', ':'].map Char.toUInt8 ++ ':'.toUInt8 :: portText)

/-! ### The texts that are parsed -/

/-- `atoi` finds a port in the text. -/
def ReadablePort (text : Bytes) : Prop := 1 ≤ atoi text ∧ atoi text ≤ 65535

/-- `sscanf` finds four octets in the text. -/
def ReadableQuad (ip : Bytes) : Prop :=
  ∃ octets, scanQuad ip = some octets ∧ ∀ n ∈ octets, n ≤ 255

/-- What may follow `count` groups and, if it was `seen`, a `::`.  It is numbers that `strtoul`
finds, one colon at most before each, and a `::` where there was none, up to the end of the
text or to the eighth number. -/
inductive ReadableGroups : Nat → Bool → Bytes → Prop
  | done {count : Nat} {seen : Bool} : ReadableGroups count seen []
  | full {count : Nat} {seen : Bool} {text : Bytes} (h : 8 ≤ count) :
      ReadableGroups count seen text
  | double {count : Nat} {rest : Bytes} (hroom : count < 8) (h : ReadableGroups count true rest) :
      ReadableGroups count false (':'.toUInt8 :: ':'.toUInt8 :: rest)
  | group {count value : Nat} {seen : Bool} {lead text rest : Bytes} (hroom : count < 8)
      (hlead : lead = [] ∨ lead = [':'.toUInt8]) (hread : strtoul 16 text = some (value, rest))
      (hvalue : value ≤ 0xFFFF) (h : ReadableGroups (count + 1) seen rest) :
      ReadableGroups count seen (lead ++ text)

/-- A text with a port after its last colon, or after its first `]` and a colon, and before it
1 to 45 characters with numbers in them. -/
inductive Readable : Bytes → Prop
  | quad {ip portText : Bytes} (hport : ReadablePort portText) (hpos : 0 < ip.length)
      (hlong : ip.length ≤ 45)
      (hhead : (ip ++ ':'.toUInt8 :: portText).head? ≠ some '['.toUInt8)
      (hlast : ':'.toUInt8 ∉ portText) (hip : ip = [':', ':'].map Char.toUInt8 ∨ ReadableQuad ip) :
      Readable (ip ++ ':'.toUInt8 :: portText)
  | groups {ip portText : Bytes} (hport : ReadablePort portText) (hpos : 0 < ip.length)
      (hlong : ip.length ≤ 45) (hfirst : ']'.toUInt8 ∉ ip) (hip : ReadableGroups 0 false ip) :
      Readable ('['.toUInt8 :: (ip ++ ']'.toUInt8 :: ':'.toUInt8 :: portText))

theorem readablePort_iff (text : Bytes) :
    ReadablePort text ↔ (parsePort text).isSome = true := by
  rw [ReadablePort, parsePort]
  split <;> simp <;> omega

theorem isSome_parseIp_iff (ip : Bytes) (port : Nat) :
    (parseIp ip port).isSome = true ↔
      (0 < ip.length ∧ ip.length ≤ 45) ∧ (ip = [':', ':'].map Char.toUInt8 ∨ ReadableQuad ip) := by
  rw [parseIp]
  split_ifs with hlength hzero hcolons
  · simp only [Option.isSome_none, Bool.false_eq_true, false_iff]
    omega
  · have hquad : ReadableQuad ip := ⟨[0, 0, 0, 0], by rw [hzero]; rfl, by simp⟩
    exact iff_of_true rfl ⟨by omega, Or.inr hquad⟩
  · exact iff_of_true rfl ⟨by omega, Or.inl hcolons⟩
  · rw [and_iff_right (by omega), or_iff_right hcolons]
    cases hscan : scanQuad ip with
    | none => simp [ReadableQuad, hscan]
    | some octets => simp [ReadableQuad, hscan]

theorem readNumber_shorter {base n : Nat} {text rest : Bytes} {negative : Bool}
    (h : readNumber base text = some (negative, n, rest)) : rest.length < text.length := by
  have hsign : ∀ t : Bytes, (readSign t).2.length ≤ t.length := by
    intro t
    cases t with
    | nil => rfl
    | cons b t =>
      rw [readSign]
      split_ifs <;> simp
  have hmark : ∀ t : Bytes, (skipHexMark base t).length ≤ t.length := by
    intro t
    unfold skipHexMark
    split
    · split_ifs <;> simp
    · rfl
  rw [readNumber] at h
  simp only [readDigits_eq, Option.ite_none_right_eq_some, Option.some.injEq, Prod.mk.injEq] at h
  obtain ⟨hdigit, -, -, rfl⟩ := h
  have hall := (hmark _).trans ((hsign _).trans (List.length_dropWhile_le isSpace text))
  generalize skipHexMark base (readSign (text.dropWhile isSpace)).2 = digits at *
  cases digits with
  | nil => cases hdigit
  | cons b more =>
    have hb : isDigit base b = true := hdigit
    have hrest := List.length_dropWhile_le (isDigit base) more
    rw [List.length_cons] at hall
    rw [List.dropWhile_cons_of_pos hb]
    omega

theorem strtoul_shorter {base value : Nat} {text rest : Bytes}
    (h : strtoul base text = some (value, rest)) : rest.length < text.length := by
  rw [strtoul, Option.map_eq_some_iff] at h
  obtain ⟨⟨negative, n, after⟩, hread, hout⟩ := h
  obtain ⟨-, rfl⟩ := Prod.mk.inj hout
  exact readNumber_shorter hread

section Loop

variable {fuel : Nat} {groups : List Nat} {doubleColon : Option Nat} {text : Bytes}

theorem readableGroups_of_isSome (hfuel : text.length ≤ fuel)
    (h : (readGroups fuel groups doubleColon text).isSome = true) :
    ReadableGroups groups.length doubleColon.isSome text := by
  induction fuel generalizing groups doubleColon text with
  | zero =>
    obtain rfl := List.length_eq_zero_iff.mp (Nat.le_zero.mp hfuel)
    exact .done
  | succ fuel ih =>
    by_cases hstop : text = [] ∨ 8 ≤ groups.length
    · rcases hstop with rfl | hfull
      · exact .done
      · exact .full hfull
    rw [readGroups, if_neg hstop] at h
    have hroom : groups.length < 8 := Nat.not_le.mp (not_or.mp hstop).2
    by_cases hdouble : text.take 2 = [':'.toUInt8, ':'.toUInt8]
    · rw [if_pos hdouble] at h
      have hsplit := List.take_append_drop 2 text
      rw [hdouble] at hsplit
      rw [← hsplit]
      cases doubleColon with
      | some pos => simp at h
      | none =>
        refine .double hroom (ih ?_ h)
        rw [List.length_drop]
        omega
    · rw [if_neg hdouble] at h
      generalize hmore : (if text.headD 0 = ':'.toUInt8 then text.drop 1 else text) = more at h
      obtain ⟨lead, hlead, rfl⟩ :
          ∃ lead, (lead = [] ∨ lead = [':'.toUInt8]) ∧ text = lead ++ more := by
        split_ifs at hmore with hcolon
        · cases text with
          | nil => exact absurd (Or.inl rfl) hstop
          | cons b rest => exact ⟨[b], Or.inr (by simpa using hcolon), by simp [← hmore]⟩
        · exact ⟨[], Or.inl rfl, hmore⟩
      cases hread : strtoul 16 more with
      | none => simp [hread] at h
      | some read =>
        obtain ⟨value, rest⟩ := read
        simp only [hread] at h
        split at h
        · cases h
        · have hshorter := strtoul_shorter hread
          rw [List.length_append] at hfuel
          have hnext := ih (by omega) h
          rw [List.length_append, List.length_singleton] at hnext
          exact .group hroom hlead hread (by omega) hnext

theorem ReadableGroups.isSome {count : Nat} {seen : Bool} (h : ReadableGroups count seen text)
    (hcount : groups.length = count) (hseen : doubleColon.isSome = seen) :
    (readGroups fuel groups doubleColon text).isSome = true := by
  induction h generalizing fuel groups doubleColon with
  | done => simp
  | full h =>
    cases fuel with
    | zero => rfl
    | succ fuel => simp [readGroups, hcount, h]
  | double hroom _ ih =>
    cases fuel with
    | zero => rfl
    | succ fuel =>
      obtain rfl : doubleColon = none := by simpa using hseen
      rw [readGroups_double (hcount ▸ hroom)]
      exact ih hcount rfl
  | group hroom hlead hread hvalue _ ih =>
    cases fuel with
    | zero => rfl
    | succ fuel =>
      rw [readGroups_number hlead hread hvalue (hcount ▸ hroom)]
      exact ih (by simp [hcount]) hseen

end Loop

theorem parseIpv6_some {text : Bytes} {a : Address} (h : parseIpv6 text = some a) :
    ∃ ip portText, text = ip ++ ']'.toUInt8 :: ':'.toUInt8 :: portText ∧
      ']'.toUInt8 ∉ ip ∧ 0 < ip.length ∧ ip.length ≤ 45 ∧ (parsePort portText).isSome = true ∧
      (readGroups ip.length [] none ip).isSome = true := by
  have hbracket : ']'.toUInt8 ∈ text := by
    by_contra hnone
    have hall : text.dropWhile (· ≠ ']'.toUInt8) = [] := by
      rw [List.dropWhile_eq_nil_iff]
      intro b hb
      exact decide_eq_true (fun hcontra => hnone (hcontra ▸ hb))
    simp only [parseIpv6, hall, reduceCtorEq] at h
  obtain ⟨ip, back, rfl, hip⟩ := List.eq_append_cons_of_mem hbracket
  simp only [parseIpv6, takeWhile_ne_append hip, dropWhile_ne_append hip] at h
  cases back with
  | nil => simp at h
  | cons colon portText =>
    simp only [Option.ite_none_left_eq_some, Option.bind_eq_bind, Option.bind_eq_some_iff,
      Decidable.not_not] at h
    obtain ⟨hlength, rfl, port, hport, out, hread, -⟩ := h
    exact ⟨ip, portText, rfl, hip, by omega, by omega, by rw [hport]; rfl, by rw [hread]; rfl⟩

/-- **A text is parsed exactly if it can be read.** -/
theorem isSome_parseAddress_iff (str : Bytes) :
    (parseAddress str).isSome = true ↔ Readable (cString str) := by
  constructor
  · intro h
    obtain ⟨a, ha⟩ := Option.isSome_iff_exists.mp h
    by_cases hhead : (cString str).head? = some '['.toUInt8
    · obtain ⟨rest, hrest⟩ := List.head?_eq_some_iff.mp hhead
      rw [parseAddress_bracket hrest] at ha
      obtain ⟨ip, portText, rfl, hip, hpos, hlong, hport, hread⟩ := parseIpv6_some ha
      rw [hrest]
      exact .groups ((readablePort_iff _).mpr hport) hpos hlong hip
        (readableGroups_of_isSome (Nat.le_refl _) hread)
    · rw [parseAddress_other hhead] at ha
      have hcolon : ':'.toUInt8 ∈ cString str := by
        by_contra hnone
        simp [parseIpv4, hnone] at ha
      obtain ⟨ip, portText, htext, hlast⟩ := exists_last_of_mem hcolon
      rw [htext, parseIpv4_append ip hlast, Option.bind_eq_some_iff] at ha
      obtain ⟨port, hport, hparse⟩ := ha
      obtain ⟨⟨hpos, hlong⟩, hip⟩ := (isSome_parseIp_iff ip port).mp (by rw [hparse]; rfl)
      rw [htext] at hhead ⊢
      exact .quad ((readablePort_iff _).mpr (by rw [hport]; rfl)) hpos hlong hhead hlast hip
  · generalize htext : cString str = text
    intro h
    cases h with
    | quad hport hpos hlong hhead hlast hip =>
      obtain ⟨port, hport⟩ := Option.isSome_iff_exists.mp ((readablePort_iff _).mp hport)
      rw [parseAddress_other (htext ▸ hhead), htext, parseIpv4_append _ hlast, hport,
        Option.bind_some, isSome_parseIp_iff]
      exact ⟨⟨hpos, hlong⟩, hip⟩
    | groups hport hpos hlong hfirst hip =>
      obtain ⟨port, hport⟩ := Option.isSome_iff_exists.mp ((readablePort_iff _).mp hport)
      rw [parseAddress_bracket htext, parseIpv6_append _ hfirst hpos hlong, hport,
        Option.bind_some, Option.isSome_map]
      exact hip.isSome rfl rfl

/-! ### Every such text is parsed -/

theorem PortText.readable {digits : Bytes} (h : PortText digits) : ReadablePort digits := by
  have hpos := h.pos
  have hrange := h.range
  rw [readablePort_iff, parsePort_digits h.toDigits (by omega), if_neg (by omega)]
  rfl

theorem PortText.colon_not_mem {digits : Bytes} (h : PortText digits) :
    ':'.toUInt8 ∉ digits :=
  not_mem_digits h.toDigits rfl

theorem atColon_double (back : List Bytes) : AtColon (double back) := atColon_cons _

theorem readableGroups_joinGroups (bare : Bool) {parts : List Bytes} {rest : Bytes} {count : Nat}
    {seen : Bool} (hparts : ∀ part ∈ parts, HexGroup part) (hrest : AtColon rest)
    (hroom : count + parts.length ≤ 8) (h : ReadableGroups (count + parts.length) seen rest) :
    ReadableGroups count seen (joinGroups bare parts ++ rest) := by
  induction parts generalizing bare count with
  | nil => simpa using h
  | cons part parts ih =>
    obtain ⟨hpart, hothers⟩ := List.forall_mem_cons.mp hparts
    rw [List.length_cons, ← Nat.add_assoc, Nat.add_right_comm] at hroom h
    have hgroup : ReadableGroups count seen
        ((if bare then [] else [':'.toUInt8]) ++ (part ++ (joinGroups false parts ++ rest))) :=
      .group (by omega) (by cases bare <;> simp) (hpart.strtoul (atColon_joinGroups parts hrest))
        hpart.number_le (ih false hothers hroom h)
    simpa [joinGroups_cons] using hgroup

theorem Ipv6Text.bracket_not_mem {ip : Bytes} (h : Ipv6Text ip) : ']'.toUInt8 ∉ ip := by
  have hparts : ∀ parts : List Bytes, (∀ part ∈ parts, HexGroup part) →
      ']'.toUInt8 ∉ [':'.toUInt8].intercalate parts := fun parts hparts =>
    not_mem_numbers (fun part hpart => (hparts part hpart).toDigits) (by decide) rfl
  rcases h with ⟨groups, -, hgroups, rfl⟩ | ⟨front, back, -, hfront, hback, rfl⟩
  · exact hparts groups hgroups
  · simp only [double, List.mem_append, List.mem_cons, hparts front hfront, hparts back hback,
      or_false, false_or]
    decide

theorem Ipv6Text.readable {ip : Bytes} (h : Ipv6Text ip) :
    0 < ip.length ∧ ip.length ≤ 45 ∧ ReadableGroups 0 false ip := by
  have hlong : ∀ parts : List Bytes, (∀ part ∈ parts, HexGroup part) →
      ([':'.toUInt8].intercalate parts).length ≤ parts.length * (4 + 1) - 1 :=
    fun parts hparts => length_intercalate_le fun part hpart => (hparts part hpart).length
  rcases h with ⟨groups, height, hgroups, rfl⟩ | ⟨front, back, hroom, hfront, hback, rfl⟩
  · have hcount : groups.length ≤ ([':'.toUInt8].intercalate groups).length :=
      length_le_intercalate fun group hgroup => (hgroups group hgroup).ne
    have hlongGroups := hlong groups hgroups
    have hread : ReadableGroups 0 false (joinGroups true groups ++ []) :=
      readableGroups_joinGroups true hgroups atColon_nil (by omega) .done
    rw [List.append_nil] at hread
    exact ⟨by omega, by omega, hread⟩
  · have hlongFront := hlong front hfront
    have hlongBack := hlong back hback
    have hread : ReadableGroups (0 + front.length) true (joinGroups true back ++ []) :=
      readableGroups_joinGroups true hback atColon_nil (by omega) .done
    rw [List.append_nil] at hread
    refine ⟨by simp [double], ?_, readableGroups_joinGroups true hfront (atColon_double back)
      (by omega) (.double (by omega) hread)⟩
    simp only [double, List.length_append, List.length_cons]
    omega

/-- **Every text of an address can be read.** -/
theorem IsAddressText.readable {text : Bytes} (h : IsAddressText text) : Readable text := by
  obtain ⟨portText, hport, hform⟩ := h
  rcases hform with ⟨ip, ⟨octets, hfour, hoctets, rfl⟩, rfl⟩ | ⟨ip, hip, rfl⟩ | rfl
  · obtain ⟨⟨hpos, hlong⟩, hip⟩ := (isSome_parseIp_iff _ 0).mp
      (by rw [parseIp_octets hfour hoctets]; rfl)
    exact .quad hport.readable hpos hlong (head_octets_ne hfour hoctets _) hport.colon_not_mem hip
  · obtain ⟨hpos, hlong, hread⟩ := hip.readable
    exact .groups hport.readable hpos hlong hip.bracket_not_mem hread
  · refine .quad hport.readable (by decide) (by decide) ?_ hport.colon_not_mem (Or.inl rfl)
    simp
    decide

/-! ### The texts read to the letter -/

/-- Digits and dots as a quad has them: at most three dots, and three digits in a row. -/
structure StrictQuad (ip : Bytes) : Prop where
  chars : ∀ b ∈ ip, isDigit 10 b = true ∨ b = '.'.toUInt8
  dots : ip.count '.'.toUInt8 ≤ 3
  runs : ∀ text ∈ ip.tails, (text.takeWhile (isDigit 10)).length ≤ 3

/-- There is a `::` somewhere. -/
def HasDouble (ip : Bytes) : Prop :=
  ∃ text ∈ ip.tails, text.take 2 = [':', ':'].map Char.toUInt8
deriving Decidable

/-- The number of groups: a group ends where a colon or nothing follows a digit. -/
def groupCount : Bytes → Nat
  | [] => 0
  | b :: rest =>
    (if b ≠ ':'.toUInt8 ∧ rest.headD ':'.toUInt8 = ':'.toUInt8 then 1 else 0) + groupCount rest

/-- Digits and colons as an IPv6 address has them: at most four digits in a row and at most
two colons, and not a single colon at the front; with a `::` there are fewer than eight
groups, and without one the eight that end the text. -/
structure StrictGroups (ip : Bytes) : Prop where
  chars : ∀ b ∈ ip, isDigit 16 b = true ∨ b = ':'.toUInt8
  runs : ∀ text ∈ ip.tails, (text.takeWhile (isDigit 16)).length ≤ 4
  colons : ∀ text ∈ ip.tails, text.take 3 ≠ [':', ':', ':'].map Char.toUInt8
  front : ip.head? = some ':'.toUInt8 → ip.take 2 = [':', ':'].map Char.toUInt8
  count : (HasDouble ip ∧ groupCount ip < 8) ∨
    (¬HasDouble ip ∧ groupCount ip = 8 ∧ ip.getLast? ≠ some ':'.toUInt8)

/-- Digits that are no number too large for an `int`. -/
structure StrictPort (portText : Bytes) : Prop where
  digits : ∀ b ∈ portText, isDigit 10 b = true
  small : number 10 portText < 2 ^ 31

/-- A text that the readers of the C library and the loop over the groups are not lenient
with: its port is digits, and the address before it digits and separators in their places. -/
structure Strict (text : Bytes) : Prop where
  quad : text.head? ≠ some '['.toUInt8 → ∀ ip portText, text = ip ++ ':'.toUInt8 :: portText →
    ':'.toUInt8 ∉ portText →
    StrictPort portText ∧ (ip = [':', ':'].map Char.toUInt8 ∨ StrictQuad ip)
  groups : ∀ ip portText,
    text = '['.toUInt8 :: (ip ++ ']'.toUInt8 :: ':'.toUInt8 :: portText) → ']'.toUInt8 ∉ ip →
    StrictPort portText ∧ StrictGroups ip

theorem readNumber_some {base : Nat} {text : Bytes} {sep : UInt8} {out : Bool × Nat × Bytes}
    (hsep : Plain sep) (hchars : ∀ b ∈ text, isDigit base b = true ∨ b = sep)
    (h : readNumber base text = some out) :
    ∃ digits, Digits base digits ∧ digits = text.takeWhile (isDigit base) ∧
      out.1 = false ∧ out.2.1 = number base digits ∧ text = digits ++ out.2.2 ∧
      ∀ b ∈ out.2.2.head?, b = sep := by
  have hplain : ∀ b ∈ text, Plain b := by
    intro b hb
    rcases hchars b hb with hdigit | rfl
    · exact plain_of_isDigit hdigit
    · exact hsep
  rw [readNumber_plain (fun b hb => hplain b (List.mem_of_mem_head? hb))
    (fun b hb => hplain b (List.mem_of_mem_tail (List.mem_of_mem_head? hb))),
    Option.ite_none_left_eq_some] at h
  obtain ⟨hne, h⟩ := h
  obtain rfl := Option.some.inj h
  refine ⟨_, ⟨hne, fun b hb => List.mem_takeWhile_imp hb⟩, rfl, rfl, rfl,
    List.takeWhile_append_dropWhile.symm, ?_⟩
  intro b hb
  have hstop := List.head?_dropWhile_not (isDigit base) text
  rw [Option.mem_def.mp hb] at hstop
  have hmem : b ∈ text := (List.dropWhile_suffix _).mem (List.mem_of_mem_head? hb)
  rcases hchars b hmem with hdigit | hb
  · have hstop : isDigit base b = false := hstop
    rw [hdigit] at hstop
    cases hstop
  · exact hb

/-- `strtoul` reads the same, and all of it when there are few digits. -/
theorem strtoul_some {base most value : Nat} {text rest : Bytes} {sep : UInt8} (hbase : base ≤ 16)
    (hmost : most ≤ 4) (hsep : Plain sep) (hchars : ∀ b ∈ text, isDigit base b = true ∨ b = sep)
    (hrun : (text.takeWhile (isDigit base)).length ≤ most)
    (h : strtoul base text = some (value, rest)) :
    ∃ digits, Digits base digits ∧ digits.length ≤ most ∧ value = number base digits ∧
      text = digits ++ rest ∧ ∀ b ∈ rest.head?, b = sep := by
  rw [strtoul, Option.map_eq_some_iff] at h
  obtain ⟨⟨negative, magnitude, after⟩, hread, hout⟩ := h
  obtain ⟨digits, hdigits, rfl, rfl, rfl, htext, hstop⟩ := readNumber_some hsep hchars hread
  have hsmall := number_lt_short hbase hdigits (hrun.trans hmost)
  have hfits : ¬ u64Size ≤ number base (text.takeWhile (isDigit base)) := by
    rw [u64Size]
    omega
  simp only [if_neg hfits, Bool.false_eq_true, if_false] at hout
  obtain ⟨rfl, rfl⟩ := Prod.mk.inj hout
  exact ⟨_, hdigits, hrun, rfl, htext, hstop⟩

/-! ### The quads that are read -/

/-- Digits that have been read as the number, with what follows them. -/
structure OctetRead (ip digits rest : Bytes) (n : Nat) : Prop extends Digits 10 digits where
  length : digits.length ≤ 3
  value : n = number 10 digits
  suffix : rest <:+ ip
  stop : ∀ b ∈ rest.head?, b = '.'.toUInt8

section Quad

variable {ip text digits rest : Bytes} {n : Nat}

theorem OctetRead.octet (h : OctetRead ip digits rest n) (hn : n ≤ 255) : Octet digits :=
  ⟨h.toDigits, h.length, h.value ▸ hn⟩

theorem scanUnsigned_some (hip : StrictQuad ip) (hsuffix : text <:+ ip)
    (h : scanUnsigned text = some (n, rest)) :
    ∃ digits, text = digits ++ rest ∧ OctetRead ip digits rest n := by
  rw [scanUnsigned, Option.map_eq_some_iff] at h
  obtain ⟨⟨value, after⟩, hread, hout⟩ := h
  obtain ⟨rfl, rfl⟩ := Prod.mk.inj hout
  obtain ⟨digits, hdigits, hlength, rfl, htext, hstop⟩ :=
    strtoul_some (by decide) (by decide) (by decide) (fun b hb => hip.chars b (hsuffix.mem hb))
      (hip.runs text ((List.mem_tails _ _).mpr hsuffix)) hread
  have hsmall := number_lt_short (by decide) hdigits (hlength.trans (by decide))
  refine ⟨digits, htext, hdigits, hlength, Nat.mod_eq_of_lt (hsmall.trans (by decide)), ?_, hstop⟩
  exact List.IsSuffix.trans ⟨digits, htext.symm⟩ hsuffix

theorem scanDotUnsigned_some (hip : StrictQuad ip) (hsuffix : text <:+ ip)
    (h : scanDotUnsigned text = some (n, rest)) :
    ∃ digits, text = '.'.toUInt8 :: (digits ++ rest) ∧ OctetRead ip digits rest n := by
  cases text with
  | nil => simp [scanDotUnsigned] at h
  | cons b more =>
    rw [scanDotUnsigned, Option.ite_none_right_eq_some] at h
    obtain ⟨rfl, hscan⟩ := h
    obtain ⟨digits, rfl, hoctet⟩ :=
      scanUnsigned_some hip ((List.suffix_cons _ _).trans hsuffix) hscan
    exact ⟨digits, rfl, hoctet⟩

/-- **A quad that `sscanf` reads from such a text is all of it**: what follows would be a
fourth dot. -/
theorem quadText_of_scanQuad {ns : List Nat} (hip : StrictQuad ip) (h : scanQuad ip = some ns)
    (hrange : ∀ n ∈ ns, n ≤ 255) : QuadText ip := by
  simp only [scanQuad, Option.bind_eq_bind, Option.bind_eq_some_iff, Option.pure_def,
    Option.some.injEq] at h
  obtain ⟨⟨a, aRest⟩, ha, ⟨b, bRest⟩, hb, ⟨c, cRest⟩, hc, ⟨d, rest⟩, hd, rfl⟩ := h
  obtain ⟨as, hatext, has⟩ := scanUnsigned_some hip List.suffix_rfl ha
  obtain ⟨bs, hbtext, hbs⟩ := scanDotUnsigned_some hip has.suffix hb
  obtain ⟨cs, hctext, hcs⟩ := scanDotUnsigned_some hip hbs.suffix hc
  obtain ⟨ds, hdtext, hds⟩ := scanDotUnsigned_some hip hcs.suffix hd
  have htext : ip = ['.'.toUInt8].intercalate [as, bs, cs, ds] ++ rest := by
    rw [hatext, hbtext, hctext, hdtext, intercalate_cons]
    simp
  have hrest : rest = [] := by
    cases hcase : rest with
    | nil => rfl
    | cons b more =>
      have hdots := hip.dots
      obtain rfl : b = '.'.toUInt8 := hds.stop b (by rw [hcase]; rfl)
      rw [htext, hcase, intercalate_cons] at hdots
      simp only [led_cons, led_nil, List.count_append, List.count_cons_self] at hdots
      omega
  simp only [List.forall_mem_cons] at hrange
  obtain ⟨har, hbr, hcr, hdr, -⟩ := hrange
  refine ⟨[as, bs, cs, ds], rfl, ?_, by rw [htext, hrest, List.append_nil]⟩
  simp only [List.forall_mem_cons]
  exact ⟨has.octet har, hbs.octet hbr, hcs.octet hcr, hds.octet hdr, List.forall_mem_nil _⟩

end Quad

/-! ### The groups that are read -/

/-- These groups have been read, and a tail of the text is left only because there are eight
now. -/
structure ReadOn (groups : List Bytes) (tail : Bytes) (before : Nat) : Prop where
  hex : ∀ group ∈ groups, HexGroup group
  colon : AtColon tail
  unread : tail = [] ∨ 8 ≤ before + groups.length

/-- What the next group has before it: a colon if one has been read, and nothing where the
groups begin, at the front and behind the `::`. -/
def StandsAt (bare : Bool) (count : Nat) (text : Bytes) : Prop :=
  if bare then count < 8 ∧
    (text.head? = some ':'.toUInt8 → text.take 2 = [':', ':'].map Char.toUInt8)
  else AtColon text

section Groups

variable {ip text : Bytes} {bare : Bool}

theorem HexGroup.not_atColon {group rest : Bytes} (hgroup : HexGroup group) :
    ¬AtColon (group ++ rest) := by
  obtain ⟨b, more, rfl, hb⟩ := hgroup.exists_cons
  intro hcolon
  exact hb (hcolon b rfl)

theorem ReadOn.cons {group tail : Bytes} {parts : List Bytes} {before : Nat}
    (hgroup : HexGroup group) (h : ReadOn parts tail (before + 1)) :
    ReadOn (group :: parts) tail before where
  hex := List.forall_mem_cons.mpr ⟨hgroup, h.hex⟩
  colon := h.colon
  unread := by
    rw [List.length_cons, ← Nat.add_assoc, Nat.add_right_comm]
    exact h.unread

theorem StrictGroups.head_ne_colon (hip : StrictGroups ip)
    (hsuffix : ':'.toUInt8 :: ':'.toUInt8 :: text <:+ ip) : text.head? ≠ some ':'.toUInt8 := by
  have hthree := hip.colons _ ((List.mem_tails _ _).mpr hsuffix)
  cases text with
  | nil => simp
  | cons b rest => simpa using hthree

theorem StandsAt.atColon {count : Nat} (h : StandsAt bare count text)
    (hstop : text = [] ∨ 8 ≤ count) : AtColon text := by
  cases bare with
  | false => exact h
  | true =>
    obtain rfl := hstop.resolve_right (Nat.not_le.mpr h.1)
    exact atColon_nil

theorem StandsAt.lead_eq {count : Nat} {lead group rest : Bytes} (hgroup : HexGroup group)
    (h : StandsAt bare count (lead ++ group ++ rest)) (hlead : lead = [] ∨ lead = [':'.toUInt8]) :
    lead = if bare then [] else [':'.toUInt8] := by
  cases bare with
  | false =>
    rcases hlead with rfl | rfl
    · exact absurd h hgroup.not_atColon
    · rfl
  | true =>
    rcases hlead with rfl | rfl
    · rfl
    · obtain ⟨b, more, rfl, hb⟩ := hgroup.exists_cons
      exact absurd (by simpa using h.2 rfl) hb

/-- **What is read of a text**: groups, and once a `::`. -/
theorem readableGroups_parts {count : Nat} {seen : Bool} (h : ReadableGroups count seen text)
    (hip : StrictGroups ip) (hsuffix : text <:+ ip) (hstands : StandsAt bare count text) :
    (∃ parts tail, text = joinGroups bare parts ++ tail ∧ ReadOn parts tail count) ∨
    seen = false ∧ ∃ front back tail, text = joinGroups bare front ++ (double back ++ tail) ∧
      (∀ group ∈ front, HexGroup group) ∧ ReadOn back tail (count + front.length) := by
  induction h generalizing bare with
  | done => exact Or.inl ⟨[], [], by simp, by simp, atColon_nil, Or.inl rfl⟩
  | @full _ _ text hfull =>
    exact Or.inl ⟨[], text, by simp, by simp, hstands.atColon (Or.inr hfull), Or.inr hfull⟩
  | @double count rest hroom _ ih =>
    have hbehind : StandsAt true count rest :=
      ⟨hroom, fun hcolon => absurd hcolon (hip.head_ne_colon hsuffix)⟩
    have hrestSuffix : rest <:+ ip :=
      List.IsSuffix.trans ⟨[':'.toUInt8, ':'.toUInt8], rfl⟩ hsuffix
    obtain ⟨back, tail, rfl, hread⟩ := (ih hrestSuffix hbehind).resolve_right (by simp)
    exact Or.inr ⟨rfl, [], back, tail, by simp [joinGroups, double], by simp, hread⟩
  | @group count _ _ lead text rest _ hlead hread _ _ ih =>
    have htext : text <:+ ip := (List.suffix_append _ _).trans hsuffix
    obtain ⟨group, hdigits, hlength, -, rfl, hrest⟩ :=
      strtoul_some (by decide) (by decide) (by decide) (fun b hb => hip.chars b (htext.mem hb))
        (hip.runs text ((List.mem_tails _ _).mpr htext)) hread
    have hgroup : HexGroup group := ⟨hdigits, hlength⟩
    rw [← List.append_assoc] at hstands
    obtain rfl := hstands.lead_eq hgroup hlead
    have hafter : StandsAt false (count + 1) rest := hrest
    rcases ih ((List.suffix_append _ _).trans htext) hafter with ⟨parts, tail, rfl, hon⟩ |
      ⟨hnone, front, back, tail, rfl, hfront, hon⟩
    · exact Or.inl ⟨group :: parts, tail, by simp [joinGroups_cons], hon.cons hgroup⟩
    · refine Or.inr ⟨hnone, group :: front, back, tail, by simp [joinGroups_cons], ?_, ?_⟩
      · exact List.forall_mem_cons.mpr ⟨hgroup, hfront⟩
      · rwa [List.length_cons, ← Nat.add_assoc, Nat.add_right_comm]

/-! ### How many there are -/

theorem groupCount_colon (rest : Bytes) :
    groupCount (':'.toUInt8 :: rest) = groupCount rest := by
  simp [groupCount]

theorem HexGroup.ne_colon {group : Bytes} (h : HexGroup group) :
    ∀ b ∈ group, b ≠ ':'.toUInt8 := by
  rintro b hb rfl
  exact absurd (h.all _ hb) (by decide)

theorem groupCount_group {group rest : Bytes} (hgroup : HexGroup group) (hrest : AtColon rest) :
    groupCount (group ++ rest) = 1 + groupCount rest := by
  have hend : rest.head?.getD ':'.toUInt8 = ':'.toUInt8 := by
    cases rest with
    | nil => rfl
    | cons b more => exact hrest b rfl
  -- Only the last character of the group counts.
  have hcount : ∀ digits b, (∀ x ∈ b :: digits, x ≠ ':'.toUInt8) →
      groupCount (b :: (digits ++ rest)) = 1 + groupCount rest := by
    intro digits
    induction digits with
    | nil =>
      intro b hne
      simp [groupCount, hne b (by simp), hend]
    | cons c digits ih =>
      intro b hne
      have hc : c ≠ ':'.toUInt8 := hne c (by simp)
      rw [groupCount, List.cons_append, ih c fun x hx => hne x (List.mem_cons_of_mem _ hx)]
      simp [hc]
  obtain ⟨b, digits, rfl⟩ := List.exists_cons_of_ne_nil hgroup.ne
  exact hcount digits b hgroup.ne_colon

theorem groupCount_joinGroups (bare : Bool) {parts : List Bytes} {tail : Bytes}
    (hparts : ∀ part ∈ parts, HexGroup part) (htail : AtColon tail) :
    groupCount (joinGroups bare parts ++ tail) = parts.length + groupCount tail := by
  induction parts generalizing bare with
  | nil => simp
  | cons part parts ih =>
    obtain ⟨hpart, hothers⟩ := List.forall_mem_cons.mp hparts
    have hgroup := groupCount_group hpart (atColon_joinGroups parts htail)
    rw [ih false hothers] at hgroup
    rw [joinGroups_cons]
    cases bare <;> simp [groupCount_colon, hgroup] <;> omega

theorem groupCount_double {back : List Bytes} {tail : Bytes}
    (hback : ∀ group ∈ back, HexGroup group) (htail : AtColon tail) :
    groupCount (double back ++ tail) = back.length + groupCount tail := by
  rw [double, List.cons_append, List.cons_append, groupCount_colon, groupCount_colon,
    ← groupCount_joinGroups true hback htail]
  rfl

theorem groupCount_pos {b : UInt8} (hb : b ≠ ':'.toUInt8) (rest : Bytes) :
    0 < groupCount (b :: rest) := by
  induction rest generalizing b with
  | nil => simp [groupCount, hb]
  | cons c rest ih =>
    by_cases hc : c = ':'.toUInt8
    · simp [groupCount, hb, hc]
    · have hnext := ih hc
      rw [groupCount]
      omega

theorem hasDouble_cons (b : UInt8) (rest : Bytes) :
    HasDouble (b :: rest) ↔
      (b :: rest).take 2 = [':', ':'].map Char.toUInt8 ∨ HasDouble rest := by
  simp [HasDouble]

theorem hasDouble_group {group rest : Bytes} (hgroup : HexGroup group) :
    HasDouble (group ++ rest) ↔ HasDouble rest := by
  have hskip : ∀ digits : Bytes, (∀ b ∈ digits, b ≠ ':'.toUInt8) →
      (HasDouble (digits ++ rest) ↔ HasDouble rest) := by
    intro digits hne
    induction digits with
    | nil => simp
    | cons b digits ih =>
      obtain ⟨hb, hothers⟩ := List.forall_mem_cons.mp hne
      rw [List.cons_append, hasDouble_cons, ih hothers]
      simp [hb]
  exact hskip group hgroup.ne_colon

theorem not_hasDouble_joinGroups {parts : List Bytes} (hparts : ∀ part ∈ parts, HexGroup part) :
    ¬HasDouble (joinGroups bare parts) := by
  induction parts generalizing bare with
  | nil => simp [HasDouble]
  | cons part parts ih =>
    obtain ⟨hpart, hothers⟩ := List.forall_mem_cons.mp hparts
    have hrest : ¬HasDouble (joinGroups false parts) := ih hothers
    rw [joinGroups_cons]
    cases bare with
    | true => rwa [if_pos rfl, List.nil_append, hasDouble_group hpart]
    | false =>
      rw [← hasDouble_group hpart] at hrest
      obtain ⟨b, more, rfl, hb⟩ := hpart.exists_cons
      simpa [hasDouble_cons, hb] using hrest

theorem hasDouble_of_suffix {ip back : Bytes} (h : ':'.toUInt8 :: ':'.toUInt8 :: back <:+ ip) :
    HasDouble ip :=
  ⟨_, (List.mem_tails _ _).mpr h, rfl⟩

/-- Behind eight groups without a `::` there is nothing but a colon. -/
theorem tail_eq_nil {tail : Bytes} (hsuffix : tail <:+ ip) (hcolon : AtColon tail)
    (hdouble : ¬HasDouble ip) (hcount : groupCount tail = 0)
    (hlast : ip.getLast? ≠ some ':'.toUInt8) : tail = [] := by
  cases tail with
  | nil => rfl
  | cons b rest =>
    obtain rfl : b = ':'.toUInt8 := hcolon b rfl
    rw [groupCount_colon] at hcount
    cases rest with
    | nil =>
      obtain ⟨front, rfl⟩ := hsuffix
      simp at hlast
    | cons c more =>
      by_cases hc : c = ':'.toUInt8
      · rw [hc] at hsuffix
        exact absurd (hasDouble_of_suffix hsuffix) hdouble
      · exact absurd hcount (Nat.ne_of_gt (groupCount_pos hc more))

/-- **An IPv6 address that is read from such a text is all of it.** -/
theorem ipv6Text_of_readable (hip : StrictGroups ip) (h : ReadableGroups 0 false ip) :
    Ipv6Text ip := by
  have hfront : StandsAt true 0 ip := ⟨by decide, hip.front⟩
  rcases readableGroups_parts h hip List.suffix_rfl hfront with
    ⟨parts, tail, htext, hread⟩ | ⟨-, front, back, tail, htext, hfront, hread⟩
  · have hcount : groupCount ip = parts.length + groupCount tail := by
      rw [htext, groupCount_joinGroups true hread.hex hread.colon]
    have hunread := hread.unread
    rcases hip.count with ⟨hdouble, hfew⟩ | ⟨hdouble, height, hlast⟩
    · -- All has been read, and there was no `::` in it.
      obtain rfl := hunread.resolve_right (by omega)
      rw [htext, List.append_nil] at hdouble
      exact absurd hdouble (not_hasDouble_joinGroups hread.hex)
    · have hnil : tail = [] := by
        rcases hunread with hnil | height'
        · exact hnil
        · exact tail_eq_nil (htext ▸ List.suffix_append _ _) hread.colon hdouble (by omega) hlast
      subst hnil
      rw [List.append_nil] at htext
      exact Or.inl ⟨parts, by simpa [groupCount] using hcount.symm.trans height, hread.hex, htext⟩
  · have hbehind : AtColon (double back ++ tail) := atColon_cons _
    have hcount : groupCount ip = front.length + (back.length + groupCount tail) := by
      rw [htext, groupCount_joinGroups true hfront hbehind, groupCount_double hread.hex hread.colon]
    have hdouble : HasDouble ip := hasDouble_of_suffix
      (show ':'.toUInt8 :: ':'.toUInt8 :: ([':'.toUInt8].intercalate back ++ tail) <:+ ip from
        htext ▸ List.suffix_append _ _)
    have hunread := hread.unread
    rcases hip.count with ⟨-, hfew⟩ | ⟨hnone, -⟩
    · obtain rfl := hunread.resolve_right (by omega)
      rw [List.append_nil] at htext
      exact Or.inr ⟨front, back, by omega, hfront, hread.hex, htext⟩
    · exact absurd hdouble hnone

end Groups

/-! ### The whole text -/

theorem portText_of_readable {digits : Bytes} (hstrict : StrictPort digits)
    (h : ReadablePort digits) : PortText digits := by
  rw [readablePort_iff] at h
  have hne : digits ≠ [] := by
    rintro rfl
    cases h
  have hall : Digits 10 digits := ⟨hne, hstrict.digits⟩
  rw [parsePort_digits hall hstrict.small] at h
  split at h
  · cases h
  · exact ⟨hall, by omega, by omega⟩

theorem isAddressText_of_readable {text : Bytes} (hstrict : Strict text) (h : Readable text) :
    IsAddressText text := by
  cases h with
  | quad hport hpos hlong hhead hlast hip =>
    obtain ⟨hdigits, hquad⟩ := hstrict.quad hhead _ _ rfl hlast
    refine ⟨_, portText_of_readable hdigits hport, ?_⟩
    rcases hip with rfl | ⟨octets, hscan, hrange⟩
    · exact Or.inr (Or.inr rfl)
    · rcases hquad with rfl | hquad
      · exact Or.inr (Or.inr rfl)
      · exact Or.inl ⟨_, quadText_of_scanQuad hquad hscan hrange, rfl⟩
  | groups hport hpos hlong hfirst hip =>
    obtain ⟨hdigits, hgroups⟩ := hstrict.groups _ _ rfl hfirst
    exact ⟨_, portText_of_readable hdigits hport,
      Or.inr (Or.inl ⟨_, ipv6Text_of_readable hgroups hip, rfl⟩)⟩

/-! ### Addresses are read to the letter -/

theorem forall_tails_append {P : Bytes → Prop} {front rest : Bytes}
    (hfront : ∀ text, text ≠ [] → text <:+ front → P (text ++ rest))
    (hrest : ∀ text ∈ rest.tails, P text) : ∀ text ∈ (front ++ rest).tails, P text := by
  induction front with
  | nil => exact hrest
  | cons b front ih =>
    intro text htext
    rw [List.cons_append, List.tails_cons, List.mem_cons] at htext
    rcases htext with rfl | hmem
    · exact hfront (b :: front) (by simp) List.suffix_rfl
    · exact ih (fun text hne hsuffix =>
        hfront text hne (hsuffix.trans (List.suffix_cons b front))) text hmem

theorem length_run_le {base most : Nat} {digits text rest : Bytes} (h : Digits base digits)
    (hlength : digits.length ≤ most) (hrest : Stops base rest) (hne : text ≠ [])
    (hsuffix : text <:+ digits) :
    ((text ++ rest).takeWhile (isDigit base)).length ≤ most := by
  have htext : Digits base text := ⟨hne, fun b hb => h.all b (hsuffix.mem hb)⟩
  rw [takeWhile_digits htext hrest]
  exact hsuffix.length_le.trans hlength

theorem chars_intercalate {base : Nat} {parts : List Bytes} {sep : UInt8}
    (hparts : ∀ part ∈ parts, Digits base part) :
    ∀ b ∈ [sep].intercalate parts, isDigit base b = true ∨ b = sep := by
  intro b hb
  rcases of_mem_intercalate hb with rfl | ⟨part, hpart, hmem⟩
  · exact Or.inr rfl
  · exact Or.inl ((hparts part hpart).all b hmem)

theorem QuadText.strict {ip : Bytes} (h : QuadText ip) : StrictQuad ip := by
  obtain ⟨octets, hfour, hoctets, rfl⟩ := h
  have hruns : ∀ parts : List Bytes, (∀ part ∈ parts, Octet part) →
      ∀ text ∈ (led '.'.toUInt8 parts).tails, (text.takeWhile (isDigit 10)).length ≤ 3 := by
    intro parts hparts
    induction parts with
    | nil => simp
    | cons part parts ih =>
      obtain ⟨hpart, hothers⟩ := List.forall_mem_cons.mp hparts
      rw [led_cons, List.tails_cons, List.forall_mem_cons]
      exact ⟨by simp [show isDigit 10 '.'.toUInt8 = false by decide],
        forall_tails_append (fun text hne hsuffix => length_run_le hpart.toDigits hpart.length
          (stops_led_dot parts) hne hsuffix) (ih hothers)⟩
  obtain ⟨a, b, c, d, rfl⟩ : ∃ a b c d, octets = [a, b, c, d] := by
    match octets, hfour with
    | [a, b, c, d], _ => exact ⟨a, b, c, d, rfl⟩
  have hdot : ∀ octet ∈ [a, b, c, d], octet.count '.'.toUInt8 = 0 := fun octet hoctet =>
    List.count_eq_zero.mpr (not_mem_digits (hoctets octet hoctet).toDigits (by decide))
  refine ⟨chars_intercalate fun octet hoctet => (hoctets octet hoctet).toDigits, ?_, ?_⟩
  · simp only [List.forall_mem_cons] at hdot
    obtain ⟨ha, hb, hc, hd, -⟩ := hdot
    simp [ha, hb, hc, hd]
  · obtain ⟨hfirst, hothers⟩ := List.forall_mem_cons.mp hoctets
    rw [intercalate_cons]
    exact forall_tails_append (fun text hne hsuffix => length_run_le hfirst.toDigits
      hfirst.length (stops_led_dot _) hne hsuffix) (hruns _ hothers)

/-- At the front are at most four digits in a row, and at most two colons. -/
def FewInARow (text : Bytes) : Prop :=
  (text.takeWhile (isDigit 16)).length ≤ 4 ∧ text.take 3 ≠ [':', ':', ':'].map Char.toUInt8

theorem fewInARow_colon {rest : Bytes} (hrest : ¬ (rest.take 2 = [':', ':'].map Char.toUInt8)) :
    FewInARow (':'.toUInt8 :: rest) := by
  refine ⟨by simp [show isDigit 16 ':'.toUInt8 = false by decide], ?_⟩
  simpa using hrest

theorem fewInARow_group {group rest : Bytes} (hgroup : HexGroup group) (hrest : AtColon rest)
    (hfew : ∀ text ∈ rest.tails, FewInARow text) :
    ∀ text ∈ (group ++ rest).tails, FewInARow text := by
  refine forall_tails_append (fun text hne hsuffix => ⟨?_, ?_⟩) hfew
  · exact length_run_le hgroup.toDigits hgroup.length hrest.stops hne hsuffix
  · obtain ⟨b, more, rfl⟩ := List.exists_cons_of_ne_nil hne
    have hb := hgroup.ne_colon b (hsuffix.mem List.mem_cons_self)
    simp [hb]

theorem fewInARow_joinGroups (bare : Bool) {parts : List Bytes} {tail : Bytes}
    (hparts : ∀ part ∈ parts, HexGroup part) (htail : AtColon tail)
    (hfew : ∀ text ∈ tail.tails, FewInARow text) :
    ∀ text ∈ (joinGroups bare parts ++ tail).tails, FewInARow text := by
  induction parts generalizing bare with
  | nil => simpa using hfew
  | cons part parts ih =>
    obtain ⟨hpart, hothers⟩ := List.forall_mem_cons.mp hparts
    have hgroup := fewInARow_group hpart (atColon_joinGroups parts htail) (ih false hothers)
    rw [joinGroups_cons, List.append_assoc, List.append_assoc]
    cases bare with
    | true => exact hgroup
    | false =>
      obtain ⟨b, more, rfl, hb⟩ := hpart.exists_cons
      rw [if_neg Bool.false_ne_true, List.singleton_append, List.tails_cons,
        List.forall_mem_cons]
      exact ⟨fewInARow_colon (by simp [hb]), hgroup⟩

theorem fewInARow_double {back : List Bytes} (hback : ∀ group ∈ back, HexGroup group) :
    ∀ text ∈ (double back).tails, FewInARow text := by
  have hrest := fewInARow_joinGroups true hback atColon_nil (by simp [FewInARow])
  rw [List.append_nil] at hrest
  have hhead : ([':'.toUInt8].intercalate back).head? ≠ some ':'.toUInt8 := by
    cases back with
    | nil => simp
    | cons group back =>
      obtain ⟨b, more, rfl, hb⟩ := (hback group List.mem_cons_self).exists_cons
      simpa [intercalate_cons] using hb
  rw [double, List.tails_cons, List.forall_mem_cons, List.tails_cons, List.forall_mem_cons]
  refine ⟨fewInARow_colon ?_, fewInARow_colon ?_, hrest⟩
  · cases hcase : [':'.toUInt8].intercalate back with
    | nil => simp
    | cons b more =>
      rw [hcase] at hhead
      simpa using hhead
  · intro htwo
    rw [List.head?_eq_getElem?, ← List.getElem?_take_of_lt (by decide : 0 < 2), htwo] at hhead
    exact hhead rfl

theorem getLast?_joinGroups (bare : Bool) {parts : List Bytes}
    (hparts : ∀ part ∈ parts, HexGroup part) :
    (joinGroups bare parts).getLast? ≠ some ':'.toUInt8 := by
  induction parts generalizing bare with
  | nil => simp
  | cons part parts ih =>
    obtain ⟨hpart, hothers⟩ := List.forall_mem_cons.mp hparts
    have hrest := ih false hothers
    rw [joinGroups_cons]
    cases hcase : joinGroups false parts with
    | nil =>
      rw [List.append_nil, List.getLast?_append_of_ne_nil _ hpart.ne]
      exact fun hlast => hpart.ne_colon _ (List.mem_of_getLast? hlast) rfl
    | cons b more =>
      rw [List.getLast?_append_of_ne_nil _ (by simp), ← hcase]
      exact hrest

theorem Ipv6Text.strict {ip : Bytes} (h : Ipv6Text ip) : StrictGroups ip := by
  rcases h with ⟨groups, height, hgroups, rfl⟩ | ⟨front, back, hroom, hfront, hback, rfl⟩
  · have hfew := fewInARow_joinGroups true hgroups atColon_nil (by simp [FewInARow])
    have hcount := groupCount_joinGroups true hgroups atColon_nil
    have hdouble : ¬HasDouble (joinGroups true groups) := not_hasDouble_joinGroups hgroups
    rw [List.append_nil] at hfew hcount
    refine ⟨chars_intercalate fun group hgroup => (hgroups group hgroup).toDigits,
      fun text htext => (hfew text htext).1, fun text htext => (hfew text htext).2, ?_,
      Or.inr ⟨hdouble, hcount.trans height, getLast?_joinGroups true hgroups⟩⟩
    obtain ⟨group, others, rfl⟩ := List.exists_cons_of_length_pos (l := groups) (by omega)
    obtain ⟨b, more, rfl, hb⟩ := (hgroups group List.mem_cons_self).exists_cons
    simp [intercalate_cons, hb]
  · have hfew := fewInARow_joinGroups true hfront (atColon_double back) (fewInARow_double hback)
    have hcount := groupCount_joinGroups true hfront (atColon_double back)
    have hbehind := groupCount_double hback atColon_nil
    rw [List.append_nil] at hbehind
    rw [hbehind] at hcount
    refine ⟨?_, fun text htext => (hfew text htext).1, fun text htext => (hfew text htext).2, ?_,
      Or.inl ⟨hasDouble_of_suffix (List.suffix_append _ (double back)), ?_⟩⟩
    · intro b hb
      simp only [double, List.mem_append, List.mem_cons] at hb
      rcases hb with hb | rfl | rfl | hb
      · exact chars_intercalate (fun group hgroup => (hfront group hgroup).toDigits) b hb
      · exact Or.inr rfl
      · exact Or.inr rfl
      · exact chars_intercalate (fun group hgroup => (hback group hgroup).toDigits) b hb
    · cases front with
      | nil => simp [double]
      | cons group front =>
        obtain ⟨b, more, rfl, hb⟩ := (hfront group List.mem_cons_self).exists_cons
        simp [intercalate_cons, hb]
    · exact lt_of_eq_of_lt hcount hroom

theorem PortText.strict {digits : Bytes} (h : PortText digits) : StrictPort digits :=
  ⟨h.all, Nat.lt_of_le_of_lt h.range (by decide)⟩

theorem bracketed_inj {ip ip' portText portText' : Bytes} (hip : ']'.toUInt8 ∉ ip)
    (hip' : ']'.toUInt8 ∉ ip')
    (h : '['.toUInt8 :: (ip ++ ']'.toUInt8 :: ':'.toUInt8 :: portText) =
      '['.toUInt8 :: (ip' ++ ']'.toUInt8 :: ':'.toUInt8 :: portText')) :
    ip = ip' ∧ portText = portText' := by
  have hrest := (List.cons.inj h).2
  have hfront := congrArg (List.takeWhile (· ≠ ']'.toUInt8)) hrest
  rw [takeWhile_ne_append hip, takeWhile_ne_append hip'] at hfront
  subst hfront
  simpa using hrest

theorem strict_bracketed {ip portText : Bytes} (hip : StrictGroups ip)
    (hport : StrictPort portText) :
    Strict ('['.toUInt8 :: (ip ++ ']'.toUInt8 :: ':'.toUInt8 :: portText)) where
  quad := by
    intro hhead
    simp at hhead
  groups := by
    intro ip' portText' htext hip'
    have hbracket : ']'.toUInt8 ∉ ip := by
      intro hmem
      exact absurd (hip.chars _ hmem) (by decide)
    obtain ⟨rfl, rfl⟩ := bracketed_inj hbracket hip' htext
    exact ⟨hport, hip⟩

theorem strict_unbracketed {ip portText : Bytes}
    (hhead : (ip ++ ':'.toUInt8 :: portText).head? ≠ some '['.toUInt8)
    (hcolon : ':'.toUInt8 ∉ portText) (hport : StrictPort portText)
    (hip : ip = [':', ':'].map Char.toUInt8 ∨ StrictQuad ip) :
    Strict (ip ++ ':'.toUInt8 :: portText) where
  quad := by
    intro _ ip' portText' htext hcolon'
    have hsame : ip = ip' ∧ portText = portText' := by
      rcases List.append_eq_append_iff.mp htext with ⟨between, rfl, hrest⟩ | ⟨between, rfl, hrest⟩
      · cases between with
        | nil => simpa using hrest
        | cons b between => simp [(List.cons.inj hrest).2] at hcolon
      · cases between with
        | nil => simpa using hrest.symm
        | cons b between => simp [(List.cons.inj hrest).2] at hcolon'
    obtain ⟨rfl, rfl⟩ := hsame
    exact ⟨hport, hip⟩
  groups := by
    intro ip' portText' htext
    rw [htext] at hhead
    exact absurd rfl hhead

theorem IsAddressText.strict {text : Bytes} (h : IsAddressText text) : Strict text := by
  obtain ⟨portText, hport, hform⟩ := h
  rcases hform with ⟨ip, hip, rfl⟩ | ⟨ip, hip, rfl⟩ | rfl
  · have hstrict := hip.strict
    obtain ⟨octets, hfour, hoctets, rfl⟩ := hip
    exact strict_unbracketed (head_octets_ne hfour hoctets _) hport.colon_not_mem hport.strict
      (Or.inr hstrict)
  · exact strict_bracketed hip.strict hport.strict
  · refine strict_unbracketed ?_ hport.colon_not_mem hport.strict (Or.inl rfl)
    simp
    decide

/-- **Which texts the parser takes.**  It takes every text of an address; and it takes such a
text and no other exactly if the text, should it be readable, leaves the readers nothing to be
lenient with. -/
theorem parsed_texts_are_addresses (str : Bytes) :
    (IsAddressText (cString str) → (parseAddress str).isSome = true) ∧
    (((parseAddress str).isSome = true ↔ IsAddressText (cString str)) ↔
      (Readable (cString str) → Strict (cString str))) := by
  rw [isSome_parseAddress_iff]
  refine ⟨IsAddressText.readable, fun hiff hread => (hiff.mp hread).strict, fun hcareful => ?_⟩
  exact ⟨fun hread => isAddressText_of_readable (hcareful hread) hread, IsAddressText.readable⟩

/-! ### Texts that are no addresses -/

/-- `1:2:3`. -/
def threeGroups : Bytes := ['1', ':', '2', ':', '3'].map Char.toUInt8

/-- The address in brackets, and the port 80. -/
def bracketed (ip : Bytes) : Bytes :=
  '['.toUInt8 :: (ip ++ ']'.toUInt8 :: ':'.toUInt8 :: ['8', '0'].map Char.toUInt8)

/-- The quad `1.2.3.4`. -/
def shortQuad : Bytes := ['1', '.', '2', '.', '3', '.', '4'].map Char.toUInt8

/-- `80abc`. -/
def portWithLetters : Bytes := ['8', '0', 'a', 'b', 'c'].map Char.toUInt8

/-- `4294967376`, which is `2 ^ 32 + 80`. -/
def portTooLarge : Bytes :=
  ['4', '2', '9', '4', '9', '6', '7', '3', '7', '6'].map Char.toUInt8

/-- The quad and the port. -/
def withPort (portText : Bytes) : Bytes := shortQuad ++ ':'.toUInt8 :: portText

/-- `1.2.3.4:80abc`, `1.2.3.4:4294967376` and `[1:2:3]:80` are parsed, and are no addresses: the
letters behind the port are ignored, the port is cut to 80, and the groups that are missing are
taken to be zero. -/
theorem no_addresses_parsed :
    ((parseAddress (withPort portWithLetters)).map Address.port = some 80 ∧
      ¬IsAddressText (cString (withPort portWithLetters))) ∧
    ((parseAddress (withPort portTooLarge)).map Address.port = some 80 ∧
      ¬IsAddressText (cString (withPort portTooLarge))) ∧
    ((parseAddress (bracketed threeGroups)).isSome = true ∧
      ¬IsAddressText (cString (bracketed threeGroups))) := by
  refine ⟨⟨by decide, fun h => ?_⟩, ⟨by decide, fun h => ?_⟩, by decide, fun h => ?_⟩
  · obtain ⟨hport, -⟩ := h.strict.quad (by decide) shortQuad portWithLetters (by decide) (by decide)
    exact absurd (hport.digits 'a'.toUInt8 (by decide)) (by decide)
  · obtain ⟨hport, -⟩ := h.strict.quad (by decide) shortQuad portTooLarge (by decide) (by decide)
    exact absurd hport.small (by decide)
  · obtain ⟨-, hgroups⟩ := h.strict.groups threeGroups (['8', '0'].map Char.toUInt8) (by decide)
      (by decide)
    exact absurd hgroups.count (by decide)

end Netudp
