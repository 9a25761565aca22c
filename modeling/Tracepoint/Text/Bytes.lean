/-!
# Texts in bytes

Reading bytes as text without failing. In UTF-8, a sequence of bytes that cannot
be continued to a character counts as one replacement character, and reading
goes on behind it. In code page 437, every byte is a character.
-/

namespace Tracepoint.Text

/-- The character that stands for bytes that are no text. -/
def replacement : Char := '\ufffd'

/-- The ranges of the bytes that must follow a first byte; none if no character starts with
    it. -/
def followers? (b : UInt8) : Option (List (UInt8 × UInt8)) :=
  let any : UInt8 × UInt8 := (0x80, 0xbf)
  if b < 0x80 then some []
  else if b < 0xc2 then none
  else if b < 0xe0 then some [any]
  else if b = 0xe0 then some [(0xa0, 0xbf), any]
  else if b = 0xed then some [(0x80, 0x9f), any]
  else if b < 0xf0 then some [any, any]
  else if b = 0xf0 then some [(0x90, 0xbf), any, any]
  else if b < 0xf4 then some [any, any, any]
  else if b = 0xf4 then some [(0x80, 0x8f), any, any]
  else none

/-- How many of the leading bytes lie in the ranges, one by one. -/
def fitting : List (UInt8 × UInt8) → List UInt8 → Nat
  | r :: rs, b :: bs => if r.1 ≤ b && b ≤ r.2 then fitting rs bs + 1 else 0
  | _, _ => 0

/-- The character with a first byte and the bytes that follow it. -/
def assemble (b : UInt8) (following : List UInt8) : Char :=
  let lead := match following.length with
    | 0 => b.toNat
    | 1 => b.toNat % 0x20
    | 2 => b.toNat % 0x10
    | _ => b.toNat % 0x08
  Char.ofNat (following.foldl (fun acc c => acc * 0x40 + c.toNat % 0x40) lead)

/-- Reads UTF-8; what is no text becomes replacement characters. -/
def decodeLossy : List UInt8 → List Char
  | [] => []
  | b :: rest =>
    match followers? b with
    | none => replacement :: decodeLossy rest
    | some ranges =>
      let n := fitting ranges rest
      let c := if n = ranges.length then assemble b (rest.take n) else replacement
      c :: decodeLossy (rest.drop n)
  termination_by s => s.length
  decreasing_by all_goals grind

/-- The characters of code page 437 from byte 128 on. -/
def page437 : List Char :=
  ("ÇüéâäàåçêëèïîìÄÅÉæÆôöòûùÿÖÜ¢£¥₧ƒ" ++
    "áíóúñÑªº¿⌐¬½¼¡«»░▒▓│┤╡╢╖╕╣║╗╝╜╛┐" ++
    "└┴┬├─┼╞╟╚╔╩╦╠═╬╧╨╤╥╙╘╒╓╫╪┘┌█▄▌▐▀" ++
    "αßΓπΣσµτΦΘΩδ∞φε∩≡±≥≤⌠⌡÷≈°∙·√ⁿ²■\u00a0").toList

/-- Reads bytes in code page 437. -/
def decode437 (bytes : List UInt8) : List Char :=
  bytes.map fun b =>
    if b < 0x80 then Char.ofNat b.toNat else (page437[b.toNat - 0x80]?).getD replacement

end Tracepoint.Text
