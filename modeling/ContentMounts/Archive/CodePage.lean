import ContentMounts.Text.Utf8

/-!
# Code page 437

The encoding of entry names that are not marked as UTF-8: ASCII in its lower half and the characters
of the first personal computers in its upper half.
-/

namespace ContentMounts

namespace CodePage

/-- The characters of the bytes from 128 on. -/
def upperHalf : Text :=
  ("ÇüéâäàåçêëèïîìÄÅ" ++ "ÉæÆôöòûùÿÖÜ¢£¥₧ƒ" ++ "áíóúñÑªº¿⌐¬½¼¡«»" ++ "░▒▓│┤╡╢╖╕╣║╗╝╜╛┐"
    ++ "└┴┬├─┼╞╟╚╔╩╦╠═╬╧" ++ "╨╤╥╙╘╒╓╫╪┘┌█▄▌▐▀" ++ "αßΓπΣσµτΦΘΩδ∞φε∩"
    ++ "≡±≥≤⌠⌡÷≈°∙·√ⁿ²■\u00a0").toList

/-- The character of a byte. -/
def char (b : UInt8) : Char :=
  if b.toNat < 128 then Char.ofNat b.toNat else upperHalf.getD (b.toNat - 128) ' '

/-- The text of a byte string. -/
def decode (bs : Bytes) : Text := bs.map char

end CodePage

end ContentMounts
