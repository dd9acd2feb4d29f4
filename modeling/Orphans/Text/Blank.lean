import Orphans.Text.Ranges

/-! White space, and trimming.

Blank means the Unicode property White_Space, which holds more than the blanks of a source file: the
next-line control, the no-break space and the ideographic space are blank, the zero-width space and the
byte order mark are not.
-/

set_option autoImplicit false

namespace Orphans.Text

def blankRanges : List CodeRange :=
  [(0x9, 0xd), (0x20, 0x20), (0x85, 0x85), (0xa0, 0xa0), (0x1680, 0x1680), (0x2000, 0x200a),
   (0x2028, 0x2029), (0x202f, 0x202f), (0x205f, 0x205f), (0x3000, 0x3000)]

def isBlank (c : Char) : Bool := inRanges blankRanges c

def dropEndWhile (drop : Char → Bool) (text : List Char) : List Char :=
  (text.reverse.dropWhile drop).reverse

def trim (text : List Char) : List Char :=
  dropEndWhile isBlank (text.dropWhile isBlank)

theorem isInfix_trim (text : List Char) : trim text <:+: text := by
  have front : trim text <+: text.dropWhile isBlank := by
    rw [trim, dropEndWhile, ← List.reverse_suffix, List.reverse_reverse]
    exact List.dropWhile_suffix _
  exact front.isInfix.trans (List.dropWhile_suffix _).isInfix

end Orphans.Text
