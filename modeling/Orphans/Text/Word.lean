import Orphans.Text.Alphabetic
import Orphans.Text.Mark
import Orphans.Text.Numeric
import Orphans.Text.Recent

/-! Word characters and the places where a word begins.

A word character is alphabetic, a mark, a decimal digit, connector punctuation or a joiner, all by
version 16 of Unicode. ASCII is decided without the tables, so that the common case is short to compute
and to reason about.
-/

set_option autoImplicit false

namespace Orphans.Text

def connectorRanges : List CodeRange :=
  [(0x5f, 0x5f), (0x203f, 0x2040), (0x2054, 0x2054), (0xfe33, 0xfe34), (0xfe4d, 0xfe4f),
   (0xff3f, 0xff3f)]

def isConnector (c : Char) : Bool := inRanges connectorRanges c

def isJoiner (c : Char) : Bool := inRange (0x200c, 0x200d) c

def isAsciiWord (c : Char) : Bool := c.isAlphanum || c == '_'

def isWord (c : Char) : Bool :=
  if c.toNat < 128 then isAsciiWord c
  else !isRecent c &&
    (isAlphabetic c || isMark c || isDecimal c || isConnector c || isJoiner c)

/-- A word may begin after `previous`: there is no character there, or it is no word character. -/
def wordMayStart (previous : Option Char) : Bool :=
  !previous.any isWord

@[simp] theorem wordMayStart_none : wordMayStart none = true := rfl

@[simp] theorem wordMayStart_some (c : Char) : wordMayStart (some c) = !isWord c := rfl

end Orphans.Text
