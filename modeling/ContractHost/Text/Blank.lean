/-!
# Blank names

Names are compared with the empty name after their surrounding white space is dropped, so a name is
**blank** when each of its characters has the Unicode property `White_Space`.
-/

namespace ContractHost

namespace Text

/-- The characters with the property `White_Space`. -/
def isBlankChar (c : Char) : Bool :=
  let n := c.toNat
  (0x09 ≤ n && n ≤ 0x0D) || n == 0x20 || n == 0x85 || n == 0xA0 || n == 0x1680 ||
    (0x2000 ≤ n && n ≤ 0x200A) || n == 0x2028 || n == 0x2029 || n == 0x202F || n == 0x205F ||
    n == 0x3000

/-- Nothing but white space. -/
def isBlank (s : String) : Bool :=
  s.toList.all isBlankChar

end Text

end ContractHost
