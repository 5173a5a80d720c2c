set_option autoImplicit false

namespace DocQuery.Text

def isBlank (c : Char) : Bool :=
  let n := c.toNat
  (9 ≤ n && n ≤ 13) || n == 0x20 || n == 0x85 || n == 0xA0 || n == 0x1680
    || (0x2000 ≤ n && n ≤ 0x200A) || n == 0x2028 || n == 0x2029 || n == 0x202F
    || n == 0x205F || n == 0x3000

def trimChars (chars : List Char) : List Char :=
  ((chars.dropWhile isBlank).reverse.dropWhile isBlank).reverse

def allBlank (s : String) : Bool := s.toList.all isBlank

def lowerAscii (c : Char) : Char :=
  if 'A' ≤ c ∧ c ≤ 'Z' then Char.ofNat (c.toNat + 32) else c

def lowerAsciiChars (s : String) : List Char := s.toList.map lowerAscii

def sameIgnoringAsciiCase (a b : String) : Bool := lowerAsciiChars a == lowerAsciiChars b

def joinPath (keys : List String) : String := String.intercalate "." keys

end DocQuery.Text
