import MacroPlugin.Octets

/-!
Where the well-formed start of an octet string ends. UTF-8 admits, for each leading octet, one
range of second octets; every later octet of a character is a plain continuation. The length of
the well-formed start is what an error about foreign octets inside a text points at.
-/

namespace MacroPlugin.Utf8

def isContinuation (octet : UInt8) : Bool :=
  0x80 ≤ octet && octet ≤ 0xBF

/-- The two-octet characters. -/
def isPair (a b : UInt8) : Bool :=
  0xC2 ≤ a && a ≤ 0xDF && isContinuation b

/-- The first two octets of a three-octet character: no longer form of a shorter character, and
no surrogate. -/
def startsTriple (a b : UInt8) : Bool :=
  (a = 0xE0 && 0xA0 ≤ b && b ≤ 0xBF) ||
  (a = 0xED && 0x80 ≤ b && b ≤ 0x9F) ||
  (0xE1 ≤ a && a ≤ 0xEF && a ≠ 0xED && isContinuation b)

/-- The first two octets of a four-octet character: nothing above U+10FFFF. -/
def startsQuadruple (a b : UInt8) : Bool :=
  (a = 0xF0 && 0x90 ≤ b && b ≤ 0xBF) ||
  (a = 0xF4 && 0x80 ≤ b && b ≤ 0x8F) ||
  (0xF1 ≤ a && a ≤ 0xF3 && isContinuation b)

/-- How many octets precede the first one that belongs to no whole character. -/
def wellFormedLength : Octets → Nat
  | [] => 0
  | a :: rest =>
    if a < 0x80 then wellFormedLength rest + 1
    else match rest with
      | [] => 0
      | b :: rest =>
        if isPair a b then wellFormedLength rest + 2
        else match rest with
          | [] => 0
          | c :: rest =>
            if startsTriple a b && isContinuation c then wellFormedLength rest + 3
            else match rest with
              | [] => 0
              | d :: rest =>
                if startsQuadruple a b && isContinuation c && isContinuation d then
                  wellFormedLength rest + 4
                else 0

end MacroPlugin.Utf8
