import QueryLoop.Text.CharWidth

namespace QueryLoop.Text

def isIgnoredMark (c : Char) : Bool :=
  inRanges
    #[(0x34F, 0x34F), (0x17B4, 0x17B5), (0x180B, 0x180D), (0x180F, 0x180F), (0xFE00, 0xFE0F),
      (0xE0100, 0xE01EF)]
    c

def separatingRanges : Array (Nat × Nat) :=
  #[(0x605, 0x605), (0x890, 0x891), (0x8E2, 0x8E2), (0x9BE, 0x9BE), (0x9D7, 0x9D7),
    (0xB3E, 0xB3E), (0xB57, 0xB57), (0xBBE, 0xBBE), (0xBD7, 0xBD7), (0xCC0, 0xCC0),
    (0xCC2, 0xCC2), (0xCC7, 0xCC8), (0xCCA, 0xCCB), (0xCD5, 0xCD6), (0xD3E, 0xD3E),
    (0xD4E, 0xD4E), (0xD57, 0xD57), (0xDCF, 0xDCF), (0xDDF, 0xDDF), (0x1160, 0x11FF),
    (0x1715, 0x1715), (0x1734, 0x1734), (0x180E, 0x180E), (0x1B35, 0x1B35), (0x1B3B, 0x1B3B),
    (0x1B3D, 0x1B3D), (0x1B43, 0x1B44), (0x1BAA, 0x1BAA), (0x1BF2, 0x1BF3), (0x200C, 0x200D),
    (0x2065, 0x2069), (0x302E, 0x302F), (0x3164, 0x3164), (0xA8FA, 0xA8FA), (0xA953, 0xA953),
    (0xA9C0, 0xA9C0), (0xD7B0, 0xD7C6), (0xD7CB, 0xD7FB), (0xFFA0, 0xFFA0), (0xFFF0, 0xFFF8),
    (0x111C0, 0x111C0), (0x111C2, 0x111C3), (0x11235, 0x11235), (0x1133E, 0x1133E),
    (0x1134D, 0x1134D), (0x11357, 0x11357), (0x113B8, 0x113B8), (0x113C2, 0x113C2),
    (0x113C5, 0x113C5), (0x113C7, 0x113C9), (0x113CF, 0x113CF), (0x113D1, 0x113D1),
    (0x114B0, 0x114B0), (0x114BD, 0x114BD), (0x115AF, 0x115AF), (0x116B6, 0x116B6),
    (0x11930, 0x11930), (0x1193D, 0x1193D), (0x1193F, 0x1193F), (0x11941, 0x11941),
    (0x11A84, 0x11A89), (0x11D46, 0x11D46), (0x11F02, 0x11F02), (0x11F41, 0x11F41),
    (0x1D165, 0x1D166), (0x1D16D, 0x1D172), (0xE0000, 0xE0000), (0xE0002, 0xE001F),
    (0xE0080, 0xE00FF), (0xE01F0, 0xE0FFF)]

def isTransparentMark (c : Char) : Bool :=
  charWidth c == 0 && !inRanges separatingRanges c

def isAlef (c : Char) : Bool :=
  inRanges
    #[(0x622, 0x623), (0x625, 0x625), (0x627, 0x627), (0x671, 0x673), (0x675, 0x675),
      (0x773, 0x774), (0x870, 0x882)] c

def isLam (c : Char) : Bool :=
  inRanges #[(0x644, 0x644), (0x6B5, 0x6B8), (0x76A, 0x76A), (0x8A6, 0x8A6), (0x8C7, 0x8C7)] c

/-- A Khmer letter that is drawn below the line when the subscript sign stands in
front of it. -/
def isSubscriptLetter (c : Char) : Bool :=
  inRanges
    #[(0x1780, 0x1782), (0x1784, 0x1787), (0x1789, 0x178C), (0x178E, 0x1793), (0x1795, 0x1798),
      (0x179B, 0x179D), (0x17A0, 0x17A0), (0x17A2, 0x17A2), (0x17A7, 0x17A7), (0x17AB, 0x17AC),
      (0x17AF, 0x17AF)] c

def isTifinaghConsonant (c : Char) : Bool :=
  inRanges #[(0x2D31, 0x2D65), (0x2D6F, 0x2D6F)] c

def isFirstTone (c : Char) : Bool :=
  inRanges #[(0xA4F8, 0xA4FB)] c

def isSecondTone (c : Char) : Bool :=
  inRanges #[(0xA4FC, 0xA4FD)] c

/-- What a letter in front may be drawn together with.  `joined` says that a joiner
stands before the letter. -/
inductive LigatureTail where
  | alef
  | lamed (joined : Bool)
  | ya (joined : Bool)
  | vowelYa
  | tifinagh (joined : Bool)
  | markedTifinagh
  | secondTone
  | orkhonI (joined : Bool)
  | subscriptLetter
deriving DecidableEq, Repr

namespace LigatureTail

def join : LigatureTail → LigatureTail
  | lamed _ => lamed true
  | ya _ => ya true
  | tifinagh _ => tifinagh true
  | orkhonI _ => orkhonI true
  | tail => tail

/-- What a ligature comes to when `c` is put in front of it: how many columns that
adds, and what is left to be completed. -/
def extend? (tail : LigatureTail) (c : Char) : Option (Int × Option LigatureTail) :=
  if tail ≠ alef ∧ c = joiner then some (0, some tail.join)
  else if tail ≠ alef ∧ isIgnoredMark c then some (0, some tail)
  else
    match tail with
    | alef =>
        if isLam c then some (0, none)
        else if isTransparentMark c then some (0, some alef)
        else none
    | lamed joined => if joined ∧ c = '\u05D0' then some (0, none) else none
    | ya joined => if joined ∧ c = '\u1A17' then some (0, some vowelYa) else none
    | vowelYa => if c = '\u1A15' then some (0, none) else none
    | tifinagh joined =>
        if c = '\u2D7F' then some (1, some markedTifinagh)
        else if joined ∧ isTifinaghConsonant c then some (0, none)
        else none
    | markedTifinagh => if isTifinaghConsonant c then some (-1, none) else none
    | secondTone => if isFirstTone c then some (0, none) else none
    | orkhonI joined => if joined ∧ c.toNat = 0x10C32 then some (0, none) else none
    | subscriptLetter => if c = '\u17D2' then some (-1, none) else none

def ofChar? (c : Char) : Option LigatureTail :=
  if isAlef c then some alef
  else if c = '\u05DC' then some (lamed false)
  else if isSubscriptLetter c then some subscriptLetter
  else if c = '\u1A10' then some (ya false)
  else if isTifinaghConsonant c then some (tifinagh false)
  else if isSecondTone c then some secondTone
  else if c.toNat = 0x10C03 then some (orkhonI false)
  else none

end LigatureTail

/-- The Kirat Rai vowel signs that longer vowel signs are put together from. -/
inductive VowelTail where
  | e
  | ai
deriving DecidableEq, Repr

namespace VowelTail

def extend? (tail : VowelTail) (c : Char) : Option (Int × Option VowelTail) :=
  match tail, c.toNat with
  | e, 0x16D63 => some (0, none)
  | e, 0x16D67 => some (0, some ai)
  | e, 0x16D68 => some (1, some e)
  | e, 0x16D69 => some (0, none)
  | ai, 0x16D63 => some (0, none)
  | _, _ => none

def ofChar? (c : Char) : Option VowelTail :=
  match c.toNat with
  | 0x16D67 => some e
  | 0x16D68 => some ai
  | _ => none

end VowelTail

end QueryLoop.Text
