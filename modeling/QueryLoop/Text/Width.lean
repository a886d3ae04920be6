import QueryLoop.Text.Ligature

namespace QueryLoop.Text

/-! How many columns a text takes on a screen.

ASCII text takes one column a byte.  In other text the width of a character
depends on what stands behind it, since selectors, joiners and ligatures change
how it is drawn; so the columns are added up from the end. -/

/-- What the text behind a place begins with, as far as the character in front of
it may be drawn together with it. -/
inductive Tail where
  | plain
  | lineFeed
  | ligature (tail : LigatureTail)
  | vowel (tail : VowelTail)
  | emoji (tail : EmojiTail)
deriving DecidableEq, Repr

structure Context where
  selector : Option Selector := none
  tail : Tail := .plain
deriving DecidableEq, Repr

namespace Tail

def ofLigature : Option LigatureTail → Tail
  | none => plain
  | some tail => ligature tail

def ofVowel : Option VowelTail → Tail
  | none => plain
  | some tail => vowel tail

/-- Only a ligature goes on over a selector that does not suit the character in
front of it. -/
def overSelector : Tail → Tail
  | ligature tail => ligature tail
  | _ => plain

/-- A joined emoji waits for the character that the selector turns into one. -/
def isJoinedEmoji : Tail → Bool
  | emoji .joined => true
  | emoji .joinedKeycap => true
  | _ => false

def extend? (tail : Tail) (c : Char) : Option (Int × Tail) :=
  match tail with
  | plain => none
  | lineFeed => none
  | ligature tail => (tail.extend? c).map fun (columns, rest) => (columns, ofLigature rest)
  | vowel tail => (tail.extend? c).map fun (columns, rest) => (columns, ofVowel rest)
  | emoji tail => (tail.extend? c).map fun (columns, longer) => (columns, emoji longer)

def ofChar (c : Char) : Tail :=
  match LigatureTail.ofChar? c with
  | some tail => ligature tail
  | none =>
      match VowelTail.ofChar? c with
      | some tail => vowel tail
      | none =>
          match EmojiTail.ofChar? c with
          | some tail => emoji tail
          | none => plain

end Tail

namespace Context

def select (context : Context) (selector : Selector) : Context where
  selector := some selector
  tail :=
    if selector = .emoji ∧ context.tail.isJoinedEmoji then context.tail
    else context.tail.overSelector

def selectedWidth? (context : Context) (c : Char) : Option (Int × Tail) :=
  match context.selector with
  | none => none
  | some .emoji =>
      if isSelectable c then
        some (if context.tail.isJoinedEmoji then 0 else 2, .emoji .picture)
      else none
  | some .text => if isNarrowable c then some (1, .plain) else none
  | some .fullwidth =>
      if c = '\u2018' ∨ c = '\u2019' ∨ c = '\u201C' ∨ c = '\u201D' then some (2, .plain)
      else none

def tailAcross (context : Context) : Tail :=
  match context.selector with
  | none => context.tail
  | some _ => context.tail.overSelector

end Context

/-- How many columns `c` adds in front of a context, and the context it makes. -/
def advance (c : Char) (context : Context) : Int × Context :=
  match context.selectedWidth? c with
  | some (columns, tail) => (columns, { tail })
  | none =>
      let tail := context.tailAcross
      if decide (c.toNat ≤ 0xA0) then
        if c = '\n' then (1, { tail := .lineFeed })
        else if c = '\r' ∧ tail = .lineFeed then (0, {})
        else (1, {})
      else
        match Selector.ofChar? c with
        | some selector => (0, ({ tail } : Context).select selector)
        | none =>
            match tail.extend? c with
            | some (columns, tail) => (columns, { tail })
            | none => (charWidth c, { tail := .ofChar c })

def measure (chars : List Char) : Int × Context :=
  chars.foldr
    (fun c (total, context) =>
      let (columns, context) := advance c context
      (total + columns, context))
    (0, {})

def width (text : String) : Nat :=
  let chars := text.toList
  if chars.all isAscii then chars.length else (measure chars).1.toNat

end QueryLoop.Text
