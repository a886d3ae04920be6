namespace QueryLoop.Text

/-- The bytes that may follow `first`: how many more there are, and the bounds of
the next one. -/
def followers? (first : UInt8) : Option (Nat × UInt8 × UInt8) :=
  if first < 0x80 then some (0, 0, 0)
  else if 0xC2 ≤ first && first ≤ 0xDF then some (1, 0x80, 0xBF)
  else if first == 0xE0 then some (2, 0xA0, 0xBF)
  else if first == 0xED then some (2, 0x80, 0x9F)
  else if 0xE1 ≤ first && first ≤ 0xEF then some (2, 0x80, 0xBF)
  else if first == 0xF0 then some (3, 0x90, 0xBF)
  else if 0xF1 ≤ first && first ≤ 0xF3 then some (3, 0x80, 0xBF)
  else if first == 0xF4 then some (3, 0x80, 0x8F)
  else none

def leadBits (first : UInt8) : Nat :=
  if first < 0x80 then first.toNat
  else if first < 0xE0 then first.toNat - 0xC0
  else if first < 0xF0 then first.toNat - 0xE0
  else first.toNat - 0xF0

/-- State of reading: the code so far, how many bytes are missing, and the bounds
of the next one. -/
structure Partial where
  code : Nat
  missing : Nat
  low : UInt8
  high : UInt8

def replacement : Char :=
  Char.ofNat 0xFFFD

def startChar (first : UInt8) : List Char × Option Partial :=
  match followers? first with
  | none => ([replacement], none)
  | some (0, _, _) => ([Char.ofNat first.toNat], none)
  | some (missing, low, high) => ([], some ⟨leadBits first, missing, low, high⟩)

def stepChar (reading : Option Partial) (byte : UInt8) : List Char × Option Partial :=
  match reading with
  | none => startChar byte
  | some reading =>
      if reading.low ≤ byte && byte ≤ reading.high then
        let code := reading.code * 64 + (byte.toNat - 0x80)
        if reading.missing ≤ 1 then ([Char.ofNat code], none)
        else ([], some ⟨code, reading.missing - 1, 0x80, 0xBF⟩)
      else
        let (chars, next) := startChar byte
        (replacement :: chars, next)

def decodeChars (reading : Option Partial) : List UInt8 → List Char
  | [] => if reading.isSome then [replacement] else []
  | byte :: bytes =>
      let (chars, next) := stepChar reading byte
      chars ++ decodeChars next bytes

/-- The text of some bytes.  Every longest piece that starts a character but does not
finish it becomes one replacement character. -/
def decodeLossy (bytes : List UInt8) : String :=
  String.ofList (decodeChars none bytes)

end QueryLoop.Text
