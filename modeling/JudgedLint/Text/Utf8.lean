import JudgedLint.Text.Hex
import JudgedLint.Text.Surrogate

/-! UTF-8: encoding, strict decoding with the place and cause of the first fault, and decoding
that replaces each faulty sequence.

A faulty sequence is the longest start of a character that the bytes hold, or one byte. -/
namespace JudgedLint.Text

abbrev Bytes := List UInt8

inductive Utf8Fault where
  | invalidStart
  | invalidContinuation
  | unexpectedEnd
  deriving DecidableEq, Repr

def Utf8Fault.reason : Utf8Fault → String
  | .invalidStart => "invalid start byte"
  | .invalidContinuation => "invalid continuation byte"
  | .unexpectedEnd => "unexpected end of data"

/-- The first fault of a byte sequence: its bytes are those from `start`, `width` in number. -/
structure Utf8Error where
  fault : Utf8Fault
  start : Nat
  width : Nat
  byte : UInt8
  deriving DecidableEq, Repr

def Utf8Error.message (e : Utf8Error) : String :=
  let reason := e.fault.reason
  if e.width == 1 then
    s!"'utf-8' codec can't decode byte 0x{hex 2 e.byte.toNat} in position {e.start}: {reason}"
  else
    s!"'utf-8' codec can't decode bytes in position {e.start}-{e.start + e.width - 1}: {reason}"

/-- What stands at the head of the bytes; `extra` counts the bytes taken behind the first. -/
inductive Utf8Step where
  | char (c : Char) (extra : Nat)
  | fault (f : Utf8Fault) (extra : Nat)

def Utf8Step.extra : Utf8Step → Nat
  | .char _ n => n
  | .fault _ n => n

def isContinuation (b : UInt8) : Bool := 0x80 ≤ b && b < 0xC0

def low6 (b : UInt8) : Nat := b.toNat % 64

def utf8Step (b0 : UInt8) (rest : Bytes) : Utf8Step :=
  if b0 < 0x80 then .char (Char.ofNat b0.toNat) 0
  else if b0 < 0xC2 then .fault .invalidStart 0
  else if b0 < 0xE0 then
    match rest with
    | [] => .fault .unexpectedEnd 0
    | b1 :: _ =>
      if isContinuation b1 then .char (Char.ofNat ((b0.toNat - 0xC0) * 64 + low6 b1)) 1
      else .fault .invalidContinuation 0
  else if b0 < 0xF0 then
    match rest with
    | [] => .fault .unexpectedEnd 0
    | b1 :: tail =>
      if !isContinuation b1 || (b0 == 0xE0 && b1 < 0xA0) || (b0 == 0xED && 0xA0 ≤ b1) then
        .fault .invalidContinuation 0
      else
        match tail with
        | [] => .fault .unexpectedEnd 1
        | b2 :: _ =>
          if isContinuation b2 then
            .char (Char.ofNat ((b0.toNat - 0xE0) * 4096 + low6 b1 * 64 + low6 b2)) 2
          else .fault .invalidContinuation 1
  else if b0 < 0xF5 then
    match rest with
    | [] => .fault .unexpectedEnd 0
    | b1 :: tail =>
      if !isContinuation b1 || (b0 == 0xF0 && b1 < 0x90) || (b0 == 0xF4 && 0x90 ≤ b1) then
        .fault .invalidContinuation 0
      else
        match tail with
        | [] => .fault .unexpectedEnd 1
        | b2 :: tail =>
          if !isContinuation b2 then .fault .invalidContinuation 1
          else
            match tail with
            | [] => .fault .unexpectedEnd 2
            | b3 :: _ =>
              if isContinuation b3 then
                .char (Char.ofNat
                  ((b0.toNat - 0xF0) * 262144 + low6 b1 * 4096 + low6 b2 * 64 + low6 b3)) 3
              else .fault .invalidContinuation 2
  else .fault .invalidStart 0

/-- Decodes strictly, from the position `at` of the first byte on. -/
def decodeFrom (pos : Nat) : Bytes → Except Utf8Error (List Char)
  | [] => .ok []
  | b :: rest =>
    match utf8Step b rest with
    | .char c extra => (decodeFrom (pos + 1 + extra) (rest.drop extra)).map (c :: ·)
    | .fault f extra => .error ⟨f, pos, extra + 1, b⟩
  termination_by bs => bs.length
  decreasing_by simp only [List.length_cons, List.length_drop]; omega

/-- Replaces each faulty sequence by U+FFFD. -/
def decodeLossy : Bytes → List Char
  | [] => []
  | b :: rest =>
    match utf8Step b rest with
    | .char c extra => c :: decodeLossy (rest.drop extra)
    | .fault _ extra => '\uFFFD' :: decodeLossy (rest.drop extra)
  termination_by bs => bs.length
  decreasing_by all_goals (simp only [List.length_cons, List.length_drop]; omega)

def utf8Decode (bs : Bytes) : Except Utf8Error String := (decodeFrom 0 bs).map String.ofList

def utf8DecodeLossy (bs : Bytes) : String := String.ofList (decodeLossy bs)

def utf8Encode (s : String) : Bytes := s.toList.flatMap String.utf8EncodeChar

/-- The first surrogates of a text that no bytes stand for: `count` of them in a row. -/
structure EncodeError where
  code : Nat
  start : Nat
  count : Nat
  deriving DecidableEq, Repr

def EncodeError.message (e : EncodeError) : String :=
  if e.count == 1 then
    let shown := String.ofList (hexChars 4 e.code)
    s!"'utf-8' codec can't encode character '\\u" ++ shown ++
      s!"' in position {e.start}: surrogates not allowed"
  else
    s!"'utf-8' codec can't encode characters in position {e.start}-{e.start + e.count - 1}: " ++
      "surrogates not allowed"

def surrogates? (s : String) : Option EncodeError :=
  let (before, rest) := s.toList.span (!isStandIn ·)
  rest.head?.map fun c => ⟨codeOf c, before.length, (rest.takeWhile isStandIn).length⟩

def utf8Encode? (s : String) : Except EncodeError Bytes :=
  match surrogates? s with
  | some e => .error e
  | none => .ok (utf8Encode s)

end JudgedLint.Text
