/-!
# Reading bytes as text

Bytes are read as UTF-8. `scalar` reads one scalar value, or says how many bytes from the start
are invalid together and why: the longest part that could still begin a scalar value is one
invalid part. `decode` refuses the whole text at the first invalid part; `decodeReplacing`
writes one replacement character for each.
-/

namespace TsProject.Utf8

/-- Why a part is invalid. -/
inductive Reason where
  | startByte
  | continuationByte
  | endOfData
  deriving DecidableEq, Repr

/-- The text of the reason. -/
def Reason.message : Reason → String
  | .startByte => "invalid start byte"
  | .continuationByte => "invalid continuation byte"
  | .endOfData => "unexpected end of data"

/-- What stands at the start of a list of bytes. -/
inductive Read where
  /-- A scalar value of `length` bytes. -/
  | scalar (c : Char) (length : Nat)
  /-- An invalid part of `length` bytes. -/
  | invalid (reason : Reason) (length : Nat)
  deriving Repr

/-- The byte continues a scalar value. -/
def isContinuation (b : UInt8) : Bool := 0x80 ≤ b && b ≤ 0xbf

/-- The low bits of a continuation byte. -/
def payload (b : UInt8) : Nat := b.toNat % 64

/-- The second byte may follow the first of three. -/
def fitsSecondOfThree (b0 b1 : UInt8) : Bool :=
  isContinuation b1 && (b0 != 0xe0 || 0xa0 ≤ b1) && (b0 != 0xed || b1 < 0xa0)

/-- The second byte may follow the first of four. -/
def fitsSecondOfFour (b0 b1 : UInt8) : Bool :=
  isContinuation b1 && (b0 != 0xf0 || 0x90 ≤ b1) && (b0 != 0xf4 || b1 < 0x90)

/-- What stands at the start of `b0 :: rest`. -/
def scalar (b0 : UInt8) (rest : List UInt8) : Read :=
  if b0 < 0x80 then .scalar (Char.ofNat b0.toNat) 1
  else if b0 < 0xc2 then .invalid .startByte 1
  else if b0 < 0xe0 then
    match rest with
    | [] => .invalid .endOfData 1
    | b1 :: _ =>
      if isContinuation b1 then .scalar (Char.ofNat (b0.toNat % 32 * 64 + payload b1)) 2
      else .invalid .continuationByte 1
  else if b0 < 0xf0 then
    match rest with
    | [] => .invalid .endOfData 1
    | b1 :: rest =>
      if !fitsSecondOfThree b0 b1 then .invalid .continuationByte 1
      else match rest with
        | [] => .invalid .endOfData 2
        | b2 :: _ =>
          if isContinuation b2 then
            .scalar (Char.ofNat ((b0.toNat % 16 * 64 + payload b1) * 64 + payload b2)) 3
          else .invalid .continuationByte 2
  else if b0 < 0xf5 then
    match rest with
    | [] => .invalid .endOfData 1
    | b1 :: rest =>
      if !fitsSecondOfFour b0 b1 then .invalid .continuationByte 1
      else match rest with
        | [] => .invalid .endOfData 2
        | b2 :: rest =>
          if !isContinuation b2 then .invalid .continuationByte 2
          else match rest with
            | [] => .invalid .endOfData 3
            | b3 :: _ =>
              if isContinuation b3 then
                .scalar (Char.ofNat
                  (((b0.toNat % 8 * 64 + payload b1) * 64 + payload b2) * 64 + payload b3)) 4
              else .invalid .continuationByte 3
  else .invalid .startByte 1

/-- Why and where bytes are no text: the bytes from `start` to `stop` (exclusive) are invalid
together. -/
structure DecodeError where
  firstByte : UInt8
  start : Nat
  stop : Nat
  reason : Reason
  deriving DecidableEq, Repr

/-- The text of the error. -/
def DecodeError.message (e : DecodeError) : String :=
  let digits := String.ofList
    [nibble (e.firstByte.toNat / 16), nibble (e.firstByte.toNat % 16)]
  let place :=
    if e.stop = e.start + 1 then "byte 0x" ++ digits ++ " in position " ++ toString e.start
    else "bytes in position " ++ toString e.start ++ "-" ++ toString (e.stop - 1)
  "'utf-8' codec can't decode " ++ place ++ ": " ++ e.reason.message
where
  /-- A digit of base sixteen. -/
  nibble (n : Nat) : Char := if n < 10 then Char.ofNat (48 + n) else Char.ofNat (87 + n)

/-- Decodes `bytes`, of which the first stands at the position `start`. -/
def decodeFrom (start : Nat) (bytes : List UInt8) : Except DecodeError (List Char) :=
  match bytes with
  | [] => .ok []
  | b :: rest =>
    match scalar b rest with
    | .scalar c length => (decodeFrom (start + length) (rest.drop (length - 1))).map (c :: ·)
    | .invalid reason length => .error ⟨b, start, start + length, reason⟩
termination_by bytes.length
decreasing_by simp only [List.length_drop, List.length_cons]; omega

/-- **Strict decoding**: the text of the bytes, or the first invalid part. -/
def decode (bytes : List UInt8) : Except DecodeError String :=
  (decodeFrom 0 bytes).map String.ofList

/-- Decodes `bytes` with a replacement character for each invalid part. -/
def replacing (bytes : List UInt8) : List Char :=
  match bytes with
  | [] => []
  | b :: rest =>
    match scalar b rest with
    | .scalar c length => c :: replacing (rest.drop (length - 1))
    | .invalid _ length => '\ufffd' :: replacing (rest.drop (length - 1))
termination_by bytes.length
decreasing_by all_goals (simp only [List.length_drop, List.length_cons]; omega)

/-- **Lenient decoding**: every invalid part becomes one replacement character. -/
def decodeReplacing (bytes : List UInt8) : String := String.ofList (replacing bytes)

/-- The bytes of a text. -/
def encode (s : String) : List UInt8 := s.toUTF8.toList

end TsProject.Utf8
