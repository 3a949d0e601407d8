import ThemeCss.Decimal.Write

/-!
# SHA-1

The digest works on blocks of sixteen words. A message is padded with one bit, zeros and its length
in bits; each block is spread over eighty words, and eighty rounds mix them into five words of
state. Words wrap modulo 2 ^ 32.
-/
namespace ThemeCss.Digest

def rotate (word amount : UInt32) : UInt32 :=
  (word <<< amount) ||| (word >>> (32 - amount))

structure State where
  a : UInt32
  b : UInt32
  c : UInt32
  d : UInt32
  e : UInt32

namespace State

def initial : State := ⟨0x67452301, 0xEFCDAB89, 0x98BADCFE, 0x10325476, 0xC3D2E1F0⟩

def add (first second : State) : State :=
  ⟨first.a + second.a, first.b + second.b, first.c + second.c, first.d + second.d,
    first.e + second.e⟩

/-- The function and the constant of a round mix the middle words. -/
def mixture (state : State) (round : Nat) : UInt32 :=
  let { b, c, d, .. } := state
  if round < 20 then ((b &&& c) ||| (~~~b &&& d)) + 0x5A827999
  else if round < 40 then (b ^^^ c ^^^ d) + 0x6ED9EBA1
  else if round < 60 then ((b &&& c) ||| (b &&& d) ||| (c &&& d)) + 0x8F1BBCDC
  else (b ^^^ c ^^^ d) + 0xCA62C1D6

def step (state : State) (round : Nat) (word : UInt32) : State :=
  ⟨rotate state.a 5 + state.mixture round + state.e + word, state.a, rotate state.b 30, state.c,
    state.d⟩

end State

/-- Each further word is built from four of the sixteen before it. -/
def spread (words : Array UInt32) : Array UInt32 :=
  (List.range 64).foldl (fun words t =>
    let word (back : Nat) := words.getD (t + 16 - back) 0
    words.push (rotate (word 3 ^^^ word 8 ^^^ word 14 ^^^ word 16) 1)) words

def absorb (state : State) (block : List UInt32) : State :=
  let words := (spread block.toArray).toList
  state.add ((words.zipIdx).foldl (fun mixed (word, round) => mixed.step round word) state)

def wordOfBytes (a b c d : UInt8) : UInt32 :=
  (a.toUInt32 <<< 24) ||| (b.toUInt32 <<< 16) ||| (c.toUInt32 <<< 8) ||| d.toUInt32

def wordsOfBytes : List UInt8 → List UInt32
  | a :: b :: c :: d :: rest => wordOfBytes a b c d :: wordsOfBytes rest
  | _ => []

/-- The length in bits, as eight bytes. -/
def lengthBytes (size : Nat) : List UInt8 :=
  (List.range 8).map fun place => UInt8.ofNat (8 * size / Nat.pow 256 (7 - place))

def padded (bytes : List UInt8) : List UInt8 :=
  bytes ++ [0x80] ++ List.replicate ((119 - bytes.length % 64) % 64) 0 ++
    lengthBytes bytes.length

def absorbAll (state : State) (words : List UInt32) : State :=
  match words with
  | [] => state
  -- Sixteen words are a block.
  | word :: rest => absorbAll (absorb state (word :: rest.take 15)) (rest.drop 15)
termination_by words.length
decreasing_by simp only [List.length_drop, List.length_cons]; omega

def hexWord (word : UInt32) : Text :=
  let digits := Nat.toDigits 16 word.toNat
  List.replicate (8 - digits.length) '0' ++ digits

/-- The SHA-1 digest in hexadecimal. -/
def sha1 (bytes : List UInt8) : Text :=
  let { a, b, c, d, e } := absorbAll State.initial (wordsOfBytes (padded bytes))
  [a, b, c, d, e].flatMap hexWord

/-- The key of a text is its length and the digest of its UTF-8 form. -/
def contentKey (text : Text) : Text :=
  Decimal.digits text.length ++ [':'] ++ sha1 (String.ofList text).toUTF8.toList

end ThemeCss.Digest
