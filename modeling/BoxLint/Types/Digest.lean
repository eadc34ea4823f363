/-!
# The 64-bit xxHash

A byte string is read as little-endian words of 64 bits. Full stripes of four words go through four
accumulators; the words, half word and bytes left over are mixed in one after the other, and a last
step spreads every bit over the result. The seed is zero.
-/

namespace BoxLint.Digest

/-! ## The constants -/

def prime₁ : UInt64 := 0x9e3779b185ebca87
def prime₂ : UInt64 := 0xc2b2ae3d27d4eb4f
def prime₃ : UInt64 := 0x165667b19e3779f9
def prime₄ : UInt64 := 0x85ebca77c2b2ae63
def prime₅ : UInt64 := 0x27d4eb2f165667c5

/-! ## The steps -/

/-- Rotates a word to the left, by fewer than 64 bits. -/
def rotate (x n : UInt64) : UInt64 := (x <<< n) ||| (x >>> (64 - n))

/-- Mixes a word into an accumulator. -/
def round (acc word : UInt64) : UInt64 := rotate (acc + word * prime₂) 31 * prime₁

/-- Mixes an accumulator into the result. -/
def merge (h acc : UInt64) : UInt64 := (h ^^^ round 0 acc) * prime₁ + prime₄

/-- The word that a few bytes make up, the lowest byte first. -/
def littleEndian (bs : List UInt8) : UInt64 := bs.foldr (fun b n => (n <<< 8) ||| b.toUInt64) 0

/-- The full words of a byte string, and the bytes left over. -/
def words : List UInt8 → List UInt64 × List UInt8
  | b₀ :: b₁ :: b₂ :: b₃ :: b₄ :: b₅ :: b₆ :: b₇ :: bs =>
    let (ws, rest) := words bs
    (littleEndian [b₀, b₁, b₂, b₃, b₄, b₅, b₆, b₇] :: ws, rest)
  | bs => ([], bs)

/-- The four accumulators of the full stripes. -/
structure Lanes where
  a : UInt64
  b : UInt64
  c : UInt64
  d : UInt64

/-- The accumulators before the first stripe. -/
def Lanes.start : Lanes := ⟨prime₁ + prime₂, prime₂, 0, 0 - prime₁⟩

/-- One word of a stripe goes to each accumulator. -/
def Lanes.add (l : Lanes) (a b c d : UInt64) : Lanes :=
  ⟨round l.a a, round l.b b, round l.c c, round l.d d⟩

/-- The accumulators put together. -/
def Lanes.total (l : Lanes) : UInt64 :=
  let sum := rotate l.a 1 + rotate l.b 7 + rotate l.c 12 + rotate l.d 18
  merge (merge (merge (merge sum l.a) l.b) l.c) l.d

/-- The accumulators after every full stripe, and the words left over. -/
def stripes (l : Lanes) : List UInt64 → Lanes × List UInt64
  | a :: b :: c :: d :: ws => stripes (l.add a b c d) ws
  | ws => (l, ws)

/-- The result of the full stripes, or its value for a text without one. -/
def body (ws : List UInt64) : UInt64 × List UInt64 :=
  if ws.length < 4 then (prime₅, ws)
  else
    let (l, rest) := stripes Lanes.start ws
    (l.total, rest)

/-- Mixes in a word after the last full stripe. -/
def addWord (h word : UInt64) : UInt64 := rotate (h ^^^ round 0 word) 27 * prime₁ + prime₄

/-- Mixes in half a word. -/
def addHalf (h half : UInt64) : UInt64 := rotate (h ^^^ (half * prime₁)) 23 * prime₂ + prime₃

/-- Mixes in a byte. -/
def addByte (h : UInt64) (b : UInt8) : UInt64 := rotate (h ^^^ (b.toUInt64 * prime₅)) 11 * prime₁

/-- Mixes in the bytes after the last full word. -/
def addBytes (h : UInt64) : List UInt8 → UInt64
  | b₀ :: b₁ :: b₂ :: b₃ :: bs => bs.foldl addByte (addHalf h (littleEndian [b₀, b₁, b₂, b₃]))
  | bs => bs.foldl addByte h

/-- Spreads every bit over the result. -/
def spread (h : UInt64) : UInt64 :=
  let h := (h ^^^ (h >>> 33)) * prime₂
  let h := (h ^^^ (h >>> 29)) * prime₃
  h ^^^ (h >>> 32)

/-- The 64-bit xxHash of a byte string, with seed zero. -/
def xxHash64 (bytes : List UInt8) : UInt64 :=
  let (ws, rest) := words bytes
  let (h, ws) := body ws
  spread (addBytes (ws.foldl addWord (h + UInt64.ofNat bytes.length)) rest)

end BoxLint.Digest
