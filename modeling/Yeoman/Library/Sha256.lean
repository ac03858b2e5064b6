import Mathlib.Data.String.Basic

/-! SHA-256 as `hashlib.sha256(...).hexdigest()` computes it, over 32-bit words
held as natural numbers below `2 ^ 32`. -/
namespace Yeoman.Library.Sha256

def roundConstants : List Nat := [
  0x428a2f98, 0x71374491, 0xb5c0fbcf, 0xe9b5dba5, 0x3956c25b, 0x59f111f1, 0x923f82a4, 0xab1c5ed5,
  0xd807aa98, 0x12835b01, 0x243185be, 0x550c7dc3, 0x72be5d74, 0x80deb1fe, 0x9bdc06a7, 0xc19bf174,
  0xe49b69c1, 0xefbe4786, 0x0fc19dc6, 0x240ca1cc, 0x2de92c6f, 0x4a7484aa, 0x5cb0a9dc, 0x76f988da,
  0x983e5152, 0xa831c66d, 0xb00327c8, 0xbf597fc7, 0xc6e00bf3, 0xd5a79147, 0x06ca6351, 0x14292967,
  0x27b70a85, 0x2e1b2138, 0x4d2c6dfc, 0x53380d13, 0x650a7354, 0x766a0abb, 0x81c2c92e, 0x92722c85,
  0xa2bfe8a1, 0xa81a664b, 0xc24b8b70, 0xc76c51a3, 0xd192e819, 0xd6990624, 0xf40e3585, 0x106aa070,
  0x19a4c116, 0x1e376c08, 0x2748774c, 0x34b0bcb5, 0x391c0cb3, 0x4ed8aa4a, 0x5b9cca4f, 0x682e6ff3,
  0x748f82ee, 0x78a5636f, 0x84c87814, 0x8cc70208, 0x90befffa, 0xa4506ceb, 0xbef9a3f7, 0xc67178f2]

structure State where
  (a b c d e f g h : Nat)

def initial : State :=
  ⟨0x6a09e667,0xbb67ae85,0x3c6ef372,0xa54ff53a,0x510e527f,0x9b05688c,0x1f83d9ab,0x5be0cd19⟩

def word (n : Nat) : Nat := n % 0x100000000

def rotr (n x : Nat) : Nat := word ((x >>> n) ||| (x <<< (32 - n)))

def smallSigma0 (x : Nat) : Nat := rotr 7 x ^^^ rotr 18 x ^^^ (x >>> 3)

def smallSigma1 (x : Nat) : Nat := rotr 17 x ^^^ rotr 19 x ^^^ (x >>> 10)

def bigSigma0 (x : Nat) : Nat := rotr 2 x ^^^ rotr 13 x ^^^ rotr 22 x

def bigSigma1 (x : Nat) : Nat := rotr 6 x ^^^ rotr 11 x ^^^ rotr 25 x

def choose (x y z : Nat) : Nat := (x &&& y) ^^^ ((0xffffffff ^^^ x) &&& z)

def majority (x y z : Nat) : Nat := (x &&& y) ^^^ (x &&& z) ^^^ (y &&& z)

def round (s : State) (k w : Nat) : State :=
  let t1 := word (s.h + bigSigma1 s.e + choose s.e s.f s.g + k + w)
  let t2 := word (bigSigma0 s.a + majority s.a s.b s.c)
  ⟨word (t1 + t2),s.a,s.b,s.c,word (s.d + t1),s.e,s.f,s.g⟩

def advance (window : List Nat) : List Nat :=
  window.tail ++ [word (smallSigma1 (window.getD 14 0) + window.getD 9 0 +
    smallSigma0 (window.getD 1 0) + window.headD 0)]

def rounds : List Nat → List Nat → State → State
  | [], _, s => s
  | k :: ks, window, s => rounds ks (advance window) (round s k (window.headD 0))

def compress (s : State) (block : List Nat) : State :=
  let t := rounds roundConstants block s
  ⟨word (s.a + t.a),word (s.b + t.b),word (s.c + t.c),word (s.d + t.d),
    word (s.e + t.e),word (s.f + t.f),word (s.g + t.g),word (s.h + t.h)⟩

def bytesBE : Nat → Nat → List Nat
  | 0, _ => []
  | k + 1, n => (n >>> (8 * k)) % 256 :: bytesBE k n

def pad (bytes : List Nat) : List Nat :=
  let zeros := (119 - bytes.length % 64) % 64
  bytes ++ 0x80 :: (List.replicate zeros 0 ++ bytesBE 8 (8 * bytes.length))

def words : List Nat → List Nat
  | a :: b :: c :: d :: r => (((a * 256 + b) * 256 + c) * 256 + d) :: words r
  | _ => []

def blocks : Nat → List Nat → State → State
  | 0, _, s => s
  | n + 1, ws, s => blocks n (ws.drop 16) (compress s (ws.take 16))

def digest (bytes : List Nat) : State :=
  let ws := words (pad bytes)
  blocks (ws.length / 16) ws initial

def hexWord (n : Nat) : List Char :=
  (bytesBE 4 n).flatMap fun b => [Nat.digitChar (b / 16), Nat.digitChar (b % 16)]

def encode (s : String) : List Nat :=
  s.toList.flatMap fun c => (String.utf8EncodeChar c).map UInt8.toNat

def hexdigest (s : String) : String :=
  let t := digest (encode s)
  String.ofList ([t.a, t.b, t.c, t.d, t.e, t.f, t.g, t.h].flatMap hexWord)

example : hexdigest "abc" = "ba7816bf8f01cfea414140de5dae2223b00361a396177a9cb410ff61f20015ad" := by
  decide +kernel

theorem hexdigest_length {s : String} : (hexdigest s).toList.length = 64 := by
  simp [hexdigest,hexWord,bytesBE]

/-- Two different texts with one digest. -/
def Collision (x y : String) : Prop := x ≠ y ∧ hexdigest x = hexdigest y

theorem hexdigest_eq_iff {x y : String} : hexdigest x = hexdigest y ↔ x = y ∨ Collision x y := by
  constructor
  · intro h
    by_cases hx : x = y
    · exact .inl hx
    · exact .inr ⟨hx,h⟩
  · rintro (rfl | h)
    · rfl
    · exact h.2

end Yeoman.Library.Sha256
