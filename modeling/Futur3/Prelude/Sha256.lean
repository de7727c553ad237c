import Mathlib.Data.Nat.Notation
import Mathlib.Tactic.TypeStar

/-! # SHA-256

The digest of a UTF-8 text in lowercase hexadecimal. Words are natural numbers
below `2 ^ 32`; the message schedule is the window of the next sixteen words.
-/

namespace Futur3.Prelude.Sha256

def wordSize : ℕ := 4294967296

def rotateRight (n x : ℕ) : ℕ := (x >>> n) ||| ((x <<< (32 - n)) % wordSize)

def bigSigma0 (x : ℕ) : ℕ := rotateRight 2 x ^^^ rotateRight 13 x ^^^ rotateRight 22 x

def bigSigma1 (x : ℕ) : ℕ := rotateRight 6 x ^^^ rotateRight 11 x ^^^ rotateRight 25 x

def smallSigma0 (x : ℕ) : ℕ := rotateRight 7 x ^^^ rotateRight 18 x ^^^ (x >>> 3)

def smallSigma1 (x : ℕ) : ℕ := rotateRight 17 x ^^^ rotateRight 19 x ^^^ (x >>> 10)

def choose (x y z : ℕ) : ℕ := (x &&& y) ^^^ ((wordSize - 1 - x) &&& z)

def majority (x y z : ℕ) : ℕ := (x &&& y) ^^^ (x &&& z) ^^^ (y &&& z)

structure State where
  a : ℕ
  b : ℕ
  c : ℕ
  d : ℕ
  e : ℕ
  f : ℕ
  g : ℕ
  h : ℕ

def initial : State :=
  ⟨0x6a09e667, 0xbb67ae85, 0x3c6ef372, 0xa54ff53a, 0x510e527f, 0x9b05688c, 0x1f83d9ab, 0x5be0cd19⟩

def roundConstants : List ℕ :=
  [0x428a2f98, 0x71374491, 0xb5c0fbcf, 0xe9b5dba5, 0x3956c25b, 0x59f111f1, 0x923f82a4, 0xab1c5ed5,
    0xd807aa98, 0x12835b01, 0x243185be, 0x550c7dc3, 0x72be5d74, 0x80deb1fe, 0x9bdc06a7, 0xc19bf174,
    0xe49b69c1, 0xefbe4786, 0x0fc19dc6, 0x240ca1cc, 0x2de92c6f, 0x4a7484aa, 0x5cb0a9dc, 0x76f988da,
    0x983e5152, 0xa831c66d, 0xb00327c8, 0xbf597fc7, 0xc6e00bf3, 0xd5a79147, 0x06ca6351, 0x14292967,
    0x27b70a85, 0x2e1b2138, 0x4d2c6dfc, 0x53380d13, 0x650a7354, 0x766a0abb, 0x81c2c92e, 0x92722c85,
    0xa2bfe8a1, 0xa81a664b, 0xc24b8b70, 0xc76c51a3, 0xd192e819, 0xd6990624, 0xf40e3585, 0x106aa070,
    0x19a4c116, 0x1e376c08, 0x2748774c, 0x34b0bcb5, 0x391c0cb3, 0x4ed8aa4a, 0x5b9cca4f, 0x682e6ff3,
    0x748f82ee, 0x78a5636f, 0x84c87814, 0x8cc70208, 0x90befffa, 0xa4506ceb, 0xbef9a3f7, 0xc67178f2]

def round (s : State) (scheduled : ℕ) : State :=
  let t1 := s.h + bigSigma1 s.e + choose s.e s.f s.g + scheduled
  let t2 := bigSigma0 s.a + majority s.a s.b s.c
  ⟨(t1 + t2) % wordSize, s.a, s.b, s.c, (s.d + t1) % wordSize, s.e, s.f, s.g⟩

/-- One round on the first word of the window, which makes room for a new last word. -/
def step (acc : State × List ℕ) (k : ℕ) : State × List ℕ :=
  match acc.2 with
  | [] => acc
  | w :: rest =>
    let next := smallSigma1 (rest.getD 13 0) + rest.getD 8 0 + smallSigma0 (rest.getD 0 0) + w
    (round acc.1 (k + w), rest ++ [next % wordSize])

def compress (s : State) (block : List ℕ) : State :=
  let r := (roundConstants.foldl step (s, block)).1
  ⟨(s.a + r.a) % wordSize, (s.b + r.b) % wordSize, (s.c + r.c) % wordSize, (s.d + r.d) % wordSize,
    (s.e + r.e) % wordSize, (s.f + r.f) % wordSize, (s.g + r.g) % wordSize, (s.h + r.h) % wordSize⟩

/-- Big-endian words of four bytes. -/
def wordsOf : List ℕ → List ℕ
  | a :: b :: c :: d :: rest => (a * 16777216 + b * 65536 + c * 256 + d) :: wordsOf rest
  | _ => []

def blocks (words : List ℕ) : ℕ → List (List ℕ)
  | 0 => []
  | n + 1 => words.take 16 :: blocks (words.drop 16) n

/-- A one bit, zeros up to a multiple of 64 bytes, and the length in bits in eight bytes. -/
def pad (bytes : List ℕ) : List ℕ :=
  bytes ++ 128 :: List.replicate ((119 - bytes.length % 64) % 64) 0 ++
    (List.range 8).map fun i => (8 * bytes.length) >>> (8 * (7 - i)) % 256

def digest (bytes : List ℕ) : State :=
  let padded := pad bytes
  (blocks (wordsOf padded) (padded.length / 64)).foldl compress initial

def hex8 (w : ℕ) : List Char :=
  (List.range 8).map fun i => Nat.digitChar ((w >>> (4 * (7 - i))) % 16)

def utf8 (text : String) : List ℕ :=
  text.toList.flatMap fun c => (String.utf8EncodeChar c).map UInt8.toNat

def hexdigest (text : String) : String :=
  let r := digest (utf8 text)
  String.ofList ([r.a, r.b, r.c, r.d, r.e, r.f, r.g, r.h].flatMap hex8)

theorem length_hexdigest (text : String) : (hexdigest text).length = 64 := by
  simp [hexdigest, hex8]

theorem digitChar_mem_hex : ∀ n < 16, Nat.digitChar n ∈ "0123456789abcdef".toList := by
  decide

theorem hex_hexdigest (text : String) :
    ∀ c ∈ (hexdigest text).toList, c ∈ "0123456789abcdef".toList := by
  intro c hc
  simp only [hexdigest, String.toList_ofList] at hc
  obtain ⟨w, -, hc⟩ := List.mem_flatMap.mp hc
  obtain ⟨i, -, rfl⟩ := List.mem_map.mp hc
  exact digitChar_mem_hex _ (Nat.mod_lt _ (by decide))

example : hexdigest "abc" = "ba7816bf8f01cfea414140de5dae2223b00361a396177a9cb410ff61f20015ad" := by
  decide +kernel

end Futur3.Prelude.Sha256
