import P2PApp.Protocol.Message

/-!
# Proof-of-work in its JavaScript form

The FNV-style hash of the fallback implementation, over the UTF-16 code units of the text and in
signed 32-bit steps, the verifier, and the bounded search for a nonce.
-/

namespace P2PApp.Pow

/-- The code units that `charCodeAt` reads. -/
def charCodes (data : String) : List ℕ :=
  data.toList.flatMap fun c ↦
    if c.toNat < 0x10000 then [c.toNat]
    else [0xD800 + (c.toNat - 0x10000) / 0x400, 0xDC00 + (c.toNat - 0x10000) % 0x400]

/-- The signed 32-bit integer with the same low bits. -/
def toInt32 (value : ℤ) : ℤ := (BitVec.ofInt 32 value).toInt

def xor32 (left right : ℤ) : ℤ := (BitVec.ofInt 32 left ^^^ BitVec.ofInt 32 right).toInt

/-- `Math.imul`. -/
def imul (left right : ℤ) : ℤ := toInt32 (left * right)

/-- `jsSimpleHash`; the last conversion is `hash >>> 0`. -/
def jsSimpleHash (data : String) : ℕ :=
  let hash := (charCodes data).foldl (fun hash code ↦ imul (xor32 hash code) 0x01000193) 0x811c9dc5
  (BitVec.ofInt 32 hash).toNat

def verifyPuzzle (data : String) (difficulty nonce : ℕ) : Bool :=
  jsSimpleHash (data ++ toString nonce) % difficulty == 0

/-- The search loop from `nonce` on, with the number of attempts that remain. -/
def solveLoop (data : String) (difficulty : ℕ) : (attempts nonce : ℕ) → ℕ
  | 0, _ => 0
  | attempts + 1, nonce =>
    if jsSimpleHash (data ++ toString nonce) % difficulty = 0 then nonce
    else solveLoop data difficulty attempts (nonce + 1)

def solvePuzzle (data : String) (difficulty : ℕ) : ℕ := solveLoop data difficulty 1000001 0

/-- A tag over the signed fields, standing for a signature in closed examples. -/
def tag (key : String) (fields : SignedFields) : String :=
  key ++ "/" ++ fields.id ++ "/" ++ fields.sender ++ "/" ++ fields.topic

/-- The JavaScript backend, with a keyed tag in the place of the crypto library. -/
def javaScript : Platform where
  solvePuzzle := solvePuzzle
  verifyPuzzle := verifyPuzzle
  sign := tag
  verify fields signature publicKey := signature == tag publicKey fields

end P2PApp.Pow
