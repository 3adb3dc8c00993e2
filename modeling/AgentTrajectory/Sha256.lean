import AgentTrajectory.PyText

/-! `hashlib.sha256(data).hexdigest()`. Words are natural numbers below `2 ^ 32`. -/
namespace AgentTrajectory.Sha256
open PyText

def add (x y : ℕ) : ℕ := (x + y) % 4294967296
def rotr (n x : ℕ) : ℕ := (x >>> n) ||| ((x <<< (32 - n)) % 4294967296)
def ch (x y z : ℕ) : ℕ := (x &&& y) ^^^ ((4294967295 - x) &&& z)
def maj (x y z : ℕ) : ℕ := (x &&& y) ^^^ (x &&& z) ^^^ (y &&& z)
def bigSigma0 (x : ℕ) : ℕ := rotr 2 x ^^^ rotr 13 x ^^^ rotr 22 x
def bigSigma1 (x : ℕ) : ℕ := rotr 6 x ^^^ rotr 11 x ^^^ rotr 25 x
def smallSigma0 (x : ℕ) : ℕ := rotr 7 x ^^^ rotr 18 x ^^^ (x >>> 3)
def smallSigma1 (x : ℕ) : ℕ := rotr 17 x ^^^ rotr 19 x ^^^ (x >>> 10)

def roundConstants : List ℕ := [
  0x428a2f98, 0x71374491, 0xb5c0fbcf, 0xe9b5dba5, 0x3956c25b, 0x59f111f1, 0x923f82a4, 0xab1c5ed5,
  0xd807aa98, 0x12835b01, 0x243185be, 0x550c7dc3, 0x72be5d74, 0x80deb1fe, 0x9bdc06a7, 0xc19bf174,
  0xe49b69c1, 0xefbe4786, 0x0fc19dc6, 0x240ca1cc, 0x2de92c6f, 0x4a7484aa, 0x5cb0a9dc, 0x76f988da,
  0x983e5152, 0xa831c66d, 0xb00327c8, 0xbf597fc7, 0xc6e00bf3, 0xd5a79147, 0x06ca6351, 0x14292967,
  0x27b70a85, 0x2e1b2138, 0x4d2c6dfc, 0x53380d13, 0x650a7354, 0x766a0abb, 0x81c2c92e, 0x92722c85,
  0xa2bfe8a1, 0xa81a664b, 0xc24b8b70, 0xc76c51a3, 0xd192e819, 0xd6990624, 0xf40e3585, 0x106aa070,
  0x19a4c116, 0x1e376c08, 0x2748774c, 0x34b0bcb5, 0x391c0cb3, 0x4ed8aa4a, 0x5b9cca4f, 0x682e6ff3,
  0x748f82ee, 0x78a5636f, 0x84c87814, 0x8cc70208, 0x90befffa, 0xa4506ceb, 0xbef9a3f7, 0xc67178f2]

structure State where
  a : ℕ
  b : ℕ
  c : ℕ
  d : ℕ
  e : ℕ
  f : ℕ
  g : ℕ
  h : ℕ

def initial : State :=
  ⟨0x6a09e667, 0xbb67ae85, 0x3c6ef372, 0xa54ff53a, 0x510e527f, 0x9b05688c, 0x1f83d9ab, 0x5be0cd19⟩

/-- The first `n` words of the message schedule, from a window of sixteen. -/
def schedule : ℕ → List ℕ → List ℕ
  | 0, _ => []
  | _ + 1, [] => []
  | n + 1, w :: ws =>
      let next := add (add (smallSigma1 (ws.getD 13 0)) (ws.getD 8 0))
        (add (smallSigma0 (ws.getD 0 0)) w)
      w :: schedule n (ws ++ [next])

def round (s : State) (kw : ℕ × ℕ) : State :=
  let t1 := add (add (add s.h (bigSigma1 s.e)) (add (ch s.e s.f s.g) kw.1)) kw.2
  let t2 := add (bigSigma0 s.a) (maj s.a s.b s.c)
  ⟨add t1 t2, s.a, s.b, s.c, add s.d t1, s.e, s.f, s.g⟩

def compress (s : State) (block : List ℕ) : State :=
  let t := (roundConstants.zip (schedule 64 block)).foldl round s
  ⟨add s.a t.a, add s.b t.b, add s.c t.c, add s.d t.d, add s.e t.e, add s.f t.f, add s.g t.g,
    add s.h t.h⟩

def pad (data : List ℕ) : List ℕ :=
  data ++ [0x80] ++ List.replicate ((119 - data.length % 64) % 64) 0 ++
    (List.range 8).map fun i => (8 * data.length) >>> (8 * (7 - i)) % 256

def words : List ℕ → List ℕ
  | a :: b :: c :: d :: rest => (((a * 256 + b) * 256 + c) * 256 + d) :: words rest
  | _ => []

def blocks : ℕ → List ℕ → List (List ℕ)
  | 0, _ => []
  | n + 1, ws => ws.take 16 :: blocks n (ws.drop 16)

def digest (data : List ℕ) : State :=
  (blocks ((pad data).length / 64) (words (pad data))).foldl compress initial

def hexWord (w : ℕ) : PyStr := (List.range 8).map fun i => hexDigit (w >>> (4 * (7 - i)) % 16)

def hexdigest (data : Bytes) : PyStr :=
  let s := digest (data.map UInt8.toNat)
  [s.a, s.b, s.c, s.d, s.e, s.f, s.g, s.h].flatMap hexWord

@[simp] lemma hexdigest_length (data : Bytes) : (hexdigest data).length = 64 := by
  simp [hexdigest, hexWord]

lemma hexdigest_ascii (data : Bytes) : ∀ c ∈ hexdigest data, c.val < 128 := by
  have hd : ∀ d < 16, (hexDigit d).val < 128 := by decide
  intro c hc
  simp only [hexdigest, List.mem_flatMap, hexWord, List.mem_map] at hc
  obtain ⟨w, -, i, -, rfl⟩ := hc
  exact hd _ (Nat.mod_lt _ (by norm_num))

example : hexdigest [97, 98, 99] =
    py "ba7816bf8f01cfea414140de5dae2223b00361a396177a9cb410ff61f20015ad" := by decide +kernel

end AgentTrajectory.Sha256
