import AgentTrajectory.Sha256

/-! `hashlib.sha1(data).hexdigest()`. Padding and words are those of SHA-256. -/
namespace AgentTrajectory.Sha1
open PyText Sha256

def rotl (n x : ℕ) : ℕ := rotr (32 - n) x

structure Registers where
  a : ℕ
  b : ℕ
  c : ℕ
  d : ℕ
  e : ℕ

def start : Registers := ⟨0x67452301, 0xefcdab89, 0x98badcfe, 0x10325476, 0xc3d2e1f0⟩

/-- The first `n` words of the message schedule, from a window of sixteen. -/
def expand : ℕ → List ℕ → List ℕ
  | 0, _ => []
  | _ + 1, [] => []
  | n + 1, w :: ws =>
      w :: expand n (ws ++ [rotl 1 (ws.getD 12 0 ^^^ ws.getD 7 0 ^^^ ws.getD 1 0 ^^^ w)])

def parity (x y z : ℕ) : ℕ := x ^^^ y ^^^ z

/-- The function and the constant of round `t`. -/
def mix (t : ℕ) (x y z : ℕ) : ℕ × ℕ :=
  if t < 20 then (ch x y z, 0x5a827999)
  else if t < 40 then (parity x y z, 0x6ed9eba1)
  else if t < 60 then (maj x y z, 0x8f1bbcdc)
  else (parity x y z, 0xca62c1d6)

def turn (s : Registers) (wt : ℕ × ℕ) : Registers :=
  let f := mix wt.2 s.b s.c s.d
  let t := add (add (add (rotl 5 s.a) f.1) (add s.e f.2)) wt.1
  ⟨t, s.a, rotl 30 s.b, s.c, s.d⟩

def absorb (s : Registers) (block : List ℕ) : Registers :=
  let t := (expand 80 block).zipIdx.foldl turn s
  ⟨add s.a t.a, add s.b t.b, add s.c t.c, add s.d t.d, add s.e t.e⟩

def hexdigest (data : Bytes) : PyStr :=
  let padded := pad (data.map UInt8.toNat)
  let s := (blocks (padded.length / 64) (words padded)).foldl absorb start
  [s.a, s.b, s.c, s.d, s.e].flatMap hexWord

lemma mem_hexdigest {data : Bytes} {c : CodePoint} (h : c ∈ hexdigest data) : ∃ d < 16, c = hexDigit d := by
  simp only [hexdigest, List.mem_flatMap, hexWord, List.mem_map] at h
  obtain ⟨w, -, i, -, rfl⟩ := h
  exact ⟨_, Nat.mod_lt _ (by norm_num), rfl⟩

example : hexdigest [97, 98, 99] = py "a9993e364706816aba3e25717850c26c9cd0d89d" := by decide +kernel

end AgentTrajectory.Sha1
