import ContractApi.Text.Utf8
/-!
# The Keccak-256 hash

A sponge with a rate of 136 bytes over the permutation of 25 words of 64 bits, with the padding `0x01 … 0x80`. The word
at column `x` and row `y` of the state has the index `x + 5 y`.

- `Keccak.hash` maps bytes to 32 bytes.
- `Keccak.digest` is the hash of a text in base 16 behind `0x`.
-/

namespace ContractApi.Keccak

/-- The words of the sponge. -/
abbrev State := Vector UInt64 25

/-- The state with the given word at each column and row. -/
def State.ofWords (word : Nat → Nat → UInt64) : State := .ofFn fun i => word (i.val % 5) (i.val / 5)

/-- The word at a column and a row, which are counted modulo five. -/
def State.word (a : State) (x y : Nat) : UInt64 := a.get ⟨x % 5 + 5 * (y % 5), by omega⟩

/-- A word rotated towards its high end. -/
def rotate (w : UInt64) (n : Nat) : UInt64 :=
  if n % 64 = 0 then w else (w <<< .ofNat (n % 64)) ||| (w >>> .ofNat (64 - n % 64))

/-- How far each word is rotated when the words change places. -/
def rotations : Vector Nat 25 :=
  #v[0, 1, 62, 28, 27, 36, 44, 6, 55, 20, 3, 10, 43, 25, 39, 41, 45, 15, 21, 8, 18, 2, 61, 56, 14]

/-- What each round adds to the first word. -/
def roundConstants : List UInt64 :=
  [0x0000000000000001, 0x0000000000008082, 0x800000000000808A, 0x8000000080008000, 0x000000000000808B,
    0x0000000080000001, 0x8000000080008081, 0x8000000000008009, 0x000000000000008A, 0x0000000000000088,
    0x0000000080008009, 0x000000008000000A, 0x000000008000808B, 0x800000000000008B, 0x8000000000008089,
    0x8000000000008003, 0x8000000000008002, 0x8000000000000080, 0x000000000000800A, 0x800000008000000A,
    0x8000000080008081, 0x8000000000008080, 0x0000000080000001, 0x8000000080008008]

/-- The parity of a column. -/
def State.parity (a : State) (x : Nat) : UInt64 :=
  a.word x 0 ^^^ a.word x 1 ^^^ a.word x 2 ^^^ a.word x 3 ^^^ a.word x 4

/-- Adds to each word the parities of the two columns beside its own. -/
def State.diffuse (a : State) : State :=
  .ofWords fun x y => a.word x y ^^^ a.parity (x + 4) ^^^ rotate (a.parity (x + 1)) 1

/-- Rotates the words and moves the one at `(x, y)` to `(y, 2 x + 3 y)`. -/
def State.shuffle (a : State) : State :=
  .ofWords fun x y =>
    let origin : Fin 25 := ⟨(x + 3 * y) % 5 + 5 * (x % 5), by omega⟩
    rotate (a.get origin) (rotations.get origin)

/-- Combines each word with the two that follow it in its row. -/
def State.mix (a : State) : State :=
  .ofWords fun x y => a.word x y ^^^ (~~~ a.word (x + 1) y &&& a.word (x + 2) y)

/-- One round of the permutation. -/
def State.round (a : State) (constant : UInt64) : State :=
  let b := a.diffuse.shuffle.mix
  b.set 0 (b.get 0 ^^^ constant)

/-- The permutation: twenty-four rounds. -/
def State.permute (a : State) : State := roundConstants.foldl State.round a

/-- The word of at most eight bytes, the least significant first. -/
def wordOfBytes (bytes : List UInt8) : UInt64 := bytes.foldr (fun b w => (w <<< 8) ||| b.toUInt64) 0

/-- The eight bytes of a word, the least significant first. -/
def bytesOfWord (w : UInt64) : List UInt8 := (List.range 8).map fun i => (w >>> .ofNat (8 * i)).toUInt8

/-- The number of bytes that a block holds. -/
def rate : Nat := 136

/-- Adds a block to the state and permutes it. -/
def State.absorb (a : State) (block : List UInt8) : State :=
  State.permute (.ofFn fun i => a.get i ^^^ wordOfBytes ((block.drop (8 * i.val)).take 8))

/-- The bytes with a one bit, zeros and a last one bit behind them, up to a whole number of blocks. -/
def pad (bytes : List UInt8) : List UInt8 :=
  let missing := rate - bytes.length % rate
  if missing = 1 then bytes ++ [0x81] else bytes ++ 0x01 :: List.replicate (missing - 2) 0 ++ [0x80]

/-- The first blocks of some bytes. -/
def blocks : Nat → List UInt8 → List (List UInt8)
  | 0, _ => []
  | n + 1, bytes => bytes.take rate :: blocks n (bytes.drop rate)

def hash (bytes : List UInt8) : List UInt8 :=
  let final := (blocks (bytes.length / rate + 1) (pad bytes)).foldl State.absorb (.replicate 25 0)
  (final.toList.take 4).flatMap bytesOfWord

/-- Bytes in base 16 with two digits each. -/
def hexOfBytes (bytes : List UInt8) : Text := bytes.flatMap fun b => Text.hex 2 b.toNat

/-- The hash of a text's bytes in base 16. A text with an unpaired surrogate has no bytes. -/
def digest (text : Text) : Except (Nat × Nat) Text := do
  return "0x" ++ hexOfBytes (hash (← text.encode))

end ContractApi.Keccak
