import RandomTables.Random.Words

namespace RandomTables

variable {σ : Type} [WordSource σ]

def drawWord : StateM σ UInt32 :=
  fun s => WordSource.next s

/-- A fraction from zero up to and excluding one, a multiple of `2 ^ -53`, from the upper bits of
two words. -/
def drawFraction : StateM σ Float := do
  let high ← drawWord
  let low ← drawWord
  return Float.ofNat (((high >>> 5).toNat <<< 26) + (low >>> 6).toNat) / 9007199254740992

/-- A number of the given count of bits. A word gives up to 32 of them, from its upper end, and
further words follow for the higher bits. -/
def drawBits (count : Nat) : StateM σ Nat := do
  let word ← drawWord
  if count ≤ 32 then return word.toNat >>> (32 - count)
  else
    let high ← drawBits (count - 32)
    return word.toNat + (high <<< 32)

def bitLength (n : Nat) : Nat :=
  if n = 0 then 0 else n.log2 + 1

/-- A number below the bound: numbers with as many bits as the bound are drawn until one is, so many
of them at most. At least every other one is, on average. -/
def drawBelow? (bound : Nat) : Nat → StateM σ (Option Nat)
  | 0 => return none
  | attempts + 1 => do
    let n ← drawBits (bitLength bound)
    if n < bound then return some n else drawBelow? bound attempts

def drawDie? (attempts sides : Nat) : StateM σ (Option Nat) := do
  return (← drawBelow? sides attempts).map (· + 1)

end RandomTables
