/-!
Random words: a source of 32-bit words, and the twisted shift register that seeded collections draw
from. The register holds 624 words; each new one is made of the word 624 places back, its successor
and the word 397 places after it, and is tempered before it is handed out.
-/
namespace RandomTables

class WordSource (σ : Type) where
  next : σ → UInt32 × σ

namespace Twister

abbrev Register := Vector UInt32 624

structure State where
  register : Register
  used : Nat

def twist (r : Register) : Register :=
  Fin.foldl 624 (fun (r : Register) (i : Fin 624) =>
    let joined : UInt32 := (r[i] &&& 0x80000000) ||| (r[i + 1] &&& 0x7fffffff)
    let feedback : UInt32 := if joined &&& 1 = 0 then 0 else 0x9908b0df
    r.set i (r[i + 397] ^^^ (joined >>> 1) ^^^ feedback)) r

def temper (w : UInt32) : UInt32 :=
  let w := w ^^^ (w >>> 11)
  let w := w ^^^ ((w <<< 7) &&& 0x9d2c5680)
  let w := w ^^^ ((w <<< 15) &&& 0xefc60000)
  w ^^^ (w >>> 18)

def next (s : State) : UInt32 × State :=
  if h : s.used < 624 then (temper s.register[s.used], { s with used := s.used + 1 })
  else
    let renewed := twist s.register
    (temper renewed[0], ⟨renewed, 1⟩)

instance : WordSource State := ⟨next⟩

def fold (w : UInt32) : UInt32 :=
  w ^^^ (w >>> 30)

def ofWord (seed : UInt32) : Register :=
  Fin.foldl 624 (fun (r : Register) (i : Fin 624) =>
    if i = 0 then r else r.set i (1812433253 * fold r[i - 1] + UInt32.ofNat i))
    (Vector.replicate 624 seed)

/-- One place on from a place that was just mixed. The first word is the last one's copy and is not
mixed itself. -/
def advance (i : Fin 624) (r : Register) : Fin 624 × Register :=
  if i = 623 then (1, r.set 0 r[(623 : Nat)]) else (i + 1, r)

def mix (steps : Nat) (factor : UInt32) (combine : Nat → Fin 624 → UInt32 → UInt32)
    (start : Fin 624 × Register) : Fin 624 × Register :=
  (List.range steps).foldl (fun (i, r) step =>
    advance i (r.set i (combine step i (r[i] ^^^ (fold r[i - 1] * factor))))) start

/-- The register that a list of words seeds. Every word of the list is used at least once. -/
def ofKey (key : Array UInt32) : Register :=
  let start : Fin 624 × Register := (1, ofWord 19650218)
  let keyed := mix (max 624 key.size) 1664525
    (fun step _ w =>
      let j := step % key.size
      w + key.getD j 0 + UInt32.ofNat j) start
  let (_, register) := mix 623 1566083941 (fun _ i w => w - UInt32.ofNat i) keyed
  register.set 0 0x80000000

def wordsOf (n : Nat) : List UInt32 :=
  if n < 0x100000000 then [UInt32.ofNat n] else UInt32.ofNat n :: wordsOf (n / 0x100000000)

def State.ofSeed (seed : Int) : State :=
  ⟨ofKey (wordsOf seed.natAbs).toArray, 624⟩

end Twister

end RandomTables
