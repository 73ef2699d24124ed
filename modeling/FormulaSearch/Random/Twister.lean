import FormulaSearch.Random.Source

/-!
# The Mersenne twister

The generator MT19937: 624 words of 32 bits, renewed all at once by a linear recurrence and tempered one
by one as they are drawn. Doubles are made of 53 random bits; numbers below a bound are drawn with as
many bits as the bound has until one is small enough.
-/

namespace FormulaSearch

/-- The words of the generator and the number of those already drawn. -/
structure Twister where
  words : Array UInt32
  drawn : Nat

namespace Twister

/-- The number of words. -/
def size : Nat := 624

/-- The distance of the word that enters the recurrence. -/
def shift : Nat := 397

/-! ## Seeding -/

/-- The word at an index counted round. -/
def wordAt (words : Array UInt32) (i : Nat) : UInt32 := words.getD (i % size) 0

/-- The words that a single number starts with. -/
def initial (seed : UInt32) : Array UInt32 :=
  (List.range (size - 1)).foldl (fun words i =>
    let last := wordAt words i
    words.push ((1812433253 : UInt32) * (last ^^^ (last >>> 30)) + UInt32.ofNat (i + 1))) #[seed]

/-- A place in the words, and how far the key has been used. -/
structure Mixing where
  words : Array UInt32
  index : Nat
  used : Nat

/-- Moves to the next place; behind the last word its value is carried to the first. -/
def advance (m : Mixing) : Mixing :=
  if m.index + 1 < size then { m with index := m.index + 1 }
  else { m with words := m.words.setIfInBounds 0 (wordAt m.words (size - 1)), index := 1 }

/-- Mixes the word before a place into it with a multiplier. -/
def blend (multiplier : UInt32) (m : Mixing) : UInt32 :=
  let before := wordAt m.words (m.index + size - 1)
  wordAt m.words m.index ^^^ ((before ^^^ (before >>> 30)) * multiplier)

/-- Mixes one word of the key in. -/
def mixKey (key : Array UInt32) (m : Mixing) : Mixing :=
  let word := blend 1664525 m + key.getD m.used 0 + UInt32.ofNat m.used
  let next := advance { m with words := m.words.setIfInBounds m.index word }
  { next with used := if m.used + 1 < key.size then m.used + 1 else 0 }

/-- Mixes the number of a place in. -/
def mixIndex (m : Mixing) : Mixing :=
  let word := blend 1566083941 m - UInt32.ofNat m.index
  advance { m with words := m.words.setIfInBounds m.index word }

/-- The generator that starts from a key of words. -/
def ofKey (key : Array UInt32) : Twister :=
  let start : Mixing := ⟨initial 19650218, 1, 0⟩
  let keyed := (List.range (max size key.size)).foldl (fun m _ => mixKey key m) start
  let mixed := (List.range (size - 1)).foldl (fun m _ => mixIndex m) keyed
  ⟨mixed.words.setIfInBounds 0 0x80000000, size⟩

/-- The 32-bit words of a number, least significant first; zero has one word. -/
def keyWords (n : Nat) : Array UInt32 :=
  ((List.range (n.log2 / 32 + 1)).map fun i => UInt32.ofNat (n >>> (32 * i))).toArray

/-- The generator that starts from an integer; its sign does not matter. -/
def ofSeed (seed : Int) : Twister := ofKey (keyWords seed.natAbs)

/-! ## Words -/

/-- Renews one word from itself, its neighbour and a distant word. -/
def renewWord (words : Array UInt32) (i : Nat) : Array UInt32 :=
  let y := (wordAt words i &&& 0x80000000) ||| (wordAt words (i + 1) &&& 0x7fffffff)
  let word := wordAt words (i + shift) ^^^ (y >>> 1)
    ^^^ (if y &&& 1 = 0 then 0 else 0x9908b0df)
  words.setIfInBounds i word

/-- Renews all words in order, each from words already renewed where they come earlier. -/
def renew (words : Array UInt32) : Array UInt32 := (List.range size).foldl renewWord words

/-- Spreads the bits of a word. -/
def temper (y : UInt32) : UInt32 :=
  let y := y ^^^ (y >>> 11)
  let y := y ^^^ ((y <<< 7) &&& 0x9d2c5680)
  let y := y ^^^ ((y <<< 15) &&& 0xefc60000)
  y ^^^ (y >>> 18)

/-- The next word of 32 random bits. -/
def next (t : Twister) : UInt32 × Twister :=
  if t.drawn < size then (temper (wordAt t.words t.drawn), { t with drawn := t.drawn + 1 })
  else
    let words := renew t.words
    (temper (wordAt words 0), ⟨words, 1⟩)

/-! ## Draws -/

/-- A number of so many bits: whole words from the least significant on, the last one cut to its
highest bits. -/
def bits (count : Nat) (t : Twister) : Nat × Twister :=
  if count = 0 then (0, t) else
    let (word, t) := t.next
    if count ≤ 32 then (word.toNat >>> (32 - count), t)
    else
      let (high, t) := bits (count - 32) t
      (word.toNat + high <<< 32, t)
termination_by count
decreasing_by omega

/-- The number of binary digits; zero has none. -/
def bitLength (n : Nat) : Nat := if n = 0 then 0 else n.log2 + 1

/-- The most attempts at a number below a bound. Each succeeds with a chance of at least one half. -/
def attempts : Nat := 4096

/-- Draws numbers of `count` bits until one is below the bound. -/
def belowFrom (bound count : Nat) : Nat → Twister → Nat × Twister
  | 0, t => (0, t)
  | n + 1, t =>
    let (k, t) := t.bits count
    if k < bound then (k, t) else belowFrom bound count n t

theorem belowFrom_lt {bound : Nat} (h : 0 < bound) (count n : Nat) (t : Twister) :
    (belowFrom bound count n t).1 < bound := by
  induction n generalizing t with
  | zero => exact h
  | succ n ih =>
    simp only [belowFrom]
    split
    · assumption
    · exact ih _

/-- A double with 53 random bits. -/
def unit (t : Twister) : Float × Twister :=
  let (a, t) := t.next
  let (b, t) := t.next
  let high := Float.ofNat (a >>> 5).toNat
  let low := Float.ofNat (b >>> 6).toNat
  ((high * 67108864.0 + low) / 9007199254740992.0, t)

instance : RandomSource Twister where
  unit := unit
  below bound t := belowFrom bound (bitLength bound) attempts t
  below_lt _ t h := belowFrom_lt h _ _ t

end Twister

/-! ## Either source -/

/-- A seeded generator or scripted draws. -/
inductive RandomStream where
  | twister (t : Twister)
  | scripted (s : ScriptedDraws)

namespace RandomStream

def unit : RandomStream → Float × RandomStream
  | twister t => let (v, t) := RandomSource.unit t; (v, twister t)
  | scripted s => let (v, s) := RandomSource.unit s; (v, scripted s)

def below (bound : Nat) : RandomStream → Nat × RandomStream
  | twister t => let (v, t) := RandomSource.below bound t; (v, twister t)
  | scripted s => let (v, s) := RandomSource.below bound s; (v, scripted s)

instance : RandomSource RandomStream where
  unit := unit
  below := below
  below_lt bound s h := by
    cases s with
    | twister t => exact RandomSource.below_lt bound t h
    | scripted s => exact RandomSource.below_lt bound s h

end RandomStream

end FormulaSearch
