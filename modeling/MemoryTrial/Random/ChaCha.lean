/-! ChaCha with eight rounds as a source of 32-bit words.  A key fixes the words: block number `i`
is computed from the key and `i` alone, so the stream can be read at any place. -/

namespace MemoryTrial.Random

/-- The sixteen words of a ChaCha state. -/
abbrev ChaChaState := Vector UInt32 16

def rotateLeft (w : UInt32) (k : UInt32) : UInt32 := (w <<< k) ||| (w >>> (32 - k))

def rotateRight (w : UInt32) (k : UInt32) : UInt32 := (w >>> k) ||| (w <<< ((32 - k) % 32))

/-- The quarter round on words `a`, `b`, `c` and `d`. -/
def quarterRound (s : ChaChaState) (a b c d : Fin 16) : ChaChaState :=
  let s := s.set a (s[a] + s[b])
  let s := s.set d (rotateLeft (s[d] ^^^ s[a]) 16)
  let s := s.set c (s[c] + s[d])
  let s := s.set b (rotateLeft (s[b] ^^^ s[c]) 12)
  let s := s.set a (s[a] + s[b])
  let s := s.set d (rotateLeft (s[d] ^^^ s[a]) 8)
  let s := s.set c (s[c] + s[d])
  s.set b (rotateLeft (s[b] ^^^ s[c]) 7)

/-- Two rounds: the columns, then the diagonals. -/
def doubleRound (s : ChaChaState) : ChaChaState :=
  let s := quarterRound s 0 4 8 12
  let s := quarterRound s 1 5 9 13
  let s := quarterRound s 2 6 10 14
  let s := quarterRound s 3 7 11 15
  let s := quarterRound s 0 5 10 15
  let s := quarterRound s 1 6 11 12
  let s := quarterRound s 2 7 8 13
  quarterRound s 3 4 9 14

/-- The state before the rounds: four constants, the key, the number of the block in two words, and
an empty nonce. -/
def initialState (key : Vector UInt32 8) (number : UInt64) : ChaChaState :=
  (#v[0x61707865, 0x3320646e, 0x79622d32, 0x6b206574] : Vector UInt32 4) ++ key ++
    (#v[number.toUInt32, (number >>> 32).toUInt32, 0, 0] : Vector UInt32 4)

def chachaBlock (key : Vector UInt32 8) (number : UInt64) : ChaChaState :=
  let start := initialState key number
  let mixed := doubleRound (doubleRound (doubleRound (doubleRound start)))
  Vector.zipWith (· + ·) mixed start

/-- The first `count` blocks of the stream, joined. -/
def chachaWords (key : Vector UInt32 8) (count : Nat) : Array UInt32 :=
  (Array.range count).flatMap fun number => (chachaBlock key (UInt64.ofNat number)).toArray

/-- One step of the generator that spreads a seed over a key. -/
def seedStep (state : UInt64) : UInt64 := state * 6364136223846793005 + 11634580027462260723

/-- The word that a state of that generator gives. -/
def seedWord (state : UInt64) : UInt32 :=
  rotateRight (((state >>> 18) ^^^ state) >>> 27).toUInt32 (state >>> 59).toUInt32

/-- The first `count` words from a state on; each is taken after a step. -/
def seedWords (state : UInt64) : (count : Nat) → List UInt32
  | 0 => []
  | count + 1 => seedWord (seedStep state) :: seedWords (seedStep state) count

theorem length_seedWords (state : UInt64) (count : Nat) :
    (seedWords state count).length = count := by
  induction count generalizing state with
  | zero => rfl
  | succ count ih => simp [seedWords, ih]

def seedKey (seed : UInt64) : Vector UInt32 8 :=
  ⟨(seedWords seed 8).toArray, by simp [length_seedWords]⟩

/-- Words `i` and `i + 1` of a stream as one number, the low word first. -/
def pairAt (stream : Nat → UInt32) (i : Nat) : Nat :=
  (stream i).toNat + 0x100000000 * (stream (i + 1)).toNat

end MemoryTrial.Random
