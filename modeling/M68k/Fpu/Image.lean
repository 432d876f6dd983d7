/-!
# Operand images

An operand of the floating-point unit occupies up to three long words of memory.
-/

namespace M68k

/-- Three long words of memory, the image of an operand.  Shorter operands fill the first words. -/
structure Image where
  first : BitVec 32
  second : BitVec 32 := 0
  third : BitVec 32 := 0
  deriving DecidableEq, Repr, Inhabited

namespace Image

/-- The words in the order of their addresses. -/
def words (image : Image) : List (BitVec 32) := [image.first, image.second, image.third]

/-- The image of at most three words. -/
def ofWords (words : List (BitVec 32)) : Image :=
  ⟨words.getD 0 0, words.getD 1 0, words.getD 2 0⟩

theorem ofWords_words (image : Image) : ofWords image.words = image := rfl

/-- The first two words as one. -/
def leading (image : Image) : BitVec 64 := image.first ++ image.second

/-- The image of a quadword. -/
def ofQuad (quad : BitVec 64) : Image :=
  ⟨quad.extractLsb' 32 32, quad.extractLsb' 0 32, 0⟩

theorem leading_ofQuad (quad : BitVec 64) : (ofQuad quad).leading = quad := by
  apply BitVec.eq_of_getLsbD_eq
  intro i hi
  simp only [leading, ofQuad, BitVec.getLsbD_append, BitVec.getLsbD_extractLsb']
  split
  · next h => simp [h]
  · next h =>
    rw [show 32 + (i - 32) = i by omega]
    simp [show i - 32 < 32 by omega]

end Image

end M68k
