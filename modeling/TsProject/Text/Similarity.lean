/-!
# Similarity of texts

Two texts are compared by the Ratcliff–Obershelp measure: the longest block they share is
matched, then in the same way what lies left of it in both and what lies right of it in both.
`matchedChars` counts the characters so matched; the similarity of texts of `m` and `n`
characters is twice that count over `m + n`.

A block is found from the characters of the second text that are not overly frequent there, and
is then extended over equal characters of any kind. Only a second text of at least two hundred
characters has overly frequent ones.
-/

namespace TsProject.Text.Similarity

/-- A block that two texts share: where it starts in either and how long it is. -/
structure Block where
  left : Nat
  right : Nat
  size : Nat
  deriving DecidableEq, Repr

/-- The characters of `b` that occur too often to start a block. -/
def frequent (b : List Char) : List Char :=
  if b.length < 200 then []
  else
    let bound := b.length / 100 + 1
    b.eraseDups.filter fun c => bound < b.count c

/-- For each place of `b`, the length of the common run that ends there and at the character
`c`, given those that end at the character before. -/
def runLengths (rare : Char → Bool) (c : Char) : (above : Nat) → (previous : List Nat) →
    (b : List Char) → List Nat
  | _, _, [] => []
  | above, previous, d :: b =>
    (if d = c && rare d then above + 1 else 0) ::
      runLengths rare c (previous.headD 0) previous.tail b

/-- The better of `best` and the runs of one row, whose first belongs to the place `j`. -/
def bestOfRow (i : Nat) : (j : Nat) → Block → List Nat → Block
  | _, best, [] => best
  | j, best, k :: row =>
    bestOfRow i (j + 1) (if best.size < k then ⟨i + 1 - k, j + 1 - k, k⟩ else best) row

/-- The longest common run, the leftmost in `a` and then in `b` among equals. -/
def longestRun (rare : Char → Bool) (b : List Char) : (i : Nat) → (previous : List Nat) →
    Block → List Char → Block
  | _, _, best, [] => best
  | i, previous, best, c :: a =>
    let row := runLengths rare c 0 previous b
    longestRun rare b (i + 1) row (bestOfRow i 0 best row) a

/-- How many characters the two texts have in common at their beginnings. -/
def commonPrefix : List Char → List Char → Nat
  | c :: a, d :: b => if c = d then commonPrefix a b + 1 else 0
  | _, _ => 0

/-- The block extended over equal characters on both sides. -/
def extend (a b : List Char) (block : Block) : Block :=
  let back := commonPrefix (a.take block.left).reverse (b.take block.right).reverse
  let ahead :=
    commonPrefix (a.drop (block.left + block.size)) (b.drop (block.right + block.size))
  ⟨block.left - back, block.right - back, back + block.size + ahead⟩

/-- Counts matched characters, with at most `fuel` nested splits. -/
def matchedWith (rare : Char → Bool) : (fuel : Nat) → List Char → List Char → Nat
  | 0, _, _ => 0
  | fuel + 1, a, b =>
    let block := extend a b (longestRun rare b 0 [] ⟨0, 0, 0⟩ a)
    if block.size = 0 then 0
    else
      matchedWith rare fuel (a.take block.left) (b.take block.right) + block.size +
        matchedWith rare fuel (a.drop (block.left + block.size))
          (b.drop (block.right + block.size))

/-- **Matched characters** of two texts. Every split leaves shorter pieces of `a`, so as many
splits as it has characters are enough. -/
def matchedChars (a b : List Char) : Nat :=
  let common := frequent b
  matchedWith (fun c => !common.contains c) (a.length + 1) a b

/-- A similarity as a fraction; both parts are as they come. -/
structure Ratio where
  num : Nat
  den : Nat

/-- One fraction is smaller than another. -/
def Ratio.lt (r s : Ratio) : Bool := r.num * s.den < s.num * r.den

/-- The similarity of two texts. -/
def ratio (a b : List Char) : Ratio := ⟨2 * matchedChars a b, a.length + b.length⟩

/-- **Close matches**: of the candidates at least as similar to `word` as `cutoff`, up to `limit`
of the most similar ones, the most similar first and the last in order first among equals.
Candidates whose length alone rules them out are not compared. -/
def closeMatches (limit : Nat) (cutoff : Ratio) (word : String) (candidates : List String) :
    List String :=
  let b := word.toList
  let scored := candidates.filterMap fun name =>
    let a := name.toList
    if Ratio.lt ⟨2 * min a.length b.length, a.length + b.length⟩ cutoff then none
    else
      let r := ratio a b
      if r.lt cutoff then none else some (r, name)
  let sorted := scored.mergeSort fun x y => y.1.lt x.1 || (!x.1.lt y.1 && y.2 ≤ x.2)
  (sorted.take limit).map (·.2)

/-- The closest match. -/
def closest? (cutoff : Ratio) (word : String) (candidates : List String) : Option String :=
  (closeMatches 1 cutoff word candidates).head?

end TsProject.Text.Similarity
