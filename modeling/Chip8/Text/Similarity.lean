namespace Chip8.Similarity

/-- The characters of one text that have a partner in the other, last one first, and the other text
with its partners marked. -/
structure Pairing where
  paired : List Char := []
  places : List (Char × Bool)

namespace Pairing

/-- Pairs the character at place `i` with the first free equal one that is within `reach`. -/
def step (reach : Nat) (p : Pairing) (c : Char) (i : Nat) : Pairing :=
  let partner? := p.places.zipIdx.findIdx? fun ((d, taken), j) ↦
    d = c && !taken && i ≤ j + reach && j ≤ i + reach
  match partner? with
  | none => p
  | some j => ⟨c :: p.paired, p.places.set j (c, true)⟩

def ofTexts (a b : List Char) : Pairing :=
  let reach := max a.length b.length / 2 - 1
  a.zipIdx.foldl (fun p (c, i) ↦ p.step reach c i) ⟨[], b.map (·, false)⟩

def partners (p : Pairing) : List Char :=
  (p.places.filter (·.2)).map (·.1)

def transpositions (p : Pairing) : Nat :=
  (p.paired.reverse.zip p.partners).countP (fun (c, d) ↦ c ≠ d) / 2

end Pairing

/-- The mean of three shares: of the characters of each text that are paired, and of the pairs that
are in order. -/
def ratio (a b : String) : Float :=
  let p := Pairing.ofTexts a.toList b.toList
  let common := p.paired.length
  if common = 0 then 0
  else
    (common.toFloat / a.length.toFloat + common.toFloat / b.length.toFloat +
      (common - p.transpositions).toFloat / common.toFloat) / 3

/-- The value whose name is most like `name`, by a ratio above `threshold`. Of equally good ones the
last is taken. -/
def best? {α : Type} (threshold : Float) (name : String) (named : List (String × α)) : Option α :=
  let better (best : Option (Float × α)) (candidate : String × α) :=
    let r := ratio name candidate.1
    if threshold < r && best.all (·.1 ≤ r) then some (r, candidate.2) else best
  (named.foldl better none).map (·.2)

end Chip8.Similarity
