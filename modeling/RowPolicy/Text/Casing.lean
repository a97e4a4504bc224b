import RowPolicy.Text.Casing.Table

/-!
# Lower case

`Casing.lower` writes a text in lower case by the full mapping of Unicode. Two letters are not
mapped one to one: the dotted capital I becomes an i and a combining dot, and a capital sigma that
ends a word becomes the final sigma.
-/
namespace RowPolicy.Casing

def inRanges (ranges : Array (Nat × Nat)) (c : Char) : Bool :=
  ranges.any fun (first, last) => first ≤ c.toNat && c.toNat ≤ last

def isCased (c : Char) : Bool := inRanges casedRanges c

def isIgnorable (c : Char) : Bool := inRanges ignorableRanges c

def lowerRun? (c : Char) : Option (Nat × Nat × Nat × Nat) :=
  lowerRuns.find? fun (first, last, step, _) =>
    first ≤ c.toNat && c.toNat ≤ last && (c.toNat - first) % step == 0

/-- The lower case of a letter that has one, and any other character itself. -/
def lowerLetter (c : Char) : Char :=
  if c.toNat < 0x80 then c.toLower
  else match lowerRun? c with
    | some (first, _, _, target) => Char.ofNat (target + (c.toNat - first))
    | none => c

/-- Whether the first character that counts has case. -/
def meetsCased (cs : List Char) : Bool :=
  match cs.dropWhile isIgnorable with
  | [] => false
  | c :: _ => isCased c

/-- A sigma ends a word if a letter stands before it and none behind. -/
def lowerSigma (before after : List Char) : Char :=
  if meetsCased before && !meetsCased after then 'ς' else 'σ'

/-- Lower case of what follows `before`, which is in reverse. -/
def lowerAfter (before : List Char) : List Char → List Char
  | [] => []
  | c :: cs =>
    let rest := lowerAfter (c :: before) cs
    if c = 'Σ' then lowerSigma before cs :: rest
    else if c = 'İ' then 'i' :: '\u0307' :: rest
    else lowerLetter c :: rest

def lower (cs : List Char) : List Char := lowerAfter [] cs

end RowPolicy.Casing
