import SelectionCheck.Yaml.Token.Quoted

/-!
# Plain scalars

A plain scalar ends before a comment, before a colon with a blank behind it and, inside brackets,
before the signs that structure them. It may run over several lines if the further ones are indented
more than the block around it.
-/

namespace SelectionCheck.Yaml.Reading

open Character

def flowSigns : List Char := [',', '?', '[', ']', '\x7b', '\x7d']

/-- Reads the characters of a plain scalar up to a blank, the end of a line or the end of the
scalar, behind `read` in reverse and the gap before them. -/
def plainRun (inBrackets : Bool) :
    (fuel : Nat) → (read : List Char) → Gap → Reading (List Char × Gap)
  | 0, read, gap => return (read, gap)
  | fuel + 1, read, gap => do
    let c ← next
    if isWordEnd c || (c = ':' && isWordEnd (← peek 1)) || (inBrackets && flowSigns.contains c) then
      return (read, gap)
    else
      skip
      need 2
      plainRun inBrackets fuel (c :: (gap.folded ++ read)) .none

/-- Reads a plain scalar with all its lines, behind `read` in reverse and a gap. The second result
says that a line has ended behind it. -/
def plainFrom (inBrackets : Bool) (start : Mark) (indent : Int) :
    (fuel : Nat) → (read : List Char) → Gap → Reading (List Char × Bool)
  | 0, read, gap => return (read, gap.broken)
  | fuel + 1, read, gap => do
    need 4
    if ← atDocumentMark then return (read, gap.broken)
    else if (← next) = '#' then return (read, gap.broken)
    else
      let (read, gap) ← plainRun inBrackets (← get).size read gap
      let c ← next
      if !(isBlank c || isBreak c) then return (read, gap.broken)
      else
        let gap ← gapFrom start indent (← get).size gap
        if !inBrackets && (← here).column < indent then return (read, gap.broken)
        else plainFrom inBrackets start indent fuel read gap

def plainScalar (inBrackets : Bool) (outer : Int) : Reading (Token × Bool) := do
  let start ← here
  let (value, broken) ← plainFrom inBrackets start (outer + 1) ((← get).size + 1) [] .none
  return (⟨.scalar true (spell value.reverse), start, ← here⟩, broken)

end SelectionCheck.Yaml.Reading
