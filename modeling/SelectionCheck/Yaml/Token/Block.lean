import SelectionCheck.Yaml.Token.Property

/-!
# Block scalars

A block scalar stands on indented lines behind its mark. A literal one keeps its lines, a folded one
joins them with blanks, except around lines that are indented further. What becomes of the ends of
lines behind the last one is said by the mark: nothing is kept, one end, or all.
-/

namespace SelectionCheck.Yaml.Reading

open Character

/-- What a block scalar keeps of the ends of lines behind its last line. -/
inductive Chomping
  | strip
  | clip
  | keep
deriving DecidableEq, Repr

def chomping? : Char → Option Chomping
  | '-' => some .strip
  | '+' => some .keep
  | _ => none

def chomping : Reading (Option Chomping) := do
  need 1
  let chomping := chomping? (← next)
  if chomping.isSome then skip
  return chomping

def indentation (start : Mark) : Reading (Option Nat) := do
  need 1
  let c ← next
  if !c.isDigit then return none
  else if c = '0' then fail start .zeroIndentation
  else
    skip
    return some (c.toNat - 0x30)

def blockHeader (start : Mark) : Reading (Chomping × Option Nat) := do
  match ← chomping with
  | some chomping => return (chomping, ← indentation start)
  | none =>
    match ← indentation start with
    | some indent => return ((← chomping).getD .clip, some indent)
    | none => return (.clip, none)

/-- Moves over the spaces of the indentation, which is `indent?` wide or not yet known, and over
empty lines. The ends of lines stand behind `breaks` in reverse; `widest` is the greatest column
seen. -/
def blockBreaksFrom (start : Mark) (indent? : Option Nat) :
    (fuel : Nat) → (breaks : List Char) → (widest : Nat) → Reading (List Char × Nat)
  | 0, breaks, widest => return (breaks, widest)
  | fuel + 1, breaks, widest => do
    need 1
    let column := (← here).column
    let room := indent?.all (column < ·)
    let c ← next
    if room && c = ' ' then
      skip
      blockBreaksFrom start indent? fuel breaks widest
    else
      let widest := max widest column
      if room && c = '\t' then fail start .blockTab
      else if isBreak c then
        need 2
        let line ← takeLine
        blockBreaksFrom start indent? fuel (line ++ breaks) widest
      else return (breaks, widest)

/-- Moves to the next line of a block scalar that is not empty: the ends of lines before it in
reverse, and the indentation, which is found out if it is not known yet. -/
def blockBreaks (start : Mark) (outer : Int) (indent? : Option Nat) :
    Reading (List Char × Nat) := do
  let (breaks, widest) ← blockBreaksFrom start indent? (2 * (← get).size + 1) [] 0
  return (breaks, indent?.getD (max (max widest (outer + 1).toNat) 1))

def atBlockLine (indent : Nat) : Reading Bool := do
  return (← here).column = indent && (← next) ≠ endMark

/-- Reads the lines of a block scalar behind `read` in reverse. Before the next line stand the end
of the last line and those of empty lines, `breaks` in reverse; `deeper` says that the last line
began with a blank. The result is the value in reverse with the last ends of lines apart. -/
def blockLines (literal : Bool) (start : Mark) (outer : Int) (indent : Nat) :
    (fuel : Nat) → (read lineBreak breaks : List Char) → (deeper : Bool) →
      Reading (List Char × List Char × List Char)
  | 0, read, lineBreak, breaks, _ => return (read, lineBreak, breaks)
  | fuel + 1, read, lineBreak, breaks, deeper => do
    if !(← atBlockLine indent) then return (read, lineBreak, breaks)
    else
      let blank := isBlank (← next)
      let joined :=
        if !literal && !deeper && !blank && lineBreak = ['\n'] then
          if breaks.isEmpty then [' '] else []
        else lineBreak
      let line ← takeWhile fun c => !isLineEnd c
      need 2
      let lineBreak ← takeLine
      let (nextBreaks, _) ← blockBreaks start outer (some indent)
      blockLines literal start outer indent fuel (line.reverse ++ breaks ++ joined ++ read)
        lineBreak nextBreaks blank

def blockScalar (literal : Bool) (outer : Int) : Reading Token := do
  let start ← here
  skip
  let (chomping, increment?) ← blockHeader start
  skipRestOfLine start
  let given := increment?.map fun increment => (max outer 0).toNat + increment
  let (breaks, indent) ← blockBreaks start outer given
  need 1
  let (read, lineBreak, breaks) ←
    blockLines literal start outer indent (← get).size [] [] breaks false
  let tail :=
    match chomping with
    | .strip => []
    | .clip => lineBreak
    | .keep => breaks ++ lineBreak
  return ⟨.scalar false (spell (tail ++ read).reverse), start, ← here⟩

end SelectionCheck.Yaml.Reading
