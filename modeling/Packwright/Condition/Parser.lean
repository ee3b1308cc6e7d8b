import Packwright.Condition.Tree
import Packwright.Token.Statements
import Packwright.Token.Value

/-!
# Reading conditions

A condition is split at `||`, then at `&&`, then a leading `!` is taken off; what is left is a round
group with a condition inside, or a single comparison.

## Main definitions

- `Condition.splitAt` — operands between connectives
- `Condition.checkLiteral` — rejects comparisons that no score can satisfy
- `Condition.parseTokens`, `Condition.parse` — tokens, or a round group, to a tree
-/

namespace Packwright.Condition

/-- A connective that stands where it should not. -/
def misplaced (t : Token) (place : Misplaced) : Fault :=
  t.fault (.misplacedConnective t.text place)

/-- Splits tokens at a connective; `current` holds the operand being read and `last` the connective
before it. -/
def splitFrom (symbol : String) (last : Option Token) (current : List Token) :
    List Token → Except Fault (List (List Token))
  | [] =>
    match current, last with
    | [], some t => .error (misplaced t .atEnd)
    | _, _ => .ok [current]
  | t :: rest =>
    if t.isWord symbol then
      match current, last with
      | [], none => .error (misplaced t .atStart)
      | [], some _ => .error (misplaced t .afterAnother)
      | _, _ => (splitFrom symbol (some t) [] rest).map (current :: ·)
    else splitFrom symbol last (current ++ [t]) rest

/-- The operands of a connective; one operand when it does not occur. -/
def splitAt (symbol : String) (tokens : List Token) : Except Fault (List (List Token)) :=
  splitFrom symbol none [] tokens

/-- Rejects an integer comparison that no score can satisfy, at the last token `last`. -/
def checkLiteral (tokens : List Token) (last : Token) : Except Failure Unit := do
  let text := joinTokens tokens
  match ← Comparison.find text.toList with
  | none => return
  | some (left, c, right) =>
    if (Score.parse? (String.ofList left)).isNone then return
    match scoreValue (String.ofList (Text.trimList right)) with
    | .error cause => throw (.fault (last.fault cause))
    | .ok none => return
    | .ok (some n) =>
      if (c.range? n).isNone then
        throw (.fault (last.fault (.neverTrue (Text.trim text))))

/-- The first token that may not stand in a comparison. -/
def checkLeafToken (t : Token) : Except Fault Unit :=
  if t.isWord "!" then .error (misplaced t .inMiddle)
  else if t.isGroup .round then .error (t.fault .parenthesesInComparison)
  else .ok ()

/-- A single comparison. -/
def parseLeaf (first : Token) (rest : List Token) : Noting Condition := do
  let tokens := first :: rest
  .ofExcept (tokens.forM checkLeafToken)
  match checkLiteral tokens ((first :: rest).getLast (by simp)) with
  | .ok _ => return .leaf tokens
  | .error failure => throw failure

/-- The operand behind a leading `!`, written alone or glued to the first word. -/
def negated? (first : Token) (rest : List Token) : Option (List Token) :=
  match first.word?.map String.toList with
  | some ['!'] => some rest
  | some ('!' :: c :: _) => if c = '=' then none else some (first.tailFrom 1 ++ rest)
  | _ => none

/-- The condition inside a round group, given how to read its tokens. -/
def parseGroup (read : Position → List Token → Noting Condition) (group : Token) :
    Noting Condition :=
  if group.isGroup .round then do
    let reading ← .ofExcept (group.tokenizeInner .optional)
    .note reading.warnings
    match reading.statements with
    | [] => .fail (group.fault .emptyParentheses)
    | [s] => read group.position s.tokens
    | _ :: s :: _ =>
      .fail (.located .semicolonInCondition
        ((s.tokens.head?.map Token.position).getD group.position))
  else .fail (group.fault (.expectedCondition group.text))

/-- Reads a condition with at most `depth` nested steps. An empty condition is reported at `at_`. -/
def parseWithin : Nat → Position → List Token → Noting Condition
  | 0, _, _ => throw .exhausted
  | _ + 1, at_, [] => .fail (.located .emptyCondition at_)
  | depth + 1, at_, first :: rest => do
    let tokens := first :: rest
    match ← Noting.ofExcept (splitAt "||" tokens) with
    | parts@(_ :: _ :: _) => return .any (← parts.mapM (parseWithin depth at_))
    | _ =>
      match ← Noting.ofExcept (splitAt "&&" tokens) with
      | parts@(_ :: _ :: _) => return .all (← parts.mapM (parseWithin depth at_))
      | _ =>
        match negated? first rest with
        | some [] => .fail (misplaced first .atEnd)
        | some operand => return .not (← parseWithin depth at_ operand)
        | none =>
          if rest.isEmpty && first.isGroup .round then parseGroup (parseWithin depth) first
          else parseLeaf first rest

/-- Number of characters of all tokens, which every nested step makes smaller. -/
def weight (tokens : List Token) : Nat := tokens.foldr (fun t n => t.length + n) 0

/-- Reads a condition from tokens; an empty one is reported at `at_`. -/
def parseTokens (at_ : Position) (tokens : List Token) : Noting Condition :=
  parseWithin (weight tokens + 1) at_ tokens

/-- Reads the condition in a round group. -/
def parse (group : Token) : Noting Condition :=
  parseGroup parseTokens group

end Packwright.Condition
