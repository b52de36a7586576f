import FuzzyInference.Formula.Basic
import FuzzyInference.Formula.Token
import FuzzyInference.Scalar.Numeral

/-!
# Parsing formulas

A formula is read by precedence climbing. Operations of two operands have a
strength, and a reading takes operations of a least strength only: behind `+`
and `-` everything stronger belongs to the right operand, so both group to the
left, and `*`, `/`, `//` and `%` bind before them. Signs bind tighter still and
`**` tightest, with a sign allowed in its exponent.

Each step gives the formula it read and the tokens left, of which there are
fewer than before; the number of tokens and the level of the step bound the
recursion.
-/

namespace FuzzyInference.Formula

variable {α : Type} [Scalar α]

/-- What a step read from tokens and the tokens it left, or why it could not read
    (within the engine's `Parser`). -/
abbrev Step (β : Type) (ts : List Token) : Type :=
  Except CompileFault (β × { rest : List Token // rest.length < ts.length })

/-- The operation of two operands that a token stands for, and its strength (the
    engine's `Parser.binary_op_info`). -/
def operator? : TokenKind → Option (Operator × Nat)
  | .plus => some (.add, 1)
  | .minus => some (.subtract, 1)
  | .times => some (.multiply, 2)
  | .divide => some (.divide, 2)
  | .floorDivide => some (.floorDivide, 2)
  | .remainder => some (.remainder, 2)
  | _ => none

/-- The sign that a token stands for (within the engine's `Parser.parse_unary`). -/
def signOf? : TokenKind → Option Sign
  | .minus => some .minus
  | .plus => some .plus
  | _ => none

/-- The error for a token that fits nowhere (the engine's `unexpected`). -/
def unexpected (t : Token) : CompileFault := .unexpectedToken t.text t.start

/-- The formula of a name that is not called (within the engine's
    `Parser.parse_primary`). -/
def ofName (name : String) : Except CompileFault (Formula α) :=
  match constant? name with
  | some value => .ok (.number value)
  | none =>
    if (Function.ofName? name).isSome then .error (.functionNotCalled name) else .ok (.name name)

/-- A call with the number of arguments its function takes (within the engine's
    `Parser.parse_primary`). -/
def ofCall (f : Function) (args : List (Formula α)) : Except CompileFault (Formula α) :=
  if f.arity.admits args.length then .ok (.call f args)
  else .error (.wrongArgumentCount f.name f.arity.text args.length)

mutual

/-- Factors and the operations between them that have at least a given strength (the
    engine's `Parser.parse_expr`). -/
def operations (least : Nat) (ts : List Token) : Step (Formula α) ts :=
  match factor ts with
  | .error e => .error e
  | .ok (left, ⟨rest, h⟩) =>
    match climb least left rest with
    | .error e => .error e
    | .ok (f, ⟨rest', h'⟩) => .ok (f, ⟨rest', by omega⟩)
termination_by (ts.length, 3)

/-- The operations behind a left operand that have at least a given strength (within
    the engine's `Parser.parse_expr`). Each takes everything stronger than itself as
    its right operand. -/
def climb (least : Nat) (left : Formula α) (ts : List Token) :
    Except CompileFault (Formula α × { rest : List Token // rest.length ≤ ts.length }) :=
  match ts with
  | [] => .ok (left, ⟨[], Nat.le_refl _⟩)
  | t :: ts =>
    match operator? t.kind with
    | none => .ok (left, ⟨t :: ts, Nat.le_refl _⟩)
    | some (op, strength) =>
      if strength < least then .ok (left, ⟨t :: ts, Nat.le_refl _⟩)
      else
        match operations (strength + 1) ts with
        | .error e => .error e
        | .ok (right, ⟨rest, h⟩) =>
          match climb least (.binary op left right) rest with
          | .error e => .error e
          | .ok (f, ⟨rest', h'⟩) => .ok (f, ⟨rest', by simp only [List.length_cons]; omega⟩)
termination_by (ts.length, 0)

/-- A factor (the engine's `Parser.parse_unary`). -/
def factor (ts : List Token) : Step (Formula α) ts :=
  match ts with
  | [] => power []
  | t :: ts =>
    match signOf? t.kind with
    | none => power (t :: ts)
    | some s =>
      match factor ts with
      | .error e => .error e
      | .ok (f, ⟨rest, h⟩) => .ok (.sign s f, ⟨rest, by simp only [List.length_cons]; omega⟩)
termination_by (ts.length, 2)

/-- A power (the engine's `Parser.parse_power`). -/
def power (ts : List Token) : Step (Formula α) ts :=
  match atom ts with
  | .error e => .error e
  | .ok (base, ⟨[], h⟩) => .ok (base, ⟨[], h⟩)
  | .ok (base, ⟨t :: rest, h⟩) =>
    if t.kind = .power then
      match factor rest with
      | .error e => .error e
      | .ok (exponent, ⟨rest', h'⟩) =>
        .ok (.binary .power base exponent, ⟨rest', by simp only [List.length_cons] at h; omega⟩)
    else .ok (base, ⟨t :: rest, h⟩)
termination_by (ts.length, 1)
decreasing_by
  all_goals first
    | (apply Prod.Lex.right; omega)
    | (apply Prod.Lex.left; simp only [List.length_cons] at h; omega)

/-- An atom (the engine's `Parser.parse_primary`). -/
def atom (ts : List Token) : Step (Formula α) ts :=
  match ts with
  | [] => .error .unexpectedEnd
  | t :: ts =>
    match t.kind with
    | .number =>
      match Scalar.read? t.text with
      | some value => .ok (.number value, ⟨ts, by simp⟩)
      | none => .error (unexpected t)
    | .name =>
      match ts with
      | [] =>
        match ofName t.text with
        | .error e => .error e
        | .ok f => .ok (f, ⟨[], by simp⟩)
      | next :: rest =>
        if next.kind = .opening then
          match Function.ofName? t.text with
          | none => .error (.unknownFunction t.text)
          | some f =>
            match arguments rest with
            | .error e => .error e
            | .ok (args, ⟨rest', h⟩) =>
              match ofCall f args with
              | .error e => .error e
              | .ok f => .ok (f, ⟨rest', by simp only [List.length_cons]; omega⟩)
        else
          match ofName t.text with
          | .error e => .error e
          | .ok f => .ok (f, ⟨next :: rest, by simp⟩)
    | .opening =>
      match operations 0 ts with
      | .error e => .error e
      | .ok (_, ⟨[], _⟩) => .error .closingExpectedAtEnd
      | .ok (f, ⟨next :: rest, h⟩) =>
        if next.kind = .closing then
          .ok (f, ⟨rest, by simp only [List.length_cons] at h ⊢; omega⟩)
        else .error (.closingExpected next.text next.start)
    | _ => .error (unexpected t)
termination_by (ts.length, 0)

/-- The arguments of a call, behind its opening parenthesis and through the closing
    one (the engine's `Parser.parse_args`). -/
def arguments (ts : List Token) : Step (List (Formula α)) ts :=
  match ts with
  | [] => moreArguments []
  | t :: ts =>
    if t.kind = .closing then .ok ([], ⟨ts, by simp⟩) else moreArguments (t :: ts)
termination_by (ts.length, 5)

/-- One argument or more, through the closing parenthesis (within the engine's
    `Parser.parse_args`). -/
def moreArguments (ts : List Token) : Step (List (Formula α)) ts :=
  match operations 0 ts with
  | .error e => .error e
  | .ok (_, ⟨[], _⟩) => .error .unexpectedEnd
  | .ok (arg, ⟨t :: rest, h⟩) =>
    if t.kind = .comma then
      match moreArguments rest with
      | .error e => .error e
      | .ok (args, ⟨rest', h'⟩) =>
        .ok (arg :: args, ⟨rest', by simp only [List.length_cons] at h; omega⟩)
    else if t.kind = .closing then
      .ok ([arg], ⟨rest, by simp only [List.length_cons] at h; omega⟩)
    else .error (unexpected t)
termination_by (ts.length, 4)
decreasing_by
  all_goals first
    | (apply Prod.Lex.right; omega)
    | (apply Prod.Lex.left; simp only [List.length_cons] at h; omega)

end

/-- The formula that a source spells (the engine's `parse`). -/
def parse (source : String) : Except CompileFault (Formula α) := do
  let ts ← Token.lex source
  match ← operations 0 ts with
  | (f, ⟨[], _⟩) => return f
  | (_, ⟨t :: _, _⟩) => throw (unexpected t)

end FuzzyInference.Formula
