import DefiniteIntegral.Expr.Parser

/-! # The grammar of expressions

A phrase is a derivation of the grammar, as data: the tokens that it derives, the tree that it
stands for and the levels that it opens are functions of it. -/

namespace DefiniteIntegral

/-- The two kinds of chains: operands joined by stars and slashes, and those joined by plus and
minus signs. -/
inductive ChainKind
  | product
  | sum
deriving DecidableEq, Repr

/-- The categories of the grammar. -/
inductive Category
  | atom
  | power
  | operand
  | chain (kind : ChainKind)
deriving DecidableEq, Repr

/-- What a chain joins: a product joins operands and a sum joins products. -/
def ChainKind.member : ChainKind → Category
  | product => .operand
  | sum => .chain .product

/-- The operators between the members of a chain. -/
def ChainKind.operators : ChainKind → List BinaryOperator
  | product => [.mul, .div]
  | sum => [.add, .sub]

/-- The token that stands for an operator. -/
def BinaryOperator.token {α : Type} : BinaryOperator → Token α
  | add => .plus
  | sub => .minus
  | mul => .star
  | div => .slash
  | pow => .doubleStar

theorem BinaryOperator.token_injective {α : Type} :
    Function.Injective (token : BinaryOperator → Token α) := by
  intro operator operator' h
  cases operator <;> cases operator' <;> first | rfl | cases h

theorem ElementaryFunction.name_injective : Function.Injective name := by
  intro function function' h
  cases function <;> cases function' <;> first | rfl | exact absurd h (by decide)

/-- A derivation of the grammar. Chains grow at their right end, so that their operators group from
the left; the exponent of a power is an operand, so that powers group from the right and an exponent
can have a sign. A name is the variable, one of two constants, or a function with its argument. -/
inductive Phrase (α : Type) : Category → Type
  | number (value : α) : Phrase α .atom
  | var : Phrase α .atom
  | pi : Phrase α .atom
  | e : Phrase α .atom
  | call (function : ElementaryFunction) (argument : Phrase α (.chain .sum)) : Phrase α .atom
  | parens (inside : Phrase α (.chain .sum)) : Phrase α .atom
  | bare (base : Phrase α .atom) : Phrase α .power
  | raised (base : Phrase α .atom) (exponent : Phrase α .operand) : Phrase α .power
  | unsigned (power : Phrase α .power) : Phrase α .operand
  | negated (operand : Phrase α .operand) : Phrase α .operand
  | single {kind : ChainKind} (member : Phrase α kind.member) : Phrase α (.chain kind)
  | join {kind : ChainKind} (left : Phrase α (.chain kind)) (operator : BinaryOperator)
      (allowed : operator ∈ kind.operators) (right : Phrase α kind.member) :
      Phrase α (.chain kind)

/-- The derivations of whole expressions. -/
abbrev Derivation (α : Type) := Phrase α (.chain .sum)

namespace Phrase

variable {α : Type} {c : Category}

/-- The tokens that a phrase derives. -/
def tokens : {c : Category} → Phrase α c → List (Token α)
  | _, number value => [.number value]
  | _, var => [.name "x"]
  | _, pi => [.name "pi"]
  | _, e => [.name "e"]
  | _, call function argument =>
    .name function.name :: .openParen :: (argument.tokens ++ [.closeParen])
  | _, parens inside => .openParen :: (inside.tokens ++ [.closeParen])
  | _, bare base => base.tokens
  | _, raised base exponent => base.tokens ++ .doubleStar :: exponent.tokens
  | _, unsigned power => power.tokens
  | _, negated operand => .minus :: operand.tokens
  | _, single member => member.tokens
  | _, join left operator _ right => left.tokens ++ operator.token :: right.tokens

/-- The tree that a phrase stands for. -/
def tree [Elementary α] : {c : Category} → Phrase α c → Expr α
  | _, number value => .number value
  | _, var => .var
  | _, pi => .number Elementary.pi
  | _, e => .number Elementary.e
  | _, call function argument => .call function argument.tree
  | _, parens inside => inside.tree
  | _, bare base => base.tree
  | _, raised base exponent => .binary .pow base.tree exponent.tree
  | _, unsigned power => power.tree
  | _, negated operand => .neg operand.tree
  | _, single member => member.tree
  | _, join left operator _ right => .binary operator left.tree right.tree

/-- The greatest number of levels that are open at once: a minus sign opens one for its operand, two
stars one for the exponent, and parentheses one for what stands in them. A chain opens none, however
long it is. -/
def depth : {c : Category} → Phrase α c → Nat
  | _, number _ => 0
  | _, var => 0
  | _, pi => 0
  | _, e => 0
  | _, call _ argument => argument.depth + 1
  | _, parens inside => inside.depth + 1
  | _, bare base => base.depth
  | _, raised base exponent => max base.depth (exponent.depth + 1)
  | _, unsigned power => power.depth
  | _, negated operand => operand.depth + 1
  | _, single member => member.depth
  | _, join left _ _ right => max left.depth right.depth

/-! ## The tokens of a phrase -/

theorem eof_notMem_tokens (p : Phrase α c) : .eof ∉ p.tokens := by
  induction p with
  | number | var | pi | e => simp [tokens]
  | call | parens | bare | raised | unsigned | negated | single => simp_all [tokens]
  | join left operator _ right ihl ihr => cases operator <;> simp_all [tokens, BinaryOperator.token]

/-- A phrase that is an atom or a power begins with a token that is no minus sign. -/
theorem exists_tokens_eq_cons (p : Phrase α c) (hc : c = .atom ∨ c = .power) :
    ∃ token rest, p.tokens = token :: rest ∧ token ≠ .minus := by
  induction p with
  | number value => exact ⟨_, _, rfl, by simp⟩
  | var => exact ⟨_, _, rfl, by simp⟩
  | pi => exact ⟨_, _, rfl, by simp⟩
  | e => exact ⟨_, _, rfl, by simp⟩
  | call function argument => exact ⟨_, _, rfl, by simp⟩
  | parens inside => exact ⟨_, _, rfl, by simp⟩
  | bare base ih => exact ih (.inl rfl)
  | raised base exponent ih =>
      obtain ⟨token, rest, htokens, hminus⟩ := ih (.inl rfl)
      exact ⟨token, rest ++ .doubleStar :: exponent.tokens, by simp [tokens, htokens], hminus⟩
  | unsigned | negated | single | join => simp at hc

end Phrase

/-! ## Where a phrase ends -/

/-- The tokens that a phrase of a category could go on with. An opening parenthesis would turn a
name in front of it into a call. -/
def Category.continuations {α : Type} : Category → List (Token α)
  | .atom => [.openParen]
  | .power => [.openParen, .doubleStar]
  | .operand => [.openParen, .doubleStar]
  | .chain .product => [.openParen, .doubleStar, .star, .slash]
  | .chain .sum => [.openParen, .doubleStar, .star, .slash, .plus, .minus]

/-- Whether what follows a phrase of a category cannot belong to it. -/
def Category.Stops {α : Type} (c : Category) (rest : List (Token α)) : Prop :=
  ∀ token ∈ rest.head?, token ∉ c.continuations

/-- What a phrase is up to the operators that could lengthen it. -/
def Category.core : Category → Category
  | .chain kind => kind.member
  | c => c

namespace Category

variable {α : Type} {rest : List (Token α)}

@[simp] theorem stops_cons (c : Category) (token : Token α) :
    c.Stops (token :: rest) ↔ token ∉ c.continuations := by
  simp [Stops]

theorem Stops.mono {c d : Category} (h : d.Stops rest)
    (hsub : ∀ token : Token α, token ∈ c.continuations → token ∈ d.continuations) :
    c.Stops rest :=
  fun token htoken hmem => h token htoken (hsub token hmem)

theorem Stops.core {c : Category} (h : c.Stops rest) : c.core.Stops rest := by
  apply h.mono
  rcases c with _ | _ | _ | kind
  · simp [Category.core]
  · simp [Category.core]
  · simp [Category.core]
  · cases kind <;> simp +contextual [Category.core, ChainKind.member, continuations]

/-- An operator between the members of a chain ends the member in front of it, not the chain. -/
theorem stops_member_token {kind : ChainKind} {operator : BinaryOperator}
    (h : operator ∈ kind.operators) : kind.member.Stops (operator.token :: rest) := by
  cases kind <;> simp only [ChainKind.operators, List.mem_cons, List.not_mem_nil, or_false] at h <;>
    rcases h with rfl | rfl <;> simp [ChainKind.member, continuations, BinaryOperator.token]

theorem token_mem_continuations {kind : ChainKind} {operator : BinaryOperator}
    (h : operator ∈ kind.operators) : (operator.token : Token α) ∈ (chain kind).continuations := by
  cases kind <;> simp only [ChainKind.operators, List.mem_cons, List.not_mem_nil, or_false] at h <;>
    rcases h with rfl | rfl <;> simp [continuations, BinaryOperator.token]

end Category

end DefiniteIntegral
