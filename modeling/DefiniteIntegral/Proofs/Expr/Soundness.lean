import DefiniteIntegral.Proofs.Expr.Grammar
import DefiniteIntegral.Proofs.Outcome

/-! # Soundness of the parser

Every tree that the parser returns is that of a phrase with the tokens it has taken, and the phrase
opens no more levels than were left. -/

namespace DefiniteIntegral

variable {α : Type} [Elementary α]

/-! ## Names and operators -/

theorem ElementaryFunction.ofName?_name (function : ElementaryFunction) :
    ofName? function.name = some function := by
  cases function <;> decide

theorem ElementaryFunction.eq_name_of_ofName? {text : String} {function : ElementaryFunction}
    (h : ofName? text = some function) : text = function.name := by
  have hname := List.find?_some h
  simpa using (of_decide_eq_true hname).symm

theorem Expr.constant?_eq_some_iff {name : String} {value : α} :
    constant? name = some value ↔
      name = "pi" ∧ value = Elementary.pi ∨ name = "e" ∧ value = Elementary.e := by
  unfold constant?
  split
  · rename_i h
    simp [h, eq_comm]
  · split
    · rename_i h
      simp [h, eq_comm]
    · simp_all

/-- The operator that a token stands for between the members of a chain. -/
def ChainKind.operator? (kind : ChainKind) : Token α → Option BinaryOperator :=
  match kind with
  | product => Parser.productOperator?
  | sum => Parser.sumOperator?

omit [Elementary α] in
theorem ChainKind.operator?_eq_some_iff {kind : ChainKind} {token : Token α}
    {operator : BinaryOperator} :
    kind.operator? token = some operator ↔ operator ∈ kind.operators ∧ token = operator.token := by
  cases kind <;> cases token <;> cases operator <;>
    simp [operator?, operators, BinaryOperator.token, Parser.productOperator?, Parser.sumOperator?]

/-! ## The parsers by category -/

/-- The parser of a category, with so many levels left. -/
def Category.parser (levels : Nat) : Category → Parser α
  | .atom => Parser.atom (Parser.inner levels)
  | .power => Parser.power (Parser.inner levels)
  | .operand => Parser.operand (Parser.inner levels)
  | .chain .product => Parser.product (Parser.inner levels)
  | .chain .sum => Parser.sum (Parser.inner levels)

/-- What the parser of a category does after a tree of its core: a chain goes on. -/
def Category.resume (levels : Nat) (left : Expr α) : Category → Parser α
  | .chain kind => fun rest =>
    Parser.chain kind.operator? (kind.member.parser levels) rest.length left rest
  | _ => fun rest => .ok (left, rest)

theorem Category.parser_chain (levels : Nat) (kind : ChainKind) (tokens : List (Token α)) :
    (Category.chain kind).parser levels tokens =
      kind.member.parser levels tokens >>= fun found =>
        (Category.chain kind).resume levels found.1 found.2 := by
  cases kind <;> rfl

/-! ## Results of the parsers -/

/-- A result of a parser is that of a phrase that opens fewer levels than a bound. -/
def Category.Derives (c : Category) (bound : Nat) (tokens : List (Token α)) (tree : Expr α)
    (rest : List (Token α)) : Prop :=
  ∃ p : Phrase α c, tokens = p.tokens ++ rest ∧ p.tree = tree ∧ p.depth < bound

/-- Whether all results of a parser are those of phrases. -/
def Parser.Sound (parser : Parser α) (c : Category) (bound : Nat) : Prop :=
  ∀ tokens tree rest, parser tokens = .ok (tree, rest) → c.Derives bound tokens tree rest

namespace Parser

variable {inner : Inner α} {levels : Nat} {tokens rest : List (Token α)} {tree : Expr α}

theorem enclosed_sound (hsum : Sound inner.sum (.chain .sum) levels)
    (h : enclosed inner tokens = .ok (tree, rest)) :
    ∃ p : Phrase α (.chain .sum),
      tokens = p.tokens ++ .closeParen :: rest ∧ p.tree = tree ∧ p.depth < levels := by
  obtain ⟨⟨found, after⟩, hfound, h⟩ := bind_eq_ok_iff.mp h
  obtain ⟨p, htokens, htree, hdepth⟩ := hsum _ _ _ hfound
  dsimp only at h
  split at h
  · simp only [pure_eq_ok_iff, Prod.mk.injEq] at h
    obtain ⟨rfl, rfl⟩ := h
    exact ⟨p, htokens, htree, hdepth⟩
  · simp at h

omit [Elementary α] in
/-- A value that stands in front of no parenthesis is left as it is. -/
theorem eq_of_not_called {value : Expr α} {name : String}
    (h : (do
      let value ← pure value
      match tokens with
      | .openParen :: _ => throw (.notCallable name)
      | tokens => return (value, tokens) : Except (ParseFault α) _) = .ok (tree, rest)) :
    value = tree ∧ tokens = rest := by
  rw [pure_bind] at h
  split at h
  · simp at h
  · simpa using h

theorem named_sound (hsum : Sound inner.sum (.chain .sum) levels) {name : String}
    (h : named inner name tokens = .ok (tree, rest)) :
    Category.atom.Derives (levels + 1) (.name name :: tokens) tree rest := by
  unfold named at h
  split at h
  · rename_i function after hname
    obtain rfl := ElementaryFunction.eq_name_of_ofName? hname
    obtain ⟨⟨argument, after'⟩, hargument, h⟩ := bind_eq_ok_iff.mp h
    obtain ⟨p, htokens, htree, hdepth⟩ := enclosed_sound hsum hargument
    simp only [pure_eq_ok_iff, Prod.mk.injEq] at h
    obtain ⟨rfl, rfl⟩ := h
    exact ⟨.call function p, by simp [Phrase.tokens, htokens], by simp [Phrase.tree, htree],
      by simpa [Phrase.depth] using hdepth⟩
  · simp at h
  · dsimp only at h
    split at h
    · rename_i hname
      obtain ⟨rfl, rfl⟩ := eq_of_not_called h
      exact ⟨.var, by simp [Phrase.tokens, hname, Expr.variableName], rfl, by simp [Phrase.depth]⟩
    · split at h
      · rename_i value hvalue
        obtain ⟨rfl, rfl⟩ := eq_of_not_called h
        rcases Expr.constant?_eq_some_iff.mp hvalue with ⟨rfl, rfl⟩ | ⟨rfl, rfl⟩
        · exact ⟨.pi, rfl, rfl, by simp [Phrase.depth]⟩
        · exact ⟨.e, rfl, rfl, by simp [Phrase.depth]⟩
      · simp [bind, Except.bind, throw, throwThe, MonadExceptOf.throw] at h

theorem atom_sound (hsum : Sound inner.sum (.chain .sum) levels) :
    Sound (atom inner) .atom (levels + 1) := by
  intro tokens tree rest h
  unfold atom at h
  split at h
  · rename_i value after
    simp only [Except.ok.injEq, Prod.mk.injEq] at h
    obtain ⟨rfl, rfl⟩ := h
    exact ⟨.number value, rfl, rfl, by simp [Phrase.depth]⟩
  · exact named_sound hsum h
  · obtain ⟨p, htokens, htree, hdepth⟩ := enclosed_sound hsum h
    exact ⟨.parens p, by simp [Phrase.tokens, htokens], htree,
      by simpa [Phrase.depth] using hdepth⟩
  · simp at h

theorem power_sound (hoperand : Sound inner.operand .operand levels)
    (hsum : Sound inner.sum (.chain .sum) levels) : Sound (power inner) .power (levels + 1) := by
  intro tokens tree rest h
  obtain ⟨⟨base, after⟩, hbase, h⟩ := bind_eq_ok_iff.mp h
  obtain ⟨p, htokens, rfl, hdepth⟩ := atom_sound hsum _ _ _ hbase
  dsimp only at h
  split at h
  · rename_i after'
    obtain ⟨⟨exponent, after''⟩, hexponent, h⟩ := bind_eq_ok_iff.mp h
    obtain ⟨q, hq, rfl, hqdepth⟩ := hoperand _ _ _ hexponent
    simp only [pure_eq_ok_iff, Prod.mk.injEq] at h
    obtain ⟨rfl, rfl⟩ := h
    refine ⟨.raised p q, ?_, rfl, ?_⟩
    · simp [Phrase.tokens, htokens, hq]
    · simp only [Phrase.depth]
      omega
  · simp only [pure_eq_ok_iff, Prod.mk.injEq] at h
    obtain ⟨rfl, rfl⟩ := h
    exact ⟨.bare p, htokens, rfl, hdepth⟩

theorem operand_sound (hoperand : Sound inner.operand .operand levels)
    (hsum : Sound inner.sum (.chain .sum) levels) :
    Sound (operand inner) .operand (levels + 1) := by
  intro tokens tree rest h
  unfold operand at h
  split at h
  · obtain ⟨⟨negated, after⟩, hnegated, h⟩ := bind_eq_ok_iff.mp h
    obtain ⟨p, htokens, rfl, hdepth⟩ := hoperand _ _ _ hnegated
    simp only [pure_eq_ok_iff, Prod.mk.injEq] at h
    obtain ⟨rfl, rfl⟩ := h
    exact ⟨.negated p, by simp [Phrase.tokens, htokens], rfl, by simpa [Phrase.depth] using hdepth⟩
  · obtain ⟨p, htokens, htree, hdepth⟩ := power_sound hoperand hsum _ _ _ h
    exact ⟨.unsigned p, htokens, htree, hdepth⟩

/-- What a chain adds to the phrase in front of it. -/
theorem chain_sound {kind : ChainKind} {next : Parser α} {bound : Nat}
    (hnext : Sound next kind.member bound) (fuel : Nat) (left : Phrase α (.chain kind))
    (hleft : left.depth < bound)
    (h : chain kind.operator? next fuel left.tree tokens = .ok (tree, rest)) :
    (Category.chain kind).Derives bound (left.tokens ++ tokens) tree rest := by
  induction fuel generalizing left tokens with
  | zero =>
      simp only [chain, Except.ok.injEq, Prod.mk.injEq] at h
      obtain ⟨rfl, rfl⟩ := h
      exact ⟨left, rfl, rfl, hleft⟩
  | succ fuel ih =>
      cases tokens with
      | nil =>
          simp only [chain, Except.ok.injEq, Prod.mk.injEq] at h
          obtain ⟨rfl, rfl⟩ := h
          exact ⟨left, rfl, rfl, hleft⟩
      | cons token tokens =>
          simp only [chain] at h
          split at h
          · rename_i operator hoperator
            obtain ⟨hallowed, rfl⟩ := ChainKind.operator?_eq_some_iff.mp hoperator
            obtain ⟨⟨right, after⟩, hright, h⟩ := bind_eq_ok_iff.mp h
            obtain ⟨p, rfl, rfl, hdepth⟩ := hnext _ _ _ hright
            have hjoin := ih (.join left operator hallowed p)
              (Nat.max_lt.mpr ⟨hleft, hdepth⟩) h
            simpa [Phrase.tokens] using hjoin
          · simp only [Except.ok.injEq, Prod.mk.injEq] at h
            obtain ⟨rfl, rfl⟩ := h
            exact ⟨left, rfl, rfl, hleft⟩

end Parser

theorem Category.parser_chain_sound (kind : ChainKind) {levels : Nat}
    (hmember : Parser.Sound (kind.member.parser (α := α) levels) kind.member (levels + 1)) :
    Parser.Sound ((Category.chain kind).parser (α := α) levels) (.chain kind) (levels + 1) := by
  intro tokens tree rest h
  rw [Category.parser_chain] at h
  obtain ⟨⟨first, after⟩, hfirst, h⟩ := bind_eq_ok_iff.mp h
  obtain ⟨p, rfl, rfl, hdepth⟩ := hmember _ _ _ hfirst
  exact Parser.chain_sound hmember after.length (.single p) hdepth h

theorem Category.parser_sound_of_inner {levels : Nat}
    (hoperand : Parser.Sound (Parser.inner (α := α) levels).operand .operand levels)
    (hsum : Parser.Sound (Parser.inner (α := α) levels).sum (.chain .sum) levels) (c : Category) :
    Parser.Sound (c.parser (α := α) levels) c (levels + 1) := by
  have hproduct : Parser.Sound ((Category.chain .product).parser (α := α) levels)
      (.chain .product) (levels + 1) :=
    parser_chain_sound .product (Parser.operand_sound hoperand hsum)
  rcases c with _ | _ | _ | kind
  · exact Parser.atom_sound hsum
  · exact Parser.power_sound hoperand hsum
  · exact Parser.operand_sound hoperand hsum
  · cases kind with
    | product => exact hproduct
    | sum => exact parser_chain_sound .sum hproduct

theorem Parser.inner_sound (levels : Nat) :
    Sound (inner (α := α) levels).operand .operand levels ∧
      Sound (inner (α := α) levels).sum (.chain .sum) levels := by
  induction levels with
  | zero =>
      constructor
      · intro tokens tree rest h
        cases h
      · intro tokens tree rest h
        cases h
  | succ levels ih =>
      exact ⟨Category.parser_sound_of_inner ih.1 ih.2 .operand,
        Category.parser_sound_of_inner ih.1 ih.2 (.chain .sum)⟩

/-- With so many levels left, every result is that of a phrase that opens no more. -/
theorem Category.parser_sound (levels : Nat) (c : Category) :
    Parser.Sound (c.parser (α := α) levels) c (levels + 1) :=
  parser_sound_of_inner (Parser.inner_sound levels).1 (Parser.inner_sound levels).2 c

end DefiniteIntegral
