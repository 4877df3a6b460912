import DefiniteIntegral.Proofs.Expr.Soundness

/-! # Completeness of the parser

The parser reads the tree of a phrase back from its tokens, if there are levels enough. -/

namespace DefiniteIntegral

variable {α : Type} [Elementary α]

theorem Category.resume_of_stops {c : Category} {levels : Nat} {tree : Expr α}
    {rest : List (Token α)} (h : c.Stops rest) : c.resume levels tree rest = .ok (tree, rest) := by
  rcases c with _ | _ | _ | kind
  · rfl
  · rfl
  · rfl
  · cases rest with
    | nil => rfl
    | cons token rest =>
        have hnone : kind.operator? token = none := by
          cases hoperator : kind.operator? token with
          | none => rfl
          | some operator =>
              obtain ⟨hallowed, rfl⟩ := ChainKind.operator?_eq_some_iff.mp hoperator
              exact absurd (token_mem_continuations hallowed) ((stops_cons _ _).mp h)
        simp [resume, Parser.chain, hnone]

namespace Parser

variable {inner : Inner α} {tokens rest : List (Token α)} {tree : Expr α}

omit [Elementary α] in
/-- A chain has enough fuel with one unit for each token, and more makes no difference. -/
theorem chain_fuel {operator? : Token α → Option BinaryOperator} {next : Parser α}
    (hnext : ∀ tokens tree rest, next tokens = .ok (tree, rest) → rest.length ≤ tokens.length)
    {fuel fuel' : Nat} {left : Expr α} (h : tokens.length ≤ fuel) (h' : tokens.length ≤ fuel') :
    chain operator? next fuel left tokens = chain operator? next fuel' left tokens := by
  induction fuel generalizing fuel' left tokens with
  | zero =>
      obtain rfl : tokens = [] := List.length_eq_zero_iff.mp (Nat.le_zero.mp h)
      cases fuel' <;> rfl
  | succ fuel ih =>
      cases tokens with
      | nil => cases fuel' <;> rfl
      | cons token tokens =>
          obtain ⟨fuel', rfl⟩ : ∃ n, fuel' = n + 1 := ⟨fuel' - 1, by simp at h'; omega⟩
          simp only [List.length_cons, Nat.add_le_add_iff_right] at h h'
          simp only [chain]
          cases operator? token with
          | none => rfl
          | some operator =>
              cases hright : next tokens with
              | error fault => rfl
              | ok found =>
                  have hlength := hnext _ _ _ hright
                  exact ih (Nat.le_trans hlength h) (Nat.le_trans hlength h')

theorem named_eq_of_stops (inner : Inner α) (name : String)
    (hfunction : ElementaryFunction.ofName? name = none)
    (hvalue : name = "x" ∧ tree = .var ∨
      ∃ value, Expr.constant? name = some value ∧ tree = .number value)
    (hrest : Category.atom.Stops rest) : named inner name rest = .ok (tree, rest) := by
  unfold named
  simp only [hfunction]
  rcases hvalue with ⟨rfl, rfl⟩ | ⟨value, hconstant, rfl⟩
  · simp only [Expr.variableName, ↓reduceIte, pure_bind]
    split
    · simp [Category.continuations] at hrest
    · rfl
  · have hname : name ≠ Expr.variableName := by
      rintro rfl
      simp [Expr.constant?, Expr.variableName] at hconstant
    simp only [hname, ↓reduceIte, hconstant, pure_bind]
    split
    · simp [Category.continuations] at hrest
    · rfl

theorem power_eq_of_atom (hatom : atom inner tokens = .ok (tree, rest))
    (hrest : Category.power.Stops rest) : power inner tokens = .ok (tree, rest) := by
  unfold power
  rw [hatom]
  cases rest with
  | nil => rfl
  | cons token rest =>
      rw [Category.stops_cons] at hrest
      cases token <;> first | rfl | simp [Category.continuations] at hrest

theorem operand_eq_power {token : Token α} (h : token ≠ .minus) :
    operand inner (token :: rest) = power inner (token :: rest) := by
  cases token <;> first | rfl | contradiction

omit [Elementary α] in
theorem enclosed_of_sum (h : inner.sum (tokens ++ .closeParen :: rest) =
    .ok (tree, .closeParen :: rest)) :
    enclosed inner (tokens ++ .closeParen :: rest) = .ok (tree, rest) := by
  simp [enclosed, h]

end Parser

theorem Category.length_le_of_parser {c : Category} {levels : Nat} {tokens rest : List (Token α)}
    {tree : Expr α} (h : c.parser levels tokens = .ok (tree, rest)) :
    rest.length ≤ tokens.length := by
  obtain ⟨p, rfl, -, -⟩ := parser_sound levels c _ _ _ h
  simp

/-- What the parser of a category does with the tokens of a phrase and what follows them: it reads
the tree of the phrase, and a chain goes on from there. -/
def Phrase.ReadBack {c : Category} (p : Phrase α c) : Prop :=
  ∀ levels, p.depth ≤ levels → ∀ rest, c.core.Stops rest →
    c.parser levels (p.tokens ++ rest) = c.resume levels p.tree rest

namespace Phrase

variable {c : Category} {levels : Nat} {rest : List (Token α)}

theorem ReadBack.parser_eq {p : Phrase α c} (hp : p.ReadBack) (hdepth : p.depth ≤ levels)
    (hrest : c.Stops rest) : c.parser levels (p.tokens ++ rest) = .ok (p.tree, rest) := by
  rw [hp levels hdepth rest hrest.core, Category.resume_of_stops hrest]

/-- What stands in parentheses is read with one level less. -/
theorem ReadBack.enclosed_eq {p : Derivation α} (hp : p.ReadBack) (hdepth : p.depth + 1 ≤ levels)
    (rest : List (Token α)) :
    Parser.enclosed (Parser.inner levels) (p.tokens ++ .closeParen :: rest) =
      .ok (p.tree, rest) := by
  obtain ⟨levels, rfl⟩ : ∃ n, levels = n + 1 := ⟨levels - 1, by omega⟩
  apply Parser.enclosed_of_sum
  exact hp.parser_eq (c := .chain .sum) (Nat.le_of_succ_le_succ hdepth)
    (by simp [Category.continuations])

/-- An operand one level deeper is read with one level less. -/
theorem ReadBack.inner_operand_eq {p : Phrase α .operand} (hp : p.ReadBack)
    (hdepth : p.depth + 1 ≤ levels) (hrest : Category.operand.Stops rest) :
    (Parser.inner levels).operand (p.tokens ++ rest) = .ok (p.tree, rest) := by
  obtain ⟨levels, rfl⟩ : ∃ n, levels = n + 1 := ⟨levels - 1, by omega⟩
  exact hp.parser_eq (c := .operand) (Nat.le_of_succ_le_succ hdepth) hrest

theorem readBack_join {kind : ChainKind} {left : Phrase α (.chain kind)}
    {operator : BinaryOperator} {allowed : operator ∈ kind.operators} {right : Phrase α kind.member}
    (hleft : left.ReadBack) (hright : right.ReadBack) :
    (join left operator allowed right).ReadBack := by
  intro levels hdepth rest hrest
  obtain ⟨hl, hr⟩ := Nat.max_le.mp hdepth
  have hoperator : kind.operator? (operator.token : Token α) = some operator :=
    ChainKind.operator?_eq_some_iff.mpr ⟨allowed, rfl⟩
  have hnext := hright.parser_eq hr hrest
  calc
    (Category.chain kind).parser levels ((join left operator allowed right).tokens ++ rest) =
        (Category.chain kind).parser levels
          (left.tokens ++ operator.token :: (right.tokens ++ rest)) := by simp [tokens]
    _ = (Category.chain kind).resume levels left.tree (operator.token :: (right.tokens ++ rest)) :=
        hleft levels hl _ (Category.stops_member_token allowed)
    _ = Parser.chain kind.operator? (kind.member.parser levels) (right.tokens ++ rest).length
          (.binary operator left.tree right.tree) rest := by
        simp [Category.resume, Parser.chain, hoperator, hnext]
    _ = (Category.chain kind).resume levels (.binary operator left.tree right.tree) rest :=
        Parser.chain_fuel (fun _ _ _ => Category.length_le_of_parser) (by simp) (Nat.le_refl _)

theorem readBack (p : Phrase α c) : p.ReadBack := by
  induction p with
  | number value => intro levels _ rest _; rfl
  | var =>
      intro levels _ rest hrest
      exact Parser.named_eq_of_stops (Parser.inner levels) "x" (by decide)
        (.inl ⟨rfl, rfl⟩) hrest
  | pi =>
      intro levels _ rest hrest
      exact Parser.named_eq_of_stops (Parser.inner levels) "pi" (by decide)
        (.inr ⟨_, rfl, rfl⟩) hrest
  | e =>
      intro levels _ rest hrest
      exact Parser.named_eq_of_stops (Parser.inner levels) "e" (by decide)
        (.inr ⟨_, rfl, rfl⟩) hrest
  | call function argument ih =>
      intro levels hdepth rest _
      have hargument := ih.enclosed_eq hdepth rest
      simp [Category.parser, Parser.atom, Parser.named, tokens,
        ElementaryFunction.ofName?_name, hargument, Category.resume, tree]
  | parens inside ih =>
      intro levels hdepth rest _
      have hinside := ih.enclosed_eq hdepth rest
      simpa [Category.parser, Parser.atom, tokens, Category.resume, tree] using hinside
  | bare base ih =>
      intro levels hdepth rest hrest
      refine Parser.power_eq_of_atom (ih.parser_eq hdepth ?_) hrest
      exact hrest.mono (by simp +contextual [Category.core, Category.continuations])
  | raised base exponent ihb ihe =>
      intro levels hdepth rest hrest
      obtain ⟨hb, he⟩ := Nat.max_le.mp hdepth
      have hbase : Parser.atom (Parser.inner levels)
          (base.tokens ++ .doubleStar :: (exponent.tokens ++ rest)) =
            .ok (base.tree, .doubleStar :: (exponent.tokens ++ rest)) :=
        ihb.parser_eq hb (by simp [Category.continuations])
      have hexponent := ihe.inner_operand_eq he hrest
      simp [Category.parser, Parser.power, tokens, hbase, hexponent, Category.resume, tree]
  | unsigned power ih =>
      intro levels hdepth rest hrest
      obtain ⟨token, after, htokens, hminus⟩ := power.exists_tokens_eq_cons (.inr rfl)
      calc
        Parser.operand (Parser.inner levels) (power.tokens ++ rest) =
            Parser.power (Parser.inner levels) (power.tokens ++ rest) := by
          rw [htokens]
          exact Parser.operand_eq_power hminus
        _ = .ok (power.tree, rest) := ih.parser_eq hdepth hrest
  | negated operand ih =>
      intro levels hdepth rest hrest
      have hoperand := ih.inner_operand_eq hdepth hrest
      simp [Category.parser, Parser.operand, tokens, hoperand, Category.resume, tree]
  | single member ih =>
      intro levels hdepth rest hrest
      rw [Category.parser_chain, tokens, ih.parser_eq hdepth hrest]
      rfl
  | join left operator allowed right ihl ihr => exact readBack_join ihl ihr

end Phrase

end DefiniteIntegral
