import DefiniteIntegral.Proofs.Expr.Parsing
import DefiniteIntegral.Proofs.Expr.Reference
import DefiniteIntegral.Proofs.Number.Sign

/-! # The vocabulary of integrands

What a text that compiles can be made of: the variable, two constants, six functions that are
called, and numbers that are finite and not negative. -/

namespace DefiniteIntegral

variable {α : Type}

/-! ## Names -/

/-- Whether every name is that of a function with an opening parenthesis behind it, or the variable
or a constant with something else behind it. -/
def NamesResolve : List (Token α) → Prop
  | [] => True
  | .name name :: rest =>
    ((∃ function : ElementaryFunction, function.name = name) ∧ rest.head? = some .openParen ∨
      name ∈ ["pi", "e", "x"] ∧ rest.head? ≠ some .openParen) ∧ NamesResolve rest
  | _ :: rest => NamesResolve rest

/-- The names of a phrase resolve if those behind it do, and it has no parenthesis behind it. -/
theorem Phrase.namesResolve_append {c : Category} (p : Phrase α c) {rest : List (Token α)}
    (hrest : NamesResolve rest) (hparen : rest.head? ≠ some .openParen) :
    NamesResolve (p.tokens ++ rest) := by
  -- Of what follows a phrase, its last name sees the first token only.
  induction p generalizing rest with
  | number value => exact hrest
  | var => exact ⟨.inr ⟨by simp, hparen⟩, hrest⟩
  | pi => exact ⟨.inr ⟨by simp, hparen⟩, hrest⟩
  | e => exact ⟨.inr ⟨by simp, hparen⟩, hrest⟩
  | call function argument ih =>
      have hargument : NamesResolve (argument.tokens ++ .closeParen :: rest) :=
        ih hrest (by simp)
      rw [tokens, List.cons_append, List.cons_append, List.append_assoc]
      exact ⟨.inl ⟨⟨function, rfl⟩, rfl⟩, hargument⟩
  | parens inside ih =>
      have hinside : NamesResolve (inside.tokens ++ .closeParen :: rest) := ih hrest (by simp)
      rw [tokens, List.cons_append, List.append_assoc]
      exact hinside
  | bare base ih => exact ih hrest hparen
  | raised base exponent ihb ihe =>
      have hexponent : NamesResolve (.doubleStar :: (exponent.tokens ++ rest)) :=
        ihe hrest hparen
      rw [tokens, List.append_assoc]
      exact ihb hexponent (by simp)
  | unsigned power ih => exact ih hrest hparen
  | negated operand ih => exact ih hrest hparen
  | single member ih => exact ih hrest hparen
  | join left operator allowed right ihl ihr =>
      have hright : NamesResolve (operator.token :: (right.tokens ++ rest)) := by
        cases operator <;> exact ihr hrest hparen
      rw [tokens, List.append_assoc]
      exact ihl hright (by cases operator <;> simp [BinaryOperator.token])

theorem NamesResolve.of_append {before after : List (Token α)}
    (h : NamesResolve (before ++ after)) : NamesResolve after := by
  induction before with
  | nil => exact h
  | cons token before ih =>
      cases token with
      | name name => exact ih h.2
      | _ => exact ih h

theorem ElementaryFunction.exists_name_eq_iff {name : String} :
    (∃ function : ElementaryFunction, function.name = name) ↔
      name ∈ ["sin", "cos", "tan", "exp", "log", "sqrt"] := by
  constructor
  · rintro ⟨function, rfl⟩
    cases function <;> decide
  · intro h
    have hall : name ∈ all.map ElementaryFunction.name := h
    obtain ⟨function, -, hname⟩ := List.mem_map.mp hall
    exact ⟨function, hname⟩

/-- A name that resolves is allowed, and it is that of a function exactly if a parenthesis opens
behind it. -/
theorem NamesResolve.allowed {name : String} {after : List (Token α)}
    (h : NamesResolve (.name name :: after)) :
    name ∈ ["sin", "cos", "tan", "exp", "log", "sqrt", "pi", "e", "x"] ∧
      (name ∈ ["sin", "cos", "tan", "exp", "log", "sqrt"] ↔ after.head? = some .openParen) := by
  rcases h.1 with ⟨hfunction, hparen⟩ | ⟨hother, hparen⟩
  · rw [ElementaryFunction.exists_name_eq_iff] at hfunction
    exact ⟨List.mem_append_left ["pi", "e", "x"] hfunction, iff_of_true hfunction hparen⟩
  · refine ⟨List.mem_append_right ["sin", "cos", "tan", "exp", "log", "sqrt"] hother, ?_⟩
    refine iff_of_false ?_ hparen
    intro hfunction
    simp only [List.mem_cons, List.not_mem_nil, or_false] at hother
    rcases hother with rfl | rfl | rfl <;> simp at hfunction

/-! ## Numbers -/

section Numbers

variable [Elementary α]

theorem exists_ofDecimal_of_tokenAt {position : Nat} {c : Char} {cs : List Char} {value : α}
    {length : Nat} (h : tokenAt position c cs = .ok (.number value, length)) :
    ∃ d, value = Elementary.ofDecimal d := by
  unfold tokenAt at h
  split at h
  · rename_i found hfound
    obtain rfl := Except.ok.inj h
    unfold symbol? at hfound
    split at hfound <;> simp at hfound
  · split at h
    · dsimp only at h
      split at h
      · rename_i d hd
        simp only [Except.ok.injEq, Prod.mk.injEq, Token.number.injEq] at h
        exact ⟨d, h.1.symm⟩
      · cases h
    · split at h <;> simp at h

theorem exists_ofDecimal_of_mem_tokens {text : String} {tokens : List (Token α)}
    (h : tokenize text = .ok tokens) {value : α} (hmem : .number value ∈ tokens) :
    ∃ d, value = Elementary.ofDecimal d := by
  obtain ⟨lexemes, rfl, hlexemes⟩ := exists_scanned_of_tokensFrom h
  obtain ⟨place, c, cs, length, htoken⟩ := hlexemes _ (by simpa using hmem)
  exact exists_ofDecimal_of_tokenAt htoken

/-- The numbers in the tree of a phrase are those among its tokens and the constants that it
names. -/
theorem Phrase.number_mem_nodes_iff {c : Category} (p : Phrase α c) {value : α} :
    .number value ∈ p.tree.nodes ↔
      .number value ∈ p.tokens ∨ .name "pi" ∈ p.tokens ∧ value = Elementary.pi ∨
        .name "e" ∈ p.tokens ∧ value = Elementary.e := by
  induction p with
  | number | var | pi | e => simp [tree, Expr.nodes, tokens]
  | call function argument ih =>
      cases function <;> simp [tree, Expr.nodes, tokens, ElementaryFunction.name, ih]
  | parens | bare | unsigned | negated | single => simp_all [tree, Expr.nodes, tokens]
  | raised base exponent ihb ihe =>
      simp only [tree, Expr.nodes, tokens, ihb, ihe, List.mem_append, List.mem_cons, reduceCtorEq,
        List.not_mem_nil, or_self, or_false, false_or]
      grind
  | join left operator allowed right ihl ihr =>
      have hnumber : .number value ≠ (operator.token : Token α) := by
        cases operator <;> simp [BinaryOperator.token]
      have hname : ∀ name, .name name ≠ (operator.token : Token α) := by
        cases operator <;> simp [BinaryOperator.token]
      simp only [tree, Expr.nodes, tokens, ihl, ihr, hnumber, hname, List.mem_append,
        List.mem_cons, reduceCtorEq, List.not_mem_nil, or_self, or_false, false_or]
      grind

end Numbers

/-! ## Compiling -/

namespace Integrand

section Compiling

variable [Elementary α] {text : String} {f : Integrand α} {tokens : List (Token α)}

theorem readTree_eq_ok_iff {tree : Expr α} :
    readTree text = .ok tree ↔ ∃ tokens, tokenize text = .ok tokens ∧ parse tokens = .ok tree := by
  simp only [readTree, bind_eq_ok_iff, mapError_eq_ok_iff]

theorem compile_eq_ok_iff :
    compile text = .ok f ↔
      text.length ≤ maxExpressionLength ∧ f.source = text ∧
        ∃ tokens value, tokenize text = .ok tokens ∧ parse tokens = .ok f.tree ∧
          f.tree.eval Arithmetic.zero = .ok value := by
  unfold compile
  by_cases hlong : maxExpressionLength < text.length
  · rw [if_pos hlong]
    exact iff_of_false nofun fun h => Nat.not_lt.mpr h.1 hlong
  · rw [if_neg hlong]
    simp only [bind_eq_ok_iff, mapError_eq_ok_iff, pure_eq_ok_iff, readTree_eq_ok_iff]
    constructor
    · rintro ⟨tree, ⟨tokens, htokens, htree⟩, value, hvalue, rfl⟩
      exact ⟨Nat.not_lt.mp hlong, rfl, tokens, value, htokens, htree, hvalue⟩
    · rintro ⟨-, rfl, tokens, value, htokens, htree, hvalue⟩
      exact ⟨f.tree, ⟨tokens, htokens, htree⟩, value, hvalue, rfl⟩

/-- The tokens of an integrand are those of a derivation of its tree. -/
theorem exists_derivation_of_compile (hcompile : compile text = .ok f)
    (htokens : tokenize text = .ok tokens) :
    ∃ p : Derivation α, tokens = p.tokens ++ [.eof] ∧ p.tree = f.tree := by
  obtain ⟨-, -, tokens', value, htokens', hparse, -⟩ := compile_eq_ok_iff.mp hcompile
  obtain rfl := Except.ok.inj (htokens'.symm.trans htokens)
  obtain ⟨lexemes, rfl, heof⟩ := exists_lexemes_of_tokensFrom htokens
  obtain ⟨p, rfl, htree, -⟩ := (parse_append_eof_eq_ok_iff heof).mp hparse
  exact ⟨p, rfl, htree⟩

theorem isFinite_of_number_mem_nodes (hcompile : compile text = .ok f) {value : α}
    (hmem : .number value ∈ f.tree.nodes) : Arithmetic.isFinite value := by
  obtain ⟨-, -, -, found, -, -, heval⟩ := compile_eq_ok_iff.mp hcompile
  exact ((Expr.eval_eq_ok_iff.mp heval).1 _ hmem).2

/-- Every number that a text writes down is a number of the tree. -/
theorem number_mem_nodes_of_mem_tokens (hcompile : compile text = .ok f)
    (htokens : tokenize text = .ok tokens) {value : α} (hmem : .number value ∈ tokens) :
    .number value ∈ f.tree.nodes := by
  obtain ⟨p, rfl, htree⟩ := exists_derivation_of_compile hcompile htokens
  rw [← htree]
  exact p.number_mem_nodes_iff.mpr (.inl (by simpa using hmem))

/-- Every number of the tree is that of a numeral or a constant. -/
theorem number_cases (hcompile : compile text = .ok f) {value : α}
    (hmem : .number value ∈ f.tree.nodes) :
    (∃ d, value = Elementary.ofDecimal d) ∨ value = Elementary.pi ∨ value = Elementary.e := by
  obtain ⟨-, -, tokens, -, htokens, -, -⟩ := compile_eq_ok_iff.mp hcompile
  obtain ⟨p, rfl, htree⟩ := exists_derivation_of_compile hcompile htokens
  rw [← htree] at hmem
  rcases p.number_mem_nodes_iff.mp hmem with hnumber | ⟨-, hpi⟩ | ⟨-, he⟩
  · exact .inl (exists_ofDecimal_of_mem_tokens htokens (List.mem_append_left _ hnumber))
  · exact .inr (.inl hpi)
  · exact .inr (.inr he)

theorem namesResolve_of_compile (hcompile : compile text = .ok f)
    (htokens : tokenize text = .ok tokens) : NamesResolve tokens := by
  obtain ⟨p, rfl, -⟩ := exists_derivation_of_compile hcompile htokens
  exact p.namesResolve_append trivial (by simp)

end Compiling

theorem nonneg_of_number_mem_nodes {text : String} {f : Integrand Float}
    (hcompile : compile text = .ok f) {value : Float} (hmem : .number value ∈ f.tree.nodes) :
    0 ≤ value := by
  have hunsigned : Binary64.IsUnsigned value := by
    rcases number_cases hcompile hmem with ⟨d, rfl⟩ | rfl | rfl
    · exact d.isUnsigned_toFloat
    · exact Binary64.isUnsigned_ofBits (by decide)
    · exact Binary64.isUnsigned_ofBits (by decide)
  exact hunsigned.nonneg (isFinite_of_number_mem_nodes hcompile hmem)

/-- A text is an integrand, or it is refused as no expression. It is one exactly if it is not too
long, has tokens and a tree, and the tree has a value at zero. Then it is kept as the source; the
numbers are finite, those that it writes down among them, and not negative; and every name is
allowed, and is that of a function exactly if a parenthesis opens behind it. -/
theorem compile_vocabulary (text : String) :
    ((∃ f : Integrand Float, compile text = .ok f) ∨
      ∃ fault, compile text = .error fault ∧
        ∀ (σ : Type) (supply : Supplier σ Float) (s : σ) (request : Request Float),
          request.function = text →
            (request.compute supply).run s = (.error (.invalidExpression fault), s)) ∧
    (∀ f : Integrand Float, compile text = .ok f ↔
      text.length ≤ 1000 ∧ f.source = text ∧
        ∃ tokens value, tokenize text = .ok tokens ∧ parse tokens = .ok f.tree ∧
          f.tree.eval 0 = .ok value) ∧
    ∀ (f : Integrand Float) (tokens : List (Token Float)), compile text = .ok f →
      tokenize text = .ok tokens →
        (∀ value, .number value ∈ f.tree.nodes → value.isFinite ∧ 0 ≤ value) ∧
        (∀ value, .number value ∈ tokens → value.isFinite) ∧
        ∀ before name after, tokens = before ++ .name name :: after →
          name ∈ ["sin", "cos", "tan", "exp", "log", "sqrt", "pi", "e", "x"] ∧
          (name ∈ ["sin", "cos", "tan", "exp", "log", "sqrt"] ↔
            after.head? = some .openParen) := by
  refine ⟨?_, fun f => compile_eq_ok_iff, ?_⟩
  · cases hcompile : (compile text : Except (ExpressionFault Float) (Integrand Float)) with
    | ok f => exact .inl ⟨f, rfl⟩
    | error fault =>
        refine .inr ⟨fault, rfl, ?_⟩
        rintro σ supply s request rfl
        rw [Request.compute, hcompile]
        rfl
  · intro f tokens hcompile htokens
    refine ⟨?_, ?_, ?_⟩
    · intro value hmem
      exact ⟨isFinite_of_number_mem_nodes hcompile hmem, nonneg_of_number_mem_nodes hcompile hmem⟩
    · intro value hmem
      exact isFinite_of_number_mem_nodes hcompile
        (number_mem_nodes_of_mem_tokens hcompile htokens hmem)
    · rintro before name after rfl
      exact (namesResolve_of_compile hcompile htokens).of_append.allowed

/-- The general statement at a text with a number, a function, the variable and a constant. -/
theorem compile_vocabulary_sqrt :
    ∃ two e : Float,
      compile "2*sqrt(x)-e" = .ok ⟨"2*sqrt(x)-e",
        .binary .sub (.binary .mul (.number two) (.call .sqrt .var)) (.number e)⟩ ∧
      (two.isFinite ∧ 0 ≤ two) ∧ (e.isFinite ∧ 0 ≤ e) ∧
      "sqrt" ∈ ["sin", "cos", "tan", "exp", "log", "sqrt"] := by
  -- What a numeral and `e` stand for is left alone here: both sides have them as they are.
  have hread : ∀ (α : Type) [Elementary α],
      tokenize "2*sqrt(x)-e" = .ok
        [.number (Elementary.ofDecimal ⟨2, 0⟩ : α), .star, .name "sqrt", .openParen, .name "x",
          .closeParen, .minus, .name "e", .eof] ∧
      parse [.number (Elementary.ofDecimal ⟨2, 0⟩ : α), .star, .name "sqrt", .openParen, .name "x",
          .closeParen, .minus, .name "e", .eof] =
        .ok (.binary .sub (.binary .mul (.number (Elementary.ofDecimal ⟨2, 0⟩))
          (.call .sqrt .var)) (.number Elementary.e)) := by
    intro α _
    constructor <;> cbv
  obtain ⟨-, hok, hvocabulary⟩ := compile_vocabulary "2*sqrt(x)-e"
  obtain ⟨htokens, htree⟩ := hread Float
  have hcompile := (hok ⟨_, _⟩).mpr ⟨by decide, rfl, _, _, htokens, htree, rfl⟩
  obtain ⟨hnumbers, -, hnames⟩ := hvocabulary _ _ hcompile htokens
  refine ⟨_, _, hcompile, hnumbers _ ?_, hnumbers _ ?_, (hnames [_, _] "sqrt" _ rfl).2.mpr rfl⟩
  · simp [Expr.nodes]
  · simp [Expr.nodes]

end Integrand

end DefiniteIntegral
