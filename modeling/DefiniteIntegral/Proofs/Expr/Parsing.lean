import DefiniteIntegral.Expr.Integrand
import DefiniteIntegral.Proofs.Expr.Completeness
import DefiniteIntegral.Proofs.Expr.Unambiguity
import Mathlib.Data.List.Basic

/-! # Parsing and the grammar

The parser returns a tree exactly if the tokens of a text have a derivation of it that opens no more
levels than are allowed, and they have no other derivation. -/

namespace DefiniteIntegral

variable {α : Type} [Elementary α]

/-! ## The tokens of a text -/

theorem tokenAt_ne_eof {position : Nat} {c : Char} {cs : List Char} {token : Token α}
    {length : Nat} (h : tokenAt position c cs = .ok (token, length)) : token ≠ .eof := by
  rintro rfl
  unfold tokenAt at h
  split at h
  · rename_i found hfound
    obtain rfl := Except.ok.inj h
    unfold symbol? at hfound
    split at hfound <;> simp at hfound
  · split at h
    · dsimp only at h
      split at h <;> simp at h
    · split at h <;> simp at h

/-- The tokens of a text are what the scan finds at places of it, with `eof` at the end. -/
theorem exists_scanned_of_tokensFrom {position : Nat} {cs : List Char} {tokens : List (Token α)}
    (h : tokensFrom position cs = .ok tokens) :
    ∃ lexemes, tokens = lexemes ++ [.eof] ∧
      ∀ token ∈ lexemes, ∃ place c cs length, tokenAt place c cs = .ok (token, length) := by
  induction position, cs using tokensFrom.induct generalizing tokens with
  | case1 position =>
      rw [tokensFrom] at h
      obtain rfl := Except.ok.inj h
      exact ⟨[], by simp⟩
  | case2 position c cs hblank ih =>
      rw [tokensFrom, if_pos hblank] at h
      exact ih h
  | case3 position c cs hblank ih =>
      rw [tokensFrom, if_neg hblank] at h
      obtain ⟨⟨token, length⟩, htoken, h⟩ := bind_eq_ok_iff.mp h
      obtain ⟨after, hafter, h⟩ := bind_eq_ok_iff.mp h
      obtain ⟨lexemes, rfl, hlexemes⟩ := ih length hafter
      obtain rfl := pure_eq_ok_iff.mp h
      exact ⟨token :: lexemes, rfl,
        List.forall_mem_cons.mpr ⟨⟨position, c, cs, length, htoken⟩, hlexemes⟩⟩

/-- The tokens of a text end with the only `eof` among them. -/
theorem exists_lexemes_of_tokensFrom {position : Nat} {cs : List Char} {tokens : List (Token α)}
    (h : tokensFrom position cs = .ok tokens) :
    ∃ lexemes, tokens = lexemes ++ [.eof] ∧ .eof ∉ lexemes := by
  obtain ⟨lexemes, rfl, hlexemes⟩ := exists_scanned_of_tokensFrom h
  refine ⟨lexemes, rfl, ?_⟩
  intro hmem
  obtain ⟨place, c, cs, length, htoken⟩ := hlexemes _ hmem
  exact tokenAt_ne_eof htoken rfl

/-! ## The parser -/

theorem parse_eq_ok_iff {tokens : List (Token α)} {tree : Expr α} :
    parse tokens = .ok tree ↔ ∃ rest,
      (Category.chain .sum).parser maxDepth tokens = .ok (tree, rest) ∧
        Parser.peek rest = .eof := by
  unfold parse
  rw [bind_eq_ok_iff]
  constructor
  · rintro ⟨⟨found, rest⟩, hparser, h⟩
    dsimp only at h
    split at h
    · rename_i hpeek
      obtain rfl := pure_eq_ok_iff.mp h
      exact ⟨rest, hparser, hpeek⟩
    · simp at h
  · rintro ⟨rest, hparser, hpeek⟩
    exact ⟨(tree, rest), hparser, by simp [hpeek]⟩

theorem parse_append_eof_eq_ok_iff {lexemes : List (Token α)} (heof : .eof ∉ lexemes)
    {tree : Expr α} :
    parse (lexemes ++ [.eof]) = .ok tree ↔
      ∃ p : Derivation α, p.tokens = lexemes ∧ p.tree = tree ∧ p.depth ≤ maxDepth := by
  rw [parse_eq_ok_iff]
  constructor
  · rintro ⟨rest, hparser, hpeek⟩
    obtain ⟨p, htokens, htree, hdepth⟩ := Category.parser_sound maxDepth _ _ _ _ hparser
    refine ⟨p, ?_, htree, Nat.lt_succ_iff.mp hdepth⟩
    cases rest with
    | nil =>
        have hmem : .eof ∈ p.tokens := by
          rw [← List.append_nil p.tokens, ← htokens]
          simp
        exact absurd hmem p.eof_notMem_tokens
    | cons token rest =>
        obtain rfl : token = .eof := hpeek
        exact ((List.append_cons_inj_of_notMem heof (by simp)).mp htokens).1.symm
  · rintro ⟨p, rfl, rfl, hdepth⟩
    have hstops : (Category.chain .sum).Stops [(.eof : Token α)] := by
      simp [Category.continuations]
    exact ⟨[.eof], p.readBack.parser_eq hdepth hstops, rfl⟩

/-- The tokens of a text are lexemes with `eof` at the end. On such tokens the parser returns a tree
exactly if the lexemes have a derivation of it that opens no more than `maxDepth` levels; lexemes
have at most one derivation; and where there is none that opens so few levels, the parser fails and
the text is refused as no expression. -/
theorem parse_exact :
    (∀ (text : String) (tokens : List (Token α)), tokenize text = .ok tokens →
      ∃ lexemes, tokens = lexemes ++ [.eof] ∧ .eof ∉ lexemes) ∧
    ∀ lexemes : List (Token α), .eof ∉ lexemes →
      (∀ tree, parse (lexemes ++ [.eof]) = .ok tree ↔
        ∃ p : Derivation α, p.tokens = lexemes ∧ p.tree = tree ∧ p.depth ≤ maxDepth) ∧
      (∀ p q : Derivation α, p.tokens = lexemes → q.tokens = lexemes → p = q) ∧
      ((¬ ∃ p : Derivation α, p.tokens = lexemes ∧ p.depth ≤ maxDepth) →
        ∃ fault, parse (lexemes ++ [.eof]) = .error fault ∧
          ∀ text, tokenize text = .ok (lexemes ++ [.eof]) →
            Integrand.readTree text = .error (.parse fault)) := by
  refine ⟨fun text tokens h => exists_lexemes_of_tokensFrom h, ?_⟩
  intro lexemes heof
  refine ⟨fun tree => parse_append_eof_eq_ok_iff heof, ?_, ?_⟩
  · intro p q hp hq
    exact Phrase.tokens_injective (hp.trans hq.symm)
  · intro hnone
    cases hparse : parse (lexemes ++ [.eof]) with
    | error fault =>
        refine ⟨fault, rfl, ?_⟩
        intro text htext
        simp [Integrand.readTree, htext, hparse, Except.mapError]
    | ok tree =>
        obtain ⟨p, htokens, -, hdepth⟩ := (parse_append_eof_eq_ok_iff heof).mp hparse
        exact absurd ⟨p, htokens, hdepth⟩ hnone

/-- A minus sign applies to a whole power, and an exponent can have a sign of its own. -/
theorem parse_exact_signs :
    .eof ∉ ([.minus, .name "x", .doubleStar, .minus, .name "x"] : List (Token Float)) ∧
      parse ([.minus, .name "x", .doubleStar, .minus, .name "x"] ++ [.eof]) =
        .ok (.neg (.binary .pow .var (.neg .var)) : Expr Float) := by
  have heof : .eof ∉
      ([.minus, .name "x", .doubleStar, .minus, .name "x"] : List (Token Float)) := by simp
  let exponent : Phrase Float .operand := .negated (.unsigned (.bare .var))
  let derivation : Derivation Float :=
    .single (.single (.negated (.unsigned (.raised .var exponent))))
  exact ⟨heof, ((parse_exact.2 _ heof).1 _).mpr ⟨derivation, rfl, rfl, by decide⟩⟩

end DefiniteIntegral
