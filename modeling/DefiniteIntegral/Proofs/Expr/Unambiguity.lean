import DefiniteIntegral.Proofs.Expr.Grammar

/-! # The grammar is unambiguous

Two phrases of a category with the same tokens are the same, however many levels they open. A chain
can be the start of a longer one, so that the proof follows the links that are left. -/

namespace DefiniteIntegral

variable {α : Type}

/-- An operator with the member that it joins to the end of a chain. -/
structure Link (α : Type) (kind : ChainKind) where
  operator : BinaryOperator
  allowed : operator ∈ kind.operators
  right : Phrase α kind.member

namespace Phrase

variable {c : Category} {kind : ChainKind} {rest rest' : List (Token α)}

/-! ## Chains and their links -/

/-- A chain with more links at its end. -/
def extend (p : Phrase α (.chain kind)) : List (Link α kind) → Phrase α (.chain kind)
  | [] => p
  | link :: links => (join p link.operator link.allowed link.right).extend links

/-- The tokens of links. -/
def linkTokens : List (Link α kind) → List (Token α)
  | [] => []
  | link :: links => link.operator.token :: (link.right.tokens ++ linkTokens links)

theorem extend_append (p : Phrase α (.chain kind)) (links links' : List (Link α kind)) :
    p.extend (links ++ links') = (p.extend links).extend links' := by
  induction links generalizing p with
  | nil => rfl
  | cons link links ih => exact ih _

theorem tokens_extend (p : Phrase α (.chain kind)) (links : List (Link α kind)) :
    (p.extend links).tokens = p.tokens ++ linkTokens links := by
  induction links generalizing p with
  | nil => simp [extend, linkTokens]
  | cons link links ih => simp [extend, linkTokens, ih, tokens]

theorem exists_eq_extend : (p : Phrase α (.chain kind)) →
    ∃ member links, p = extend (single member) links
  | single member => ⟨member, [], rfl⟩
  | join left operator allowed right => by
      obtain ⟨member, links, rfl⟩ := exists_eq_extend left
      refine ⟨member, links ++ [⟨operator, allowed, right⟩], ?_⟩
      rw [extend_append]
      rfl

theorem stops_linkTokens (links : List (Link α kind)) (h : (Category.chain kind).Stops rest) :
    kind.member.Stops (linkTokens links ++ rest) := by
  cases links with
  | nil => exact Category.Stops.core h
  | cons link links => exact Category.stops_member_token link.allowed

theorem stops_atom_of_power (h : Category.power.Stops rest) : Category.atom.Stops rest :=
  h.mono (by simp +contextual [Category.continuations])

/-! ## Phrases at the start of the same tokens -/

/-- How a phrase lies at the start of the tokens of another one: it is the same, or a chain that
more links lengthen. -/
def Begins : {c : Category} → (p : Phrase α c) → (rest : List (Token α)) → (q : Phrase α c) →
    (rest' : List (Token α)) → Prop
  | .chain _, p, rest, q, rest' => ∃ links, q = p.extend links ∧ rest = linkTokens links ++ rest'
  | _, p, rest, q, rest' => p = q ∧ rest = rest'

theorem Begins.eq_of_stops {p q : Phrase α c} (h : p.Begins rest q rest') (hrest : c.Stops rest) :
    p = q ∧ rest = rest' := by
  rcases c with _ | _ | _ | kind
  · exact h
  · exact h
  · exact h
  · obtain ⟨links, rfl, rfl⟩ := h
    cases links with
    | nil => exact ⟨rfl, rfl⟩
    | cons link links =>
        exact absurd (Category.token_mem_continuations link.allowed)
          ((Category.stops_cons _ _).mp hrest)

/-- Whether every phrase that has the same tokens, up to what can follow, begins with this one. -/
def Determined (p : Phrase α c) : Prop :=
  ∀ (q : Phrase α c) (rest rest' : List (Token α)), c.core.Stops rest → c.Stops rest' →
    p.tokens ++ rest = q.tokens ++ rest' → p.Begins rest q rest'

theorem Determined.eq {p q : Phrase α c} (hp : p.Determined) (hrest : c.Stops rest)
    (hrest' : c.Stops rest') (h : p.tokens ++ rest = q.tokens ++ rest') : p = q ∧ rest = rest' :=
  (hp q rest rest' hrest.core hrest' h).eq_of_stops hrest

/-- What stands in parentheses is determined by the tokens up to the closing one. -/
theorem Determined.eq_of_closed {p q : Derivation α} (hp : p.Determined)
    (h : p.tokens ++ .closeParen :: rest = q.tokens ++ .closeParen :: rest') :
    p = q ∧ rest = rest' := by
  obtain ⟨hpq, hrest⟩ := hp.eq (by simp [Category.continuations])
    (by simp [Category.continuations]) h
  exact ⟨hpq, List.cons.inj hrest |>.2⟩

theorem determined_join {left : Phrase α (.chain kind)} {operator : BinaryOperator}
    {allowed : operator ∈ kind.operators} {right : Phrase α kind.member}
    (hleft : left.Determined) (hright : right.Determined) :
    (join left operator allowed right).Determined := by
  intro q rest rest' hrest hrest' h
  simp only [tokens, List.append_assoc, List.cons_append] at h
  obtain ⟨links, rfl, htokens⟩ := hleft q _ rest' (Category.stops_member_token allowed) hrest' h
  cases links with
  | nil =>
      rw [linkTokens, List.nil_append] at htokens
      rw [← htokens, Category.stops_cons] at hrest'
      exact absurd (Category.token_mem_continuations allowed) hrest'
  | cons link links =>
      simp only [linkTokens, List.cons_append, List.append_assoc, List.cons.injEq] at htokens
      obtain ⟨htoken, htokens⟩ := htokens
      obtain ⟨hmember, hlinks⟩ := hright.eq hrest (stops_linkTokens links hrest') htokens
      obtain rfl := BinaryOperator.token_injective htoken
      obtain rfl := hmember
      exact ⟨links, rfl, hlinks⟩

theorem determined (p : Phrase α c) : p.Determined := by
  induction p with
  | number value =>
      intro q rest rest' _ _ h
      cases q <;> simp_all [tokens, Begins]
  | var =>
      intro q rest rest' _ _ h
      cases q <;> simp_all [tokens, Begins, Category.core, Category.continuations]
  | pi =>
      intro q rest rest' _ _ h
      cases q <;> simp_all [tokens, Begins, Category.core, Category.continuations]
  | e =>
      intro q rest rest' _ _ h
      cases q <;> simp_all [tokens, Begins, Category.core, Category.continuations]
  | call function argument ih =>
      intro q rest rest' _ hrest' h
      cases q with
      | call function' argument' =>
          simp only [tokens, List.cons_append, List.append_assoc, List.nil_append,
            List.cons.injEq, Token.name.injEq, true_and] at h
          obtain ⟨rfl, hrest⟩ := ih.eq_of_closed h.2
          obtain rfl := ElementaryFunction.name_injective h.1
          exact ⟨rfl, hrest⟩
      | number | parens => simp [tokens] at h
      | var | pi | e =>
          obtain ⟨-, rfl⟩ := List.cons.inj h
          simp [Category.continuations] at hrest'
  | parens inside ih =>
      intro q rest rest' _ _ h
      cases q with
      | parens inside' =>
          simp only [tokens, List.cons_append, List.append_assoc, List.nil_append,
            List.cons.injEq, true_and] at h
          obtain ⟨rfl, hrest⟩ := ih.eq_of_closed h
          exact ⟨rfl, hrest⟩
      | number | var | pi | e | call => simp [tokens] at h
  | bare base ih =>
      intro q rest rest' hrest hrest' h
      have hatom : Category.atom.Stops rest := stops_atom_of_power hrest
      cases q with
      | bare base' =>
          obtain ⟨rfl, hrest⟩ := ih.eq hatom (stops_atom_of_power hrest') h
          exact ⟨rfl, hrest⟩
      | raised base' exponent' =>
          simp only [tokens, List.append_assoc, List.cons_append] at h
          obtain ⟨-, rfl⟩ := ih.eq hatom (by simp [Category.continuations]) h
          simp [Category.core, Category.continuations] at hrest
  | raised base exponent ihb ihe =>
      intro q rest rest' hrest hrest' h
      simp only [tokens, List.append_assoc, List.cons_append] at h
      have hstars : Category.atom.Stops (.doubleStar :: (exponent.tokens ++ rest)) := by
        simp [Category.continuations]
      cases q with
      | bare base' =>
          obtain ⟨-, rfl⟩ := ihb.eq hstars (stops_atom_of_power hrest') h
          simp [Category.continuations] at hrest'
      | raised base' exponent' =>
          simp only [tokens, List.append_assoc, List.cons_append] at h
          obtain ⟨rfl, hexponent⟩ := ihb.eq hstars (by simp [Category.continuations]) h
          obtain ⟨rfl, hrest⟩ := ihe.eq hrest hrest' (List.cons.inj hexponent).2
          exact ⟨rfl, hrest⟩
  | unsigned power ih =>
      intro q rest rest' hrest hrest' h
      cases q with
      | unsigned power' =>
          obtain ⟨rfl, hrest⟩ := ih.eq hrest hrest' h
          exact ⟨rfl, hrest⟩
      | negated operand' =>
          obtain ⟨token, after, htokens, hminus⟩ := power.exists_tokens_eq_cons (.inr rfl)
          simp only [tokens, htokens, List.cons_append, List.cons.injEq] at h
          exact absurd h.1 hminus
  | negated operand ih =>
      intro q rest rest' hrest hrest' h
      cases q with
      | unsigned power' =>
          obtain ⟨token, after, htokens, hminus⟩ := power'.exists_tokens_eq_cons (.inr rfl)
          simp only [tokens, htokens, List.cons_append, List.cons.injEq] at h
          exact absurd h.1.symm hminus
      | negated operand' =>
          obtain ⟨rfl, hrest⟩ := ih.eq hrest hrest' (List.cons.inj h).2
          exact ⟨rfl, hrest⟩
  | single member ih =>
      intro q rest rest' hrest hrest' h
      obtain ⟨member', links, rfl⟩ := q.exists_eq_extend
      rw [tokens_extend, List.append_assoc] at h
      obtain ⟨rfl, hlinks⟩ := ih.eq hrest (stops_linkTokens links hrest') h
      exact ⟨links, rfl, hlinks⟩
  | join left operator allowed right ihl ihr => exact determined_join ihl ihr

/-- No list of tokens has two derivations. -/
theorem tokens_injective : Function.Injective (tokens : Derivation α → List (Token α)) := by
  intro p q h
  have hnil : (Category.chain .sum).Stops ([] : List (Token α)) := by simp [Category.Stops]
  exact (p.determined.eq hnil hnil (congrArg (· ++ []) h)).1

end Phrase

end DefiniteIntegral
